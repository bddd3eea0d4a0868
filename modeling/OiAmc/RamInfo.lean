import OiAmc.SetInfoEntries

namespace OiAmc.RamInfo

open Function SgfpGroup SetInfo SetInfoEntries

/-- The group RAMs and link RAMs of the FPGA. -/
inductive Bank
  | tryRam | c4Ram | c12Ram
  deriving DecidableEq

/-- Which of them mif_cfg_op writes. -/
def bankOf (op : UInt8) : Option Bank :=
  if op = 0x03 ∨ op = 0x01 then some .tryRam
  else if op = 0x04 then some .c4Ram
  else if op = 0x02 then some .c12Ram
  else none

/-- A part of a RAM: the port group, the bank, and the entry. -/
abbrev Place := UInt8 × Option Bank × UInt8

def place (regs : Regs) : Place := (regs .ramGroup, bankOf (regs .cfgOp), regs .ramAddr)

/-- The FPGA as far as the driver writes groups to it and reads them back: registers hold what
is written to them, an entry is written when mif_cfg_mix becomes 2 (a link entry at 6), and
what get_val_3 to get_val_0 show is selected by registers. -/
structure Fpga (σ : Type) where
  write : σ → Reg → UInt8 → σ
  getVal : σ → Fin 4 → UInt8
  regs : σ → Regs
  ram1 : σ → Place → UInt32
  ram2 : σ → Place → UInt8
  regs_write : ∀ s r v, regs (write s r v) = update (regs s) r v
  ram1_write : ∀ s r v, ram1 (write s r v) =
    let regs' := update (regs s) r v
    if (r, v) = (.cfgMix, 0x02) then update (ram1 s) (place regs') (entryData regs') else ram1 s
  ram2_write : ∀ s r v, ram2 (write s r v) =
    let regs' := update (regs s) r v
    if (r, v) = (.cfgMix, 0x06) then update (ram2 s) (place regs') (regs' .ramData0) else ram2 s
  shows_ram1 : ∀ s bank, regs s .cfgOp = 0x80 →
    regs s .selectInfo = (match bank with | .tryRam => 0x20 | .c4Ram => 0x21 | .c12Ram => 0x22) →
    ((getVal s 3).toUInt32 <<< 24) ||| ((getVal s 2).toUInt32 <<< 16) |||
      ((getVal s 1).toUInt32 <<< 8) ||| ((getVal s 0).toUInt32 <<< 0) =
      ram1 s (regs s .ramGroup, some bank, regs s .ramAddr)
  shows_ram2 : ∀ s bank, regs s .cfgOp = 0x80 → regs s .selectInfo = 0x23 →
    getVal s (match bank with | .tryRam => 2 | .c4Ram => 1 | .c12Ram => 0) =
      ram2 s (regs s .ramGroup, some bank, regs s .ramAddr)

/-- struct ram_info; every array has 256 entries. -/
structure RamInfo where
  ram1 : List UInt32
  ram2 : List UInt8
  ram1C4 : List UInt32
  ram1C12 : List UInt32
  ram2C4 : List UInt8
  ram2C12 : List UInt8

variable {σ : Type} (fpga : Fpga σ)

def Fpga.writes (s : σ) (ws : List Write) : σ := ws.foldl (fun s w => fpga.write s w.1 w.2) s

def Fpga.val (s : σ) : UInt32 :=
  ((fpga.getVal s 3).toUInt32 <<< 24) ||| ((fpga.getVal s 2).toUInt32 <<< 16) |||
    ((fpga.getVal s 1).toUInt32 <<< 8) ||| ((fpga.getVal s 0).toUInt32 <<< 0)

/-- One round of oic_fops_ioctl_get_fpga_try_group. -/
def getTryEntry (s : σ) (i : Nat) : σ × UInt32 × UInt8 :=
  let s1 := fpga.writes s [(.ramAddr, .ofNat i), (.selectInfo, 0x20)]
  let s2 := fpga.write s1 .selectInfo 0x23
  (s2, fpga.val s1, fpga.getVal s2 2)

/-- One round of oic_fops_ioctl_get_fpga_group. -/
def getEntry (s : σ) (i : Nat) : σ × UInt32 × UInt32 × UInt8 × UInt8 :=
  let s1 := fpga.writes s [(.ramAddr, .ofNat i), (.selectInfo, 0x21)]
  let s2 := fpga.write s1 .selectInfo 0x22
  let s3 := fpga.write s2 .selectInfo 0x23
  (s3, fpga.val s1, fpga.val s2, fpga.getVal s3 1, fpga.getVal s3 0)

def readAll {α : Type} (round : σ → Nat → σ × α) : Nat → Nat → σ → σ × List α
  | 0, _, s => (s, [])
  | n + 1, i, s =>
      let p := round s i
      let rest := readAll round n (i + 1) p.1
      (rest.1, p.2 :: rest.2)

def getFpgaTryGroup (s : σ) : σ × RamInfo :=
  let p := readAll (getTryEntry fpga) 256 0 (fpga.write s .cfgOp 0x80)
  (p.1, ⟨p.2.map Prod.fst, p.2.map Prod.snd, List.replicate 256 0, List.replicate 256 0,
    List.replicate 256 0, List.replicate 256 0⟩)

def getFpgaGroup (s : σ) : σ × RamInfo :=
  let p := readAll (getEntry fpga) 256 0 (fpga.write s .cfgOp 0x80)
  (p.1, ⟨List.replicate 256 0, List.replicate 256 0, p.2.map fun e => e.1, p.2.map fun e => e.2.1,
    p.2.map fun e => e.2.2.1, p.2.map fun e => e.2.2.2⟩)

/-- The fields of an entry of the group RAM. -/
def groupAddr (ram1 : UInt32) : Nat := ((ram1 &&& 0xff00) >>> 8).toNat

def linkSize (ram1 : UInt32) : Nat := ((ram1 &&& 0xff0000) >>> 16).toNat

/-- A link from its octet and the entry of its group. -/
def ramLink (ram1 : UInt32) (r2val : UInt8) : SlinkInfo :=
  { SlinkInfo.zero with
    fiber := (r2val &&& 0xc0) >>> 6
    fiberRate := ((ram1 &&& 0x78000000) >>> 27).toUInt8
    channel := r2val &&& 0x3f
    channelRate := ((ram1 &&& 0x6000000) >>> 25).toUInt8 }

def emptyGroup (size : Nat) : SgroupInfo :=
  { SgroupInfo.zero with isValid := 1, linkarraysSize := size }

/-- How many of the first 255 entries are not 0. -/
def countEntries (ram1 : List UInt32) : Nat := (ram1.take 255).countP fun v => v ≠ 0

/-- The body of the second loop for TRY_MODE; group_addr is never above 255. -/
def tryGroup (rinfo : RamInfo) (i : Nat) : Option SgroupInfo := do
  let ram1 ← rinfo.ram1[i]?
  let size := if i < 255 ∧ ram1 ≠ 0 then linkSize ram1 else 0
  if size > 64 then pure (emptyGroup size)
  else do
    let links ← (List.range size).mapM fun j => (rinfo.ram2[groupAddr ram1 + j]?).map (ramLink ram1)
    pure { emptyGroup size with linkarrays := some links }

/-- One entry in SET_MODE: a group is put at gid, with links read up to the size that the group
at bound has then; those behind stay zero. -/
def readGroup (ram1s : List UInt32) (ram2s : List UInt8) (i bound : Nat)
    (st : Nat × List SgroupInfo) : Option (Nat × List SgroupInfo) := do
  let ram1 ← ram1s[i]?
  if ram1 = 0 then pure st
  else if st.2.length ≤ st.1 then none
  else do
    let size := linkSize ram1
    let cleared := st.2.set st.1
      { emptyGroup size with linkarrays := some (List.replicate size .zero) }
    let num ← (cleared[bound]?).map fun g => g.linkarraysSize.toNat
    let links ← (List.range num).mapM fun j =>
      if j < size then (ram2s[groupAddr ram1 + j]?).map (ramLink ram1) else none
    pure (st.1 + 1, cleared.set st.1
      { emptyGroup size with linkarrays := some (links ++ List.replicate (size - num) .zero) })

/-- The C4 part bounds its loop by the size of ginfo[i], the C12 part by that of ginfo[gid]. -/
def setRound (rinfo : RamInfo) (st : Nat × List SgroupInfo) (i : Nat) :
    Option (Nat × List SgroupInfo) :=
  (readGroup rinfo.ram1C4 rinfo.ram2C4 i i st).bind fun st =>
    readGroup rinfo.ram1C12 rinfo.ram2C12 i st.1 st

inductive Mode
  | tryMode | setMode
  deriving DecidableEq

/-- ginfo after the call; none stands for an access outside of an array. malloc succeeds. -/
def analysisRamInfo (rinfo : RamInfo) : Mode → Option (List SgroupInfo)
  | .tryMode => (List.range (countEntries rinfo.ram1)).mapM (tryGroup rinfo)
  | .setMode =>
      let gsize := countEntries rinfo.ram1C4 + countEntries rinfo.ram1C12
      ((List.range gsize).foldlM (setRound rinfo) (0, List.replicate gsize .zero)).map Prod.snd

/-- sgfplib_get_try_group and sgfplib_get_group. -/
def sgfplibGetGroup (s : σ) (mode : Mode) : Option (List SgroupInfo) :=
  match mode with
  | .tryMode => analysisRamInfo (getFpgaTryGroup fpga s).2 .tryMode
  | .setMode => analysisRamInfo (getFpgaGroup fpga s).2 .setMode

end OiAmc.RamInfo

namespace OiAmc.RamReading

open Function SgfpGroup SetInfo RamInfo

variable {σ : Type} (fpga : Fpga σ) {s : σ} {group : UInt8}

theorem ram_write {r : Reg} (hr : r ≠ .cfgMix) (s : σ) (v : UInt8) :
    fpga.ram1 (fpga.write s r v) = fpga.ram1 s ∧ fpga.ram2 (fpga.write s r v) = fpga.ram2 s := by
  have hne (v' : UInt8) : (r, v) ≠ (.cfgMix, v') := fun h => hr (congrArg Prod.fst h)
  rw [fpga.ram1_write, fpga.ram2_write]
  exact ⟨if_neg (hne _), if_neg (hne _)⟩

structure Reading (fpga : Fpga σ) (s0 : σ) (group : UInt8) (s : σ) : Prop where
  op : fpga.regs s .cfgOp = 0x80
  group : fpga.regs s .ramGroup = group
  ram1 : fpga.ram1 s = fpga.ram1 s0
  ram2 : fpga.ram2 s = fpga.ram2 s0

variable {s0 : σ} {fpga}

theorem Reading.write (h : Reading fpga s0 group s) {r : Reg} (hop : r ≠ .cfgOp)
    (hgroup : r ≠ .ramGroup) (hmix : r ≠ .cfgMix) (v : UInt8) :
    Reading fpga s0 group (fpga.write s r v) := by
  obtain ⟨h1, h2⟩ := ram_write fpga hmix s v
  refine ⟨?_, ?_, h1.trans h.ram1, h2.trans h.ram2⟩
  · rw [fpga.regs_write, update_of_ne hop.symm]
    exact h.op
  · rw [fpga.regs_write, update_of_ne hgroup.symm]
    exact h.group

theorem Reading.ramAddr (h : Reading fpga s0 group s) (v : UInt8) :
    Reading fpga s0 group (fpga.write s .ramAddr v) :=
  h.write (by decide) (by decide) (by decide) v

theorem Reading.select (h : Reading fpga s0 group s) (v : UInt8) :
    Reading fpga s0 group (fpga.write s .selectInfo v) :=
  h.write (by decide) (by decide) (by decide) v

theorem Reading.val1 (h : Reading fpga s0 group s) (bank : Bank)
    (hsel : fpga.regs s .selectInfo = (match bank with
      | .tryRam => 0x20 | .c4Ram => 0x21 | .c12Ram => 0x22)) :
    fpga.val s = fpga.ram1 s0 (group, some bank, fpga.regs s .ramAddr) := by
  rw [Fpga.val, fpga.shows_ram1 s bank h.op hsel, h.group, h.ram1]

theorem Reading.val2 (h : Reading fpga s0 group s) (bank : Bank)
    (hsel : fpga.regs s .selectInfo = 0x23) :
    fpga.getVal s (match bank with | .tryRam => 2 | .c4Ram => 1 | .c12Ram => 0) =
      fpga.ram2 s0 (group, some bank, fpga.regs s .ramAddr) := by
  exact (fpga.shows_ram2 s bank h.op hsel).trans (by rw [h.group, h.ram2])

theorem getTryEntry_eq (h : Reading fpga s0 group s) (i : Nat) :
    Reading fpga s0 group (getTryEntry fpga s i).1 ∧
      (getTryEntry fpga s i).2 = (fpga.ram1 s0 (group, some .tryRam, .ofNat i),
        fpga.ram2 s0 (group, some .tryRam, .ofNat i)) := by
  have h1 := (h.ramAddr (.ofNat i)).select 0x20
  have h2 := h1.select 0x23
  refine ⟨h2, Prod.ext ?_ ?_⟩
  · refine (h1.val1 .tryRam ?_).trans ?_ <;> simp [fpga.regs_write]
  · refine (h2.val2 .tryRam ?_).trans ?_ <;> simp [fpga.regs_write]

theorem getEntry_eq (h : Reading fpga s0 group s) (i : Nat) :
    Reading fpga s0 group (getEntry fpga s i).1 ∧
      (getEntry fpga s i).2 = (fpga.ram1 s0 (group, some .c4Ram, .ofNat i),
        fpga.ram1 s0 (group, some .c12Ram, .ofNat i), fpga.ram2 s0 (group, some .c4Ram, .ofNat i),
        fpga.ram2 s0 (group, some .c12Ram, .ofNat i)) := by
  have h1 := (h.ramAddr (.ofNat i)).select 0x21
  have h2 := h1.select 0x22
  have h3 := h2.select 0x23
  refine ⟨h3, Prod.ext ?_ (Prod.ext ?_ (Prod.ext ?_ ?_))⟩
  · refine (h1.val1 .c4Ram ?_).trans ?_ <;> simp [fpga.regs_write]
  · refine (h2.val1 .c12Ram ?_).trans ?_ <;> simp [fpga.regs_write]
  · refine (h3.val2 .c4Ram ?_).trans ?_ <;> simp [fpga.regs_write]
  · refine (h3.val2 .c12Ram ?_).trans ?_ <;> simp [fpga.regs_write]

theorem readAll_eq {α : Type} {round : σ → Nat → σ × α} {f : Nat → α} {I : σ → Prop}
    (hround : ∀ s i, I s → I (round s i).1 ∧ (round s i).2 = f i) (n i : Nat) (hs : I s) :
    (readAll round n i s).2 = (List.range' i n).map f := by
  induction n generalizing i s with
  | zero => rfl
  | succ n ih =>
      obtain ⟨hI, hf⟩ := hround s i hs
      rw [readAll, List.range'_succ, List.map_cons, ← ih (i + 1) hI, hf]

/-- An array with what a RAM holds for a port group. -/
def table {α : Type} (ram : Place → α) (group : UInt8) (bank : Bank) : List α :=
  (List.range 256).map fun i => ram (group, some bank, .ofNat i)

theorem reading_start (s : σ) (hgroup : fpga.regs s .ramGroup = group) :
    Reading fpga s group (fpga.write s .cfgOp 0x80) := by
  obtain ⟨h1, h2⟩ := ram_write fpga (r := .cfgOp) (by decide) s 0x80
  refine ⟨?_, ?_, h1, h2⟩
  · rw [fpga.regs_write, update_self]
  · rw [fpga.regs_write, update_of_ne (by decide)]
    exact hgroup

theorem getFpgaTryGroup_eq (hgroup : fpga.regs s .ramGroup = group) :
    (getFpgaTryGroup fpga s).2.ram1 = table (fpga.ram1 s) group .tryRam ∧
      (getFpgaTryGroup fpga s).2.ram2 = table (fpga.ram2 s) group .tryRam := by
  have h := readAll_eq (I := Reading fpga s group) (fun s i hs => getTryEntry_eq hs i) 256 0
    (reading_start s hgroup)
  simp only [getFpgaTryGroup, h, List.map_map, table, List.range_eq_range']
  exact ⟨rfl, rfl⟩

theorem getFpgaGroup_eq (hgroup : fpga.regs s .ramGroup = group) :
    (getFpgaGroup fpga s).2.ram1C4 = table (fpga.ram1 s) group .c4Ram ∧
      (getFpgaGroup fpga s).2.ram1C12 = table (fpga.ram1 s) group .c12Ram ∧
      (getFpgaGroup fpga s).2.ram2C4 = table (fpga.ram2 s) group .c4Ram ∧
      (getFpgaGroup fpga s).2.ram2C12 = table (fpga.ram2 s) group .c12Ram := by
  have h := readAll_eq (I := Reading fpga s group) (fun s i hs => getEntry_eq hs i) 256 0
    (reading_start s hgroup)
  simp only [getFpgaGroup, h, List.map_map, table, List.range_eq_range']
  exact ⟨rfl, rfl, rfl, rfl⟩

end OiAmc.RamReading

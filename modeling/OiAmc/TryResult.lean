import OiAmc.SetInfoEntries

namespace OiAmc.TryResult

open Function SgfpGroup SetInfo SetInfoEntries

/-- The registers of scan_t that select a group. -/
structure ScanRegs where
  groupId1 : UInt8
  groupId : UInt8
  deriving DecidableEq

def tryNoResult : Int := 1

/-- The registers for one group; the upper one is written only for an id above 255. -/
def selectGroup (x86 : Bool) (scan : ScanRegs) (id : Int) : ScanRegs where
  groupId1 := if x86 ∧ id > 255 then .ofNat (id / 256 % 256 * 16 % 256).toNat else scan.groupId1
  groupId := lowOctet id

/-- The loop over the groups; held is what the FPGA shows in scan_res for a group. -/
def readResults (x86 : Bool) (held : ScanRegs → UInt8) (scan : ScanRegs) :
    List SgroupInfo → ScanRegs × List SgroupInfo
  | [] => (scan, [])
  | g :: gs =>
      let scan' := selectGroup x86 scan g.groupId
      let rest := readResults x86 held scan' gs
      (rest.1, { g with reserrpkt := (held scan' >>> 4) &&& 0x0f
                        resokpkt := (held scan' >>> 0) &&& 0x0f } :: rest.2)

/-- The return code, the registers and the groups; kmalloc and the copies between the two
address spaces succeed. -/
def getFpgaTryResult (x86 : Bool) (scanStatus : UInt8) (held : ScanRegs → UInt8) (scan : ScanRegs)
    (sg : List SgroupInfo) : Int × ScanRegs × List SgroupInfo :=
  if scanStatus = 0x01 then (0, readResults x86 held scan sg) else (tryNoResult, scan, sg)

def selects (x86 : Bool) (scan : ScanRegs) : List SgroupInfo → List ScanRegs
  | [] => []
  | g :: gs =>
      let scan' := selectGroup x86 scan g.groupId
      scan' :: selects x86 scan' gs

/-- The registers at the write of a group, as those of the read. -/
def written (regs : Regs) : ScanRegs := ⟨regs .ramAddr1, regs .ramAddr⟩

/-- A group that set_info_rule writes as a try group of an IN_X86 build. -/
def Written (g : SgroupInfo) : Prop := Programmed (tryGroupMaxnum true) (tryLinkMaxnum true) g

instance (g : SgroupInfo) : Decidable (Written g) := inferInstanceAs (Decidable (Programmed _ _ _))

/-- Every group that was written is read at the registers it was written with, and gets what
the FPGA holds there, whatever that is. -/
structure ReadsOwn (scan : ScanRegs) (sg : List SgroupInfo) (regs : Regs) (ws : List Write) : Prop where
  selects : ((sg.zip (selects true scan sg)).filter fun p => Written p.1).map Prod.snd =
    (strobes 0x02 regs ws).map written
  results : ∀ held : ScanRegs → UInt8,
    ((sg.zip (getFpgaTryResult true 0x01 held scan sg).2.2).filter fun p => Written p.1).map
      (fun p => (p.2.reserrpkt, p.2.resokpkt)) =
    (strobes 0x02 regs ws).map fun e =>
      ((held (written e) >>> 4) &&& 0x0f, (held (written e) >>> 0) &&& 0x0f)

/-- No group has an id above 255 that is written or stands before one that is; and where one is
written, group_id1 is 0 at the start. -/
structure LowIds (scan : ScanRegs) (sg : List SgroupInfo) : Prop where
  start : (∃ g ∈ sg, Written g) → scan.groupId1 = 0
  low : ∀ g gs, g :: gs <:+ sg → (∃ h ∈ g :: gs, Written h) → g.groupId ≤ 255

variable {scan : ScanRegs} {g : SgroupInfo} {gs sg : List SgroupInfo} {regs : Regs} {ws : List Write}

def idRegs (id : Int) : ScanRegs := ⟨if id > 255 then highOctet id else 0, lowOctet id⟩

theorem entries_written {next : UInt32} {es ls : List Regs} (h : Entries true gs next es ls) :
    es.map written = gs.map fun g => idRegs g.groupId := by
  induction h with
  | nil => rfl
  | cons he _ _ ih => rw [List.map_cons, List.map_cons, ih, written, he.idHigh rfl, he.id, idRegs]

theorem selectGroup_eq_iff (h : g.groupId ≤ 511) :
    selectGroup true scan g.groupId = idRegs g.groupId ↔ scan.groupId1 = 0 ∧ g.groupId ≤ 255 := by
  rw [selectGroup, idRegs, ScanRegs.mk.injEq, and_iff_left rfl]
  by_cases hid : g.groupId > 255
  · have hone : g.groupId / 256 % 256 = 1 := by omega
    rw [if_pos ⟨rfl, hid⟩, if_pos hid, highOctet, hone]
    exact iff_of_false (by decide) fun h => by omega
  · rw [if_neg fun h => hid h.2, if_neg hid]
    exact (and_iff_left (by omega)).symm

theorem lowIds_cons (h : g.groupId ≤ 511) : LowIds scan (g :: gs) ↔
    (Written g → scan.groupId1 = 0 ∧ g.groupId ≤ 255) ∧
      LowIds (selectGroup true scan g.groupId) gs := by
  have hkeep (hid : g.groupId ≤ 255) : (selectGroup true scan g.groupId).groupId1 = scan.groupId1 :=
    if_neg fun h => by have := h.2; omega
  have hhigh (hid : ¬ g.groupId ≤ 255) : (selectGroup true scan g.groupId).groupId1 ≠ 0 := by
    have hone : g.groupId / 256 % 256 = 1 := by omega
    rw [selectGroup, if_pos ⟨rfl, by omega⟩, hone]
    exact (by decide : UInt8.ofNat (1 * 16 % 256 : Int).toNat ≠ 0)
  constructor
  · intro ⟨hstart, hlow⟩
    refine ⟨fun hg => ⟨hstart ⟨g, List.mem_cons_self, hg⟩,
      hlow g gs (List.suffix_refl _) ⟨g, List.mem_cons_self, hg⟩⟩, ?_, ?_⟩
    · intro ⟨k, hk, hw⟩
      have hex : ∃ h ∈ g :: gs, Written h := ⟨k, List.mem_cons_of_mem _ hk, hw⟩
      exact (hkeep (hlow g gs (List.suffix_refl _) hex)).trans (hstart hex)
    · exact fun k ks hks hw => hlow k ks (hks.trans (List.suffix_cons g gs)) hw
  · intro ⟨hg, hstart, hlow⟩
    have htail (hw : ∃ h ∈ gs, Written h) : scan.groupId1 = 0 ∧ g.groupId ≤ 255 := by
      by_cases hid : g.groupId ≤ 255
      · exact ⟨(hkeep hid).symm.trans (hstart hw), hid⟩
      · exact absurd (hstart hw) (hhigh hid)
    have hall (hw : ∃ h ∈ g :: gs, Written h) : scan.groupId1 = 0 ∧ g.groupId ≤ 255 := by
      obtain ⟨k, hk, hw⟩ := hw
      rcases List.mem_cons.mp hk with rfl | hk
      · exact hg hw
      · exact htail ⟨k, hk, hw⟩
    refine ⟨fun hw => (hall hw).1, fun k ks hks hw => ?_⟩
    rcases List.suffix_cons_iff.mp hks with he | hks
    · obtain ⟨rfl, rfl⟩ := List.cons.inj he
      exact (hall hw).2
    · exact hlow k ks hks hw

theorem selects_eq_iff (h : ∀ g ∈ sg, g.groupId ≤ 511) :
    ((sg.zip (selects true scan sg)).filter fun p => Written p.1).map Prod.snd =
      (sg.filter fun g => Written g).map (fun g => idRegs g.groupId) ↔ LowIds scan sg := by
  induction sg generalizing scan with
  | nil => exact iff_of_true rfl ⟨nofun, fun _ _ hs => absurd (List.suffix_nil.mp hs) (List.cons_ne_nil _ _)⟩
  | cons g gs ih =>
      have hg := h g List.mem_cons_self
      have hgs := @ih (selectGroup true scan g.groupId) fun g hm => h g (List.mem_cons_of_mem _ hm)
      rw [lowIds_cons hg, ← hgs, selects, List.zip_cons_cons]
      by_cases hw : Written g
      · rw [List.filter_cons_of_pos (by simpa using hw), List.filter_cons_of_pos (by simpa using hw),
          List.map_cons, List.map_cons, List.cons.injEq, selectGroup_eq_iff hg]
        simp only [hw, true_imp_iff]
      · rw [List.filter_cons_of_neg (by simpa using hw), List.filter_cons_of_neg (by simpa using hw)]
        simp only [hw, false_imp_iff, true_and]

theorem readResults_eq (held : ScanRegs → UInt8) (sg : List SgroupInfo) :
    ((sg.zip (readResults true held scan sg).2).filter fun p => Written p.1).map
      (fun p => (p.2.reserrpkt, p.2.resokpkt)) =
    (((sg.zip (selects true scan sg)).filter fun p => Written p.1).map Prod.snd).map fun e =>
      ((held e >>> 4) &&& 0x0f, (held e >>> 0) &&& 0x0f) := by
  induction sg generalizing scan with
  | nil => rfl
  | cons g gs ih =>
      rw [readResults, selects, List.zip_cons_cons, List.zip_cons_cons]
      by_cases hw : Written g
      · rw [List.filter_cons_of_pos (by simpa using hw), List.filter_cons_of_pos (by simpa using hw),
          List.map_cons, List.map_cons, List.map_cons, ih]
      · rw [List.filter_cons_of_neg (by simpa using hw), List.filter_cons_of_neg (by simpa using hw), ih]

/-- The trial results belong to their groups exactly while no id above 255 is in the way. -/
theorem reads_own_iff {portGroup : Int} (scan : ScanRegs) (regs : Regs)
    (hids : ∀ g ∈ sg, g.groupId ≤ 511)
    (h : setInfoRule true sg portGroup setTryGroup = some (0, ws)) :
    ReadsOwn scan sg regs ws ↔ LowIds scan sg := by
  have hwritten := entries_written (setInfoRule_entries regs h)
  rw [← selects_eq_iff hids]
  constructor
  · intro hown
    exact hown.selects.trans hwritten
  · intro hsel
    have hsame := hsel.trans hwritten.symm
    refine ⟨hsame, fun held => ?_⟩
    rw [getFpgaTryResult, if_pos rfl, readResults_eq, hsame, List.map_map]
    rfl

theorem reads_own_iff_pair : ∃ ws,
    setInfoRule true [plainGroup 7 2, plainGroup 3 1] 0 setTryGroup = some (0, ws) ∧
    ReadsOwn ⟨0, 9⟩ [plainGroup 7 2, plainGroup 3 1] (fun _ => 0) ws := by
  refine ⟨_, rfl, ?_⟩
  refine (@reads_own_iff [plainGroup 7 2, plainGroup 3 1] _ 0 ⟨0, 9⟩ _ (by decide) rfl).mpr ?_
  refine ⟨fun _ => rfl, fun g gs hs _ => ?_⟩
  have hall : ∀ g ∈ [plainGroup 7 2, plainGroup 3 1], g.groupId ≤ 255 := by decide
  exact hall g (hs.subset List.mem_cons_self)

/-- Id 256 is written to one entry and read from another one, and so is every id behind it. -/
theorem high_id_leaks : ¬ ∀ (sg : List SgroupInfo) (portGroup : Int) (scan : ScanRegs) (regs : Regs)
    (ws : List Write), (∀ g ∈ sg, g.groupId ≤ 511) →
    setInfoRule true sg portGroup setTryGroup = some (0, ws) → ReadsOwn scan sg regs ws := by
  intro h
  have hown := (h [plainGroup 256 1, plainGroup 3 1] 0 ⟨0, 0⟩ (fun _ => 0) _ (by decide) rfl).selects
  exact absurd hown (by decide)

end OiAmc.TryResult

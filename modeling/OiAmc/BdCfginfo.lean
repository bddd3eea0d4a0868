import Mathlib.Data.BitVec
import Mathlib.Tactic.IntervalCases
import OiAmc.ByteBuffer

namespace OiAmc.BdCfginfo

open Function WriteList

/-- HAVE_REGCHK, and whether char has a sign. -/
structure Build where
  haveRegchk : Bool
  charSigned : Bool

inductive Reg
  | itr | wvr | wer | rvr | rer
  deriving DecidableEq

/-- The registers, and the configuration octets behind them. -/
structure Fpga where
  reg : Reg → UInt8
  cfg : UInt8 → UInt8

structure BoardCfginfoEx where
  dstmac : Vector UInt8 6
  srcmac : Vector UInt8 6
  dstip : BitVec 32
  srcip : BitVec 32
  dstport : BitVec 16
  srcport : BitVec 16
  slot : UInt8
  devid : BitVec 32
  fmask : BitVec 32

def FMASK_DSTMAC : BitVec 32 := 1 <<< 0

def FMASK_SRCMAC : BitVec 32 := 1 <<< 1

def FMASK_SLOT : BitVec 32 := 1 <<< 3

def FMASK_DSTIP : BitVec 32 := 1 <<< 4

def FMASK_SRCIP : BitVec 32 := 1 <<< 5

def FMASK_DSTPORT : BitVec 32 := 1 <<< 6

def FMASK_SRCPORT : BitVec 32 := 1 <<< 7

def FMASK_DEVID : BitVec 32 := 1 <<< 8

def EIO : Int := 5

def EFAULT : Int := 14

/-- Where wer rises the octet of itr is written, where rer rises it is read. -/
def poke (r : Reg) (v : UInt8) (d : Fpga) : Fpga where
  reg := update (if r = .rer ∧ d.reg .rer = 0 ∧ v = 1 then update d.reg .rvr (d.cfg (d.reg .itr)) else d.reg) r v
  cfg := if r = .wer ∧ d.reg .wer = 0 ∧ v = 1 then update d.cfg (d.reg .itr) (d.reg .wvr) else d.cfg

/-- The register is compared as an octet, the value as an int. -/
def held (r : Reg) (val : Int) (d : Fpga) : Prop := ((d.reg r).toNat : Int) = val

instance (r : Reg) (val : Int) (d : Fpga) : Decidable (held r val d) := inferInstanceAs (Decidable (_ = _))

def bdregchk (b : Build) (r : Reg) (val : Int) (d : Fpga) : Except Fpga Fpga :=
  let v := UInt8.ofInt val
  let d := poke r v d
  if ¬ b.haveRegchk then .ok d
  else if held r val d then .ok d
  else
    let d := poke r v d
    if held r val d then .ok d
    else
      let d := poke r v d
      if held r val d then .ok d else .error d

/-- `data = x` for a char -/
def char (b : Build) (x : Nat) : Int := if b.charSigned ∧ 0x80 ≤ x then x - 0x100 else x

def setOctet (b : Build) (sel data : Int) (d : Fpga) : Except Fpga Fpga :=
  bdregchk b .itr sel d >>= fun d =>
  bdregchk b .wvr data d >>= fun d =>
  bdregchk b .wer 0 d >>= fun d =>
  bdregchk b .wer 1 d

/-- `for (i = 0, sel = first; i < n; sel += step, i++)`, under its flag -/
def setField (b : Build) (fmask flag : BitVec 32) (n : Nat) (first step : Int) (data : Nat → Int) (d : Fpga) :
    Except Fpga Fpga :=
  if flag = fmask &&& flag then
    (List.range n).foldlM (fun d (i : Nat) => setOctet b (first + step * i) (data i) d) d
  else .ok d

def setFields (b : Build) (bdinfo : BoardCfginfoEx) (d : Fpga) : Except Fpga Fpga :=
  setField b bdinfo.fmask FMASK_DSTMAC 6 0x00 1 (fun i => (bdinfo.dstmac.toList.getD i 0).toNat) d >>= fun d =>
  setField b bdinfo.fmask FMASK_SRCMAC 6 0x10 1 (fun i => (bdinfo.srcmac.toList.getD i 0).toNat) d >>= fun d =>
  setField b bdinfo.fmask FMASK_DSTIP 4 0x23 (-1)
    (fun i => char b ((bdinfo.dstip >>> (8 * i)) &&& 0xff).toNat) d >>= fun d =>
  setField b bdinfo.fmask FMASK_SRCIP 4 0x33 (-1)
    (fun i => char b ((bdinfo.srcip >>> (8 * i)) &&& 0xff).toNat) d >>= fun d =>
  setField b bdinfo.fmask FMASK_DSTPORT 2 0x41 (-1)
    (fun i => char b ((bdinfo.dstport >>> (8 * i)) &&& 0xff).toNat) d >>= fun d =>
  setField b bdinfo.fmask FMASK_SRCPORT 2 0x51 (-1)
    (fun i => char b ((bdinfo.srcport >>> (8 * i)) &&& 0xff).toNat) d >>= fun d =>
  setField b bdinfo.fmask FMASK_DEVID 2 0x61 (-1)
    (fun i => char b ((bdinfo.devid >>> (8 * i)) &&& 0xff).toNat) d >>= fun d =>
  setField b bdinfo.fmask FMASK_SLOT 1 0x70 1 (fun _ => char b bdinfo.slot.toNat) d

/-- An argument that cannot be copied is `none`. -/
def oicFopsIoctlSetFpgaBdCfginfoEx (b : Build) (arg : Option BoardCfginfoEx) (d : Fpga) : Int × Fpga :=
  match arg with
  | none => (-EFAULT, d)
  | some bdinfo =>
      match setFields b bdinfo d with
      | .ok d => (0, d)
      | .error d => (- EIO, d)

def getOctet (b : Build) (sel : Int) (d : Fpga) : Except Fpga (UInt8 × Fpga) :=
  bdregchk b .itr sel d >>= fun d =>
  bdregchk b .rer 0 d >>= fun d =>
  bdregchk b .rer 1 d >>= fun d => .ok (d.reg .rvr, d)

variable {α : Type}

def getField (b : Build) (fmask flag : BitVec 32) (n : Nat) (first step : Int) (start : α)
    (put : α → Nat → UInt8 → α) (x : α) (d : Fpga) : Except Fpga (α × Fpga) :=
  if flag = fmask &&& flag then
    (List.range n).foldlM (fun (x, d) (i : Nat) => getOctet b (first + step * i) d >>= fun (v, d) =>
      .ok (put x i v, d)) (start, d)
  else .ok (x, d)

/-- `x |= (v << (8 * i))` -/
def orOctet {w : Nat} (x : BitVec w) (i : Nat) (v : UInt8) : BitVec w := x ||| v.toBitVec.setWidth w <<< (8 * i)

def getFields (b : Build) (bdinfo : BoardCfginfoEx) (d : Fpga) : Except Fpga (BoardCfginfoEx × Fpga) :=
  getField b bdinfo.fmask FMASK_DSTMAC 6 0x00 1 bdinfo.dstmac .setIfInBounds bdinfo.dstmac d >>= fun (dstmac, d) =>
  getField b bdinfo.fmask FMASK_SRCMAC 6 0x10 1 bdinfo.srcmac .setIfInBounds bdinfo.srcmac d >>= fun (srcmac, d) =>
  getField b bdinfo.fmask FMASK_DSTIP 4 0x23 (-1) 0 orOctet bdinfo.dstip d >>= fun (dstip, d) =>
  getField b bdinfo.fmask FMASK_SRCIP 4 0x33 (-1) 0 orOctet bdinfo.srcip d >>= fun (srcip, d) =>
  getField b bdinfo.fmask FMASK_DSTPORT 2 0x41 (-1) 0 orOctet bdinfo.dstport d >>= fun (dstport, d) =>
  getField b bdinfo.fmask FMASK_SRCPORT 2 0x51 (-1) 0 orOctet bdinfo.srcport d >>= fun (srcport, d) =>
  getField b bdinfo.fmask FMASK_DEVID 2 0x61 (-1) 0 orOctet bdinfo.devid d >>= fun (devid, d) =>
  getField b bdinfo.fmask FMASK_SLOT 1 0x70 1 bdinfo.slot (fun _ _ v => v) bdinfo.slot d >>= fun (slot, d) =>
  .ok (⟨dstmac, srcmac, dstip, srcip, dstport, srcport, slot, devid, bdinfo.fmask⟩, d)

/-- The structure of the caller afterwards. -/
def oicFopsIoctlGetFpgaBdCfginfoEx (b : Build) (arg : Option BoardCfginfoEx) (d : Fpga) :
    Int × Option BoardCfginfoEx × Fpga :=
  match arg with
  | none => (-EFAULT, none, d)
  | some bdinfo =>
      match getFields b bdinfo d with
      | .ok (bdinfo, d) => (0, some bdinfo, d)
      | .error d => (- EIO, some bdinfo, d)

inductive Field
  | dstmac | srcmac | dstip | srcip | dstport | srcport | devid | slot
  deriving DecidableEq

def Field.all : List Field := [.dstmac, .srcmac, .dstip, .srcip, .dstport, .srcport, .devid, .slot]

def Field.flag : Field → BitVec 32
  | .dstmac => FMASK_DSTMAC
  | .srcmac => FMASK_SRCMAC
  | .dstip => FMASK_DSTIP
  | .srcip => FMASK_SRCIP
  | .dstport => FMASK_DSTPORT
  | .srcport => FMASK_SRCPORT
  | .devid => FMASK_DEVID
  | .slot => FMASK_SLOT

/-- Where the octets of a field are, in the order of the loops. -/
def Field.sels : Field → List UInt8
  | .dstmac => [0x00, 0x01, 0x02, 0x03, 0x04, 0x05]
  | .srcmac => [0x10, 0x11, 0x12, 0x13, 0x14, 0x15]
  | .dstip => [0x23, 0x22, 0x21, 0x20]
  | .srcip => [0x33, 0x32, 0x31, 0x30]
  | .dstport => [0x41, 0x40]
  | .srcport => [0x51, 0x50]
  | .devid => [0x61, 0x60]
  | .slot => [0x70]

def octetAt {w : Nat} (x : BitVec w) (i : Nat) : UInt8 := .ofBitVec ((x >>> (8 * i)).setWidth 8)

def Field.octet : Field → BoardCfginfoEx → Nat → UInt8
  | .dstmac, v, i => v.dstmac.toList.getD i 0
  | .srcmac, v, i => v.srcmac.toList.getD i 0
  | .dstip, v, i => octetAt v.dstip i
  | .srcip, v, i => octetAt v.srcip i
  | .dstport, v, i => octetAt v.dstport i
  | .srcport, v, i => octetAt v.srcport i
  | .devid, v, i => octetAt v.devid i
  | .slot, v, _ => v.slot

/-- The octets that pass through a char. -/
def Field.viaChar : Field → Bool
  | .dstmac | .srcmac => false
  | _ => true

structure Cell where
  sel : UInt8
  octet : UInt8
  viaChar : Bool

def Field.sel (f : Field) (i : Nat) : UInt8 := f.sels.getD i 0

def Field.cells (f : Field) (v : BoardCfginfoEx) : List Cell :=
  (List.range f.sels.length).map fun i => ⟨f.sel i, f.octet v i, f.viaChar⟩

def Selected (fmask : BitVec 32) (f : Field) : Prop := f.flag = fmask &&& f.flag

instance (fmask : BitVec 32) (f : Field) : Decidable (Selected fmask f) := inferInstanceAs (Decidable (_ = _))

/-- What is to be written, in the order of the writes. -/
def cells (v : BoardCfginfoEx) : List Cell :=
  Field.all.flatMap fun f => if Selected v.fmask f then f.cells v else []

/-- A char with a sign is never the octet that was written. -/
def Refused (b : Build) (c : Cell) : Prop := b.haveRegchk ∧ b.charSigned ∧ c.viaChar ∧ 0x80 ≤ c.octet.toNat

instance (b : Build) (c : Cell) : Decidable (Refused b c) := inferInstanceAs (Decidable (_ ∧ _))

def Cell.data (b : Build) (c : Cell) : Int := if c.viaChar then char b c.octet.toNat else c.octet.toNat

variable {b : Build} {r : Reg} {d : Fpga} {v u : BoardCfginfoEx} {f : Field} {c : Cell} {cs : List Cell}

theorem ok_bind {ε β : Type} (a : α) (g : α → Except ε β) : (Except.ok a >>= g) = g a := rfl

theorem error_bind {ε β : Type} (e : ε) (g : α → Except ε β) : (Except.error e >>= g) = .error e := rfl

theorem ofInt_octet {x : Int} (o : UInt8) (h : x % 256 = o.toNat) : UInt8.ofInt x = o := by
  have hx : x % 2 ^ 8 = o.toNat := h
  rw [UInt8.ofInt, hx, Int.toNat_natCast, UInt8.ofNat_toNat]

theorem ofInt_toNat (o : UInt8) : UInt8.ofInt o.toNat = o := by
  have h := o.toNat_lt
  exact ofInt_octet o (by omega)

theorem ofInt_data (b : Build) (c : Cell) : UInt8.ofInt (c.data b) = c.octet := by
  have h := c.octet.toNat_lt
  apply ofInt_octet
  rw [Cell.data, char]
  split
  · split
    · omega
    · omega
  · omega

theorem poke_self (r : Reg) (o : UInt8) (d : Fpga) : (poke r o d).reg r = o := update_self _ _ _

theorem poke_cfg {r : Reg} {o : UInt8} (h : ¬ (r = .wer ∧ o = 1)) (d : Fpga) : (poke r o d).cfg = d.cfg :=
  if_neg fun hrise => h ⟨hrise.1, hrise.2.2⟩

theorem poke_reg {r : Reg} {o : UInt8} (h : ¬ (r = .rer ∧ o = 1)) (d : Fpga) :
    (poke r o d).reg = update d.reg r o := by
  apply congrArg fun regs : Reg → UInt8 => update regs r o
  exact if_neg fun hrise => h ⟨hrise.1, hrise.2.2⟩

theorem poke_rise (h : d.reg .wer = 0) : (poke .wer 1 d).cfg = update d.cfg (d.reg .itr) (d.reg .wvr) := by
  rw [poke]
  exact if_pos ⟨rfl, h, rfl⟩

theorem poke_read (h : d.reg .rer = 0) : (poke .rer 1 d).reg .rvr = d.cfg (d.reg .itr) := by
  rw [poke]
  simp only [h, and_self, if_true]
  rw [update_of_ne (by decide), update_self]

theorem bdregchk_eq (b : Build) (r : Reg) (val : Int) (d : Fpga) : bdregchk b r val d =
    if ¬ b.haveRegchk then .ok (poke r (.ofInt val) d)
    else if held r val (poke r (.ofInt val) d) then .ok (poke r (.ofInt val) d)
    else if held r val (poke r (.ofInt val) (poke r (.ofInt val) d)) then
      .ok (poke r (.ofInt val) (poke r (.ofInt val) d))
    else if held r val (poke r (.ofInt val) (poke r (.ofInt val) (poke r (.ofInt val) d))) then
      .ok (poke r (.ofInt val) (poke r (.ofInt val) (poke r (.ofInt val) d)))
    else .error (poke r (.ofInt val) (poke r (.ofInt val) (poke r (.ofInt val) d))) := rfl

theorem bdregchk_octet (b : Build) (r : Reg) (o : UInt8) (d : Fpga) :
    bdregchk b r o.toNat d = .ok (poke r o d) := by
  have hheld : held r o.toNat (poke r o d) := by rw [held, poke_self]
  rw [bdregchk_eq, ofInt_toNat, if_pos hheld, ite_self]

theorem bdregchk_wvr (b : Build) (c : Cell) (d : Fpga) : ∃ d', bdregchk b .wvr (c.data b) d =
      (if Refused b c then .error d' else .ok d') ∧ d'.cfg = d.cfg ∧ d'.reg = update d.reg .wvr c.octet := by
  have hcfg := @poke_cfg .wvr c.octet (by simp)
  have hreg := @poke_reg .wvr c.octet (by simp)
  have hheld : ∀ d, held .wvr (c.data b) (poke .wvr c.octet d) ↔
      ¬ (b.charSigned ∧ c.viaChar ∧ 0x80 ≤ c.octet.toNat) := by
    intro d
    have h := c.octet.toNat_lt
    rw [held, poke_self, Cell.data, char]
    split
    · split
      · rename_i hchar hsign
        exact iff_of_false (by omega) (not_not.mpr ⟨hsign.1, hchar, hsign.2⟩)
      · rename_i _ hsign
        exact iff_of_true rfl fun h => hsign ⟨h.1, h.2.2⟩
    · rename_i hchar
      exact iff_of_true rfl fun h => hchar h.2.1
  rw [bdregchk_eq, ofInt_data]
  by_cases hchk : b.haveRegchk = true
  · rw [if_neg (not_not.mpr hchk)]
    by_cases hsign : b.charSigned ∧ c.viaChar ∧ 0x80 ≤ c.octet.toNat
    · have hno : ∀ d, ¬ held .wvr (c.data b) (poke .wvr c.octet d) := fun d h => (hheld d).mp h hsign
      refine ⟨poke .wvr c.octet (poke .wvr c.octet (poke .wvr c.octet d)), ?_, ?_, ?_⟩
      · rw [if_neg (hno _), if_neg (hno _), if_neg (hno _), if_pos ⟨hchk, hsign⟩]
      · rw [hcfg, hcfg, hcfg]
      · rw [hreg, hreg, hreg, update_idem, update_idem]
    · refine ⟨poke .wvr c.octet d, ?_, hcfg d, hreg d⟩
      rw [if_pos ((hheld d).mpr hsign), if_neg fun h => hsign h.2]
  · refine ⟨poke .wvr c.octet d, ?_, hcfg d, hreg d⟩
    rw [if_pos hchk, if_neg fun h => hchk h.1]

theorem setOctet_cell (b : Build) (c : Cell) (d : Fpga) : ∃ d', setOctet b c.sel.toNat (c.data b) d =
    (if Refused b c then .error d' else .ok d') ∧
      d'.cfg = if Refused b c then d.cfg else update d.cfg c.sel c.octet := by
  obtain ⟨d2, h2, hcfg, hreg⟩ := bdregchk_wvr b c (poke .itr c.sel d)
  rw [poke_cfg (by simp)] at hcfg
  rw [poke_reg (by simp)] at hreg
  by_cases hrefused : Refused b c
  · rw [if_pos hrefused] at h2
    refine ⟨d2, ?_, by rw [hcfg, if_pos hrefused]⟩
    rw [setOctet, bdregchk_octet, ok_bind, h2, error_bind, if_pos hrefused]
  · rw [if_neg hrefused] at h2
    have h3 := bdregchk_octet b .wer 0 d2
    have h4 := bdregchk_octet b .wer 1 (poke .wer 0 d2)
    refine ⟨poke .wer 1 (poke .wer 0 d2), ?_, ?_⟩
    · rw [setOctet, bdregchk_octet, ok_bind, h2, ok_bind]
      rw [show (0 : Int) = ((0 : UInt8).toNat : Int) from rfl, h3, ok_bind, if_neg hrefused]
      exact h4
    · rw [poke_rise (poke_self _ _ _), poke_cfg (by simp), poke_reg (by simp), hcfg, hreg, if_neg hrefused]
      rw [update_of_ne (show Reg.itr ≠ .wer by decide), update_of_ne (show Reg.itr ≠ .wvr by decide), update_self,
        update_of_ne (show Reg.wvr ≠ .wer by decide), update_self]

theorem getOctet_cell (b : Build) (sel : UInt8) (d : Fpga) : ∃ d', getOctet b sel.toNat d = .ok (d.cfg sel, d') ∧
    d'.cfg = d.cfg := by
  have h1 := bdregchk_octet b .itr sel d
  have h2 := bdregchk_octet b .rer 0 (poke .itr sel d)
  have h3 := bdregchk_octet b .rer 1 (poke .rer 0 (poke .itr sel d))
  have hread : (poke .rer 1 (poke .rer 0 (poke .itr sel d))).reg .rvr = d.cfg sel := by
    rw [poke_read (poke_self _ _ _), poke_cfg (by simp), poke_cfg (by simp), poke_reg (by simp),
      update_of_ne (by decide), poke_self]
  refine ⟨poke .rer 1 (poke .rer 0 (poke .itr sel d)), ?_, ?_⟩
  · rw [getOctet, h1, ok_bind, ← hread]
    rw [show (0 : Int) = ((0 : UInt8).toNat : Int) from rfl, h2, ok_bind]
    rw [show (1 : Int) = ((1 : UInt8).toNat : Int) from rfl, h3, ok_bind]
  · rw [poke_cfg (by simp), poke_cfg (by simp), poke_cfg (by simp)]

theorem setOctets_cells (b : Build) (cs : List Cell) (d : Fpga) : ∃ d',
    cs.foldlM (fun d c => setOctet b c.sel.toNat (c.data b) d) d =
      (if ∀ c ∈ cs, ¬ Refused b c then .ok d' else .error d') ∧
    d'.cfg = store d.cfg ((cs.takeWhile fun c => ¬ Refused b c).map fun c => (c.sel, c.octet)) := by
  induction cs generalizing d with
  | nil => exact ⟨d, (if_pos nofun).symm, rfl⟩
  | cons c cs ih =>
      obtain ⟨d1, h1, hcfg⟩ := setOctet_cell b c d
      rw [List.foldlM_cons]
      by_cases hrefused : Refused b c
      · rw [if_pos hrefused] at h1 hcfg
        refine ⟨d1, ?_, ?_⟩
        · rw [h1, error_bind, if_neg fun h => h c List.mem_cons_self hrefused]
        · rw [hcfg, List.takeWhile_cons_of_neg (by simpa using hrefused)]
          rfl
      · rw [if_neg hrefused] at h1 hcfg
        obtain ⟨d', h', hcfg'⟩ := ih d1
        refine ⟨d', ?_, ?_⟩
        · rw [h1, ok_bind, h']
          simp only [List.forall_mem_cons, hrefused, not_false_eq_true, true_and]
        · rw [hcfg', List.takeWhile_cons_of_pos (by simpa using hrefused), hcfg]
          rfl

theorem setField_cells {fmask : BitVec 32} {first step : Int} {data : Nat → Int} {n : Nat} (f : Field)
    (hn : n = f.sels.length) (hsels : ∀ i < f.sels.length, first + step * i = (f.sel i).toNat)
    (hdata : ∀ i sel, data i = (Cell.mk sel (f.octet v i) f.viaChar).data b) (d : Fpga) :
    setField b fmask f.flag n first step data d =
      (if Selected fmask f then f.cells v else []).foldlM (fun d c => setOctet b c.sel.toNat (c.data b) d) d := by
  rw [setField]
  by_cases hsel : Selected fmask f
  · have hmap : (List.range n).map (fun i : Nat => (first + step * i, data i)) =
        (f.cells v).map fun c => ((c.sel.toNat : Int), c.data b) := by
      rw [Field.cells, List.map_map, hn]
      apply List.map_congr_left
      intro i hi
      rw [Function.comp_apply, hsels i (List.mem_range.mp hi), hdata i (f.sel i)]
    have hflag : f.flag = fmask &&& f.flag := hsel
    rw [if_pos hflag, if_pos hsel]
    calc (List.range n).foldlM (fun d (i : Nat) => setOctet b (first + step * i) (data i) d) d
        = ((List.range n).map fun i : Nat => (first + step * i, data i)).foldlM
            (fun d w => setOctet b w.1 w.2 d) d := by rw [List.foldlM_map]
      _ = _ := by rw [hmap, List.foldlM_map]
  · have hflag : ¬ f.flag = fmask &&& f.flag := hsel
    rw [if_neg hflag, if_neg hsel]
    rfl

theorem char_octet {w : Nat} (b : Build) (x : BitVec w) (i : Nat) (hw : 8 ≤ w) :
    char b ((x >>> (8 * i)) &&& 0xff).toNat = char b (octetAt x i).toNat := by
  apply congrArg
  rw [octetAt, BitVec.toNat_and]
  have hff : (0xff : BitVec w).toNat = 2 ^ 8 - 1 := by
    have hpow := Nat.pow_le_pow_right (show 0 < 2 by decide) hw
    change 255 % 2 ^ w = 255
    exact Nat.mod_eq_of_lt (by omega)
  rw [hff, Nat.and_two_pow_sub_one_eq_mod]
  exact (BitVec.toNat_setWidth _ _).symm

theorem bind_eq {ε β : Type} {x y : Except ε α} {g g' : α → Except ε β} (hx : x = y) (hg : ∀ a, g a = g' a) :
    x >>= g = y >>= g' := by rw [hx, funext hg]

theorem setFields_eq (b : Build) (v : BoardCfginfoEx) (d : Fpga) : setFields b v d =
    (cells v).foldlM (fun d c => setOctet b c.sel.toNat (c.data b) d) d := by
  simp only [cells, Field.all, List.flatMap_cons, List.flatMap_nil, List.append_nil, List.foldlM_append]
  refine bind_eq (setField_cells .dstmac rfl (by decide) (fun _ _ => rfl) d) fun d => ?_
  refine bind_eq (setField_cells .srcmac rfl (by decide) (fun _ _ => rfl) d) fun d => ?_
  refine bind_eq (setField_cells .dstip rfl (by decide) (fun i _ => char_octet b _ i (by decide)) d) fun d => ?_
  refine bind_eq (setField_cells .srcip rfl (by decide) (fun i _ => char_octet b _ i (by decide)) d) fun d => ?_
  refine bind_eq (setField_cells .dstport rfl (by decide) (fun i _ => char_octet b _ i (by decide)) d) fun d => ?_
  refine bind_eq (setField_cells .srcport rfl (by decide) (fun i _ => char_octet b _ i (by decide)) d) fun d => ?_
  refine bind_eq (setField_cells .devid rfl (by decide) (fun i _ => char_octet b _ i (by decide)) d) fun d => ?_
  exact setField_cells .slot rfl (by decide) (fun _ _ => rfl) d

theorem getOctets_cells (b : Build) (put : α → Nat → UInt8 → α) (f : Field) {first step : Int} {is : List Nat}
    (hsels : ∀ i ∈ is, first + step * i = (f.sel i).toNat) (x : α) (d : Fpga) :
    ∃ d', is.foldlM (fun (x, d) (i : Nat) => getOctet b (first + step * i) d >>= fun (v, d) =>
      .ok (put x i v, d)) (x, d) = .ok (is.foldl (fun x i => put x i (d.cfg (f.sel i))) x, d') ∧
    d'.cfg = d.cfg := by
  induction is generalizing x d with
  | nil => exact ⟨d, rfl, rfl⟩
  | cons i is ih =>
      obtain ⟨hsel, hrest⟩ := List.forall_mem_cons.mp hsels
      obtain ⟨d1, h1, hcfg⟩ := getOctet_cell b (f.sel i) d
      obtain ⟨d', h', hcfg'⟩ := ih hrest (put x i (d.cfg (f.sel i))) d1
      refine ⟨d', ?_, hcfg'.trans hcfg⟩
      rw [List.foldlM_cons]
      simp only [hsel, h1, ok_bind]
      rw [h', hcfg]
      rfl

def Field.read (f : Field) (fmask : BitVec 32) (start : α) (put : α → Nat → UInt8 → α) (x : α)
    (mem : UInt8 → UInt8) : α :=
  if Selected fmask f then (List.range f.sels.length).foldl (fun x i => put x i (mem (f.sel i))) start else x

theorem getField_eq {n : Nat} {first step : Int} (f : Field) (hn : n = f.sels.length)
    (hsels : ∀ i < f.sels.length, first + step * i = (f.sel i).toNat) (fmask : BitVec 32) (start : α)
    (put : α → Nat → UInt8 → α) (x : α) (d : Fpga) :
    ∃ d', getField b fmask f.flag n first step start put x d = .ok (f.read fmask start put x d.cfg, d') ∧
    d'.cfg = d.cfg := by
  rw [getField, Field.read]
  by_cases hsel : Selected fmask f
  · have hflag : f.flag = fmask &&& f.flag := hsel
    obtain ⟨d', h', hcfg⟩ := getOctets_cells b put f (fun i hi => hsels i (List.mem_range.mp hi)) start d
    refine ⟨d', ?_, hcfg⟩
    rw [if_pos hflag, if_pos hsel, ← h', hn]
  · have hflag : ¬ f.flag = fmask &&& f.flag := hsel
    rw [if_neg hflag, if_neg hsel]
    exact ⟨d, rfl, rfl⟩

/-- The structure of the caller, with what is read in place of the fields of its mask. -/
def readBack (u : BoardCfginfoEx) (mem : UInt8 → UInt8) : BoardCfginfoEx where
  dstmac := Field.dstmac.read u.fmask u.dstmac .setIfInBounds u.dstmac mem
  srcmac := Field.srcmac.read u.fmask u.srcmac .setIfInBounds u.srcmac mem
  dstip := Field.dstip.read u.fmask 0 orOctet u.dstip mem
  srcip := Field.srcip.read u.fmask 0 orOctet u.srcip mem
  dstport := Field.dstport.read u.fmask 0 orOctet u.dstport mem
  srcport := Field.srcport.read u.fmask 0 orOctet u.srcport mem
  slot := Field.slot.read u.fmask u.slot (fun _ _ v => v) u.slot mem
  devid := Field.devid.read u.fmask 0 orOctet u.devid mem
  fmask := u.fmask

theorem getFields_eq (b : Build) (u : BoardCfginfoEx) (d : Fpga) :
    ∃ d', getFields b u d = .ok (readBack u d.cfg, d') ∧ d'.cfg = d.cfg := by
  obtain ⟨d1, h1, hcfg1⟩ := @getField_eq _ b 6 0x00 1 .dstmac rfl (by decide) u.fmask u.dstmac .setIfInBounds
    u.dstmac d
  obtain ⟨d2, h2, hcfg2⟩ := @getField_eq _ b 6 0x10 1 .srcmac rfl (by decide) u.fmask u.srcmac .setIfInBounds
    u.srcmac d1
  obtain ⟨d3, h3, hcfg3⟩ := @getField_eq _ b 4 0x23 (-1) .dstip rfl (by decide) u.fmask 0 orOctet u.dstip d2
  obtain ⟨d4, h4, hcfg4⟩ := @getField_eq _ b 4 0x33 (-1) .srcip rfl (by decide) u.fmask 0 orOctet u.srcip d3
  obtain ⟨d5, h5, hcfg5⟩ := @getField_eq _ b 2 0x41 (-1) .dstport rfl (by decide) u.fmask 0 orOctet u.dstport d4
  obtain ⟨d6, h6, hcfg6⟩ := @getField_eq _ b 2 0x51 (-1) .srcport rfl (by decide) u.fmask 0 orOctet u.srcport d5
  obtain ⟨d7, h7, hcfg7⟩ := @getField_eq _ b 2 0x61 (-1) .devid rfl (by decide) u.fmask 0 orOctet u.devid d6
  obtain ⟨d8, h8, hcfg8⟩ := @getField_eq _ b 1 0x70 1 .slot rfl (by decide) u.fmask u.slot (fun _ _ v => v) u.slot d7
  rw [hcfg7, hcfg6, hcfg5, hcfg4, hcfg3, hcfg2, hcfg1] at h8 hcfg8
  rw [hcfg6, hcfg5, hcfg4, hcfg3, hcfg2, hcfg1] at h7
  rw [hcfg5, hcfg4, hcfg3, hcfg2, hcfg1] at h6
  rw [hcfg4, hcfg3, hcfg2, hcfg1] at h5
  rw [hcfg3, hcfg2, hcfg1] at h4
  rw [hcfg2, hcfg1] at h3
  rw [hcfg1] at h2
  refine ⟨d8, ?_, hcfg8⟩
  change (getField b u.fmask Field.dstmac.flag 6 0x00 1 u.dstmac .setIfInBounds u.dstmac d >>= _) = _
  rw [h1, ok_bind]
  change (getField b u.fmask Field.srcmac.flag 6 0x10 1 u.srcmac .setIfInBounds u.srcmac d1 >>= _) = _
  rw [h2, ok_bind]
  change (getField b u.fmask Field.dstip.flag 4 0x23 (-1) 0 orOctet u.dstip d2 >>= _) = _
  rw [h3, ok_bind]
  change (getField b u.fmask Field.srcip.flag 4 0x33 (-1) 0 orOctet u.srcip d3 >>= _) = _
  rw [h4, ok_bind]
  change (getField b u.fmask Field.dstport.flag 2 0x41 (-1) 0 orOctet u.dstport d4 >>= _) = _
  rw [h5, ok_bind]
  change (getField b u.fmask Field.srcport.flag 2 0x51 (-1) 0 orOctet u.srcport d5 >>= _) = _
  rw [h6, ok_bind]
  change (getField b u.fmask Field.devid.flag 2 0x61 (-1) 0 orOctet u.devid d6 >>= _) = _
  rw [h7, ok_bind]
  change (getField b u.fmask Field.slot.flag 1 0x70 1 u.slot (fun _ _ v => v) u.slot d7 >>= _) = _
  rw [h8, ok_bind]
  rfl

theorem getElem_fold {n : Nat} (m : Vector α n) (o : Nat → α) (k : Nat) {j : Nat} (hj : j < n) :
    ((List.range k).foldl (fun m i => m.setIfInBounds i (o i)) m)[j] = if j < k then o j else m[j] := by
  induction k with
  | zero => rfl
  | succ k ih =>
      rw [List.range_succ, List.foldl_append, List.foldl_cons, List.foldl_nil, Vector.getElem_setIfInBounds]
      split
      · rename_i hk
        rw [hk, if_pos (Nat.lt_succ_self j)]
      · rw [ih]
        split
        · rw [if_pos (by omega)]
        · rw [if_neg (by omega)]

theorem array_iff {n : Nat} (m : Vector α n) (o : Nat → α) (a : α) (v : Vector α n) :
    (List.range n).foldl (fun m i => m.setIfInBounds i (o i)) m = v ↔ ∀ i < n, o i = v.toList.getD i a := by
  have hentry : ∀ i (hi : i < n), v.toList.getD i a = v[i] := by
    intro i hi
    rw [List.getD_eq_getElem?_getD, List.getElem?_eq_getElem (by rw [Vector.length_toList]; exact hi),
      Option.getD_some, Vector.getElem_toList]
  rw [Vector.ext_iff]
  constructor
  · intro h i hi
    rw [hentry i hi, ← h i hi, getElem_fold m o n hi, if_pos hi]
  · intro h i hi
    rw [getElem_fold m o n hi, if_pos hi, h i hi, hentry i hi]

theorem getLsbD_fold {w : Nat} (o : Nat → UInt8) (n : Nat) {j : Nat} (hj : j < w) :
    ((List.range n).foldl (fun x i => orOctet x i (o i)) (0 : BitVec w)).getLsbD j =
      (decide (j < 8 * n) && (o (j / 8)).toBitVec.getLsbD (j % 8)) := by
  induction n with
  | zero => simp
  | succ n ih =>
      rw [List.range_succ, List.foldl_append, List.foldl_cons, List.foldl_nil, orOctet, BitVec.getLsbD_or, ih,
        BitVec.getLsbD_shiftLeft, BitVec.getLsbD_setWidth]
      by_cases h1 : j < 8 * n
      · rw [decide_eq_true h1, decide_eq_true (show j < 8 * (n + 1) by omega)]
        simp
      · by_cases h2 : j < 8 * (n + 1)
        · have hdiv : j / 8 = n := by omega
          have hmod : j - 8 * n = j % 8 := by omega
          rw [hdiv, hmod]
          simp [h1, h2, hj]
          omega
        · have hhigh : (o n).toBitVec.getLsbD (j - 8 * n) = false := BitVec.getLsbD_of_ge _ _ (by omega)
          rw [hhigh]
          simp [h1, h2]

theorem getLsbD_octetAt {w : Nat} (x : BitVec w) (i : Nat) {k : Nat} (hk : k < 8) :
    (octetAt x i).toBitVec.getLsbD k = x.getLsbD (8 * i + k) := by
  rw [octetAt, BitVec.getLsbD_setWidth, decide_eq_true hk, BitVec.getLsbD_ushiftRight, Bool.true_and]

theorem word_iff {w n : Nat} (hn : 8 * n ≤ w) (o : Nat → UInt8) (x : BitVec w) :
    (List.range n).foldl (fun x i => orOctet x i (o i)) 0 = x ↔
      (∀ i < n, o i = octetAt x i) ∧ x >>> (8 * n) = 0 := by
  constructor
  · intro h
    refine ⟨fun i hi => ?_, ?_⟩
    · apply UInt8.toBitVec_inj.mp
      apply BitVec.eq_of_getLsbD_eq
      intro k hk
      rw [getLsbD_octetAt x i hk, ← h, getLsbD_fold o n (by omega), decide_eq_true (by omega),
        show (8 * i + k) / 8 = i by omega, show (8 * i + k) % 8 = k by omega, Bool.true_and]
    · apply BitVec.eq_of_getLsbD_eq
      intro j hj
      rw [BitVec.getLsbD_ushiftRight]
      by_cases hw : 8 * n + j < w
      · rw [← h, getLsbD_fold o n hw, decide_eq_false (by omega), Bool.false_and]
        exact BitVec.getLsbD_zero.symm
      · rw [BitVec.getLsbD_of_ge _ _ (by omega)]
        exact BitVec.getLsbD_zero.symm
  · rintro ⟨h, hhigh⟩
    apply BitVec.eq_of_getLsbD_eq
    intro j hj
    rw [getLsbD_fold o n hj]
    by_cases hlow : j < 8 * n
    · rw [decide_eq_true hlow, h (j / 8) (by omega), getLsbD_octetAt x _ (by omega), Bool.true_and,
        Nat.div_add_mod]
    · have hbit := congrArg (fun y : BitVec w => y.getLsbD (j - 8 * n)) hhigh
      simp only [BitVec.getLsbD_ushiftRight] at hbit
      rw [decide_eq_false hlow, Bool.false_and, show j = 8 * n + (j - 8 * n) by omega, hbit]
      exact BitVec.getLsbD_zero.symm

def Field.Same (f : Field) (u v : BoardCfginfoEx) : Prop :=
  match f with
  | .dstmac => u.dstmac = v.dstmac
  | .srcmac => u.srcmac = v.srcmac
  | .dstip => u.dstip = v.dstip
  | .srcip => u.srcip = v.srcip
  | .dstport => u.dstport = v.dstport
  | .srcport => u.srcport = v.srcport
  | .devid => u.devid = v.devid
  | .slot => u.slot = v.slot

variable {mem : UInt8 → UInt8}

theorem read_of_unselected (h : ¬ Selected u.fmask f) : f.Same (readBack u mem) u := by
  cases f <;> exact if_neg h

theorem word_read {w n : Nat} (hw : 8 * n = w) (o : Nat → UInt8) (x : BitVec w) :
    (List.range n).foldl (fun x i => orOctet x i (o i)) 0 = x ↔ ∀ i < n, o i = octetAt x i := by
  rw [word_iff (Nat.le_of_eq hw)]
  exact and_iff_left (BitVec.ushiftRight_eq_zero (Nat.le_of_eq hw.symm))

theorem read_of_selected (h : Selected u.fmask f) : f.Same (readBack u mem) v ↔
    (∀ i < f.sels.length, mem (f.sel i) = f.octet v i) ∧ (f = .devid → v.devid >>> 16 = 0) := by
  cases f with
  | dstmac =>
      change Field.dstmac.read u.fmask u.dstmac .setIfInBounds u.dstmac mem = v.dstmac ↔ _
      rw [Field.read, if_pos h, and_iff_left nofun]
      exact array_iff u.dstmac _ 0 v.dstmac
  | srcmac =>
      change Field.srcmac.read u.fmask u.srcmac .setIfInBounds u.srcmac mem = v.srcmac ↔ _
      rw [Field.read, if_pos h, and_iff_left nofun]
      exact array_iff u.srcmac _ 0 v.srcmac
  | dstip =>
      change Field.dstip.read u.fmask 0 orOctet u.dstip mem = v.dstip ↔ _
      rw [Field.read, if_pos h, and_iff_left nofun]
      exact word_read (n := 4) rfl _ v.dstip
  | srcip =>
      change Field.srcip.read u.fmask 0 orOctet u.srcip mem = v.srcip ↔ _
      rw [Field.read, if_pos h, and_iff_left nofun]
      exact word_read (n := 4) rfl _ v.srcip
  | dstport =>
      change Field.dstport.read u.fmask 0 orOctet u.dstport mem = v.dstport ↔ _
      rw [Field.read, if_pos h, and_iff_left nofun]
      exact word_read (n := 2) rfl _ v.dstport
  | srcport =>
      change Field.srcport.read u.fmask 0 orOctet u.srcport mem = v.srcport ↔ _
      rw [Field.read, if_pos h, and_iff_left nofun]
      exact word_read (n := 2) rfl _ v.srcport
  | devid =>
      change Field.devid.read u.fmask 0 orOctet u.devid mem = v.devid ↔ _
      rw [Field.read, if_pos h]
      refine (word_iff (n := 2) (by decide) _ v.devid).trans ?_
      exact and_congr_right' ⟨fun h _ => h, fun h => h rfl⟩
  | slot =>
      change Field.slot.read u.fmask u.slot (fun _ _ v => v) u.slot mem = v.slot ↔ _
      rw [Field.read, if_pos h, and_iff_left nofun]
      exact ⟨fun h i hi => by obtain rfl := Nat.lt_one_iff.mp hi; exact h, fun h => h 0 Nat.one_pos⟩

theorem mem_cells : c ∈ cells v ↔ ∃ f, Selected v.fmask f ∧ ∃ i < f.sels.length, c = ⟨f.sel i, f.octet v i, f.viaChar⟩ := by
  have hall : ∀ f, f ∈ Field.all := by intro f; cases f <;> decide
  rw [cells, List.mem_flatMap]
  constructor
  · rintro ⟨f, -, hc⟩
    by_cases hsel : Selected v.fmask f
    · rw [if_pos hsel, Field.cells, List.mem_map] at hc
      obtain ⟨i, hi, rfl⟩ := hc
      exact ⟨f, hsel, i, List.mem_range.mp hi, rfl⟩
    · rw [if_neg hsel] at hc
      cases hc
  · rintro ⟨f, hsel, i, hi, rfl⟩
    refine ⟨f, hall f, ?_⟩
    rw [if_pos hsel, Field.cells]
    exact List.mem_map.mpr ⟨i, List.mem_range.mpr hi, rfl⟩

theorem sels_apart {f f' : Field} {s : UInt8} (h : s ∈ f.sels) (h' : s ∈ f'.sels) : f = f' := by
  have hall : (Field.all.all fun f => Field.all.all fun f' => f.sels.all fun s =>
      decide (s ∈ f'.sels → f = f')) = true := by decide
  simp only [List.all_eq_true, decide_eq_true_eq] at hall
  exact hall f (by cases f <;> decide) f' (by cases f' <;> decide) s h h'

theorem cells_sels (f : Field) (v : BoardCfginfoEx) : (f.cells v).map Cell.sel = f.sels := by
  rw [Field.cells, List.map_map]
  exact ByteBuffer.map_getD_range f.sels 0

theorem cells_nodup (v : BoardCfginfoEx) : ((cells v).map Cell.sel).Nodup := by
  rw [cells, List.map_flatMap, List.nodup_flatMap]
  constructor
  · intro f _
    split
    · rw [cells_sels]
      cases f <;> decide
    · exact List.nodup_nil
  · have hfields : Field.all.Pairwise (· ≠ ·) := by decide
    refine hfields.imp fun {f f'} hne s hs hs' => hne ?_
    dsimp only at hs hs'
    split at hs
    · split at hs'
      · rw [cells_sels] at hs hs'
        exact sels_apart hs hs'
      · cases hs'
    · cases hs

theorem sel_mem (f : Field) {i : Nat} (hi : i < f.sels.length) : f.sel i ∈ f.sels := by
  rw [Field.sel, List.getD_eq_getElem?_getD, List.getElem?_eq_getElem hi, Option.getD_some]
  exact List.getElem_mem hi

theorem cells_apart {v' : BoardCfginfoEx} (h : v.fmask &&& v'.fmask = 0) {s : UInt8}
    (hs : s ∈ (cells v).map Cell.sel) : s ∉ (cells v').map Cell.sel := by
  intro hs'
  obtain ⟨c, hc, rfl⟩ := List.mem_map.mp hs
  obtain ⟨c', hc', he⟩ := List.mem_map.mp hs'
  obtain ⟨f, hsel, i, hi, rfl⟩ := mem_cells.mp hc
  obtain ⟨f', hsel', i', hi', rfl⟩ := mem_cells.mp hc'
  have hsame : f'.sel i' = f.sel i := he
  obtain rfl := sels_apart (sel_mem f hi) (hsame ▸ sel_mem f' hi')
  have hflag : f.flag = 0 := by
    calc f.flag = v.fmask &&& f.flag := hsel
      _ = v.fmask &&& (v'.fmask &&& f.flag) := by rw [← (show f.flag = v'.fmask &&& f.flag from hsel')]
      _ = 0 &&& f.flag := by rw [← BitVec.and_assoc, h]
      _ = 0 := BitVec.zero_and
  exact absurd hflag (by cases f <;> decide)

def taken (b : Build) (cs : List Cell) : List (UInt8 × UInt8) :=
  (cs.takeWhile fun c => ¬ Refused b c).map fun c => (c.sel, c.octet)

theorem taken_sels {s : UInt8} (h : s ∈ (taken b cs).map Prod.fst) : s ∈ cs.map Cell.sel := by
  rw [taken, List.map_map] at h
  exact ((List.takeWhile_sublist _).map Cell.sel).subset h

theorem set_eq (b : Build) (v : BoardCfginfoEx) (d : Fpga) :
    ((oicFopsIoctlSetFpgaBdCfginfoEx b (some v) d).1 = 0 ↔ ∀ c ∈ cells v, ¬ Refused b c) ∧
      (oicFopsIoctlSetFpgaBdCfginfoEx b (some v) d).2.cfg = store d.cfg (taken b (cells v)) := by
  obtain ⟨d', h', hcfg⟩ := setOctets_cells b (cells v) d
  have hset : oicFopsIoctlSetFpgaBdCfginfoEx b (some v) d =
      match setFields b v d with
      | .ok d => (0, d)
      | .error d => (- EIO, d) := rfl
  rw [hset, setFields_eq, h']
  by_cases hall : ∀ c ∈ cells v, ¬ Refused b c
  · rw [if_pos hall]
    exact ⟨iff_of_true rfl hall, hcfg⟩
  · rw [if_neg hall]
    exact ⟨iff_of_false (show ¬ - EIO = 0 by decide) hall, hcfg⟩

theorem taken_iff (b : Build) (hnodup : (cs.map Cell.sel).Nodup) (mem : UInt8 → UInt8) :
    (∀ c ∈ cs, store mem (taken b cs) c.sel = c.octet) ↔
      ∀ c ∈ cs.dropWhile fun c => ¬ Refused b c, mem c.sel = c.octet := by
  have hsplit := List.takeWhile_append_dropWhile (p := fun c : Cell => decide ¬ Refused b c) (l := cs)
  have hkeys : (taken b cs).map Prod.fst = (cs.takeWhile fun c => ¬ Refused b c).map Cell.sel := by
    rw [taken, List.map_map]
    rfl
  rw [← hsplit, List.map_append, List.nodup_append] at hnodup
  obtain ⟨htake, -, hapart⟩ := hnodup
  constructor
  · intro h c hc
    rw [← h c (List.dropWhile_sublist _ |>.subset hc), store_of_not_mem]
    rw [hkeys]
    exact fun hs => hapart _ hs _ (List.mem_map_of_mem hc) rfl
  · intro h c hc
    rw [← hsplit] at hc
    rcases List.mem_append.mp hc with hc | hc
    · exact store_of_mem _ (hkeys ▸ htake) (List.mem_map_of_mem hc)
    · rw [← h c hc, store_of_not_mem]
      rw [hkeys]
      exact fun hs => hapart _ hs _ (List.mem_map_of_mem hc) rfl

theorem get_eq (b : Build) (u : BoardCfginfoEx) (d : Fpga) : ∃ d',
    oicFopsIoctlGetFpgaBdCfginfoEx b (some u) d = (0, some (readBack u d.cfg), d') := by
  obtain ⟨d', hget, -⟩ := getFields_eq b u d
  refine ⟨d', ?_⟩
  rw [oicFopsIoctlGetFpgaBdCfginfoEx, hget]

theorem readBack_iff (b : Build) (v : BoardCfginfoEx) (hmask : u.fmask = v.fmask) (d : Fpga) :
    (∀ f, Selected v.fmask f →
      f.Same (readBack u (oicFopsIoctlSetFpgaBdCfginfoEx b (some v) d).2.cfg) v) ↔
    (Selected v.fmask .devid → v.devid >>> 16 = 0) ∧
      ∀ c ∈ (cells v).dropWhile fun c => ¬ Refused b c, d.cfg c.sel = c.octet := by
  rw [← taken_iff b (cells_nodup v), ← (set_eq b v d).2]
  generalize (oicFopsIoctlSetFpgaBdCfginfoEx b (some v) d).2.cfg = mem
  rw [← hmask]
  constructor
  · intro h
    refine ⟨fun hdevid => ((read_of_selected hdevid).mp (h _ hdevid)).2 rfl, fun c hc => ?_⟩
    obtain ⟨f, hsel, i, hi, rfl⟩ := mem_cells.mp hc
    rw [← hmask] at hsel
    exact ((read_of_selected hsel).mp (h f hsel)).1 i hi
  · rintro ⟨hdevid, hall⟩ f hsel
    refine (read_of_selected hsel).mpr ⟨fun i hi => ?_, fun he => hdevid (he ▸ hsel)⟩
    rw [hmask] at hsel
    exact hall _ (mem_cells.mpr ⟨f, hsel, i, hi, rfl⟩)

/-- The call that sets succeeds just when no octet is refused. The fields of the mask are read back just when
devid has no bit from 16 on, and the octets from the first that is refused on were there before. The other
fields of the caller and the other octets of the device stay as they are, and two masks without a bit in
common commute. -/
theorem read_back_iff (b : Build) (v u : BoardCfginfoEx) (d : Fpga) :
    let r := oicFopsIoctlSetFpgaBdCfginfoEx b (some v) d
    (r.1 = 0 ↔ ∀ c ∈ cells v, ¬ Refused b c) ∧
    (∃ u' d', oicFopsIoctlGetFpgaBdCfginfoEx b (some { u with fmask := v.fmask }) r.2 = (0, some u', d') ∧
      ((∀ f, Selected v.fmask f → f.Same u' v) ↔ (Selected v.fmask .devid → v.devid >>> 16 = 0) ∧
        ∀ c ∈ (cells v).dropWhile fun c => ¬ Refused b c, d.cfg c.sel = c.octet) ∧
      ∀ f, ¬ Selected v.fmask f → f.Same u' u) ∧
    (∀ s, (∀ f, Selected v.fmask f → s ∉ f.sels) → r.2.cfg s = d.cfg s) ∧
    ∀ v', v.fmask &&& v'.fmask = 0 → (oicFopsIoctlSetFpgaBdCfginfoEx b (some v') r.2).2.cfg =
      (oicFopsIoctlSetFpgaBdCfginfoEx b (some v) (oicFopsIoctlSetFpgaBdCfginfoEx b (some v') d).2).2.cfg := by
  intro r
  obtain ⟨hrc, hcfg⟩ : (r.1 = 0 ↔ _) ∧ r.2.cfg = _ := set_eq b v d
  have hread : ∀ u, u.fmask = v.fmask → ((∀ f, Selected v.fmask f → f.Same (readBack u r.2.cfg) v) ↔ _) :=
    fun u hmask => readBack_iff b v hmask d
  clear_value r
  refine ⟨hrc, ?_, ?_, ?_⟩
  · obtain ⟨d', hget⟩ := get_eq b { u with fmask := v.fmask } r.2
    refine ⟨readBack { u with fmask := v.fmask } r.2.cfg, d', hget, hread _ rfl, fun f hsel => ?_⟩
    have hcaller := @read_of_unselected { u with fmask := v.fmask } f r.2.cfg hsel
    cases f <;> exact hcaller
  · intro s hs
    refine (congrFun hcfg s).trans (store_of_not_mem _ fun hmem => ?_)
    obtain ⟨c, hc, rfl⟩ := List.mem_map.mp (taken_sels hmem)
    obtain ⟨f, hsel, i, hi, rfl⟩ := mem_cells.mp hc
    exact hs f hsel (sel_mem f hi)
  · intro v' hmask
    rw [(set_eq b v' r.2).2, (set_eq b v _).2, (set_eq b v' d).2, hcfg]
    apply store_comm
    exact fun s hs hs' => cells_apart hmask (taken_sels hs) (taken_sels hs')

def cfginfo (devid : BitVec 32) : BoardCfginfoEx :=
  ⟨.replicate 6 0, .replicate 6 0, 0, 0, 0, 0, 0, devid, FMASK_DEVID⟩

/-- Half of a device id is lost. -/
theorem devid_cut : ¬ ∀ (b : Build) (v u : BoardCfginfoEx) (d : Fpga), ∃ u' d',
    oicFopsIoctlGetFpgaBdCfginfoEx b (some { u with fmask := v.fmask })
      (oicFopsIoctlSetFpgaBdCfginfoEx b (some v) d).2 = (0, some u', d') ∧
    ∀ f, Selected v.fmask f → f.Same u' v := by
  intro h
  obtain ⟨u', d', hget, hsame⟩ := h ⟨true, false⟩ (cfginfo 0x10000) (cfginfo 0) ⟨fun _ => 0, fun _ => 0⟩
  obtain ⟨d'', hget'⟩ := get_eq ⟨true, false⟩ { cfginfo 0 with fmask := FMASK_DEVID }
    (oicFopsIoctlSetFpgaBdCfginfoEx ⟨true, false⟩ (some (cfginfo 0x10000)) ⟨fun _ => 0, fun _ => 0⟩).2
  obtain rfl := Option.some.inj (Prod.mk.inj (Prod.mk.inj (hget.symm.trans hget')).2).1
  have hhigh := ((readBack_iff ⟨true, false⟩ (cfginfo 0x10000) rfl _).mp hsame).1
  exact absurd (hhigh (by decide)) (by decide)

end OiAmc.BdCfginfo

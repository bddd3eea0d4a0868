import OiAmc.BdCfginfo

/-! The board configuration behind the registers of the FPGA driver. -/

namespace OiAmc.FpgadrvCfg

open Function WriteList
open BdCfginfo (Reg Fpga poke poke_self poke_cfg poke_reg poke_rise poke_read ok_bind error_bind ofInt_octet)

/-- struct bd_cfg_info, with its chars as octets. -/
structure BdCfgInfo where
  dstmac : Fin 6 → UInt8
  srcmac : Fin 6 → UInt8
  ethtype : BitVec 32
  slot : UInt8
  mask : UInt8

/-- Whether char has a sign, and what a register reads after an octet was written to it. -/
structure Board where
  charSigned : Bool
  reads : Reg → UInt8 → UInt8

def Board.Takes (b : Board) (r : Reg) (o : UInt8) : Prop := b.reads r o = o

def char (charSigned : Bool) (o : UInt8) : Int :=
  if charSigned ∧ 0x80 ≤ o.toNat then o.toNat - 0x100 else o.toNat

variable (b : Board)

/-- `__raw_writeb(val, addr); ret = __raw_readb(addr);` and the comparison of ret, an int. -/
def rawCheck (r : Reg) (val : Int) (d : Fpga) : Except Fpga Fpga :=
  let d := poke r (.ofInt val) d
  if ((b.reads r (d.reg r)).toNat : Int) = val then .ok d else .error d

def fpgadrvBoardCfgWrIf (ad data : UInt8) (d : Fpga) : Int × Fpga :=
  match rawCheck b .itr (char b.charSigned ad) d >>= fun d =>
      rawCheck b .wvr (char b.charSigned data) d >>= fun d =>
      rawCheck b .wer 0 d >>= fun d => rawCheck b .wer 1 d with
  | .ok d => (0, d)
  | .error d => (-1, d)

def fpgadrvBoardCfgRdIf (ad : UInt8) (d : Fpga) : Except Fpga (UInt8 × Fpga) :=
  rawCheck b .itr (char b.charSigned ad) d >>= fun d =>
  rawCheck b .rer 0 d >>= fun d =>
  rawCheck b .rer 1 d >>= fun d => .ok (b.reads .rvr (d.reg .rvr), d)

/-- `ethtype << 8 | ethtype`, each time from a char. -/
def typeOf (charSigned : Bool) (high low : UInt8) : BitVec 32 :=
  BitVec.ofInt 32 (char charSigned high) <<< 8 ||| BitVec.ofInt 32 (char charSigned low)

def readMac (first : UInt8) (mac : Fin 6 → UInt8) (d : Fpga) : Except Fpga ((Fin 6 → UInt8) × Fpga) :=
  (List.finRange 6).foldlM (fun (mac, d) i => fpgadrvBoardCfgRdIf b (.ofNat i.val + first) d >>= fun (o, d) =>
    .ok (update mac i o, d)) (mac, d)

/-- The structure starts with what its memory holds. -/
def fpgadrvctlReadBoardCfgInfo (memory : BdCfgInfo) (d : Fpga) : Except Fpga (BdCfgInfo × Fpga) :=
  readMac b 0x00 memory.dstmac d >>= fun (dstmac, d) =>
  readMac b 0x10 memory.srcmac d >>= fun (srcmac, d) =>
  fpgadrvBoardCfgRdIf b 0x20 d >>= fun (high, d) =>
  fpgadrvBoardCfgRdIf b 0x21 d >>= fun (low, d) =>
  fpgadrvBoardCfgRdIf b 0x30 d >>= fun (slot, d) =>
  .ok (⟨dstmac, srcmac, typeOf b.charSigned high low, slot, 0x0f⟩, d)

def typeOctet (ethtype : BitVec 32) (i : Nat) : UInt8 := .ofBitVec ((ethtype >>> (8 * i)).setWidth 8)

def writeMac (first : UInt8) (mac : Fin 6 → UInt8) (d : Fpga) : Fpga :=
  (List.finRange 6).foldl (fun d i => (fpgadrvBoardCfgWrIf b (.ofNat i.val + first) (mac i) d).2) d

def fpgadrvctlWriteBoardCfgInfo (bdinfo : BdCfgInfo) (d : Fpga) : Int × Fpga :=
  let d := if bdinfo.mask &&& 0x01 ≠ 0 then writeMac b 0x00 bdinfo.dstmac d else d
  let d := if bdinfo.mask &&& 0x02 ≠ 0 then writeMac b 0x10 bdinfo.srcmac d else d
  let d := if bdinfo.mask &&& 0x04 ≠ 0 then
      let d := (fpgadrvBoardCfgWrIf b 0x20 (typeOctet bdinfo.ethtype 1) d).2
      (fpgadrvBoardCfgWrIf b 0x21 (typeOctet bdinfo.ethtype 0) d).2
    else d
  let d := if bdinfo.mask &&& 0x08 ≠ 0 then (fpgadrvBoardCfgWrIf b 0x30 bdinfo.slot d).2 else d
  (0, d)

inductive Field
  | dstmac | srcmac | ethtype | slot
  deriving DecidableEq

def Field.all : List Field := [.dstmac, .srcmac, .ethtype, .slot]

def Field.flag : Field → UInt8
  | .dstmac => 0x01
  | .srcmac => 0x02
  | .ethtype => 0x04
  | .slot => 0x08

def Field.octets : Field → BdCfgInfo → List (UInt8 × UInt8)
  | .dstmac, v => (List.finRange 6).map fun i => (.ofNat i.val + 0x00, v.dstmac i)
  | .srcmac, v => (List.finRange 6).map fun i => (.ofNat i.val + 0x10, v.srcmac i)
  | .ethtype, v => [(0x20, typeOctet v.ethtype 1), (0x21, typeOctet v.ethtype 0)]
  | .slot, v => [(0x30, v.slot)]

def Selected (v : BdCfgInfo) (f : Field) : Prop := v.mask &&& f.flag ≠ 0

instance (v : BdCfgInfo) (f : Field) : Decidable (Selected v f) := inferInstanceAs (Decidable (_ ≠ _))

def writes (v : BdCfgInfo) : List (UInt8 × UInt8) :=
  Field.all.flatMap fun f => if Selected v f then f.octets v else []

/-- A char with a sign is never the int that is read. -/
def Refused (charSigned : Bool) (o : UInt8) : Prop := charSigned ∧ 0x80 ≤ o.toNat

instance (charSigned : Bool) (o : UInt8) : Decidable (Refused charSigned o) :=
  inferInstanceAs (Decidable (_ ∧ _))

/-- What is stored at an address for an octet that is written there. -/
def stored (charSigned : Bool) (cfg : UInt8 → UInt8) (w : UInt8 × UInt8) : UInt8 :=
  if Refused charSigned w.2 then cfg w.1 else w.2

section Device

variable {b : Board} {charSigned : Bool} {d : Fpga} {o sel : UInt8}

theorem ofInt_char (charSigned : Bool) (o : UInt8) : UInt8.ofInt (char charSigned o) = o := by
  apply ofInt_octet
  have h := o.toNat_lt
  rw [char]
  split
  · omega
  · omega

theorem char_eq (charSigned : Bool) (o : UInt8) :
    char charSigned o = if Refused charSigned o then (o.toNat : Int) - 0x100 else o.toNat := rfl

theorem rawCheck_char (r : Reg) (htakes : b.Takes r o) (d : Fpga) :
    rawCheck b r (char b.charSigned o) d =
      if Refused b.charSigned o then .error (poke r o d) else .ok (poke r o d) := by
  have h := o.toNat_lt
  have htakes : b.reads r o = o := htakes
  rw [rawCheck, ofInt_char]
  simp only [poke_self, htakes]
  by_cases hrefused : Refused b.charSigned o
  · have hne : ¬ (o.toNat : Int) = char b.charSigned o := by
      rw [char_eq, if_pos hrefused]
      omega
    rw [if_pos hrefused, if_neg hne]
  · have heq : (o.toNat : Int) = char b.charSigned o := by
      rw [char_eq, if_neg hrefused]
    rw [if_neg hrefused, if_pos heq]

theorem rawCheck_strobe (r : Reg) (htakes : b.Takes r o) (ho : o.toNat < 0x80) (d : Fpga) :
    rawCheck b r o.toNat d = .ok (poke r o d) := by
  have hplain : ¬ Refused b.charSigned o := fun h => Nat.not_lt_of_le h.2 ho
  have hchar : char b.charSigned o = o.toNat := if_neg hplain
  rw [← hchar, rawCheck_char r htakes, if_neg hplain]

variable (hb : ∀ r o, b.Takes r o)

include hb

theorem wrIf_cfg (hsel : sel.toNat < 0x80) (o : UInt8) (d : Fpga) :
    (fpgadrvBoardCfgWrIf b sel o d).2.cfg =
      if Refused b.charSigned o then d.cfg else update d.cfg sel o := by
  have hplain : ¬ Refused b.charSigned sel := fun h => Nat.not_lt_of_le h.2 hsel
  have hzero := rawCheck_strobe .wer (hb .wer 0) (by decide : (0 : UInt8).toNat < 0x80)
  have hone := rawCheck_strobe .wer (hb .wer 1) (by decide : (1 : UInt8).toNat < 0x80)
  simp only [fpgadrvBoardCfgWrIf, rawCheck_char _ (hb _ _), if_neg hplain, ok_bind]
  by_cases hrefused : Refused b.charSigned o
  · simp only [if_pos hrefused, error_bind]
    rw [poke_cfg (by simp), poke_cfg (by simp)]
  · simp only [if_neg hrefused, ok_bind]
    simp only [show (0 : Int) = ((0 : UInt8).toNat : Int) from rfl,
      show (1 : Int) = ((1 : UInt8).toNat : Int) from rfl, hzero, hone, ok_bind]
    rw [poke_rise (poke_self _ _ _), poke_cfg (by simp), poke_cfg (by simp), poke_cfg (by simp),
      poke_reg (by simp), poke_reg (by simp), poke_reg (by simp)]
    rw [update_of_ne (show Reg.itr ≠ .wer by decide), update_of_ne (show Reg.itr ≠ .wvr by decide), update_self,
      update_of_ne (show Reg.wvr ≠ .wer by decide), update_self]

theorem rdIf_cfg (hsel : sel.toNat < 0x80) (d : Fpga) :
    ∃ d', fpgadrvBoardCfgRdIf b sel d = .ok (d.cfg sel, d') ∧ d'.cfg = d.cfg := by
  have hplain : ¬ Refused b.charSigned sel := fun h => Nat.not_lt_of_le h.2 hsel
  have hzero := rawCheck_strobe .rer (hb .rer 0) (by decide : (0 : UInt8).toNat < 0x80)
  have hone := rawCheck_strobe .rer (hb .rer 1) (by decide : (1 : UInt8).toNat < 0x80)
  have hread : (poke .rer 1 (poke .rer 0 (poke .itr sel d))).reg .rvr = d.cfg sel := by
    rw [poke_read (poke_self _ _ _), poke_cfg (by simp), poke_cfg (by simp), poke_reg (by simp),
      update_of_ne (by decide), poke_self]
  refine ⟨poke .rer 1 (poke .rer 0 (poke .itr sel d)), ?_, ?_⟩
  · rw [fpgadrvBoardCfgRdIf, rawCheck_char _ (hb _ _), if_neg hplain, ok_bind, ← hread]
    simp only [show (0 : Int) = ((0 : UInt8).toNat : Int) from rfl,
      show (1 : Int) = ((1 : UInt8).toNat : Int) from rfl, hzero, hone, ok_bind]
    rw [show b.reads .rvr _ = _ from hb .rvr _]
  · rw [poke_cfg (by simp), poke_cfg (by simp), poke_cfg (by simp)]

theorem writes_cfg {ws : List (UInt8 × UInt8)} (hsels : ∀ w ∈ ws, w.1.toNat < 0x80) (d : Fpga) :
    (ws.foldl (fun d w => (fpgadrvBoardCfgWrIf b w.1 w.2 d).2) d).cfg =
      store d.cfg (ws.filter fun w => ¬ Refused b.charSigned w.2) := by
  induction ws generalizing d with
  | nil => rfl
  | cons w ws ih =>
      obtain ⟨hw, hws⟩ := List.forall_mem_cons.mp hsels
      rw [List.foldl_cons, ih hws, wrIf_cfg hb hw]
      by_cases hrefused : Refused b.charSigned w.2
      · rw [if_pos hrefused, List.filter_cons_of_neg (by simpa using hrefused)]
      · rw [if_neg hrefused, List.filter_cons_of_pos (by simpa using hrefused)]
        rfl

end Device

section Addresses

variable {v : BdCfgInfo} {f g : Field}

def Field.sels : Field → List UInt8
  | .dstmac => [0x00, 0x01, 0x02, 0x03, 0x04, 0x05]
  | .srcmac => [0x10, 0x11, 0x12, 0x13, 0x14, 0x15]
  | .ethtype => [0x20, 0x21]
  | .slot => [0x30]

theorem octets_sels (f : Field) (v : BdCfgInfo) : (f.octets v).map Prod.fst = f.sels := by
  cases f <;> rfl

theorem sels_nodup (f : Field) : f.sels.Nodup := by
  cases f <;> decide

theorem sels_apart (hne : f ≠ g) : List.Disjoint f.sels g.sels := by
  cases f <;> cases g <;> first | exact absurd rfl hne | simp [Field.sels]

theorem sels_lt (f : Field) : ∀ s ∈ f.sels, s.toNat < 0x80 := by
  cases f <;> simp [Field.sels]

theorem mem_writes {w : UInt8 × UInt8} : w ∈ writes v ↔ ∃ f, Selected v f ∧ w ∈ f.octets v := by
  have hall : ∀ f : Field, f ∈ Field.all := by
    intro f
    cases f <;> decide
  rw [writes, List.mem_flatMap]
  constructor
  · rintro ⟨f, -, hw⟩
    split_ifs at hw with hsel
    · exact ⟨f, hsel, hw⟩
    · cases hw
  · rintro ⟨f, hsel, hw⟩
    exact ⟨f, hall f, by rw [if_pos hsel]; exact hw⟩

theorem mem_octets_sel {w : UInt8 × UInt8} (hw : w ∈ f.octets v) : w.1 ∈ f.sels := by
  rw [← octets_sels f v]
  exact List.mem_map_of_mem hw

theorem writes_nodup (v : BdCfgInfo) : ((writes v).map Prod.fst).Nodup := by
  rw [writes, List.map_flatMap, List.nodup_flatMap]
  constructor
  · intro f _
    split_ifs
    · rw [octets_sels]
      exact sels_nodup f
    · exact List.nodup_nil
  · refine List.Pairwise.imp ?_ (by decide : Field.all.Pairwise (· ≠ ·))
    intro f g hne
    simp only [Function.onFun]
    split_ifs
    · rw [octets_sels, octets_sels]
      exact sels_apart hne
    · exact List.disjoint_nil_right _
    · exact List.disjoint_nil_left _
    · exact List.disjoint_nil_left _

theorem writes_lt : ∀ w ∈ writes v, w.1.toNat < 0x80 := by
  intro w hw
  obtain ⟨f, -, hw⟩ := mem_writes.mp hw
  exact sels_lt f _ (mem_octets_sel hw)

theorem foldl_octets {g : Fpga → UInt8 × UInt8 → Fpga} (f : Field) (v : BdCfgInfo) (d : Fpga) :
    (if Selected v f then f.octets v else []).foldl g d =
      if Selected v f then (f.octets v).foldl g d else d := by
  split_ifs
  · rfl
  · rfl

theorem writeMac_eq (b : Board) (first : UInt8) (mac : Fin 6 → UInt8) (d : Fpga) :
    writeMac b first mac d = ((List.finRange 6).map fun i : Fin 6 => (UInt8.ofNat i.val + first, mac i)).foldl
      (fun d w => (fpgadrvBoardCfgWrIf b w.1 w.2 d).2) d := by
  rw [List.foldl_map]
  rfl

theorem write_eq (b : Board) (v : BdCfgInfo) (d : Fpga) : (fpgadrvctlWriteBoardCfgInfo b v d).2 =
    (writes v).foldl (fun d w => (fpgadrvBoardCfgWrIf b w.1 w.2 d).2) d := by
  simp only [writes, Field.all, List.flatMap_cons, List.flatMap_nil, List.append_nil, List.foldl_append,
    foldl_octets]
  simp only [fpgadrvctlWriteBoardCfgInfo, writeMac_eq]
  rfl

end Addresses

section RoundTrip

variable {b : Board} {v u : BdCfgInfo} {f : Field} {d : Fpga} {cfg : UInt8 → UInt8}

theorem cfg_of_selected (hb : ∀ r o, b.Takes r o) (hsel : Selected v f) {w : UInt8 × UInt8}
    (hw : w ∈ f.octets v) :
    (fpgadrvctlWriteBoardCfgInfo b v d).2.cfg w.1 = stored b.charSigned d.cfg w := by
  have hmem : w ∈ writes v := mem_writes.mpr ⟨f, hsel, hw⟩
  rw [write_eq, writes_cfg hb writes_lt, stored]
  by_cases hrefused : Refused b.charSigned w.2
  · rw [if_pos hrefused]
    refine store_of_not_mem _ fun h => ?_
    obtain ⟨w', hw', hkey⟩ := List.mem_map.mp h
    obtain ⟨hmem', hkept⟩ := List.mem_filter.mp hw'
    rw [List.inj_on_of_nodup_map (writes_nodup v) hmem' hmem hkey] at hkept
    exact absurd hrefused (of_decide_eq_true hkept)
  · rw [if_neg hrefused]
    have hsub : List.Sublist ((writes v).filter fun w => ¬ Refused b.charSigned w.2) (writes v) :=
      List.filter_sublist
    exact store_of_mem _ ((writes_nodup v).sublist (hsub.map Prod.fst))
      (List.mem_filter.mpr ⟨hmem, decide_eq_true hrefused⟩)

theorem cfg_of_unselected (hb : ∀ r o, b.Takes r o) (hsel : ¬ Selected v f) {s : UInt8}
    (hs : s ∈ f.sels) : (fpgadrvctlWriteBoardCfgInfo b v d).2.cfg s = d.cfg s := by
  rw [write_eq, writes_cfg hb writes_lt]
  refine store_of_not_mem _ fun h => ?_
  obtain ⟨w, hw, hkey⟩ := List.mem_map.mp h
  obtain ⟨g, hg, hw⟩ := mem_writes.mp (List.mem_filter.mp hw).1
  have hne : f ≠ g := fun he => hsel (he ▸ hg)
  exact sels_apart hne hs (hkey ▸ mem_octets_sel hw)

/-- The structure that a memory is read as. -/
def info (charSigned : Bool) (cfg : UInt8 → UInt8) : BdCfgInfo where
  dstmac i := cfg (UInt8.ofNat i.val + 0x00)
  srcmac i := cfg (UInt8.ofNat i.val + 0x10)
  ethtype := typeOf charSigned (cfg 0x20) (cfg 0x21)
  slot := cfg 0x30
  mask := 0x0f

theorem readMac_eq (hb : ∀ r o, b.Takes r o) (first : UInt8)
    (hfirst : ∀ i : Fin 6, (UInt8.ofNat i.val + first).toNat < 0x80) (mac : Fin 6 → UInt8) (d : Fpga) :
    ∃ d', readMac b first mac d = .ok (fun i => d.cfg (UInt8.ofNat i.val + first), d') ∧ d'.cfg = d.cfg := by
  have hloop (is : List (Fin 6)) (mac : Fin 6 → UInt8) (d : Fpga) : ∃ d',
      is.foldlM (fun (mac, d) i => fpgadrvBoardCfgRdIf b (UInt8.ofNat i.val + first) d >>= fun (o, d) =>
        .ok (update mac i o, d)) (mac, d) =
      .ok (store mac (is.map fun i => (i, d.cfg (UInt8.ofNat i.val + first))), d') ∧ d'.cfg = d.cfg := by
    induction is generalizing mac d with
    | nil => exact ⟨d, rfl, rfl⟩
    | cons i is ih =>
        obtain ⟨d1, h1, hcfg⟩ := rdIf_cfg hb (hfirst i) d
        obtain ⟨d', h', hcfg'⟩ := ih (update mac i (d.cfg (UInt8.ofNat i.val + first))) d1
        refine ⟨d', ?_, hcfg'.trans hcfg⟩
        rw [List.foldlM_cons]
        simp only [h1, ok_bind]
        rw [h', hcfg]
        rfl
  obtain ⟨d', h', hcfg⟩ := hloop (List.finRange 6) mac d
  refine ⟨d', ?_, hcfg⟩
  have hmac : store mac ((List.finRange 6).map fun i => (i, d.cfg (UInt8.ofNat i.val + first))) =
      fun i => d.cfg (UInt8.ofNat i.val + first) := by
    funext i
    refine store_of_mem _ ?_ (List.mem_map_of_mem (List.mem_finRange i))
    rw [List.map_map]
    exact (List.map_id _).symm ▸ List.nodup_finRange 6
  rw [readMac, h', hmac]

theorem read_eq (hb : ∀ r o, b.Takes r o) (memory : BdCfgInfo) (d : Fpga) :
    ∃ d', fpgadrvctlReadBoardCfgInfo b memory d = .ok (info b.charSigned d.cfg, d') ∧ d'.cfg = d.cfg := by
  obtain ⟨d1, h1, hcfg1⟩ := readMac_eq hb 0x00 (by decide) memory.dstmac d
  obtain ⟨d2, h2, hcfg2⟩ := readMac_eq hb 0x10 (by decide) memory.srcmac d1
  obtain ⟨d3, h3, hcfg3⟩ := @rdIf_cfg _ 0x20 hb (by decide) d2
  obtain ⟨d4, h4, hcfg4⟩ := @rdIf_cfg _ 0x21 hb (by decide) d3
  obtain ⟨d5, h5, hcfg5⟩ := @rdIf_cfg _ 0x30 hb (by decide) d4
  refine ⟨d5, ?_, by rw [hcfg5, hcfg4, hcfg3, hcfg2, hcfg1]⟩
  rw [fpgadrvctlReadBoardCfgInfo]
  simp only [h1, h2, h3, h4, h5, ok_bind]
  rw [hcfg4, hcfg3, hcfg2, hcfg1]
  rfl

/-- The fields of the mask are as written, the others as they were stored. -/
structure Kept (v u : BdCfgInfo) (cfg : UInt8 → UInt8) : Prop where
  dstmac : u.dstmac = if Selected v .dstmac then v.dstmac else fun i => cfg (UInt8.ofNat i.val + 0x00)
  srcmac : u.srcmac = if Selected v .srcmac then v.srcmac else fun i => cfg (UInt8.ofNat i.val + 0x10)
  ethtype : u.ethtype = if Selected v .ethtype then v.ethtype else typeOf false (cfg 0x20) (cfg 0x21)
  slot : u.slot = if Selected v .slot then v.slot else cfg 0x30

def TypeStorable (charSigned : Bool) (cfg : UInt8 → UInt8) (ethtype : BitVec 32) : Prop :=
  if charSigned then
    ethtype.toNat < 0x8000 ∧ ethtype.toNat % 0x100 < 0x80 ∨
      0xffff8000 ≤ ethtype.toNat ∧ ethtype.toNat % 0x100 < 0x80 ∧ cfg 0x20 = typeOctet ethtype 1 ∨
      0xffffff80 ≤ ethtype.toNat ∧ cfg 0x21 = typeOctet ethtype 0
  else ethtype.toNat < 0x10000

/-- What a char with a sign does not let through is in the memory already. -/
structure Storable (charSigned : Bool) (cfg : UInt8 → UInt8) (v : BdCfgInfo) : Prop where
  octets : ∀ f, f ≠ .ethtype → Selected v f → ∀ w ∈ f.octets v, Refused charSigned w.2 → cfg w.1 = w.2
  ethtype :
    if Selected v .ethtype then TypeStorable charSigned cfg v.ethtype
    else charSigned → (cfg 0x20).toNat < 0x80 ∧ (cfg 0x21).toNat < 0x80

theorem stored_eq_iff {charSigned : Bool} {w : UInt8 × UInt8} :
    stored charSigned cfg w = w.2 ↔ (Refused charSigned w.2 → cfg w.1 = w.2) := by
  rw [stored]
  split_ifs with hrefused
  · exact ⟨fun h _ => h, fun h => h hrefused⟩
  · exact iff_of_true rfl fun h => absurd h hrefused

theorem char_plain (charSigned : Bool) {o : UInt8} (h : o.toNat < 0x80) : char charSigned o = o.toNat :=
  if_neg fun hrefused => Nat.not_lt_of_le hrefused.2 h

theorem signed_char (o : UInt8) : BitVec.ofInt 32 (char true o) = o.toBitVec.signExtend 32 := by
  have h : char true o = o.toBitVec.toInt := by
    have hlt := o.toNat_lt
    have hval : o.toBitVec.toNat = o.toNat := rfl
    rw [char_eq, BitVec.toInt_eq_toNat_cond, hval]
    by_cases hhigh : 0x80 ≤ o.toNat
    · rw [if_pos ⟨rfl, hhigh⟩, if_neg (by omega)]
      rfl
    · rw [if_neg fun hrefused => hhigh hrefused.2, if_pos (by omega)]
  rw [h]
  rfl

theorem unsigned_char (o : UInt8) : BitVec.ofInt 32 (char false o) = o.toBitVec.setWidth 32 := by
  have h : char false o = (o.toBitVec.toNat : Int) := if_neg fun hs => Bool.false_ne_true hs.1
  rw [h, BitVec.ofInt_natCast, BitVec.ofNat_toNat]

theorem high_iff (o : UInt8) : o.toBitVec.msb = true ↔ 0x80 ≤ o.toNat := by
  rw [BitVec.msb_eq_decide, decide_eq_true_eq]
  rfl

theorem typeOf_top (high low : UInt8) :
    (typeOf true high low).getLsbD 31 = (high.toBitVec.msb || low.toBitVec.msb) := by
  rw [typeOf, signed_char, signed_char, BitVec.getLsbD_or, BitVec.getLsbD_shiftLeft,
    BitVec.getLsbD_signExtend, BitVec.getLsbD_signExtend]
  rfl

theorem typeOf_unsigned_top (high low : UInt8) : (typeOf false high low).getLsbD 31 = false := by
  rw [typeOf, unsigned_char, unsigned_char, BitVec.getLsbD_or, BitVec.getLsbD_shiftLeft,
    BitVec.getLsbD_setWidth, BitVec.getLsbD_setWidth, BitVec.getLsbD_of_ge _ _ (by decide),
    BitVec.getLsbD_of_ge _ _ (by decide)]
  rfl

theorem typeOf_eq_iff {charSigned : Bool} {high low : UInt8} :
    typeOf charSigned high low = typeOf false high low ↔
      (charSigned → high.toNat < 0x80 ∧ low.toNat < 0x80) := by
  cases charSigned with
  | false => exact iff_of_true rfl fun h => absurd h Bool.false_ne_true
  | true =>
      constructor
      · intro h _
        have htop := congrArg (fun x : BitVec 32 => x.getLsbD 31) h
        simp only [typeOf_top, typeOf_unsigned_top] at htop
        obtain ⟨hhigh, hlow⟩ := Bool.or_eq_false_iff.mp htop
        rw [← Bool.not_eq_true, high_iff, Nat.not_le] at hhigh hlow
        exact ⟨hhigh, hlow⟩
      · intro h
        obtain ⟨hhigh, hlow⟩ := h rfl
        rw [typeOf, char_plain _ hhigh, char_plain _ hlow, typeOf, char_plain _ hhigh, char_plain _ hlow]

theorem typeOctet_toNat (ethtype : BitVec 32) (i : Nat) :
    (typeOctet ethtype i).toNat = ethtype.toNat / 2 ^ (8 * i) % 0x100 := by
  rw [typeOctet, UInt8.toNat_ofBitVec, BitVec.toNat_setWidth, BitVec.toNat_ushiftRight, Nat.shiftRight_eq_div_pow]

theorem typeOf_low_high {high low : UInt8} (hlow : 0x80 ≤ low.toNat) :
    (typeOf true high low).toNat = 0xffffff00 + low.toNat := by
  have hmsb := (high_iff low).mpr hlow
  have hcover : typeOf true high low = low.toBitVec.signExtend 32 := by
    rw [typeOf, signed_char, signed_char]
    ext i hi
    rw [BitVec.getElem_or, BitVec.getElem_shiftLeft, BitVec.getElem_signExtend (x := low.toBitVec)]
    by_cases hi8 : i < 8
    · simp [hi8]
    · simp [hi8, hmsb]
  rw [hcover, BitVec.toNat_signExtend, hmsb]
  have h := low.toNat_lt
  simp
  omega

theorem signExtend_toNat (o : UInt8) :
    (o.toBitVec.signExtend 32).toNat = (if 0x80 ≤ o.toNat then 0xffffff00 else 0) + o.toNat := by
  have h := o.toNat_lt
  have hval : (o.toBitVec.setWidth 32).toNat = o.toNat := by
    rw [BitVec.toNat_setWidth, Nat.mod_eq_of_lt (by rw [UInt8.toNat_toBitVec]; omega)]
    rfl
  rw [BitVec.toNat_signExtend, hval, Nat.add_comm]
  simp only [high_iff]

theorem typeOf_low_plain {high low : UInt8} (hlow : low.toNat < 0x80) :
    (typeOf true high low).toNat =
      (if 0x80 ≤ high.toNat then 0xffff0000 else 0) + 0x100 * high.toNat + low.toNat := by
  have hh := high.toNat_lt
  have hsum : (BitVec.ofInt 32 (low.toNat : Int)).toNat = low.toNat := by
    rw [BitVec.ofInt_natCast, BitVec.toNat_ofNat]
    omega
  rw [typeOf, signed_char, char_plain _ hlow, BitVec.toNat_or, BitVec.toNat_shiftLeft, hsum, signExtend_toNat]
  have hshift (a : Nat) : a <<< 8 % 2 ^ 32 = (a % 0x1000000) <<< 8 := by
    rw [Nat.shiftLeft_eq, Nat.shiftLeft_eq]
    omega
  rw [hshift, ← Nat.shiftLeft_add_eq_or_of_lt (by omega : low.toNat < 2 ^ 8), Nat.shiftLeft_eq]
  split_ifs
  · omega
  · omega

theorem typeOf_false_toNat (high low : UInt8) : (typeOf false high low).toNat = 0x100 * high.toNat + low.toNat := by
  have hh := high.toNat_lt
  have hl := low.toNat_lt
  have hval (o : UInt8) : (o.toBitVec.setWidth 32).toNat = o.toNat := by
    have h := o.toNat_lt
    rw [BitVec.toNat_setWidth, Nat.mod_eq_of_lt (by rw [UInt8.toNat_toBitVec]; omega)]
    rfl
  rw [typeOf, unsigned_char, unsigned_char, BitVec.toNat_or, BitVec.toNat_shiftLeft, hval, hval,
    Nat.mod_eq_of_lt (by rw [Nat.shiftLeft_eq]; omega),
    ← Nat.shiftLeft_add_eq_or_of_lt (by omega : low.toNat < 2 ^ 8), Nat.shiftLeft_eq]
  omega

theorem stored_toNat (cfg : UInt8 → UInt8) (w : UInt8 × UInt8) :
    (stored true cfg w).toNat = if 0x80 ≤ w.2.toNat then (cfg w.1).toNat else w.2.toNat := by
  simp only [stored, Refused, true_and]
  split_ifs
  · rfl
  · rfl

theorem typeOf_stored_iff {charSigned : Bool} {cfg : UInt8 → UInt8} {ethtype : BitVec 32} :
    typeOf charSigned (stored charSigned cfg (0x20, typeOctet ethtype 1))
        (stored charSigned cfg (0x21, typeOctet ethtype 0)) = ethtype ↔
      TypeStorable charSigned cfg ethtype := by
  have h1 := typeOctet_toNat ethtype 1
  have h0 := typeOctet_toNat ethtype 0
  have hlt := ethtype.isLt
  rw [TypeStorable, ← BitVec.toNat_inj]
  cases charSigned with
  | false =>
      rw [if_neg Bool.false_ne_true, stored, stored, if_neg fun h => Bool.false_ne_true h.1,
        if_neg fun h => Bool.false_ne_true h.1, typeOf_false_toNat]
      simp only [h1, h0]
      omega
  | true =>
      have hc1 := (cfg 0x20).toNat_lt
      have hc0 := (cfg 0x21).toNat_lt
      have hx := stored_toNat cfg (0x20, typeOctet ethtype 1)
      have hy := stored_toNat cfg (0x21, typeOctet ethtype 0)
      generalize stored true cfg (0x20, typeOctet ethtype 1) = x at hx ⊢
      generalize stored true cfg (0x21, typeOctet ethtype 0) = y at hy ⊢
      simp only [h1, h0, ← UInt8.toNat_inj] at hx hy ⊢
      rw [if_pos trivial]
      -- the low octet decides what the high one is worth
      by_cases hlow : 0x80 ≤ y.toNat
      · rw [typeOf_low_high hlow]
        split_ifs at hx hy <;> omega
      · rw [typeOf_low_plain (Nat.lt_of_not_le hlow)]
        split_ifs at hx hy ⊢ <;> omega

theorem mac_iff (hb : ∀ r o, b.Takes r o) {first : UInt8} {mac : Fin 6 → UInt8}
    (hoctets : f.octets v = (List.finRange 6).map fun i : Fin 6 => (UInt8.ofNat i.val + first, mac i)) :
    ((fun i : Fin 6 => (fpgadrvctlWriteBoardCfgInfo b v d).2.cfg (UInt8.ofNat i.val + first)) =
        if Selected v f then mac else fun i => d.cfg (UInt8.ofNat i.val + first)) ↔
      (Selected v f → ∀ w ∈ f.octets v, Refused b.charSigned w.2 → d.cfg w.1 = w.2) := by
  have hmem (i : Fin 6) : (UInt8.ofNat i.val + first, mac i) ∈ f.octets v := by
    rw [hoctets]
    exact List.mem_map_of_mem (List.mem_finRange i)
  by_cases hsel : Selected v f
  · rw [if_pos hsel, forall_prop_of_true hsel, hoctets, funext_iff]
    simp only [List.forall_mem_map, List.mem_finRange, forall_const]
    refine forall_congr' fun i => ?_
    rw [cfg_of_selected hb hsel (hmem i)]
    exact stored_eq_iff
  · rw [if_neg hsel]
    refine iff_of_true ?_ fun h => absurd h hsel
    funext i
    exact cfg_of_unselected hb hsel (mem_octets_sel (hmem i))

theorem kept_iff (hb : ∀ r o, b.Takes r o) :
    Kept v (info b.charSigned (fpgadrvctlWriteBoardCfgInfo b v d).2.cfg) d.cfg ↔
      Storable b.charSigned d.cfg v := by
  have hdst := mac_iff (d := d) hb (f := .dstmac) (v := v) rfl
  have hsrc := mac_iff (d := d) hb (f := .srcmac) (v := v) rfl
  have hslot : ((fpgadrvctlWriteBoardCfgInfo b v d).2.cfg 0x30 = if Selected v .slot then v.slot else d.cfg 0x30) ↔
      (Selected v .slot → ∀ w ∈ Field.slot.octets v, Refused b.charSigned w.2 → d.cfg w.1 = w.2) := by
    by_cases hsel : Selected v .slot
    · rw [if_pos hsel, forall_prop_of_true hsel,
        cfg_of_selected hb hsel (w := (0x30, v.slot)) (List.mem_singleton_self _)]
      rw [show Field.slot.octets v = [(0x30, v.slot)] from rfl, List.forall_mem_singleton]
      exact stored_eq_iff
    · rw [if_neg hsel]
      exact iff_of_true (cfg_of_unselected hb hsel (List.mem_singleton_self _)) fun h => absurd h hsel
  have htype : (typeOf b.charSigned ((fpgadrvctlWriteBoardCfgInfo b v d).2.cfg 0x20)
        ((fpgadrvctlWriteBoardCfgInfo b v d).2.cfg 0x21) =
        if Selected v .ethtype then v.ethtype else typeOf false (d.cfg 0x20) (d.cfg 0x21)) ↔
      (if Selected v .ethtype then TypeStorable b.charSigned d.cfg v.ethtype
      else b.charSigned → (d.cfg 0x20).toNat < 0x80 ∧ (d.cfg 0x21).toNat < 0x80) := by
    by_cases hsel : Selected v .ethtype
    · rw [if_pos hsel, if_pos hsel,
        cfg_of_selected hb hsel (w := (0x20, typeOctet v.ethtype 1)) List.mem_cons_self,
        cfg_of_selected hb hsel (w := (0x21, typeOctet v.ethtype 0)) (List.mem_cons_of_mem _ List.mem_cons_self)]
      exact typeOf_stored_iff
    · rw [if_neg hsel, if_neg hsel, cfg_of_unselected hb hsel List.mem_cons_self,
        cfg_of_unselected hb hsel (List.mem_cons_of_mem _ List.mem_cons_self)]
      exact typeOf_eq_iff
  constructor
  · intro h
    refine ⟨fun f hf => ?_, htype.mp h.ethtype⟩
    cases f with
    | dstmac => exact hdst.mp h.dstmac
    | srcmac => exact hsrc.mp h.srcmac
    | ethtype => exact absurd rfl hf
    | slot => exact hslot.mp h.slot
  · intro h
    exact ⟨hdst.mpr (h.octets .dstmac (by decide)), hsrc.mpr (h.octets .srcmac (by decide)), htype.mpr h.ethtype,
      hslot.mpr (h.octets .slot (by decide))⟩

/-- Each of the four writes of an octet is read back. -/
def TakesWrite (b : Board) (w : UInt8 × UInt8) : Prop :=
  b.Takes .itr w.1 ∧ b.Takes .wvr w.2 ∧ b.Takes .wer 0 ∧ b.Takes .wer 1

/-- A write and a read give the fields of the mask as written and the others as stored before,
and a write that is not taken is an error. -/
structure RoundTrip (b : Board) (v memory : BdCfgInfo) (d : Fpga) : Prop where
  kept : (∀ r o, b.Takes r o) → ∃ u d',
    fpgadrvctlReadBoardCfgInfo b memory (fpgadrvctlWriteBoardCfgInfo b v d).2 = .ok (u, d') ∧ Kept v u d.cfg
  reported : (∃ w ∈ writes v, ¬ TakesWrite b w) → (fpgadrvctlWriteBoardCfgInfo b v d).1 ≠ 0

theorem kept_read_iff (hb : ∀ r o, b.Takes r o) (memory : BdCfgInfo) :
    (∃ u d', fpgadrvctlReadBoardCfgInfo b memory (fpgadrvctlWriteBoardCfgInfo b v d).2 = .ok (u, d') ∧
      Kept v u d.cfg) ↔ Storable b.charSigned d.cfg v := by
  obtain ⟨d', hread, -⟩ := read_eq hb memory (fpgadrvctlWriteBoardCfgInfo b v d).2
  rw [← kept_iff hb]
  constructor
  · rintro ⟨u, d'', hu, hkept⟩
    rw [hread, Except.ok.injEq, Prod.mk.injEq] at hu
    rw [hu.1]
    exact hkept
  · exact fun hkept => ⟨_, _, hread, hkept⟩

/-- The write never reports an error. -/
theorem board_cfg_round_trip_iff (b : Board) (v memory : BdCfgInfo) (d : Fpga) :
    RoundTrip b v memory d ↔
      ((∀ r o, b.Takes r o) → Storable b.charSigned d.cfg v) ∧ ∀ w ∈ writes v, TakesWrite b w := by
  constructor
  · rintro ⟨hkept, hreported⟩
    refine ⟨fun hb => (kept_read_iff hb memory).mp (hkept hb), fun w hw => ?_⟩
    by_contra hrefused
    exact hreported ⟨w, hw, hrefused⟩ rfl
  · rintro ⟨hstorable, htakes⟩
    refine ⟨fun hb => (kept_read_iff hb memory).mpr (hstorable hb), ?_⟩
    rintro ⟨w, hw, hrefused⟩
    exact absurd (htakes w hw) hrefused

/-- A destination address with top bits, written to a memory of zeros. -/
theorem top_bits_lost : ¬ ∀ (b : Board) (v memory : BdCfgInfo) (d : Fpga), RoundTrip b v memory d := by
  intro h
  let v : BdCfgInfo := ⟨fun _ => 0x80, fun _ => 0, 0, 0, 0x01⟩
  have hstorable := (kept_read_iff (b := ⟨true, fun _ o => o⟩) (fun _ _ => rfl) v).mp
    ((h ⟨true, fun _ o => o⟩ v v ⟨fun _ => 0, fun _ => 0⟩).kept fun _ _ => rfl)
  have hoctet := hstorable.octets .dstmac (by decide) (by decide) (0x00, 0x80) (by decide) (by decide)
  exact absurd hoctet (by decide)

end RoundTrip

end OiAmc.FpgadrvCfg

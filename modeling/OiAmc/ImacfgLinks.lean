import OiAmc.ImacfgSlots
import OiAmc.PartialLists

/-! When every entry of a configuration has a slot and every link names the one of its group. -/

namespace OiAmc.Imacfg

open Cconfig Function Numerals

section

variable (h : CConfig)

/-- The links that a section enters in `linkInGrp`. -/
def sectionNumbers (i : Nat) : List Int :=
  if mode h i = 2 then groupNumbers h i else if mode h i = 1 then tcNumbers h i else []

def Holds (cfg : ImaCfg) : Entry → Nat → Prop
  | .ima i, s => cfg.grpMode s = 2 ∧ cfg.grpCfg s = groupOf h i default
  | .tc phy, s => cfg.grpMode s = 1 ∧ (cfg.grpCfg s).rxLinks 0 = .ofInt phy

def groupLinks (g : CfgImaGrp) : List Nat := rxOf g ++ txOf g

structure Slotted (cfg : ImaCfg) : Prop where
  slots : ∃ slots : List Nat, slots.Perm (List.range cfg.grpNumAll.toNat) ∧
    List.Forall₂ (Holds h cfg) (entries h) slots
  groupNum : cfg.groupNum.toNat = (entries h).countP Entry.isIma
  tcNum : cfg.tcNum.toNat = (entries h).countP fun e => !e.isIma
  sum : cfg.grpNumAll.toNat = cfg.groupNum.toNat + cfg.tcNum.toNat
  links : ∀ s < cfg.grpNumAll.toNat, cfg.grpMode s = 2 →
    ∀ x ∈ groupLinks (cfg.grpCfg s), cfg.linkInGrp x = .ofNat (s + 1)

/-- The sections in front of a group ask for as many slots as they are, a section of no known
mode stands on no slot in use, and their number is lost in an unsigned char. -/
structure InPlace : Prop where
  ima : ∀ i < grpCount h, mode h i = 2 → start h i = i
  unknown : ∀ i < grpCount h, Unknown h i → start h i ≤ i
  wraps : unknowns h (grpCount h) % 256 = 0

/-- No link of a group is listed again by a later section, and all of its transmit links can be
read, unless link 0, which stands for those that are not, is one of its links. -/
def LinksKept : Prop :=
  ∀ i < grpCount h, mode h i = 2 →
    ((∀ v ∈ lines h i "TxLink", (scanTxLink v).isSome) ∨ 0 ∈ groupNumbers h i) ∧
      ∀ x ∈ groupNumbers h i, ∀ k < grpCount h, i < k → x ∉ sectionNumbers h k

end

section

variable {h : CConfig} {i k n p : Nat}

theorem fixed_of_increasing {P : Nat → Prop} {f : Nat → Nat} (hbound : ∀ i, P i → i < n)
    (hmaps : ∀ i, P i → P (f i)) (hlt : ∀ i k, P i → P k → i < k → f i < f k) (hi : P i) :
    f i = i := by
  have hge : ∀ i, P i → i ≤ f i := by
    intro i
    induction i using Nat.strong_induction_on with
    | _ i ih =>
        intro hi
        by_contra hnot
        have hle := ih (f i) (by omega) (hmaps i hi)
        have hlt := hlt (f i) i (hmaps i hi) hi (by omega)
        omega
  have hle : ∀ d i, n - i ≤ d → P i → f i ≤ i := by
    intro d
    induction d with
    | zero =>
        intro i hd hi
        have := hbound i hi
        omega
    | succ d ih =>
        intro i hd hi
        by_contra hnot
        have hle := ih (f i) (by omega) (hmaps i hi)
        have hlt := hlt i (f i) hi (hmaps i hi) (by omega)
        omega
  exact Nat.le_antisymm (hle n i (by omega) hi) (hge i hi)

theorem placed_fillTo (hacc : Accepted h n)
    (hima : ∀ i < n, mode h i = 2 → start h i = i)
    (hunknown : ∀ i < n, Unknown h i → start h i ≤ i) {e : Entry}
    (hp : (entriesTo h n)[p]? = some e) : Holds h (fillTo h n) e p := by
  obtain ⟨hmode, hgrp⟩ := fillTo_slots hacc
  cases e with
  | ima i =>
      obtain ⟨hi, h2, rfl⟩ := ima_position hp
      have hat : tcAt h n i = none := by
        rw [hima i hi h2] at hp
        rw [tcAt, hp]
        rfl
      have hlate : ¬Late h n i := fun hl => by
        have hsome := hl.1
        rw [hat] at hsome
        cases hsome
      rw [hima i hi h2]
      refine ⟨?_, ?_⟩
      · rw [hmode, slotMode, if_neg hlate, if_pos hi, h2]
        rfl
      · rw [hgrp, slotGrp, if_pos ⟨hi, h2, hlate⟩, if_pos ⟨hi, h2⟩]
  | tc phy =>
      have hat : tcAt h n p = some phy := by
        rw [tcAt, hp]
        rfl
      have hne : p < n → mode h p ≠ 2 := fun hpn h2 => by
        rw [← hima p hpn h2] at hp
        rw [ima_entry hpn h2] at hp
        cases hp
      refine ⟨?_, ?_⟩
      · rw [hmode, slotMode]
        split_ifs with hlate hpn
        · rfl
        · have hnot : ¬start h p ≤ p := fun hle =>
            hlate ⟨by rw [hat]; rfl, fun _ => hle⟩
          obtain h2 | h1 | ⟨hu, -⟩ := mode_cases h p
          · exact absurd h2 (hne hpn)
          · rw [h1]
            rfl
          · exact absurd (hunknown p hpn hu) hnot
        · exact absurd ⟨by rw [hat]; rfl, fun hpn' => absurd hpn' hpn⟩ hlate
      · rw [hgrp, slotGrp, if_neg fun hc => hne hc.1 hc.2.1, hat]
        rfl

theorem start_eq_of_held (hacc : Accepted h n)
    (hheld : ∀ s < start h n, ∃ e ∈ entriesTo h n, Holds h (fillTo h n) e s) (hi : i < n)
    (h2 : mode h i = 2) : start h i = i := by
  refine fixed_of_increasing (P := fun i => i < n ∧ mode h i = 2) (fun i hi => hi.1) ?_
    (fun i k hi _ hik => start_lt hi.2 hik) ⟨hi, h2⟩
  rintro i ⟨hi, h2⟩
  obtain ⟨hmode, hgrp⟩ := fillTo_slots hacc
  have hat : tcAt h n (start h i) = none := by
    rw [tcAt, ima_entry hi h2]
    rfl
  obtain ⟨e, he, hholds⟩ := hheld (start h i) (start_lt h2 hi)
  by_contra hnot
  cases e with
  | ima k =>
      obtain ⟨hlt, h2', -⟩ := slotMode_two.mp (hmode ▸ hholds.1)
      exact hnot ⟨hlt, h2'⟩
  | tc phy =>
      obtain ⟨hpos, hphy⟩ := tc_entry hacc he
      have hlink := hholds.2
      rw [hgrp, slotGrp, if_neg (fun hc => hnot ⟨hc.1, hc.2.1⟩), hat, if_neg hnot] at hlink
      have htoNat := toNat_ofInt hpos.le (by have : MAX_LNK_NUM = 256 := rfl; omega)
      rw [← hlink] at htoNat
      have h0 : (default : CfgImaGrp).rxLinks 0 = 0 := rfl
      rw [Option.elim_none, h0, UInt16.toNat_zero] at htoNat
      omega

theorem start_le_of_held (hacc : Accepted h n)
    (hheld : ∀ s < start h n, ∃ e ∈ entriesTo h n, Holds h (fillTo h n) e s) (hi : i < n)
    (hu : Unknown h i) : start h i ≤ i := by
  by_contra hnot
  have hm : mode h i = -1 := by
    obtain h2 | h1 | ⟨-, hm⟩ := mode_cases h i
    · exact absurd h2 hu.2
    · exact absurd h1 hu.1
    · exact hm
  have hmode : (fillTo h n).grpMode i = 255 := by
    rw [(fillTo_slots hacc).1, slotMode, if_neg (fun hl => hnot (hl.2 hi)), if_pos hi, hm]
    rfl
  have hmono := start_mono (h := h) (i := i) (n := n) hi.le
  obtain ⟨e, he, hholds⟩ := hheld i (by omega)
  cases e with
  | ima k =>
      have h255 : (255 : UInt8) = 2 := hmode.symm.trans hholds.1
      exact absurd h255 (by decide)
  | tc phy =>
      have h255 : (255 : UInt8) = 1 := hmode.symm.trans hholds.1
      exact absurd h255 (by decide)

def owner (h : CConfig) (i : Nat) : UInt8 := if mode h i = 2 then .ofNat (i + 1) else LINK_IN_TC

theorem after_linkInGrp (cfg : ImaCfg) :
    (after h i cfg).linkInGrp = filed (sectionNumbers h i) (owner h i) cfg.linkInGrp := by
  obtain h2 | h1 | ⟨hu, hm⟩ := mode_cases h i
  · rw [after_ima h2, sectionNumbers, if_pos h2, owner, if_pos h2]
  · rw [after_tc h1, sectionNumbers, if_neg (by omega), if_pos h1, owner, if_neg (by omega)]
    rfl
  · rw [after_unknown hu hm, sectionNumbers, if_neg hu.2, if_neg hu.1, filed_nil]

theorem ofNat_inj {a b : Nat} (ha : a < 256) (hb : b < 256)
    (hab : UInt8.ofNat a = .ofNat b) : a = b := by
  have hnat := congrArg UInt8.toNat hab
  rw [UInt8.toNat_ofNat', UInt8.toNat_ofNat'] at hnat
  omega

theorem linkInGrp_eq_iff (hslots : ∀ k < n, mode h k = 2 → k < 128) (hi : i < 128) (x : Nat) :
    (fillTo h n).linkInGrp x = .ofNat (i + 1) ↔
      i < n ∧ mode h i = 2 ∧ (x : Int) ∈ groupNumbers h i ∧
        ∀ k < n, i < k → (x : Int) ∉ sectionNumbers h k := by
  induction n with
  | zero =>
      refine ⟨fun h255 => ?_, fun h => absurd h.1 (Nat.not_lt_zero i)⟩
      have := ofNat_inj (a := 255) (by omega) (by omega) h255
      omega
  | succ n ih =>
      have ih := ih fun k hk => hslots k (by omega)
      rw [fillTo, after_linkInGrp, filed]
      by_cases hx : (x : Int) ∈ sectionNumbers h n
      · rw [if_pos hx]
        constructor
        · intro heq
          rw [owner] at heq
          split_ifs at heq with h2
          · have hn := hslots n (by omega) h2
            obtain rfl : n = i := by
              have := ofNat_inj (by omega) (by omega) heq
              omega
            rw [sectionNumbers, if_pos h2] at hx
            exact ⟨Nat.lt_succ_self n, h2, hx, fun k hk hik => by omega⟩
          · have := ofNat_inj (a := 254) (by omega) (by omega) heq
            omega
        · rintro ⟨hin, h2, -, hlater⟩
          obtain rfl : i = n := by
            by_contra hne
            exact hlater n (by omega) (by omega) hx
          rw [owner, if_pos h2]
      · rw [if_neg hx, ih]
        constructor
        · rintro ⟨hin, h2, hmem, hlater⟩
          refine ⟨by omega, h2, hmem, fun k hk hik => ?_⟩
          rcases Nat.lt_succ_iff_lt_or_eq.mp hk with hk | rfl
          · exact hlater k hk hik
          · exact hx
        · rintro ⟨hin, h2, hmem, hlater⟩
          refine ⟨?_, h2, hmem, fun k hk => hlater k (by omega)⟩
          rcases Nat.lt_succ_iff_lt_or_eq.mp hin with hin | rfl
          · exact hin
          · rw [sectionNumbers, if_pos h2] at hx
            exact absurd hmem hx

theorem held_of_slots {cfg : ImaCfg} {n s : Nat} {es : List Entry}
    (hslots : ∃ slots : List Nat, slots.Perm (List.range n) ∧
      List.Forall₂ (Holds h cfg) es slots) (hs : s < n) : ∃ e ∈ es, Holds h cfg e s := by
  obtain ⟨slots, hperm, hall⟩ := hslots
  exact PartialLists.forall₂_mem_right hall (hperm.mem_iff.mpr (List.mem_range.mpr hs))

theorem slots_iff (hacc : Accepted h (grpCount h)) (hroom : (entries h).length ≤ 128) :
    (∃ slots : List Nat,
      slots.Perm (List.range (fillTo h (grpCount h)).grpNumAll.toNat) ∧
        List.Forall₂ (Holds h (fillTo h (grpCount h))) (entries h) slots) ↔ InPlace h := by
  have hlen : (entries h).length = start h (grpCount h) := entriesTo_length (grpCount h)
  have hnum := grpNumAll_eq_iff (h := h) (n := grpCount h) (by omega) rfl
  constructor
  · intro hslots
    have hN : (fillTo h (grpCount h)).grpNumAll.toNat = start h (grpCount h) := by
      obtain ⟨slots, hperm, hall⟩ := hslots
      rw [← hlen, hall.length_eq, hperm.length_eq, List.length_range]
    have hheld : ∀ s < start h (grpCount h), ∃ e ∈ entriesTo h (grpCount h),
        Holds h (fillTo h (grpCount h)) e s := by
      intro s hs
      exact held_of_slots hslots (hN ▸ hs)
    constructor
    · exact fun i hi h2 => start_eq_of_held hacc hheld hi h2
    · exact fun i hi hu => start_le_of_held hacc hheld hi hu
    · exact hnum.mp hN
  · intro hin
    refine ⟨List.range (start h (grpCount h)), ?_, ?_⟩
    · rw [hnum.mpr hin.wraps]
    · rw [List.forall₂_iff_get]
      refine ⟨by rw [hlen, List.length_range], fun p hp hp' => ?_⟩
      rw [List.get_eq_getElem, List.get_eq_getElem, List.getElem_range]
      exact placed_fillTo hacc hin.ima hin.unknown (List.getElem?_eq_getElem hp)

theorem mem_filled {α : Type} {vs : List α} {num : α → Int} (hvs : ∀ v ∈ vs, Linked (num v))
    {n : Nat} (hn : vs.length ≤ n) (x : Nat) :
    (∃ j < n, (filled (vs.map fun v => UInt16.ofInt (num v)) (fun _ => 0) j).toNat = x) ↔
      (x : Int) ∈ vs.map num ∨ x = 0 ∧ vs.length < n := by
  have hnum : ∀ v ∈ vs, (UInt16.ofInt (num v)).toNat = (num v).toNat := by
    intro v hv
    obtain ⟨h0, hlt⟩ := hvs v hv
    exact toNat_ofInt h0 (hlt.trans (by decide))
  constructor
  · rintro ⟨j, hj, hx⟩
    rw [filled, List.getElem?_map] at hx
    cases hv : vs[j]? with
    | none =>
        rw [hv] at hx
        rw [List.getElem?_eq_none_iff] at hv
        exact .inr ⟨hx.symm, by omega⟩
    | some v =>
        have hmem := List.mem_of_getElem? hv
        rw [hv] at hx
        change (UInt16.ofInt (num v)).toNat = x at hx
        rw [hnum v hmem] at hx
        refine .inl (List.mem_map.mpr ⟨v, hmem, ?_⟩)
        have := (hvs v hmem).1
        omega
  · rintro (hx | ⟨rfl, hlt⟩)
    · obtain ⟨v, hmem, hv⟩ := List.mem_map.mp hx
      obtain ⟨j, hj⟩ := List.getElem?_of_mem hmem
      have hjlt := (List.getElem?_eq_some_iff.mp hj).1
      refine ⟨j, by omega, ?_⟩
      rw [filled, List.getElem?_map, hj]
      change (UInt16.ofInt (num v)).toNat = x
      rw [hnum v hmem, hv, Int.toNat_natCast]
    · refine ⟨vs.length, hlt, ?_⟩
      rw [filled, List.getElem?_eq_none (by rw [List.length_map])]
      rfl

def Readable (h : CConfig) (i : Nat) : Prop := ∀ v ∈ lines h i "TxLink", (scanTxLink v).isSome

theorem readable_iff : Readable h i ↔ txGood h i = (lines h i "TxLink").length := by
  rw [txGood, List.findIdx_eq_length]
  simp [Readable]

theorem txGood_le (h : CConfig) (i : Nat) : txGood h i ≤ (lines h i "TxLink").length :=
  List.findIdx_le_length

theorem txRead_length (htx : (lines h i "TxLink").length ≤ IMA_MAX_LINKS_OF_IMA_GRP) :
    (txRead h i).length = txGood h i := by
  have hle := txGood_le h i
  rw [txRead, txSeen, List.take_take, List.length_take, rounds]
  split_ifs <;> omega

theorem rxRead_of_readable (hread : Readable h i)
    (hrx : (lines h i "RxLink").length ≤ IMA_MAX_LINKS_OF_IMA_GRP) :
    (rxRead h i).length = (lines h i "RxLink").length := by
  rw [readable_iff] at hread
  rw [rxRead, List.length_take, rounds, if_neg (by omega)]
  omega

theorem txRead_linked (hlinks : LinksInside h i) : ∀ v ∈ txRead h i, Linked (txNumber v) := by
  intro v hv
  obtain ⟨k, hk⟩ := List.getElem?_of_mem hv
  have hlt := (List.getElem?_eq_some_iff.mp hk).1
  rw [txRead, List.length_take] at hlt
  rw [txRead, List.getElem?_take_of_lt (by omega)] at hk
  have hmem := List.mem_of_getElem? hk
  rw [txSeen, List.getElem?_take] at hk
  split_ifs at hk
  obtain ⟨r, hr⟩ := scan_of_lt (by omega) hk
  exact (hlinks.2 v hmem).2 (by rw [hr]; rfl)

theorem groupNumbers_linked (hlinks : LinksInside h i) : ∀ phy ∈ groupNumbers h i, Linked phy := by
  intro phy hphy
  rcases List.mem_append.mp hphy with hphy | hphy
  · obtain ⟨v, hv, rfl⟩ := List.mem_map.mp hphy
    exact (hlinks.1 v hv).2
  · obtain ⟨v, hv, rfl⟩ := List.mem_map.mp hphy
    exact txRead_linked hlinks v hv

theorem groupOf_phyLink (j : Nat) : ((groupOf h i default).txLinks j).phyLink =
    filled ((txRead h i).map fun v => UInt16.ofInt (txNumber v)) (fun _ => 0) j := by
  change (filled ((txRead h i).map txLinkOf) (fun _ => default) j).phyLink = _
  rw [filled, filled, List.getElem?_map, List.getElem?_map]
  cases (txRead h i)[j]? <;> rfl

theorem groupOf_rxLinks (j : Nat) : (groupOf h i default).rxLinks j =
    filled ((rxRead h i).map fun v => UInt16.ofInt (rxNumber v)) (fun _ => 0) j := by
  have hnone : (withCounts h i default).rxLinks = fun _ => 0 := rfl
  rw [groupOf, withFields, withLinks]
  dsimp only
  rw [hnone]

theorem mem_groupLinks (hcounted : Counted h i) (hlinks : LinksInside h i)
    (hrx : (numRxLinks h i).toNat ≤ IMA_MAX_LINKS_OF_IMA_GRP)
    (htx : (numTxLinks h i).toNat ≤ IMA_MAX_LINKS_OF_IMA_GRP) (x : Nat) :
    x ∈ groupLinks (groupOf h i default) ↔
      (x : Int) ∈ groupNumbers h i ∨ x = 0 ∧ ¬Readable h i := by
  obtain ⟨-, -, hrxLen, htxLen⟩ := hcounted
  have hmemRx := mem_filled (n := (numRxLinks h i).toNat) (fun v hv => (hlinks.1 v hv).2)
    (by rw [hrxLen, rxRead, List.length_take]; omega) x
  have hmemTx := mem_filled (n := (numTxLinks h i).toNat) (txRead_linked hlinks)
    (by rw [txRead_length (by omega), htxLen]; exact txGood_le h i) x
  have hrxOf : x ∈ rxOf (groupOf h i default) ↔
      (x : Int) ∈ (rxRead h i).map rxNumber ∨
        x = 0 ∧ (rxRead h i).length < (numRxLinks h i).toNat := by
    rw [← hmemRx, rxOf, List.mem_map]
    simp only [List.mem_range, groupOf_rxLinks]
    rfl
  have htxOf : x ∈ txOf (groupOf h i default) ↔
      (x : Int) ∈ (txRead h i).map txNumber ∨
        x = 0 ∧ (txRead h i).length < (numTxLinks h i).toNat := by
    rw [← hmemTx, txOf, List.mem_map]
    simp only [List.mem_range, groupOf_phyLink]
    rfl
  have hreadTx : (txRead h i).length < (numTxLinks h i).toNat ↔ ¬Readable h i := by
    have hle := txGood_le h i
    rw [readable_iff, txRead_length (by omega)]
    omega
  have hreadRx : (rxRead h i).length < (numRxLinks h i).toNat → ¬Readable h i := by
    intro hlt hread
    rw [rxRead_of_readable hread (by omega)] at hlt
    omega
  rw [groupLinks, List.mem_append, hrxOf, htxOf, hreadTx, groupNumbers, List.mem_append]
  constructor
  · rintro ((hx | ⟨hx, hlt⟩) | hx | hx)
    · exact .inl (.inl hx)
    · exact .inr ⟨hx, hreadRx hlt⟩
    · exact .inl (.inr hx)
    · exact .inr hx
  · rintro ((hx | hx) | hx)
    · exact .inl (.inl hx)
    · exact .inr (.inl hx)
    · exact .inr (.inr hx)

theorem group_slot (hacc : Accepted h (grpCount h)) (hin : InPlace h) (hroom : (entries h).length ≤ 128) (hi : i < grpCount h)
    (h2 : mode h i = 2) :
    i < (fillTo h (grpCount h)).grpNumAll.toNat ∧ i < 128 ∧
      (fillTo h (grpCount h)).grpMode i = 2 ∧
      (fillTo h (grpCount h)).grpCfg i = groupOf h i default := by
  have hlen : (entries h).length = start h (grpCount h) := entriesTo_length (grpCount h)
  have hN := (grpNumAll_eq_iff (h := h) (n := grpCount h) (by omega) rfl).mpr hin.wraps
  have hlt := start_lt h2 hi
  have hstart := hin.ima i hi h2
  have hholds := placed_fillTo hacc hin.ima hin.unknown (ima_entry hi h2)
  rw [hstart] at hholds
  exact ⟨by omega, by omega, hholds⟩

theorem links_iff (hacc : Accepted h (grpCount h)) (hin : InPlace h)
    (hchecked : Checked (fillTo h (grpCount h)).grpNumAll.toNat (fillTo h (grpCount h)).grpMode
      (fillTo h (grpCount h)).grpCfg) (hroom : (entries h).length ≤ 128) :
    (∀ s < (fillTo h (grpCount h)).grpNumAll.toNat, (fillTo h (grpCount h)).grpMode s = 2 →
      ∀ x ∈ groupLinks ((fillTo h (grpCount h)).grpCfg s),
        (fillTo h (grpCount h)).linkInGrp x = .ofNat (s + 1)) ↔ LinksKept h := by
  have hslots : ∀ k < grpCount h, mode h k = 2 → k < 128 :=
    fun k hk h2 => (group_slot hacc hin hroom hk h2).2.1
  -- what the array and the sections say of one group
  have hgroup : ∀ i < grpCount h, mode h i = 2 →
      LinksInside h i ∧ ∀ x : Nat, x ∈ groupLinks ((fillTo h (grpCount h)).grpCfg i) ↔
        (x : Int) ∈ groupNumbers h i ∨ x = 0 ∧ ¬Readable h i := by
    intro i hi h2
    obtain ⟨hlt, -, hmode, hcfg⟩ := group_slot hacc hin hroom hi h2
    have hcounted := hacc.counted hi h2
    have hlinks := (((hacc i hi).1.2.2.1 h2).2 hcounted).1
    have hrx := (hchecked.rxOf hlt).1
    have htx := (hchecked.txOf hlt hmode).1
    rw [hcfg] at hrx htx ⊢
    exact ⟨hlinks, mem_groupLinks hcounted hlinks hrx htx⟩
  constructor
  · intro hall i hi h2
    obtain ⟨hlt, h128, hmode, -⟩ := group_slot hacc hin hroom hi h2
    obtain ⟨hlinks, hmem⟩ := hgroup i hi h2
    have hkept : ∀ x : Nat, x ∈ groupLinks ((fillTo h (grpCount h)).grpCfg i) →
        (x : Int) ∈ groupNumbers h i ∧
          ∀ k < grpCount h, i < k → (x : Int) ∉ sectionNumbers h k := fun x hx =>
      ((linkInGrp_eq_iff hslots h128 x).mp (hall i hlt hmode x hx)).2.2
    constructor
    · by_cases hread : Readable h i
      · exact .inl hread
      · exact .inr (hkept 0 ((hmem 0).mpr (.inr ⟨rfl, hread⟩))).1
    · intro x hx
      obtain ⟨x, rfl⟩ := Int.eq_ofNat_of_zero_le (groupNumbers_linked hlinks x hx).1
      exact (hkept x ((hmem x).mpr (.inl hx))).2
  · intro hkept s hs hmode x hx
    rw [(fillTo_slots hacc).1] at hmode
    obtain ⟨hlt, h2, -⟩ := slotMode_two.mp hmode
    obtain ⟨hread, hlater⟩ := hkept s hlt h2
    have hnumber : (x : Int) ∈ groupNumbers h s := by
      rcases ((hgroup s hlt h2).2 x).mp hx with hx | ⟨rfl, hnot⟩
      · exact hx
      · exact hread.resolve_left hnot
    exact (linkInGrp_eq_iff hslots (hslots s hlt h2) x).mpr ⟨hlt, h2, hnumber, hlater x hnumber⟩

theorem slotted_iff {text : Text} {cfg : ImaCfg} (hload : cfgInitialize text = some h)
    (hok : imacfgLoad h = .ok cfg) (hroom : (entries h).length ≤ 128) :
    Slotted h cfg ↔ InPlace h ∧ LinksKept h := by
  obtain ⟨hacc, rfl, hchecks⟩ := imacfgLoad_ok hload hok
  have hchecked := (checks_ok _).mp hchecks
  have hslots := slots_iff hacc hroom
  constructor
  · intro hs
    have hin := hslots.mp hs.slots
    exact ⟨hin, (links_iff hacc hin hchecked hroom).mp hs.links⟩
  · rintro ⟨hin, hkept⟩
    have hlen : (entries h).length = start h (grpCount h) := entriesTo_length (grpCount h)
    have hN := (grpNumAll_eq_iff (h := h) (n := grpCount h) (by omega) rfl).mpr hin.wraps
    have hsum := (entries h).length_eq_countP_add_countP Entry.isIma
    have hgroup : (fillTo h (grpCount h)).groupNum.toNat = (entries h).countP Entry.isIma := by
      rw [groupNum_fillTo, UInt8.toNat_ofNat']
      exact Nat.mod_eq_of_lt (by rw [← entries]; omega)
    have htc : (fillTo h (grpCount h)).tcNum.toNat = (entries h).countP fun e => !e.isIma := by
      rw [tcNum_fillTo, UInt8.toNat_ofNat']
      exact Nat.mod_eq_of_lt (by rw [← entries]; simp at hsum; omega)
    refine ⟨hslots.mpr hin, hgroup, htc, ?_, (links_iff hacc hin hchecked hroom).mpr hkept⟩
    rw [hgroup, htc, hN, ← hlen]
    simpa using hsum

end

theorem exists_load (text : Text)
    (hload : ((cfgInitialize text).map fun h => (imacfgLoad h).isOk) = some true) :
    ∃ h cfg, cfgInitialize text = some h ∧ imacfgLoad h = .ok cfg := by
  obtain ⟨h, hh, hok⟩ := Option.map_eq_some_iff.mp hload
  cases hcfg : imacfgLoad h with
  | error e =>
      rw [hcfg] at hok
      cases hok
  | ok cfg => exact ⟨h, cfg, hh, hcfg⟩

def imaFirst : Text :=
  ("[IMA Group]\nmode = IMA\nRx Links Num = 1\nTx Links Num = 1\nRxLink = 3\n" ++
    "TxLink = 0[1]-3\n[IMA Group]\nmode = TC\nPhyLinkID = 1,2\n").toList

set_option maxRecDepth 4000 in
theorem imaFirst_slotted : ∃ h cfg, cfgInitialize imaFirst = some h ∧ imacfgLoad h = .ok cfg ∧
    (entries h).length = 3 ∧ Slotted h cfg := by
  obtain ⟨h, cfg, hh, hcfg⟩ := exists_load imaFirst (by decide)
  have hplace : ∀ h ∈ cfgInitialize imaFirst, (entries h).length = 3 ∧
      (∀ i < grpCount h, mode h i = 2 → start h i = i) ∧
      (∀ i < grpCount h, Unknown h i → start h i ≤ i) ∧ unknowns h (grpCount h) % 256 = 0 := by
    decide
  have hkept : ∀ h ∈ cfgInitialize imaFirst, ∀ i < grpCount h, mode h i = 2 →
      (∀ v ∈ lines h i "TxLink", (scanTxLink v).isSome) ∧
        ∀ x ∈ groupNumbers h i, ∀ k < grpCount h, i < k → x ∉ sectionNumbers h k := by
    decide
  obtain ⟨hlen, hima, hunknown, hwraps⟩ := hplace h hh
  refine ⟨h, cfg, hh, hcfg, hlen, (slotted_iff hh hcfg (by omega)).mpr ⟨?_, ?_⟩⟩
  · exact ⟨hima, hunknown, hwraps⟩
  · exact fun i hi h2 => ⟨.inl (hkept h hh i hi h2).1, (hkept h hh i hi h2).2⟩

def tcFirst : Text :=
  ("[IMA Group]\nmode = TC\nPhyLinkID = 1,2\n" ++
    "[IMA Group]\nmode = IMA\nRx Links Num = 1\nTx Links Num = 1\nRxLink = 3\n" ++
      "TxLink = 0[1]-3\n").toList

set_option maxRecDepth 4000 in
/-- The group of the second section takes the slot of the second TC link. -/
theorem tcFirst_not_slotted : ¬∀ text h cfg, cfgInitialize text = some h →
    imacfgLoad h = .ok cfg → (entries h).length ≤ 128 → Slotted h cfg := by
  intro hall
  obtain ⟨h, cfg, hh, hcfg⟩ := exists_load tcFirst (by decide)
  have hplace : ∀ h ∈ cfgInitialize tcFirst,
      (entries h).length ≤ 128 ∧ 1 < grpCount h ∧ mode h 1 = 2 ∧ start h 1 ≠ 1 := by
    decide
  obtain ⟨hroom, hcount, h2, hne⟩ := hplace h hh
  have hslotted := hall tcFirst h cfg hh hcfg hroom
  obtain ⟨hacc, rfl, -⟩ := imacfgLoad_ok hh hcfg
  exact hne (((slots_iff hacc hroom).mp hslotted.slots).ima 1 hcount h2)

end OiAmc.Imacfg

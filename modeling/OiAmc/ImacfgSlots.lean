import OiAmc.ImacfgChecks
import OiAmc.ImacfgLoad

/-! Which slots the sections of a configuration get. -/

namespace OiAmc.Imacfg

open Cconfig Function Numerals

/-- A thing that asks for a slot: the group of a section, or a TC link. -/
inductive Entry
  | ima (i : Nat)
  | tc (phy : Int)
  deriving DecidableEq

def Entry.isIma : Entry → Bool
  | ima _ => true
  | tc _ => false

section

variable (h : CConfig)

def entriesOf (i : Nat) : List Entry :=
  if mode h i = 2 then [.ima i] else if mode h i = 1 then (tcNumbers h i).map .tc else []

def entriesTo (n : Nat) : List Entry := (List.range n).flatMap (entriesOf h)

/-- The groups and the TC links of a configuration, as they are listed. -/
def entries : List Entry := entriesTo h (grpCount h)

/-- A section without a mode that is known. -/
def Unknown (i : Nat) : Prop := mode h i ≠ 1 ∧ mode h i ≠ 2

instance (i : Nat) : Decidable (Unknown h i) := inferInstanceAs (Decidable (_ ∧ _))

def unknowns (n : Nat) : Nat := (List.range n).countP fun i => decide (Unknown h i)

end

/-- The TC link that gets a slot. -/
def Entry.phy : Entry → Option Int
  | ima _ => none
  | tc phy => some phy

section

variable (h : CConfig) (n s : Nat)

/-- The TC link of the first sections that gets a slot. -/
def tcAt : Option Int := (entriesTo h n)[s]?.bind Entry.phy

/-- The section whose index is the one of the slot does not come after the TC link. -/
def Late : Prop := (tcAt h n s).isSome ∧ (s < n → start h s ≤ s)

instance : Decidable (Late h n s) := inferInstanceAs (Decidable (_ ∧ _))

def slotMode : UInt8 := if Late h n s then 1 else if s < n then .ofInt (mode h s) else 0

/-- The group of a slot: the one of the section with its index, and the TC link it gets over
it or under it. -/
def slotGrp : CfgImaGrp :=
  let g := if s < n ∧ mode h s = 2 then groupOf h s default else default
  if s < n ∧ mode h s = 2 ∧ ¬Late h n s then g
  else (tcAt h n s).elim g fun phy => tcOf s phy g

end

section

variable {h : CConfig} {i k n p s : Nat}

theorem entriesTo_succ (n : Nat) : entriesTo h (n + 1) = entriesTo h n ++ entriesOf h n := by
  rw [entriesTo, List.range_succ, List.flatMap_append, List.flatMap_singleton]
  rfl

theorem entriesOf_length (i : Nat) : (entriesOf h i).length = width h i := by
  rw [entriesOf, width]
  split_ifs
  · rfl
  · exact List.length_map _
  · rfl

theorem entriesTo_length (n : Nat) : (entriesTo h n).length = start h n := by
  induction n with
  | zero => rfl
  | succ n ih => rw [entriesTo_succ, List.length_append, ih, entriesOf_length, start]

theorem start_mono (hn : i ≤ n) : start h i ≤ start h n := by
  induction n with
  | zero => rw [Nat.le_zero.mp hn]
  | succ n ih =>
      rcases Nat.lt_or_ge i (n + 1) with hlt | hge
      · exact (ih (by omega)).trans (Nat.le_add_right _ _)
      · rw [show i = n + 1 by omega]

theorem start_lt (hi : mode h i = 2) (hik : i < k) : start h i < start h k := by
  have hle := start_mono (h := h) (i := i + 1) (n := k) hik
  rw [start, width, if_pos hi] at hle
  omega

theorem ima_position (hp : (entriesTo h n)[p]? = some (.ima i)) :
    i < n ∧ mode h i = 2 ∧ p = start h i := by
  induction n with
  | zero => simp [entriesTo] at hp
  | succ n ih =>
      rw [entriesTo_succ, List.getElem?_append, entriesTo_length] at hp
      split at hp
      · obtain ⟨hi, hm, hs⟩ := ih hp
        exact ⟨by omega, hm, hs⟩
      · rw [entriesOf] at hp
        split_ifs at hp with h2 h1
        · rw [List.getElem?_singleton] at hp
          split at hp
          · cases hp
            exact ⟨by omega, h2, by omega⟩
          · cases hp
        · rw [List.getElem?_map, Option.map_eq_some_iff] at hp
          obtain ⟨x, -, hx⟩ := hp
          cases hx
        · cases hp

theorem ima_entry (hi : i < n) (h2 : mode h i = 2) :
    (entriesTo h n)[start h i]? = some (.ima i) := by
  induction n with
  | zero => omega
  | succ n ih =>
      rw [entriesTo_succ, List.getElem?_append, entriesTo_length]
      rcases Nat.lt_succ_iff_lt_or_eq.mp hi with hlt | rfl
      · rw [if_pos (start_lt h2 hlt), ih hlt]
      · rw [if_neg (by omega), entriesOf, if_pos h2, Nat.sub_self]
        rfl

theorem mode_cases (h : CConfig) (i : Nat) :
    mode h i = 2 ∨ mode h i = 1 ∨ (Unknown h i ∧ mode h i = -1) := by
  have hm : mode h i = 2 ∨ mode h i = 1 ∨ mode h i = -1 := by
    rw [mode]
    cases value h i "mode" with
    | none => exact .inr (.inr rfl)
    | some v =>
        rw [modeOf]
        split_ifs
        · exact .inl rfl
        · exact .inr (.inl rfl)
        · exact .inr (.inr rfl)
  rw [Unknown]
  omega

theorem after_ima (h2 : mode h i = 2) (cfg : ImaCfg) : after h i cfg =
    { cfg with
      groupNum := cfg.groupNum + 1
      grpMode := update cfg.grpMode i 2
      grpId := update cfg.grpId i cfg.groupNum
      grpCfg := update cfg.grpCfg i (groupOf h i (cfg.grpCfg i))
      linkInGrp := filed (groupNumbers h i) (.ofNat (i + 1)) cfg.linkInGrp } := by
  have hmode : UInt8.ofInt 2 = 2 := rfl
  rw [after, if_pos h2, h2, hmode, withGroup]

theorem after_tc (h1 : mode h i = 1) (cfg : ImaCfg) : after h i cfg =
    { withTcLinks (start h i) (tcNumbers h i) { cfg with grpMode := update cfg.grpMode i 1 } with
      grpNumAll := cfg.grpNumAll + .ofInt ((tcNumbers h i).length - 1) } := by
  rw [after, if_neg (by omega), if_pos h1, h1]
  rfl

theorem after_unknown (hu : Unknown h i) (hm : mode h i = -1) (cfg : ImaCfg) : after h i cfg =
    { cfg with grpMode := update cfg.grpMode i 255 } := by
  rw [after, if_neg hu.2, if_neg hu.1, hm]
  rfl

theorem width_ima (h2 : mode h i = 2) : width h i = 1 := if_pos h2

theorem width_tc (h1 : mode h i = 1) : width h i = (tcNumbers h i).length := by
  rw [width, if_neg (by omega), if_pos h1]

theorem width_unknown (hu : Unknown h i) : width h i = 0 := by
  rw [width, if_neg hu.2, if_neg hu.1]

theorem tcAt_of_ge (hs : start h n ≤ s) : tcAt h n s = none := by
  rw [tcAt, List.getElem?_eq_none (by rwa [entriesTo_length])]
  rfl

theorem tcAt_succ_of_lt (hs : s < start h n) : tcAt h (n + 1) s = tcAt h n s := by
  rw [tcAt, entriesTo_succ, List.getElem?_append_left (by rwa [entriesTo_length])]
  rfl

theorem tcAt_succ_of_ge (hs : start h n ≤ s) :
    tcAt h (n + 1) s = if mode h n = 1 then (tcNumbers h n)[s - start h n]? else none := by
  rw [tcAt, entriesTo_succ, List.getElem?_append_right (by rwa [entriesTo_length]),
    entriesTo_length, entriesOf]
  split_ifs with h2 h1 h1
  · omega
  · cases s - start h n <;> rfl
  · rw [List.getElem?_map]
    cases (tcNumbers h n)[s - start h n]? <;> rfl
  · rfl

theorem late_succ_of_lt (hs : s < start h n) : Late h (n + 1) s ↔ Late h n s ∧ s ≠ n := by
  rw [Late, Late, tcAt_succ_of_lt hs]
  constructor
  · rintro ⟨hsome, hle⟩
    refine ⟨⟨hsome, fun hsn => hle (by omega)⟩, ?_⟩
    rintro rfl
    have := hle (Nat.lt_succ_self s)
    omega
  · rintro ⟨⟨hsome, hle⟩, hne⟩
    exact ⟨hsome, fun hsn => hle (by omega)⟩

theorem late_succ_of_ge (hs : start h n ≤ s) :
    Late h (n + 1) s ↔ mode h n = 1 ∧ s < start h n + width h n := by
  rw [Late, tcAt_succ_of_ge hs]
  constructor
  · rintro ⟨hsome, -⟩
    split_ifs at hsome with h1
    · have hlt : s - start h n < (tcNumbers h n).length := by simpa using hsome
      rw [width_tc h1]
      exact ⟨h1, by omega⟩
    · cases hsome
  · rintro ⟨h1, hlt⟩
    rw [width_tc h1] at hlt
    have hsome : s - start h n < (tcNumbers h n).length := by omega
    rw [if_pos h1]
    exact ⟨by simpa using hsome, fun hsn => (start_mono (by omega)).trans hs⟩

theorem not_late_of_ge (hs : start h n ≤ s) : ¬Late h n s := by
  rintro ⟨hsome, -⟩
  rw [tcAt_of_ge hs] at hsome
  cases hsome

theorem slotMode_succ (n s : Nat) : slotMode h (n + 1) s =
    if mode h n = 1 ∧ start h n ≤ s ∧ s < start h n + width h n then 1
    else update (slotMode h n) n (.ofInt (mode h n)) s := by
  rw [update_apply, slotMode, slotMode]
  rcases Nat.lt_or_ge s (start h n) with hlt | hge
  · rw [if_neg (c := mode h n = 1 ∧ _) (by omega)]
    rcases eq_or_ne s n with rfl | hne
    · rw [if_neg fun hl => ((late_succ_of_lt hlt).mp hl).2 rfl, if_pos (by omega), if_pos rfl]
    · have hlate : Late h (n + 1) s ↔ Late h n s := (late_succ_of_lt hlt).trans (and_iff_left hne)
      have hsn : s < n + 1 ↔ s < n := by omega
      simp only [hlate, hsn, if_neg hne]
  · have hlate : Late h (n + 1) s ↔ mode h n = 1 ∧ start h n ≤ s ∧ s < start h n + width h n := by
      rw [late_succ_of_ge hge]
      tauto
    have hsn : s < n + 1 ↔ s = n ∨ s < n := by omega
    simp only [hlate, if_neg (not_late_of_ge hge), hsn]
    by_cases hnew : mode h n = 1 ∧ start h n ≤ s ∧ s < start h n + width h n
    · rw [if_pos hnew, if_pos hnew]
    · rw [if_neg hnew, if_neg hnew]
      rcases eq_or_ne s n with rfl | hne
      · rw [if_pos (Or.inl rfl), if_pos rfl]
      · rw [if_neg hne]
        exact if_congr (or_iff_right hne) rfl rfl

theorem ofInt_mode_two : UInt8.ofInt (mode h i) = 2 ↔ mode h i = 2 := by
  obtain h2 | h1 | ⟨-, hm⟩ := mode_cases h i
  · rw [h2]
    decide
  · rw [h1]
    decide
  · rw [hm]
    decide

theorem slotMode_two : slotMode h n s = 2 ↔ s < n ∧ mode h s = 2 ∧ ¬Late h n s := by
  rw [slotMode]
  split_ifs with hlate hsn
  · exact ⟨fun h12 => absurd h12 (by decide), fun h => absurd hlate h.2.2⟩
  · rw [ofInt_mode_two]
    exact ⟨fun h2 => ⟨hsn, h2, hlate⟩, fun h => h.2.1⟩
  · exact ⟨fun h02 => absurd h02 (by decide), fun h => absurd h.1 hsn⟩

theorem groupOf_tcOf (hrx : rxRead h i ≠ []) (phy : Int) (g : CfgImaGrp) :
    groupOf h i (tcOf s phy g) = groupOf h i g := by
  have hlinks : filled ((rxRead h i).map fun v => UInt16.ofInt (rxNumber v))
      (update g.rxLinks 0 (.ofInt phy)) =
      filled ((rxRead h i).map fun v => UInt16.ofInt (rxNumber v)) g.rxLinks := by
    obtain ⟨v, vs, hv⟩ := List.exists_cons_of_ne_nil hrx
    funext j
    cases j with
    | zero => rw [filled, filled, hv]; rfl
    | succ j => rfl
  rw [groupOf, groupOf, withLinks, withLinks]
  simp only [withCounts, tcOf, hlinks, withFields]

theorem slotGrp_ima (h2 : mode h n = 2) (hrx : rxRead h n ≠ []) (s : Nat) :
    slotGrp h (n + 1) s = update (slotGrp h n) n (groupOf h n (slotGrp h n n)) s := by
  rcases eq_or_ne s n with rfl | hne
  · have hlate : ¬Late h (s + 1) s := by
      rcases Nat.lt_or_ge s (start h s) with hlt | hge
      · exact fun hl => ((late_succ_of_lt hlt).mp hl).2 rfl
      · exact fun hl => by have := ((late_succ_of_ge hge).mp hl).1; omega
    rw [update_self, slotGrp, slotGrp]
    simp only [if_pos (show s < s + 1 ∧ mode h s = 2 from ⟨Nat.lt_succ_self s, h2⟩),
      if_pos (show s < s + 1 ∧ mode h s = 2 ∧ ¬Late h (s + 1) s from ⟨Nat.lt_succ_self s, h2, hlate⟩),
      lt_irrefl, false_and, if_false]
    cases tcAt h s s with
    | none => rfl
    | some phy => exact (groupOf_tcOf hrx phy default).symm
  · have hat : tcAt h (n + 1) s = tcAt h n s := by
      rcases Nat.lt_or_ge s (start h n) with hlt | hge
      · exact tcAt_succ_of_lt hlt
      · rw [tcAt_succ_of_ge hge, tcAt_of_ge hge, if_neg (by omega)]
    have hsn : s < n + 1 ↔ s < n := by omega
    have hlate : Late h (n + 1) s ↔ Late h n s := by rw [Late, Late, hat, hsn]
    rw [update_of_ne hne, slotGrp, slotGrp]
    simp only [hat, hlate, hsn]

theorem slotGrp_of_tcAt (h2 : mode h n ≠ 2) (hat : tcAt h (n + 1) s = tcAt h n s) :
    slotGrp h (n + 1) s = slotGrp h n s := by
  have hgroup : (s < n + 1 ∧ mode h s = 2) ↔ s < n ∧ mode h s = 2 := by
    constructor
    · rintro ⟨hsn, hs2⟩
      have hne : s ≠ n := by
        rintro rfl
        exact h2 hs2
      exact ⟨by omega, hs2⟩
    · rintro ⟨hsn, hs2⟩
      exact ⟨by omega, hs2⟩
  have hlate : s < n ∧ mode h s = 2 → (Late h (n + 1) s ↔ Late h n s) := by
    rintro ⟨hsn, -⟩
    have hsn' : s < n + 1 := by omega
    rw [Late, Late, hat]
    simp only [hsn, hsn']
  rw [slotGrp, slotGrp]
  simp only [← and_assoc, hgroup, hat]
  by_cases hs : s < n ∧ mode h s = 2
  · simp only [hlate hs]
  · simp only [hs, false_and, if_false]

theorem slotGrp_tc (h1 : mode h n = 1) (s : Nat) : slotGrp h (n + 1) s =
    if start h n ≤ s then
      (tcNumbers h n)[s - start h n]?.elim (slotGrp h n s) fun phy => tcOf s phy (slotGrp h n s)
    else slotGrp h n s := by
  split_ifs with hge
  · have hat := tcAt_succ_of_ge hge
    rw [if_pos h1] at hat
    cases hphy : (tcNumbers h n)[s - start h n]? with
    | none => exact slotGrp_of_tcAt (by omega) (by rw [hat, hphy, tcAt_of_ge hge])
    | some phy =>
        have hlt := (List.getElem?_eq_some_iff.mp hphy).1
        have hlate : Late h (n + 1) s :=
          (late_succ_of_ge hge).mpr ⟨h1, by rw [width_tc h1]; omega⟩
        have hsn : (s < n + 1 ∧ mode h s = 2) ↔ s < n ∧ mode h s = 2 := by
          rcases eq_or_ne s n with rfl | hne
          · simp [h1]
          · omega
        rw [slotGrp, slotGrp]
        simp only [hat, hphy, hlate, hsn, tcAt_of_ge hge, not_true_eq_false, and_false, if_false,
          Option.elim_none, Option.elim_some, ite_self]
  · exact slotGrp_of_tcAt (by omega) (tcAt_succ_of_lt (by omega))

theorem Accepted.counted (hacc : Accepted h n) (hi : i < n) (h2 : mode h i = 2) : Counted h i := by
  by_contra hnot
  exact (hacc i hi).2 (.inl ⟨h2, hnot⟩)

theorem Accepted.rxRead_ne_nil (hacc : Accepted h n) (hi : i < n) (h2 : mode h i = 2) :
    rxRead h i ≠ [] := by
  obtain ⟨hpos, -, hlen, -⟩ := hacc.counted hi h2
  have hrounds := rounds_pos h i
  rw [← List.length_pos_iff, rxRead, List.length_take]
  omega

theorem fillTo_slots (hacc : Accepted h n) :
    (fillTo h n).grpMode = slotMode h n ∧ (fillTo h n).grpCfg = slotGrp h n := by
  induction n with
  | zero => exact ⟨rfl, rfl⟩
  | succ n ih =>
      obtain ⟨ihMode, ihGrp⟩ := ih fun i hi => hacc i (by omega)
      rw [fillTo]
      obtain h2 | h1 | ⟨hu, hm⟩ := mode_cases h n
      · rw [after_ima h2]
        refine ⟨funext fun s => ?_, funext fun s => ?_⟩
        · rw [slotMode_succ, if_neg (by omega), h2, ihMode]
          rfl
        · rw [slotGrp_ima h2 (hacc.rxRead_ne_nil (by omega) h2), ← ihGrp]
      · rw [after_tc h1, withTcLinks]
        refine ⟨funext fun s => ?_, funext fun s => ?_⟩
        · rw [slotMode_succ, ← ihMode, width_tc h1, h1]
          simp only [true_and]
          rfl
        · rw [slotGrp_tc h1, ← ihGrp]
      · rw [after_unknown hu hm]
        refine ⟨funext fun s => ?_, funext fun s => ?_⟩
        · rw [slotMode_succ, if_neg (fun hc => hu.1 hc.1), hm, ihMode]
          rfl
        · rw [ihGrp]
          refine (slotGrp_of_tcAt hu.2 ?_).symm
          rcases Nat.lt_or_ge s (start h n) with hlt | hge
          · exact tcAt_succ_of_lt hlt
          · rw [tcAt_succ_of_ge hge, tcAt_of_ge hge, if_neg hu.1]

theorem toNat_ofInt {x : Int} (h0 : 0 ≤ x) (hx : x < 2 ^ 16) :
    (UInt16.ofInt x).toNat = x.toNat := by
  rw [UInt16.ofInt, Int.emod_eq_of_lt h0 hx, UInt16.toNat_ofNat']
  omega

theorem getNphylink_pos {x : Int} (hx : 0 < x) : 0 < getNphylink x := by
  rw [getNphylink, Int.tdiv_eq_ediv_of_nonneg hx.le]
  omega

theorem tcRead_pos (room : Nat) (p : Text) : ∀ phy ∈ (tcRead room p).1, 0 < phy := by
  induction room generalizing p with
  | zero => exact fun phy hphy => absurd hphy List.not_mem_nil
  | succ room ih =>
      cases p with
      | nil => exact fun phy hphy => absurd hphy List.not_mem_nil
      | cons c p =>
          obtain ⟨n, q, hn⟩ : ∃ n q, strtol 0 (c :: p) = (n, q) := ⟨_, _, rfl⟩
          rw [(tcRead_cons room hn).1]
          split_ifs with hbad
          · exact fun phy hphy => absurd hphy List.not_mem_nil
          · rw [not_or, not_le] at hbad
            exact List.forall_mem_cons.mpr ⟨getNphylink_pos hbad.1, ih _⟩

theorem tc_entry {phy : Int} (hn : Accepted h n) (he : Entry.tc phy ∈ entriesTo h n) :
    0 < phy ∧ phy < MAX_LNK_NUM := by
  obtain ⟨i, hi, he⟩ := List.mem_flatMap.mp he
  rw [entriesOf] at he
  split_ifs at he with h2 h1
  · cases List.mem_singleton.mp he
  · obtain ⟨phy', hphy, hEq⟩ := List.mem_map.mp he
    cases hEq
    exact ⟨tcRead_pos _ _ phy hphy,
      (((hn i (List.mem_range.mp hi)).1.2.2.2 h1).2.1 phy hphy).2⟩
  · cases he

theorem ofInt_natCast (n : Nat) : UInt8.ofInt n = .ofNat n := by
  rw [UInt8.ofInt, ← UInt8.toNat_inj, UInt8.toNat_ofNat', UInt8.toNat_ofNat']
  omega

theorem unknowns_succ (n : Nat) :
    unknowns h (n + 1) = unknowns h n + if Unknown h n then 1 else 0 := by
  rw [unknowns, List.range_succ, List.countP_append, List.countP_singleton]
  simp [unknowns]

/-- Every section counts for one slot, and a list of TC links for one more with each further
link. -/
theorem grpNumAll_fillTo (h : CConfig) (n : Nat) : (fillTo h n).grpNumAll =
    .ofInt (grpCount h + start h n - n + unknowns h n) := by
  induction n with
  | zero =>
      rw [start, unknowns, List.range_zero, List.countP_nil]
      exact (ofInt_natCast (grpCount h)).symm.trans (congrArg UInt8.ofInt (by omega))
  | succ n ih =>
      rw [fillTo, start, unknowns_succ]
      obtain h2 | h1 | ⟨hu, hm⟩ := mode_cases h n
      · rw [after_ima h2, width_ima h2, if_neg fun hu => hu.2 h2]
        exact ih.trans (congrArg UInt8.ofInt (by omega))
      · rw [after_tc h1, width_tc h1, if_neg fun hu => hu.1 h1]
        refine (congrArg (fun g => g + UInt8.ofInt ((tcNumbers h n).length - 1)) ih).trans ?_
        rw [← UInt8.ofInt_add]
        exact congrArg UInt8.ofInt (by omega)
      · rw [after_unknown hu hm, width_unknown hu, if_pos hu]
        exact ih.trans (congrArg UInt8.ofInt (by omega))

theorem groupNum_fillTo (h : CConfig) (n : Nat) :
    (fillTo h n).groupNum = .ofNat ((entriesTo h n).countP Entry.isIma) := by
  induction n with
  | zero => rfl
  | succ n ih =>
      rw [fillTo, entriesTo_succ, List.countP_append, UInt8.ofNat_add, ← ih]
      obtain h2 | h1 | ⟨hu, hm⟩ := mode_cases h n
      · rw [after_ima h2, entriesOf, if_pos h2]
        rfl
      · have hcount : ((tcNumbers h n).map Entry.tc).countP Entry.isIma = 0 := by
          rw [List.countP_map, List.countP_eq_zero]
          exact fun phy _ => Bool.false_ne_true
        rw [after_tc h1, entriesOf, if_neg (by omega), if_pos h1, hcount]
        exact (UInt8.add_zero _).symm
      · rw [after_unknown hu hm, entriesOf, if_neg hu.2, if_neg hu.1]
        exact (UInt8.add_zero _).symm

theorem tcNum_fillTo (h : CConfig) (n : Nat) :
    (fillTo h n).tcNum = .ofNat ((entriesTo h n).countP fun e => !e.isIma) := by
  induction n with
  | zero => rfl
  | succ n ih =>
      rw [fillTo, entriesTo_succ, List.countP_append, UInt8.ofNat_add, ← ih]
      obtain h2 | h1 | ⟨hu, hm⟩ := mode_cases h n
      · rw [after_ima h2, entriesOf, if_pos h2]
        exact (UInt8.add_zero _).symm
      · have hcount : ((tcNumbers h n).map Entry.tc).countP (fun e => !e.isIma) =
            (tcNumbers h n).length := by
          rw [List.countP_map]
          exact List.countP_eq_length.mpr fun phy _ => rfl
        rw [after_tc h1, entriesOf, if_neg (by omega), if_pos h1, hcount]
        rfl
      · rw [after_unknown hu hm, entriesOf, if_neg hu.2, if_neg hu.1]
        exact (UInt8.add_zero _).symm

theorem grpNumAll_eq_iff (hroom : start h n < 256) (hn : grpCount h = n) :
    (fillTo h n).grpNumAll.toNat = start h n ↔ unknowns h n % 256 = 0 := by
  rw [grpNumAll_fillTo, hn, show (n : Int) + start h n - n + unknowns h n =
    ((start h n + unknowns h n : Nat) : Int) by omega, ofInt_natCast, UInt8.toNat_ofNat']
  omega

end

end OiAmc.Imacfg

import Mathlib.Data.List.Nodup
import OiAmc.Imacfg

/-! What the checks of a loaded configuration find out. -/

namespace OiAmc.Imacfg

open Function

def marks (room : Nat) (xs : List Nat) (table : Nat → Bool) : Except Stop (Nat → Bool) :=
  xs.foldlM (mark room) table

section

variable {room : Nat} {table table' : Nat → Bool} {xs : List Nat}

theorem marks_cons (x : Nat) : marks room (x :: xs) table = mark room table x >>= marks room xs :=
  List.foldlM_cons

theorem marks_append (ys : List Nat) :
    marks room (xs ++ ys) table = marks room xs table >>= marks room ys := List.foldlM_append

theorem marks_singleton (x : Nat) : marks room [x] table = mark room table x := by
  rw [marks, List.foldlM_cons]
  simp only [List.foldlM_nil, bind_pure]

theorem mark_eq_outside {x : Nat} : mark room table x = .error .outside ↔ room ≤ x := by
  rw [mark]
  split_ifs with hroom htable
  · simp [hroom]
  · simp [hroom]
  · simp [not_lt.mp hroom]

theorem mark_eq_ok {x : Nat} : mark room table x = .ok table' ↔
    x < room ∧ table x = false ∧ table' = update table x true := by
  rw [mark]
  split_ifs with hroom htable
  · simp [htable]
  · simp [htable, hroom, eq_comm]
  · simp [hroom]

theorem marks_eq_ok : marks room xs table = .ok table' ↔
    (∀ x ∈ xs, x < room) ∧ xs.Nodup ∧ (∀ x ∈ xs, table x = false) ∧
      table' = fun y => table y || decide (y ∈ xs) := by
  induction xs generalizing table with
  | nil =>
      change Except.ok table = .ok table' ↔ _
      rw [Except.ok.injEq, eq_comm]
      simp
  | cons x xs ih =>
      rw [marks_cons]
      constructor
      · intro h
        cases hm : mark room table x with
        | error e =>
            rw [hm] at h
            cases h
        | ok t =>
            rw [hm] at h
            obtain ⟨hroom, hx, rfl⟩ := mark_eq_ok.mp hm
            obtain ⟨hrooms, hnodup, hxs, rfl⟩ := ih.mp h
            have hne : ∀ y ∈ xs, y ≠ x := by
              rintro y hy rfl
              simpa using hxs y hy
            refine ⟨List.forall_mem_cons.mpr ⟨hroom, hrooms⟩,
              List.nodup_cons.mpr ⟨fun hmem => hne x hmem rfl, hnodup⟩,
              List.forall_mem_cons.mpr ⟨hx, fun y hy => ?_⟩, ?_⟩
            · have h := hxs y hy
              rwa [update_of_ne (hne y hy)] at h
            · funext y
              rcases eq_or_ne y x with rfl | hy
              · simp
              · simp [hy]
      · rintro ⟨hroom, hnodup, htable, rfl⟩
        obtain ⟨hx, hroom⟩ := List.forall_mem_cons.mp hroom
        obtain ⟨htx, htable⟩ := List.forall_mem_cons.mp htable
        obtain ⟨hnot, hnodup⟩ := List.nodup_cons.mp hnodup
        rw [mark_eq_ok.mpr ⟨hx, htx, rfl⟩]
        refine ih.mpr ⟨hroom, hnodup, fun y hy => ?_, ?_⟩
        · rw [update_of_ne (by rintro rfl; exact hnot hy)]
          exact htable y hy
        · funext y
          rcases eq_or_ne y x with rfl | hy
          · simp
          · simp [hy]

/-- Marking leaves the table at the first entry that is not in it, if what comes before goes
well. -/
theorem marks_eq_outside : marks room xs table = .error .outside ↔
    ∃ pre x post, xs = pre ++ x :: post ∧ (∃ t, marks room pre table = .ok t) ∧ room ≤ x := by
  induction xs generalizing table with
  | nil =>
      constructor
      · intro h
        cases h
      · rintro ⟨pre, x, post, hxs, -⟩
        simp at hxs
  | cons x xs ih =>
      rw [marks_cons]
      constructor
      · intro h
        cases hm : mark room table x with
        | error e =>
            rw [hm] at h
            obtain rfl : e = .outside := Except.error.inj h
            exact ⟨[], x, xs, rfl, ⟨table, rfl⟩, mark_eq_outside.mp hm⟩
        | ok t =>
            rw [hm] at h
            obtain ⟨pre, y, post, rfl, ⟨t', ht'⟩, hy⟩ := ih.mp h
            refine ⟨x :: pre, y, post, rfl, ⟨t', ?_⟩, hy⟩
            rw [marks_cons, hm]
            exact ht'
      · rintro ⟨pre, y, post, hxs, ⟨t', ht'⟩, hy⟩
        cases pre with
        | nil =>
            obtain ⟨rfl, rfl⟩ := List.cons.inj hxs
            rw [mark_eq_outside.mpr hy]
            rfl
        | cons z pre =>
            obtain ⟨rfl, rfl⟩ := List.cons.inj hxs
            rw [marks_cons] at ht'
            cases hm : mark room table x with
            | error e =>
                rw [hm] at ht'
                cases ht'
            | ok t =>
                rw [hm] at ht'
                exact ih.mpr ⟨pre, y, post, rfl, ⟨t', ht'⟩, hy⟩

/-- Entries that can be marked in an empty table. -/
def Markable (room : Nat) (xs : List Nat) : Prop := (∀ x ∈ xs, x < room) ∧ xs.Nodup

/-- Entries of which one is not in the table, and those in front of it can be marked. -/
def Trips (room : Nat) (xs : List Nat) : Prop :=
  ∃ pre x post, xs = pre ++ x :: post ∧ Markable room pre ∧ room ≤ x

theorem markable_iff : Markable room xs ↔ ∃ t, marks room xs (fun _ => false) = .ok t := by
  constructor
  · rintro ⟨hroom, hnodup⟩
    exact ⟨_, marks_eq_ok.mpr ⟨hroom, hnodup, fun _ _ => rfl, rfl⟩⟩
  · rintro ⟨t, ht⟩
    obtain ⟨hroom, hnodup, -, -⟩ := marks_eq_ok.mp ht
    exact ⟨hroom, hnodup⟩

theorem trips_iff : Trips room xs ↔ marks room xs (fun _ => false) = .error .outside := by
  rw [marks_eq_outside, Trips]
  simp only [markable_iff]

theorem markable_of_not_trips (hnot : ¬Trips room xs) (hnodup : xs.Nodup) : Markable room xs := by
  refine ⟨fun x hx => ?_, hnodup⟩
  by_contra hroom
  cases hf : xs.find? fun y => decide (room ≤ y) with
  | none =>
      have hx := List.find?_eq_none.mp hf x hx
      simp only [decide_eq_true_eq] at hx
      omega
  | some y =>
      obtain ⟨hy, pre, post, rfl, hpre⟩ := List.find?_eq_some_iff_append.mp hf
      refine hnot ⟨pre, y, post, rfl, ⟨fun z hz => ?_, hnodup.of_append_left⟩, by simpa using hy⟩
      simpa using hpre z hz

/-- The entries of an array of 32, where a longer list ends outside of the table. -/
def capped (room : Nat) (xs : List Nat) : List Nat :=
  if xs.length ≤ IMA_MAX_LINKS_OF_IMA_GRP then xs else xs.take IMA_MAX_LINKS_OF_IMA_GRP ++ [room]

theorem markable_capped : Markable room (capped room xs) ↔
    xs.length ≤ IMA_MAX_LINKS_OF_IMA_GRP ∧ Markable room xs := by
  rw [capped]
  split_ifs with hlen
  · exact ⟨fun h => ⟨hlen, h⟩, And.right⟩
  · refine ⟨fun h => absurd (h.1 room (by simp)) (lt_irrefl room), fun h => absurd h.1 hlen⟩

variable {count : Nat} {link : Nat → Nat}

theorem checkLinks_succ : checkLinks room (count + 1) link table =
    checkLinks room count link table >>= fun table =>
      if count < IMA_MAX_LINKS_OF_IMA_GRP then mark room table (link count)
      else .error .outside := by
  rw [checkLinks, List.range_succ, List.foldlM_append]
  simp only [List.foldlM_cons, List.foldlM_nil, bind_pure]
  rfl

theorem capped_succ (hlt : count < IMA_MAX_LINKS_OF_IMA_GRP) :
    capped room ((List.range (count + 1)).map link) =
      capped room ((List.range count).map link) ++ [link count] := by
  have hlen : ((List.range (count + 1)).map link).length = count + 1 := by simp
  have hlen' : ((List.range count).map link).length = count := by simp
  rw [capped, capped, if_pos (by omega), if_pos (by omega), List.range_succ, List.map_append]
  rfl

theorem capped_of_le (hle : IMA_MAX_LINKS_OF_IMA_GRP ≤ count) :
    capped room ((List.range (count + 1)).map link) =
      (List.range IMA_MAX_LINKS_OF_IMA_GRP).map link ++ [room] := by
  have hlen : ((List.range (count + 1)).map link).length = count + 1 := by simp
  rw [capped, if_neg (by omega), ← List.map_take, List.take_range, Nat.min_eq_left (by omega)]

theorem marks_room (xs : List Nat) : marks room (xs ++ [room]) table =
    marks room xs table >>= fun _ => .error .outside := by
  rw [marks_append]
  refine congrArg _ (funext fun table => ?_)
  rw [marks_singleton, mark_eq_outside.mpr le_rfl]

theorem checkLinks_eq : checkLinks room count link table =
    marks room (capped room ((List.range count).map link)) table := by
  induction count with
  | zero => rfl
  | succ count ih =>
      rw [checkLinks_succ, ih]
      rcases Nat.lt_trichotomy count IMA_MAX_LINKS_OF_IMA_GRP with hlt | rfl | hgt
      · rw [capped_succ hlt, marks_append]
        refine congrArg _ (funext fun table => ?_)
        rw [if_pos hlt, marks_singleton]
      · have hlen : ((List.range IMA_MAX_LINKS_OF_IMA_GRP).map link).length =
            IMA_MAX_LINKS_OF_IMA_GRP := by simp
        rw [capped_of_le le_rfl, marks_room, capped, if_pos hlen.le]
        rfl
      · obtain ⟨count, rfl⟩ : ∃ c, count = c + 1 := ⟨count - 1, by omega⟩
        rw [capped_of_le (by omega), capped_of_le (by omega), marks_room]
        cases marks room ((List.range IMA_MAX_LINKS_OF_IMA_GRP).map link) table <;> rfl

theorem foldlM_marks (f : Nat → List Nat) (n : Nat) :
    (List.range n).foldlM (fun table s => marks room (f s) table) table =
      marks room ((List.range n).flatMap f) table := by
  induction n with
  | zero => rfl
  | succ n ih =>
      rw [List.range_succ, List.foldlM_append, ih, List.flatMap_append, List.flatMap_singleton,
        marks_append]
      refine congrArg _ (funext fun table => ?_)
      simp only [List.foldlM_cons, List.foldlM_nil, bind_pure]

end

def rxOf (g : CfgImaGrp) : List Nat :=
  (List.range g.numRxLinks.toNat).map fun j => (g.rxLinks j).toNat

def txOf (g : CfgImaGrp) : List Nat :=
  (List.range g.numTxLinks.toNat).map fun j => (g.txLinks j).phyLink.toNat

def lidOf (g : CfgImaGrp) : List Nat :=
  (List.range g.numTxLinks.toNat).map fun j => (g.txLinks j).lid.toNat

section

variable (n : Nat) (grpMode : Nat → UInt8) (grpCfg : Nat → CfgImaGrp)

/-- The receive links of the first slots, as they are checked. -/
def rxItems : List Nat := (List.range n).flatMap fun s => capped MAX_LNK_NUM (rxOf (grpCfg s))

/-- The transmit links of the groups. -/
def txItems : List Nat := (List.range n).flatMap fun s =>
  if grpMode s = 2 then capped MAX_LNK_NUM (txOf (grpCfg s)) else []

def lidItems (s : Nat) : List Nat :=
  if grpMode s = 2 then capped IMA_MAX_LINKS_OF_IMA_GRP (lidOf (grpCfg s)) else []

structure Checked : Prop where
  rx : Markable MAX_LNK_NUM (rxItems n grpCfg)
  tx : Markable MAX_LNK_NUM (txItems n grpMode grpCfg)
  lids : ∀ s < n, Markable IMA_MAX_LINKS_OF_IMA_GRP (lidItems grpMode grpCfg s)

/-- No check leaves an array before a link that comes again stops it. -/
structure ChecksInside : Prop where
  rx : ¬Trips MAX_LNK_NUM (rxItems n grpCfg)
  tx : (rxItems n grpCfg).Nodup → ¬Trips MAX_LNK_NUM (txItems n grpMode grpCfg)
  lids : (rxItems n grpCfg).Nodup → (txItems n grpMode grpCfg).Nodup →
    ∀ s < n, (∀ t < s, (lidItems grpMode grpCfg t).Nodup) →
      ¬Trips IMA_MAX_LINKS_OF_IMA_GRP (lidItems grpMode grpCfg s)

end

section

variable {n s t : Nat} {grpMode : Nat → UInt8} {grpCfg : Nat → CfgImaGrp}

theorem Markable.of_flatMap {room : Nat} {f : Nat → List Nat}
    (h : Markable room ((List.range n).flatMap f)) (hs : s < n) : Markable room (f s) :=
  ⟨fun x hx => h.1 x (List.mem_flatMap.mpr ⟨s, List.mem_range.mpr hs, hx⟩),
    (List.nodup_flatMap.mp h.2).1 s (List.mem_range.mpr hs)⟩

theorem Checked.rxOf (hc : Checked n grpMode grpCfg) (hs : s < n) :
    (grpCfg s).numRxLinks.toNat ≤ IMA_MAX_LINKS_OF_IMA_GRP ∧
      Markable MAX_LNK_NUM (rxOf (grpCfg s)) := by
  obtain ⟨hle, hm⟩ := markable_capped.mp (hc.rx.of_flatMap hs)
  rw [Imacfg.rxOf, List.length_map, List.length_range] at hle
  exact ⟨hle, hm⟩

theorem Checked.txOf (hc : Checked n grpMode grpCfg) (hs : s < n) (h2 : grpMode s = 2) :
    (grpCfg s).numTxLinks.toNat ≤ IMA_MAX_LINKS_OF_IMA_GRP ∧
      Markable MAX_LNK_NUM (txOf (grpCfg s)) := by
  have hs := hc.tx.of_flatMap hs
  rw [if_pos h2] at hs
  obtain ⟨hle, hm⟩ := markable_capped.mp hs
  rw [Imacfg.txOf, List.length_map, List.length_range] at hle
  exact ⟨hle, hm⟩

end

section

variable (cfg : ImaCfg)

theorem checkRxLinks_eq : checkRxLinks cfg =
    marks MAX_LNK_NUM (rxItems cfg.grpNumAll.toNat cfg.grpCfg) fun _ => false := by
  rw [checkRxLinks, rxItems, ← foldlM_marks]
  simp only [checkLinks_eq]
  rfl

theorem pass_eq (s room count : Nat) (link : Nat → Nat) (table : Nat → Bool) :
    (if cfg.grpMode s ≠ 2 then .ok table else checkLinks room count link table) =
      marks room (if cfg.grpMode s = 2 then capped room ((List.range count).map link) else [])
        table := by
  by_cases hs : cfg.grpMode s = 2
  · rw [if_neg (not_not.mpr hs), if_pos hs, checkLinks_eq]
  · rw [if_pos hs, if_neg hs]
    rfl

theorem checkTxpLinks_eq : checkTxpLinks cfg =
    marks MAX_LNK_NUM (txItems cfg.grpNumAll.toNat cfg.grpMode cfg.grpCfg) fun _ => false := by
  rw [checkTxpLinks, txItems, ← foldlM_marks]
  exact congrFun (congrFun (congrArg _ (funext fun table => funext fun s => pass_eq cfg s _ _ _ _)) _) _

theorem foldlM_apart {σ : Type} {f : σ → Nat → Except Stop σ} {Good Out : Nat → Prop}
    (hgood : ∀ t s, (∃ t', f t s = .ok t') ↔ Good s)
    (hout : ∀ t s, f t s = .error .outside ↔ Out s) (n : Nat) (t : σ) :
    ((∃ t', (List.range n).foldlM f t = .ok t') ↔ ∀ s < n, Good s) ∧
      ((List.range n).foldlM f t = .error .outside ↔ ∃ s < n, (∀ r < s, Good r) ∧ Out s) := by
  induction n with
  | zero => exact ⟨⟨fun _ s hs => by omega, fun _ => ⟨t, rfl⟩⟩, fun h => (by cases h), by simp⟩
  | succ n ih =>
      obtain ⟨ihGood, ihOut⟩ := ih
      rw [List.range_succ, List.foldlM_append]
      simp only [List.foldlM_cons, List.foldlM_nil, bind_pure]
      cases hf : (List.range n).foldlM f t with
      | error e =>
          rw [hf] at ihGood ihOut
          have hbad : ¬∀ s < n, Good s := fun h => by
            obtain ⟨t', ht'⟩ := ihGood.mpr h
            cases ht'
          constructor
          · constructor
            · rintro ⟨t', ht'⟩
              cases ht'
            · exact fun h => absurd (fun s hs => h s (by omega)) hbad
          · constructor
            · intro he
              obtain ⟨s, hs, h⟩ := ihOut.mp he
              exact ⟨s, by omega, h⟩
            · rintro ⟨s, hs, hpre, h⟩
              rcases Nat.lt_succ_iff_lt_or_eq.mp hs with hs | rfl
              · exact ihOut.mpr ⟨s, hs, hpre, h⟩
              · exact absurd hpre hbad
      | ok t' =>
          rw [hf] at ihGood ihOut
          have hpre := ihGood.mp ⟨t', rfl⟩
          constructor
          · refine (hgood t' n).trans ⟨fun h s hs => ?_, fun h => h n (by omega)⟩
            rcases Nat.lt_succ_iff_lt_or_eq.mp hs with hs | rfl
            · exact hpre s hs
            · exact h
          · refine (hout t' n).trans ⟨fun h => ⟨n, by omega, hpre, h⟩, ?_⟩
            rintro ⟨s, hs, hpre', h⟩
            rcases Nat.lt_succ_iff_lt_or_eq.mp hs with hs | rfl
            · exact absurd (ihOut.mpr ⟨s, hs, hpre', h⟩) (fun h => by cases h)
            · exact h

theorem checkTxvLinks_iff :
    ((∃ t, checkTxvLinks cfg = .ok t) ↔ ∀ s < cfg.grpNumAll.toNat,
        Markable IMA_MAX_LINKS_OF_IMA_GRP (lidItems cfg.grpMode cfg.grpCfg s)) ∧
      (checkTxvLinks cfg = .error .outside ↔ ∃ s < cfg.grpNumAll.toNat,
        (∀ r < s, Markable IMA_MAX_LINKS_OF_IMA_GRP (lidItems cfg.grpMode cfg.grpCfg r)) ∧
          Trips IMA_MAX_LINKS_OF_IMA_GRP (lidItems cfg.grpMode cfg.grpCfg s)) := by
  refine foldlM_apart (fun t s => ?_) (fun t s => ?_) _ _
  · by_cases hs : cfg.grpMode s = 2
    · rw [if_neg (not_not.mpr hs), checkLinks_eq, ← markable_iff, lidItems, if_pos hs]
      rfl
    · rw [if_pos hs, lidItems, if_neg hs]
      exact ⟨fun _ => ⟨by simp, List.nodup_nil⟩, fun _ => ⟨t, rfl⟩⟩
  · by_cases hs : cfg.grpMode s = 2
    · rw [if_neg (not_not.mpr hs), checkLinks_eq, ← trips_iff, lidItems, if_pos hs]
      rfl
    · rw [if_pos hs, lidItems, if_neg hs]
      constructor
      · intro h
        cases h
      · rintro ⟨pre, x, post, hnil, -⟩
        simp at hnil

theorem checks_ok : checks cfg = .ok () ↔
    Checked cfg.grpNumAll.toNat cfg.grpMode cfg.grpCfg := by
  have h : checks cfg = .ok () ↔ (∃ t, checkRxLinks cfg = .ok t) ∧
      (∃ t, checkTxpLinks cfg = .ok t) ∧ ∃ t, checkTxvLinks cfg = .ok t := by
    rw [checks]
    cases checkRxLinks cfg <;> cases checkTxpLinks cfg <;> cases checkTxvLinks cfg <;>
      simp [bind, Except.bind, pure, Except.pure]
  rw [h, checkRxLinks_eq, checkTxpLinks_eq, ← markable_iff, ← markable_iff,
    (checkTxvLinks_iff cfg).1]
  exact ⟨fun ⟨hrx, htx, hlids⟩ => ⟨hrx, htx, hlids⟩, fun h => ⟨h.rx, h.tx, h.lids⟩⟩

theorem checks_outside : checks cfg ≠ .error .outside ↔
    ChecksInside cfg.grpNumAll.toNat cfg.grpMode cfg.grpCfg := by
  have h : checks cfg = .error .outside ↔ checkRxLinks cfg = .error .outside ∨
      (∃ t, checkRxLinks cfg = .ok t) ∧ (checkTxpLinks cfg = .error .outside ∨
        (∃ t, checkTxpLinks cfg = .ok t) ∧ checkTxvLinks cfg = .error .outside) := by
    rw [checks]
    cases checkRxLinks cfg <;> cases checkTxpLinks cfg <;> cases checkTxvLinks cfg <;>
      simp [bind, Except.bind, pure, Except.pure]
  rw [ne_eq, h, checkRxLinks_eq, checkTxpLinks_eq, ← markable_iff, ← markable_iff, ← trips_iff,
    ← trips_iff, (checkTxvLinks_iff cfg).2]
  constructor
  · intro hnot
    rw [not_or] at hnot
    obtain ⟨hrx, hnot⟩ := hnot
    have htx : (rxItems cfg.grpNumAll.toNat cfg.grpCfg).Nodup →
        ¬Trips MAX_LNK_NUM (txItems cfg.grpNumAll.toNat cfg.grpMode cfg.grpCfg) :=
      fun hnodup htrips => hnot ⟨markable_of_not_trips hrx hnodup, .inl htrips⟩
    refine ⟨hrx, htx, fun hnodup hnodup' => ?_⟩
    have hlids : ∀ s < cfg.grpNumAll.toNat,
        (∀ r < s, Markable IMA_MAX_LINKS_OF_IMA_GRP (lidItems cfg.grpMode cfg.grpCfg r)) →
          ¬Trips IMA_MAX_LINKS_OF_IMA_GRP (lidItems cfg.grpMode cfg.grpCfg s) :=
      fun s hs hpre htrips => hnot ⟨markable_of_not_trips hrx hnodup,
        .inr ⟨markable_of_not_trips (htx hnodup) hnodup', s, hs, hpre, htrips⟩⟩
    intro s hs hpre
    refine hlids s hs fun r hr => ?_
    induction r using Nat.strong_induction_on with
    | _ r ih =>
        exact markable_of_not_trips (hlids r (by omega) fun q hq => ih q hq (by omega)) (hpre r hr)
  · rintro ⟨hrx, htx, hlids⟩ (h | ⟨hm, h | ⟨hm', s, hs, hpre, h⟩⟩)
    · exact hrx h
    · exact htx hm.2 h
    · exact hlids hm.2 hm'.2 s hs (fun r hr => (hpre r hr).2) h

end

end OiAmc.Imacfg

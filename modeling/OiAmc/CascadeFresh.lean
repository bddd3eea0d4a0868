import OiAmc.CascadeFitting

namespace OiAmc.CascadeFresh

open GotoLoop PartialLists SgfpGroup GrpsmLinks CascadeTry CascadeTrials GreedySegments
open CascadeBatches CascadeRounds CascadeRun CascadeBatching CascadeFitting

def deliveredFrom (outcome : TrialOutcome) : Nat → Nat → Option Counters
  | 0, _ => none
  | left + 1, timeout =>
      match outcome.get timeout with
      | .result counters => some counters
      | .error _ => none
      | .noResult | .unknown => deliveredFrom outcome left (timeout + 1)

def delivered (outcome : TrialOutcome) : Option Counters :=
  if outcome.set ≠ 0 then none else deliveredFrom outcome timeoutMax 0

def FreshGood (settings : Settings) (outcome : TrialOutcome) (k : Nat) : Prop :=
  match delivered outcome with
  | some counters => Good settings (counters k)
  | none => False

instance (settings : Settings) (outcome : TrialOutcome) (k : Nat) :
    Decidable (FreshGood settings outcome k) := by
  unfold FreshGood
  split <;> infer_instance

def fresh (world : World) (trial k : Nat) : Nat :=
  (List.range world.settings.tryCount.toNat).countP fun r =>
    FreshGood world.settings (world.device (trial + r)) k

def stale (world : World) (start : UInt8 × UInt8) (trial k : Nat) : Nat :=
  (List.range world.settings.tryCount.toNat).countP fun r =>
    delivered (world.device (trial + r)) = none ∧
      Good world.settings (shown world.device start trial k (r + 1))

/-- Between the states before and after try, only candidates of a batch change their result, and
one that is successful has enough trials with delivered counters that are good. -/
structure Accepted (world : World) (st st' : TryState) : Prop where
  marked : ∀ (b first : Nat) (groups : List SgroupInfo),
    st'.batches[st.batches.length + b]? = some (first, groups) → ∀ k < groups.length,
      ∀ cfg, st'.cfgs[first + k]? = some cfg → cfg.result = 1 →
        world.settings.validCount.toNat ≤ fresh world (st.trial + b * world.settings.tryCount.toNat) k
  others : ∀ i, (∀ (b first : Nat) (groups : List SgroupInfo),
    st'.batches[st.batches.length + b]? = some (first, groups) → ¬ (first ≤ i ∧ i < first + groups.length)) →
      st'.cfgs[i]? = st.cfgs[i]?

/-- For each candidate of some batches the trials with a good result are enough, or they are not
even together with those that find good counters from before. -/
def Decided (world : World) (batch trial : Nat) (segs : List (List SgroupInfo)) : Prop :=
  ∀ (b : Nat) (seg : List SgroupInfo), segs[b]? = some seg → ∀ k < seg.length,
    let first := trial + b * world.settings.tryCount.toNat
    world.settings.validCount.toNat ≤ fresh world first k ∨
      fresh world first k + stale world (counters (world.fresh (batch + b) k)) first k <
        world.settings.validCount.toNat

variable {α : Type} {world : World} {st st' : TryState} {outcome : TrialOutcome} {tryGroup : List SgroupInfo}
  {batch trial start k : Nat} {segs : List (List SgroupInfo)}

theorem deliveredFrom_written {c : Counters} {left timeout : Nat}
    (h : deliveredFrom outcome left timeout = some c) : writtenFrom outcome left timeout = some c := by
  induction left generalizing timeout with
  | zero => cases h
  | succ left ih =>
      rw [deliveredFrom] at h
      rw [writtenFrom]
      cases hget : outcome.get timeout with
      | result c => rw [hget] at h; exact h
      | noResult => rw [hget] at h; exact ih h
      | unknown => rw [hget] at h; exact ih h
      | error w => rw [hget] at h; cases h

theorem delivered_written {c : Counters} (h : delivered outcome = some c) : written outcome = some c := by
  rw [delivered] at h
  rw [written]
  split at h
  · cases h
  · next hset =>
      rw [if_neg hset]
      exact deliveredFrom_written h

theorem countP_split {p q r : α → Bool} (xs : List α) (h : ∀ x ∈ xs, p x = (q x || r x))
    (hdisj : ∀ x ∈ xs, q x = true → r x = false) : xs.countP p = xs.countP q + xs.countP r := by
  induction xs with
  | nil => rfl
  | cons x xs ih =>
      have htail := ih (fun y hy => h y (List.mem_cons_of_mem _ hy))
        fun y hy => hdisj y (List.mem_cons_of_mem _ hy)
      rw [List.countP_cons, List.countP_cons, List.countP_cons, htail, h x List.mem_cons_self]
      cases hq : q x with
      | true =>
          rw [hdisj x List.mem_cons_self hq]
          exact Nat.add_right_comm _ _ _
      | false => exact Nat.add_assoc _ _ _

theorem counted_eq (world : World) (start : UInt8 × UInt8) (trial k : Nat) :
    counted world start trial k = fresh world trial k + stale world start trial k := by
  refine countP_split _ (fun r _ => ?_) fun r _ hfresh => ?_
  · rw [← Bool.decide_or]
    refine decide_eq_decide.mpr ?_
    rw [FreshGood]
    cases hd : delivered (world.device (trial + r)) with
    | none => exact ⟨fun h => .inr ⟨rfl, h⟩, fun h => h.elim False.elim And.right⟩
    | some c =>
        have hshown : shown world.device start trial k (r + 1) = c k := by
          rw [shown, delivered_written hd]
        rw [hshown]
        exact ⟨.inl, fun h => h.elim id fun h => absurd h.1 (Option.some_ne_none c)⟩
  · refine decide_eq_false fun h => ?_
    have hgood := of_decide_eq_true hfresh
    rw [FreshGood, h.1] at hgood
    exact hgood

theorem judge_getElem? (vs : List Bool) (cfgs : List GroupCfg) (i : Nat) : (judge vs cfgs)[i]? =
    match vs[i]? with
    | some v => cfgs[i]?.map fun cfg => { cfg with result := if v then 1 else 0 }
    | none => cfgs[i]? := by
  induction vs generalizing cfgs i with
  | nil => rw [judge_nil, List.getElem?_nil]
  | cons v vs ih =>
      cases cfgs with
      | nil =>
          change ([] : List GroupCfg)[i]? = _
          rw [List.getElem?_nil]
          split <;> rfl
      | cons cfg cfgs =>
          cases i with
          | zero => rfl
          | succ i => exact ih cfgs i

theorem outcomes_getElem? {b first : Nat} {seg : List SgroupInfo}
    (h : (starts start segs)[b]? = some (first, seg)) (hk : k < seg.length) : ∃ i, first = start + i ∧
      (outcomes world batch trial segs)[i + k]? = some (decide (Success world (batch + b)
        (trial + b * world.settings.tryCount.toNat) k)) := by
  induction segs generalizing batch trial start b with
  | nil => cases h
  | cons seg' segs ih =>
      cases b with
      | zero =>
          obtain ⟨rfl, rfl⟩ := Prod.mk.inj (Option.some.inj h)
          refine ⟨0, rfl, ?_⟩
          have hlt : k < (batchVerdicts world batch trial seg'.length).length := by
            rw [batchVerdicts_length]
            exact hk
          rw [outcomes, Nat.zero_add, List.getElem?_append_left hlt, batchVerdicts, List.getElem?_map,
            List.getElem?_range hk, Nat.zero_mul]
          rfl
      | succ b =>
          obtain ⟨i, rfl, hi⟩ := @ih (batch + 1) (trial + world.settings.tryCount.toNat) _ _ h
          refine ⟨seg'.length + i, Nat.add_assoc _ _ _, ?_⟩
          rw [outcomes, List.getElem?_append_right (by rw [batchVerdicts_length]; omega),
            batchVerdicts_length, Nat.add_assoc, Nat.add_sub_cancel_left, hi, Nat.add_right_comm batch,
            Nat.add_one_mul, Nat.add_assoc trial, Nat.add_comm world.settings.tryCount.toNat]
          rfl

theorem starts_cover {i : Nat} (h : i < segs.flatten.length) : ∃ (b first : Nat) (seg : List SgroupInfo),
    (starts start segs)[b]? = some (first, seg) ∧ first ≤ start + i ∧ start + i < first + seg.length := by
  induction segs generalizing start i with
  | nil => exact absurd h (Nat.not_lt_zero i)
  | cons seg segs ih =>
      rw [List.flatten_cons, List.length_append] at h
      by_cases hi : i < seg.length
      · exact ⟨0, start, seg, rfl, Nat.le_add_right _ _, Nat.add_lt_add_left hi _⟩
      · obtain ⟨b, first, seg', hb, hle, hlt⟩ := @ih (start + seg.length) (i - seg.length) (by omega)
        exact ⟨b + 1, first, seg', hb, by omega, by omega⟩

theorem starts_getElem? (b : Nat) : (starts start segs)[b]?.map Prod.snd = segs[b]? := by
  induction segs generalizing start b with
  | nil => rfl
  | cons seg segs ih =>
      cases b with
      | zero => rfl
      | succ b => exact ih b

theorem accepted_iff_decided {st1 : TryState} {vs : List Bool} (hlen : segs.flatten.length ≤ st.cfgs.length)
    (hvs : vs = outcomes world st.batches.length st.trial segs)
    (hran : Ran 0 [] st.cfgs tryGroup vs segs { st with preTryNum := 0, okflag := false } st1)
    (hidle : Idle st1 st') :
    Accepted world st st' ↔ Decided world st.batches.length st.trial segs := by
  obtain ⟨new, hnew, hall⟩ := hran.batches
  obtain ⟨idle, hmore, hempty⟩ := hidle.batches
  have hlog (b : Nat) : st'.batches[st.batches.length + b]? = (new ++ idle)[b]? := by
    rw [hmore, hnew, List.append_assoc, List.getElem?_append_right (Nat.le_add_right _ _),
      Nat.add_sub_cancel_left]
  have hleft {b : Nat} {log : Nat × List SgroupInfo} (h : new[b]? = some log) :
      st'.batches[st.batches.length + b]? = some log := by
    rw [hlog, List.getElem?_append_left (List.getElem?_eq_some_iff.mp h).1, h]
  have hcfgs : st'.cfgs = judge vs st.cfgs := hidle.cfgs.trans hran.cfgs
  have hlenvs : vs.length = segs.flatten.length := by rw [hvs, outcomes_length]
  have hresult (b first : Nat) (seg : List SgroupInfo) (hb : (starts 0 segs)[b]? = some (first, seg)) (k : Nat)
      (hk : k < seg.length) : ∃ cfg : GroupCfg, st'.cfgs[first + k]? = some { cfg with
        result := if decide (Success world (st.batches.length + b)
          (st.trial + b * world.settings.tryCount.toNat) k) then 1 else 0 } := by
    obtain ⟨i, hi, hverdict⟩ := @outcomes_getElem? world st.batches.length st.trial 0 k segs b first seg hb hk
    rw [← hvs] at hverdict
    have hlt := (List.getElem?_eq_some_iff.mp hverdict).1
    rw [Nat.zero_add] at hi
    subst hi
    refine ⟨st.cfgs[first + k], ?_⟩
    rw [hcfgs, judge_getElem?, hverdict, List.getElem?_eq_getElem (by omega)]
    rfl
  constructor
  · intro h b seg hseg k hk
    have hstart := @starts_getElem? 0 segs b
    rw [hseg] at hstart
    obtain ⟨⟨first, _⟩, hfirst, rfl⟩ := Option.map_eq_some_iff.mp hstart
    obtain ⟨cfg, hcfg⟩ := hresult b first _ hfirst k hk
    obtain ⟨log, hgroups, rfl, hprog⟩ := forall₂_getElem?_left hall hfirst
    by_cases hsucc : Success world (st.batches.length + b)
      (st.trial + b * world.settings.tryCount.toNat) k
    · rw [decide_eq_true hsucc] at hcfg
      exact .inl (h.marked b log.1 log.2 (hleft hgroups) k (hprog.length ▸ hk) _ hcfg rfl)
    · rw [Success, counted_eq, Nat.not_le] at hsucc
      exact .inr hsucc
  · intro hdec
    refine ⟨fun b first groups hb k hk cfg hcfg hone => ?_, fun i hi => ?_⟩
    · have hin : new[b]? = some (first, groups) := by
        rw [hlog] at hb
        by_cases hb' : b < new.length
        · rw [List.getElem?_append_left hb'] at hb
          exact hb
        · rw [List.getElem?_append_right (Nat.not_lt.mp hb')] at hb
          have hnil := hempty _ (List.mem_of_getElem? hb)
          rw [show groups = [] from hnil] at hk
          exact absurd hk (Nat.not_lt_zero k)
      obtain ⟨log, hstart, rfl, hprog⟩ := forall₂_getElem?_right hall hin
      have hk' : k < log.2.length := hprog.length ▸ hk
      obtain ⟨cfg', hcfg'⟩ := hresult b log.1 log.2 hstart k hk'
      obtain rfl := Option.some.inj (hcfg.symm.trans hcfg')
      have hsucc : Success world (st.batches.length + b)
          (st.trial + b * world.settings.tryCount.toNat) k := by
        by_contra hno
        rw [decide_eq_false hno] at hone
        cases hone
      rw [Success, counted_eq] at hsucc
      have hseg := @starts_getElem? 0 segs b
      rw [hstart] at hseg
      exact (hdec b log.2 hseg.symm k hk').resolve_right (Nat.not_lt.mpr hsucc)
    · have hout : vs.length ≤ i := by
        by_contra hin
        obtain ⟨b, first, seg, hb, hle, hlt⟩ := @starts_cover 0 segs i (hlenvs ▸ Nat.not_le.mp hin)
        obtain ⟨log, hgroups, rfl, hprog⟩ := forall₂_getElem?_left hall hb
        rw [Nat.zero_add] at hle hlt
        exact hi b log.1 log.2 (hleft hgroups) ⟨hle, hprog.length ▸ hlt⟩
      rw [hcfgs, judge_getElem?, List.getElem?_eq_none hout]

/-- After any number of rounds try has accessed no memory outside of an array, and accepted
candidates on enough delivered counters only. -/
def Sound (world : World) (tryGroup : List SgroupInfo) (st : TryState) : Prop :=
  ∀ n, ∃ r, rounds (tryRound world tryGroup) n
      (⟨0, 0, 0, 0⟩, { st with preTryNum := 0, okflag := false }) = some r ∧
    Accepted world st (r.elim Prod.snd Prod.snd)

theorem Decided.take (h : Decided world batch trial segs) (n : Nat) :
    Decided world batch trial (segs.take n) := by
  intro b seg hseg
  rw [List.getElem?_take] at hseg
  split at hseg
  · exact h b seg hseg
  · cases hseg

theorem sound_nil : Sound world [] st := by
  have hstay {st' : TryState} (hcfgs : st'.cfgs = st.cfgs) (hbatches : st'.batches = st.batches) :
      Accepted world st st' := by
    refine ⟨fun b first groups hb => ?_, fun i _ => by rw [hcfgs]⟩
    rw [hbatches, List.getElem?_eq_none (Nat.le_add_right _ _)] at hb
    cases hb
  intro n
  cases n with
  | zero => exact ⟨_, rfl, hstay rfl rfl⟩
  | succ n => exact ⟨_, rfl, hstay rfl rfl⟩

theorem decided_of_sound (hload : List.Forall₂ Made st.cfgs tryGroup) (hset : st.set.length = maxGroup)
    (hcount : st.setCount ≤ maxGroup) (hvalid : ∀ j, st.valid j = 0) (h : Sound world tryGroup st) :
    st.setCount + successes world st (fitting tryGroup) ≤ maxGroup ∧
      Decided world st.batches.length st.trial (fittingTried world st tryGroup) := by
  obtain ⟨large, hsplit, hover⟩ := fitting_split tryGroup
  by_cases hnil : tryGroup = []
  · subst hnil
    refine ⟨hcount, fun b seg hseg => ?_⟩
    cases hseg
  rw [fittingTried_successes]
  have hlen := @fittingTried_le world st tryGroup hload
  generalize hall : fittingTried world st tryGroup = all at hlen
  obtain ⟨r, hr, hacc⟩ := h all.length
  obtain ⟨hgo, hstop⟩ := fitting_rounds hload hset hcount hvalid hnil hsplit hover hall.symm
    (Nat.le_refl _) rfl
  rw [List.take_length] at hgo hstop
  have hroom : st.setCount + (outcomes world st.batches.length st.trial all).count true ≤ maxGroup := by
    by_contra hno
    have hnone := hstop hno
    rw [hr] at hnone
    cases hnone
  obtain ⟨st', j, hran, _, hrounds⟩ := hgo hroom
  refine ⟨hroom, (accepted_iff_decided hlen rfl hran (.refl st')).mp ?_⟩
  obtain rfl := Option.some.inj (hr.symm.trans hrounds)
  split at hacc <;> exact hacc

theorem sound_of_decided (hload : List.Forall₂ Made st.cfgs tryGroup) (hset : st.set.length = maxGroup)
    (hcount : st.setCount ≤ maxGroup) (hvalid : ∀ j, st.valid j = 0)
    (hroom : st.setCount + successes world st (fitting tryGroup) ≤ maxGroup)
    (hdec : Decided world st.batches.length st.trial (fittingTried world st tryGroup)) :
    Sound world tryGroup st := by
  obtain ⟨large, hsplit, hover⟩ := fitting_split tryGroup
  by_cases hnil : tryGroup = []
  · subst hnil
    exact sound_nil
  rw [fittingTried_successes] at hroom
  have hlen := @fittingTried_le world st tryGroup hload
  generalize hall : fittingTried world st tryGroup = all at hroom hdec hlen
  have hround {n : Nat} (hn : n ≤ all.length) :=
    fitting_rounds hload hset hcount hvalid hnil hsplit hover hall.symm hn rfl
  intro n
  have hacc {n : Nat} {st1 st' : TryState} (hran : Ran 0 [] st.cfgs (fitting tryGroup)
      (outcomes world st.batches.length st.trial (all.take n)) (all.take n)
      { st with preTryNum := 0, okflag := false } st1) (hidle : Idle st1 st') : Accepted world st st' := by
    refine (accepted_iff_decided ?_ rfl hran hidle).mpr (hdec.take n)
    rw [← List.take_append_drop n all, List.flatten_append, List.length_append] at hlen
    omega
  have hfew (n : Nat) : st.setCount +
      (outcomes world st.batches.length st.trial (all.take n)).count true ≤ maxGroup := by
    rw [← List.take_append_drop n all, outcomes_append, List.count_append] at hroom
    omega
  by_cases hn : n ≤ all.length
  · obtain ⟨st', j, hran, _, hrounds⟩ := (hround hn).1 (hfew n)
    refine ⟨_, hrounds, ?_⟩
    split <;> exact hacc hran (.refl st')
  · obtain ⟨m, rfl⟩ := Nat.exists_eq_add_of_le (Nat.le_of_not_le hn)
    obtain ⟨st1, hran, hstay⟩ := fitting_stays hload hset hcount hvalid hnil hall hroom m
    rw [← List.take_length (l := all)] at hran
    rcases hstay with hleft | ⟨c, st', hidle, hst'⟩
    · exact ⟨_, hleft, hacc hran (.refl st1)⟩
    · exact ⟨_, hidle, hacc hran hst'⟩

/-- try accepts on delivered counters only exactly if m_objSetGroup has room for the successes of
the batch that ends it, and each candidate of the batches it programs is decided by its own
trials. -/
theorem learned_sound_iff (hload : List.Forall₂ Made st.cfgs tryGroup) (hset : st.set.length = maxGroup)
    (hcount : st.setCount ≤ maxGroup) (hvalid : ∀ j, st.valid j = 0) :
    Sound world tryGroup st ↔ st.setCount + successes world st (fitting tryGroup) ≤ maxGroup ∧
      Decided world st.batches.length st.trial (fittingTried world st tryGroup) :=
  ⟨decided_of_sound hload hset hcount hvalid, fun h => sound_of_decided hload hset hcount hvalid h.1 h.2⟩

/-- Two trials, both needed: the first one delivers good counters, the set call of the second one
fails. -/
def staleWorld : World where
  settings := ⟨2, 1, 0, 2⟩
  device := fun trial => ⟨if trial = 0 then 0 else -1, fun _ => .result fun _ => (5, 0)⟩
  fresh := fun _ _ => .zero

theorem pair_made (setCount : Nat) : List.Forall₂ Made (pairState setCount).cfgs [pairGroup] :=
  .cons ⟨Nat.le_refl 1, rfl, _, rfl, rfl⟩ .nil

theorem learned_sound_iff_pair : Sound pairWorld [pairGroup] (pairState 0) := by
  refine (learned_sound_iff (pair_made 0) List.length_replicate (Nat.zero_le _) fun _ => rfl).mpr
    ⟨by decide, fun b seg hseg k hk => ?_⟩
  cases b with
  | zero =>
      obtain rfl := Option.some.inj hseg
      obtain rfl : k = 0 := Nat.lt_one_iff.mp hk
      exact .inl (by decide)
  | succ b => cases hseg

/-- The counters of the first trial count once more. -/
theorem stale_not_sound : ¬ Sound staleWorld [pairGroup] (pairState 0) := by
  intro h
  have hdec := (decided_of_sound (pair_made 0) List.length_replicate (Nat.zero_le _) (fun _ => rfl) h).2
  have hfirst := hdec 0 [pairGroup] rfl 0 Nat.zero_lt_one
  revert hfirst
  decide

end OiAmc.CascadeFresh

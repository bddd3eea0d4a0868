import OiAmc.CascadeStudy
import OiAmc.PartialLists

namespace OiAmc.CascadeTrials

open Function PartialLists SgfpGroup GrpsmLinks CascadeTry

def writtenFrom (outcome : TrialOutcome) : Nat → Nat → Option Counters
  | 0, _ => none
  | left + 1, timeout =>
      match outcome.get timeout with
      | .result counters => some counters
      | .error written => written
      | .noResult | .unknown => writtenFrom outcome left (timeout + 1)

def written (outcome : TrialOutcome) : Option Counters :=
  if outcome.set ≠ 0 then none else writtenFrom outcome timeoutMax 0

def shown (device : Nat → TrialOutcome) (start : UInt8 × UInt8) (trial k : Nat) : Nat → UInt8 × UInt8
  | 0 => start
  | r + 1 =>
      match written (device (trial + r)) with
      | some counters => counters k
      | none => shown device start trial k r

def Good (settings : Settings) (c : UInt8 × UInt8) : Prop :=
  c.1.toNat ≥ settings.okPktCount.toNat ∧ c.2.toNat ≤ settings.errPktCount.toNat

instance (settings : Settings) (c : UInt8 × UInt8) : Decidable (Good settings c) :=
  inferInstanceAs (Decidable (_ ∧ _))

variable {world : World} {outcome : TrialOutcome} {groups : List SgroupInfo} {c c' : Counters}
  {k n trial : Nat} {valid : Nat → Nat} {settings : Settings}

def counters (g : SgroupInfo) : UInt8 × UInt8 := (g.resokpkt, g.reserrpkt)

theorem putCounters_length : (putCounters c groups).length = groups.length := List.length_mapIdx

theorem putCounters_put : putCounters c (putCounters c' groups) = putCounters c groups := by
  rw [putCounters, putCounters, putCounters, List.mapIdx_mapIdx]
  rfl

theorem putCounters_getElem? (c : Counters) (groups : List SgroupInfo) (k : Nat) : (putCounters c groups)[k]? =
    groups[k]?.map fun g => { g with resokpkt := (c k).1, reserrpkt := (c k).2 } := by
  rw [putCounters, List.getElem?_mapIdx]

theorem putCounters_self (h : ∀ j g, groups[j]? = some g → c j = counters g) :
    putCounters c groups = groups := by
  refine List.ext_getElem? fun j => ?_
  rw [putCounters_getElem?]
  cases hg : groups[j]? with
  | none => rfl
  | some g =>
      rw [Option.map_some, h j g hg]
      rfl

theorem getTryResult_written (left timeout : Nat) : (getTryResult outcome left timeout groups).2 =
    match writtenFrom outcome left timeout with
    | some c => putCounters c groups
    | none => groups := by
  induction left generalizing timeout with
  | zero => rfl
  | succ left ih =>
      rw [getTryResult, writtenFrom]
      cases hget : outcome.get timeout with
      | result c => rfl
      | noResult => exact ih (timeout + 1)
      | unknown => exact ih (timeout + 1)
      | error w => cases w <;> rfl

theorem sgfplibSetTryGroup_written (hne : groups ≠ []) : (sgfplibSetTryGroup outcome groups).2 =
    match written outcome with
    | some c => putCounters c groups
    | none => groups := by
  rw [sgfplibSetTryGroup, if_neg hne, written]
  split
  · rfl
  · exact getTryResult_written _ _

theorem countValid_eq (hlen : groups.length ≤ maxGroup) :
    countValid settings groups valid = some fun j => valid j +
      if ∃ g, groups[j]? = some g ∧ passes settings g then 1 else 0 := by
  have hfold (n : Nat) (hn : n ≤ groups.length) : (List.range n).foldlM (fun valid j => do
      let g ← groups[j]?
      if passes settings g then
        if j < maxGroup then pure (Function.update valid j (valid j + 1)) else none
      else pure valid) valid = some fun j => valid j +
        if j < n ∧ ∃ g, groups[j]? = some g ∧ passes settings g then 1 else 0 := by
    induction n with
    | zero =>
        refine congrArg some (funext fun j => ?_)
        rw [if_neg fun h => Nat.not_lt_zero j h.1]
        rfl
    | succ n ih =>
        have hget : groups[n]? = some groups[n] := List.getElem?_eq_getElem hn
        rw [foldlM_range_succ, ih (by omega), Option.bind_some, hget]
        simp only [Option.bind_eq_bind, Option.bind_some, if_pos (by omega : n < maxGroup)]
        by_cases hpass : passes settings groups[n]
        · rw [if_pos hpass]
          refine congrArg some (funext fun j => ?_)
          by_cases hj : j = n
          · subst hj
            rw [update_self, if_neg fun h => Nat.lt_irrefl j h.1,
              if_pos ⟨Nat.lt_succ_self j, _, hget, hpass⟩]
          · rw [update_of_ne hj]
            have hiff : j < n + 1 ↔ j < n := by omega
            simp only [hiff]
        · rw [if_neg hpass]
          refine congrArg some (funext fun j => ?_)
          by_cases hj : j = n
          · subst hj
            have hno : ¬ ∃ g, groups[j]? = some g ∧ passes settings g := by
              intro ⟨g, hg, hp⟩
              exact hpass (Option.some.inj (hget.symm.trans hg) ▸ hp)
            rw [if_neg fun h => hno h.2, if_neg fun h => hno h.2]
          · have hiff : j < n + 1 ↔ j < n := by omega
            simp only [hiff]
  have hall := hfold groups.length (Nat.le_refl _)
  rw [countValid, hall]
  refine congrArg some (funext fun j => ?_)
  have hiff : (j < groups.length ∧ ∃ g, groups[j]? = some g ∧ passes settings g) ↔
      ∃ g, groups[j]? = some g ∧ passes settings g := by
    refine and_iff_right_of_imp fun ⟨g, hg, _⟩ => ?_
    exact (List.getElem?_eq_some_iff.mp hg).1
  simp only [hiff]

def counted (world : World) (start : UInt8 × UInt8) (trial k : Nat) : Nat :=
  (List.range world.settings.tryCount.toNat).countP fun r =>
    Good world.settings (shown world.device start trial k (r + 1))

theorem runTrials_eq (world : World) (trial : Nat) (valid : Nat → Nat) (hne : groups ≠ []) (hlen : groups.length ≤ maxGroup) (r left : Nat)
    (c0 : Counters) : runTrials world left (trial + r)
      (putCounters (fun k => shown world.device (c0 k) trial k r) groups) valid =
    some (putCounters (fun k => shown world.device (c0 k) trial k (r + left)) groups,
      fun j => valid j + if j < groups.length then (List.range' r left).countP fun r =>
        Good world.settings (shown world.device (c0 j) trial j (r + 1)) else 0) := by
  induction left generalizing r valid with
  | zero =>
      refine congrArg some (Prod.ext rfl (funext fun j => ?_))
      simp only [List.range'_zero, List.countP_nil, ite_self, Nat.add_zero]
  | succ left ih =>
      have hput : (sgfplibSetTryGroup (world.device (trial + r))
          (putCounters (fun k => shown world.device (c0 k) trial k r) groups)).2 =
          putCounters (fun k => shown world.device (c0 k) trial k (r + 1)) groups := by
        rw [sgfplibSetTryGroup_written]
        · simp only [shown]
          cases written (world.device (trial + r)) with
          | none => rfl
          | some c => exact putCounters_put
        · intro hnil
          have hlen := congrArg List.length hnil
          rw [putCounters_length] at hlen
          exact hne (List.eq_nil_of_length_eq_zero hlen)
      rw [runTrials, hput, countValid_eq (by rw [putCounters_length]; exact hlen)]
      simp only [Option.bind_eq_bind, Option.bind_some]
      rw [Nat.add_assoc, ih _ (r + 1), Nat.add_right_comm r 1 left]
      refine congrArg some (Prod.ext rfl (funext fun j => ?_))
      change valid j + _ + _ = valid j + _
      rw [List.range'_succ, List.countP_cons, Nat.add_assoc]
      congr 1
      by_cases hj : j < groups.length
      · have hget : ((putCounters (fun k => shown world.device (c0 k) trial k (r + 1)) groups)[j]?) =
            some { groups[j] with
              resokpkt := (shown world.device (c0 j) trial j (r + 1)).1
              reserrpkt := (shown world.device (c0 j) trial j (r + 1)).2 } := by
          rw [putCounters_getElem?, List.getElem?_eq_getElem hj, Option.map_some]
        have hiff : (∃ g, (putCounters (fun k => shown world.device (c0 k) trial k (r + 1)) groups)[j]? =
            some g ∧ passes world.settings g) ↔
            Good world.settings (shown world.device (c0 j) trial j (r + 1)) := by
          rw [hget]
          constructor
          · intro ⟨g, hg, hp⟩
            obtain rfl := Option.some.inj hg
            exact hp
          · exact fun hgood => ⟨_, rfl, hgood⟩
        rw [if_pos hj, if_pos hj, Nat.add_comm]
        simp only [hiff, decide_eq_true_iff]
      · have hnone : ¬ ∃ g, (putCounters (fun k => shown world.device (c0 k) trial k (r + 1)) groups)[j]? =
            some g ∧ passes world.settings g := by
          intro ⟨g, hg, _⟩
          have hlt := (List.getElem?_eq_some_iff.mp hg).1
          rw [putCounters_length] at hlt
          exact hj hlt
        rw [if_neg hnone, if_neg hj, if_neg hj]

theorem runTrials_batch (hne : groups ≠ []) (hlen : groups.length ≤ maxGroup)
    (hvalid : ∀ j, valid j = 0) {c0 : Counters} (hc0 : ∀ j g, groups[j]? = some g → c0 j = counters g) :
    ∃ valid' c, runTrials world world.settings.tryCount.toNat trial groups valid =
      some (putCounters c groups, valid') ∧
      ∀ j, valid' j = if j < groups.length then counted world (c0 j) trial j else 0 := by
  have hrun := runTrials_eq world trial valid hne hlen 0
    world.settings.tryCount.toNat c0
  have hself : putCounters (fun k => shown world.device (c0 k) trial k 0) groups = groups :=
    putCounters_self hc0
  rw [hself, Nat.add_zero] at hrun
  refine ⟨_, _, hrun, fun j => ?_⟩
  rw [hvalid, Nat.zero_add, counted, List.range_eq_range']

end OiAmc.CascadeTrials

import OiAmc.CascadeBatches
import Mathlib.Algebra.BigOperators.Group.List.Basic

namespace OiAmc.CascadeRounds

open Function GotoLoop PartialLists SgfpGroup GrpsmLinks CascadeTry CascadeTrials GreedySegments
open CascadeBatches

def links (g : SgroupInfo) : Nat := g.linkarraysSize.toNat

def batchOf (fresh : Nat → SgroupInfo) (seg : List SgroupInfo) : List SgroupInfo :=
  seg.mapIdx fun i g => { fresh i with
    linkarrays := g.linkarrays
    groupId := i
    isValid := 1
    linkarraysSize := g.linkarraysSize }

def Success (world : World) (batch trial k : Nat) : Prop :=
  world.settings.validCount.toNat ≤ counted world (counters (world.fresh batch k)) trial k

instance (world : World) (batch trial k : Nat) : Decidable (Success world batch trial k) :=
  inferInstanceAs (Decidable (_ ≤ _))

def batchVerdicts (world : World) (batch trial len : Nat) : List Bool :=
  (List.range len).map fun k => decide (Success world batch trial k)

variable {world : World} {st : TryState} {g : SgroupInfo} {tryGroup seg rest groups : List SgroupInfo}
  {cfg : GroupCfg} {cfgs front todo : List GroupCfg} {n i : Nat} {fresh : Nat → SgroupInfo}

theorem scanFor_eq {used : Nat} (hused : used ≤ 255) (hne : rest ≠ []) (hlen : i + rest.length = n)
    (hsizes : ∀ g ∈ rest, 0 ≤ g.linkarraysSize) : ∃ j cur, scanFor n i used rest = some (j, cur) ∧
      j < n ∧ batchEnd n j cur = i + fit links 255 used rest := by
  induction rest generalizing i used with
  | nil => exact absurd rfl hne
  | cons g rest ih =>
      rw [List.length_cons] at hlen
      have hg := hsizes g List.mem_cons_self
      have hlinks : (links g : Int) = g.linkarraysSize := Int.toNat_of_nonneg hg
      rw [scanFor, fit]
      by_cases hfull : used + links g ≤ 255
      · rw [if_pos hfull]
        by_cases hlast : i + 1 = n
        · rw [if_pos (.inr hlast)]
          refine ⟨i, _, rfl, by omega, ?_⟩
          have hrest : rest = [] := List.eq_nil_of_length_eq_zero (by omega)
          rw [batchEnd, if_neg fun h => by have := h.1; change (255 : Int) < _ at this; omega, if_pos hlast,
            hrest, fit, ← hlast]
        · have hgo : ¬ ((used : Int) + g.linkarraysSize > maxLink ∨ i + 1 = n) := by
            change ¬ ((255 : Int) < _ ∨ _)
            omega
          have hne' : rest ≠ [] := by
            intro hnil
            rw [hnil, List.length_nil] at hlen
            omega
          obtain ⟨j, cur, hscan, hj, hend⟩ := @ih (i + 1) (used + links g) hfull hne' (by omega)
            fun g hg => hsizes g (List.mem_cons_of_mem _ hg)
          rw [if_neg hgo]
          refine ⟨j, cur, ?_, hj, by rw [hend]; omega⟩
          rw [← hscan, ← hlinks, Int.natCast_add]
      · rw [if_neg hfull, if_pos (.inl (by change (255 : Int) < _; omega))]
        refine ⟨i, _, rfl, by omega, ?_⟩
        rw [batchEnd]
        split
        · omega
        · next h =>
            rw [if_neg fun he => h ⟨by change (255 : Int) < _; omega, he⟩]
            rfl

theorem batchOf_getElem? (fresh : Nat → SgroupInfo) (seg : List SgroupInfo) (k : Nat) : (batchOf fresh seg)[k]? = seg[k]?.map fun g =>
    { fresh k with
      linkarrays := g.linkarrays
      groupId := k
      isValid := 1
      linkarraysSize := g.linkarraysSize } := by
  rw [batchOf, List.getElem?_mapIdx]

theorem tmpGroup_eq (hload : Loaded cfg g) (k : Nat) : tmpGroup fresh k g = some
    { fresh k with
      linkarrays := g.linkarrays
      groupId := k
      isValid := 1
      linkarraysSize := g.linkarraysSize } := by
  obtain ⟨ls, hls, hlen⟩ := hload.links
  have hsize : g.linkarraysSize.toNat = ls.length := by
    rw [hload.size, hlen]
    rfl
  rw [tmpGroup, hsize, mapM_link hls, hls]
  rfl

theorem allocTmptry_eq (fresh : Nat → SgroupInfo) (before behind : List SgroupInfo) {part : List GroupCfg}
    (hload : List.Forall₂ Loaded part seg) :
    allocTmptry fresh (before ++ seg ++ behind) seg.length before.length = some (batchOf fresh seg) := by
  rw [allocTmptry, mapM_eq_some, List.forall₂_iff_get]
  refine ⟨by rw [List.length_range, batchOf, List.length_mapIdx], fun k hk hk' => ?_⟩
  rw [List.length_range] at hk
  have hget : (before ++ seg ++ behind)[k + before.length]? = some seg[k] := by
    rw [List.append_assoc, List.getElem?_append_right (Nat.le_add_left _ _), Nat.add_sub_cancel,
      List.getElem?_append_left hk, List.getElem?_eq_getElem hk]
  have hcfg := hload.get (hload.length_eq ▸ hk) hk
  have hbatch := batchOf_getElem? fresh seg k
  rw [List.getElem?_eq_getElem hk, Option.map_some, List.getElem?_eq_getElem hk'] at hbatch
  rw [List.get_eq_getElem, List.get_eq_getElem, List.getElem_range, hget, hbatch]
  exact tmpGroup_eq hcfg k

theorem batch_sameLinks (c : Counters) :
    List.Forall₂ SameLinks seg (putCounters c (batchOf fresh seg)) := by
  refine List.forall₂_iff_get.mpr ⟨?_, fun k hk hk' => ?_⟩
  · rw [putCounters_length, batchOf, List.length_mapIdx]
  · have hget := putCounters_getElem? c (batchOf fresh seg) k
    rw [batchOf_getElem?, List.getElem?_eq_getElem hk, List.getElem?_eq_getElem hk'] at hget
    rw [List.get_eq_getElem, List.get_eq_getElem, Option.some.inj hget]
    exact ⟨rfl, rfl⟩

theorem picked_same (vs : List Bool) (h : List.Forall₂ SameLinks seg groups) :
    List.Forall₂ SameLinks (picked vs seg) (picked vs groups) := by
  induction h generalizing vs with
  | nil => cases vs <;> exact .nil
  | cons hg _ ih =>
      cases vs with
      | nil => exact .nil
      | cons v vs =>
          cases v with
          | true => exact .cons hg (ih vs)
          | false => exact ih vs

theorem loaded_same {part : List GroupCfg} (h : List.Forall₂ Loaded part seg)
    (hs : List.Forall₂ SameLinks seg groups) : List.Forall₂ Loaded part groups := by
  induction hs generalizing part with
  | nil => exact h
  | cons hg _ ih =>
      obtain ⟨cfg, part, hcfg, hpart, rfl⟩ := List.forall₂_cons_right_iff.mp h
      exact .cons (hcfg.same hg) (ih hpart)

theorem learned_same {added : List SgroupInfo} (h : List.Forall₂ Learned groups added)
    (hs : List.Forall₂ SameLinks seg groups) : List.Forall₂ Learned seg added := by
  induction hs generalizing added with
  | nil => exact h
  | cons hg _ ih =>
      obtain ⟨e, added, he, hadded, rfl⟩ := List.forall₂_cons_left_iff.mp h
      exact .cons (he.same hg) (ih hadded)

theorem picked_take (vs : List Bool) (gs : List SgroupInfo) :
    picked vs (gs.take vs.length) = picked vs gs := by
  induction vs generalizing gs with
  | nil => cases gs <;> rfl
  | cons v vs ih =>
      cases gs with
      | nil => rfl
      | cons g gs =>
          rw [List.length_cons, List.take_succ_cons, picked, picked, ih]

theorem batchVerdicts_length (batch trial len : Nat) :
    (batchVerdicts world batch trial len).length = len := by
  rw [batchVerdicts, List.length_map, List.length_range]

/-- The data between two batches: what is in front has its results, and what is left begins with
the candidates that are left. -/
structure Ready (front todo : List GroupCfg) (rest : List SgroupInfo) (st : TryState) : Prop where
  cfgs : st.cfgs = front ++ todo
  load : List.Forall₂ Loaded (todo.take rest.length) rest
  room : st.set.length = maxGroup
  count : st.setCount ≤ maxGroup
  valid : ∀ j, st.valid j = 0
  okflag : st.okflag = false

/-- The data after some verdicts. -/
structure Judged (front todo : List GroupCfg) (rest : List SgroupInfo) (vs : List Bool)
    (st st' : TryState) : Prop where
  cfgs : st'.cfgs = front ++ judge vs todo
  room : st'.set.length = maxGroup
  count : st'.setCount = st.setCount + vs.count true
  added : ∃ added, List.Forall₂ Learned (picked vs rest) added ∧
    st'.set.take st'.setCount = st.set.take st.setCount ++ added
  valid : ∀ j, st'.valid j = 0
  preTryNum : st'.preTryNum = st.preTryNum + vs.length
  okflag : st'.okflag = vs.any id

theorem Judged.append {vs vs' : List Bool} {st1 st2 : TryState} (h : Judged front todo rest vs st st1)
    (hlen : vs.length ≤ todo.length) (hlen' : vs.length ≤ rest.length)
    (hfail : vs.any id = false) (h' : Judged (front ++ judge vs (todo.take vs.length))
      (todo.drop vs.length) (rest.drop vs.length) vs' st1 st2) :
    Judged front todo rest (vs ++ vs') st st2 where
  cfgs := by rw [h'.cfgs, judge_append vs vs' hlen, List.append_assoc]
  room := h'.room
  count := by rw [h'.count, h.count, List.count_append, Nat.add_assoc]
  added := by
    obtain ⟨added, hall, htake⟩ := h.added
    obtain ⟨added', hall', htake'⟩ := h'.added
    refine ⟨added ++ added', ?_, by rw [htake', htake, List.append_assoc]⟩
    rw [picked_append vs vs' hlen']
    exact List.rel_append hall hall'
  valid := h'.valid
  preTryNum := by rw [h'.preTryNum, h.preTryNum, List.length_append, Nat.add_assoc]
  okflag := by rw [h'.okflag, List.any_append, hfail, Bool.false_or]

/-- What is left after a batch without a success. -/
theorem Judged.ready {vs : List Bool} {st1 : TryState} (h : Judged front todo rest vs st st1)
    (hload : List.Forall₂ Loaded (todo.take rest.length) rest) (hlen : vs.length ≤ todo.length)
    (hcount : st1.setCount ≤ maxGroup) (hfail : vs.any id = false) :
    Ready (front ++ judge vs (todo.take vs.length)) (todo.drop vs.length) (rest.drop vs.length) st1 where
  cfgs := by rw [h.cfgs, judge_split vs hlen, List.append_assoc]
  load := by
    have hdrop := List.forall₂_drop vs.length hload
    rw [List.drop_take, ← List.length_drop] at hdrop
    exact hdrop
  room := h.room
  count := hcount
  valid := h.valid
  okflag := h.okflag.trans hfail

theorem fit_le_maxGroup (hload : List.Forall₂ Loaded todo rest) : fit links 255 0 rest ≤ 255 := by
  have htotal := fit_total links (Nat.zero_le 255) rest
  have hpos : ∀ k ∈ (rest.take (fit links 255 0 rest)).map links, 1 ≤ k := by
    intro k hk
    obtain ⟨g, hg, rfl⟩ := List.mem_map.mp hk
    obtain ⟨cfg, _, hcfg⟩ := forall₂_mem_right hload (List.mem_of_mem_take hg)
    have := hcfg.pos
    rw [links, hcfg.size]
    omega
  have hlen := List.length_le_sum_of_one_le _ hpos
  rw [List.length_map, List.length_take_of_le (fit_le links 255 0 rest)] at hlen
  omega

/-- A candidate too large for a batch comes first. -/
def Oversize (large : List SgroupInfo) : Prop := ∀ g, large.head? = some g → 255 < links g

theorem Oversize.nil : Oversize [] := fun _ h => nomatch h

theorem Ready.le_todo (h : Ready front todo rest st) : rest.length ≤ todo.length := by
  have hlen := h.load.length_eq
  rw [List.length_take] at hlen
  omega

theorem tryRound_eq {before large : List SgroupInfo} (h : Ready front todo rest st)
    (hgroup : tryGroup = before ++ (rest ++ large)) (hover : Oversize large)
    (hsizes : ∀ g ∈ large, 0 ≤ g.linkarraysSize) (hfront : front.length = before.length) (hne : rest ≠ [])
    (hi : i < tryGroup.length) {vs : List Bool}
    (hvs : vs = batchVerdicts world st.batches.length st.trial (fit links 255 0 rest)) :
    (st.setCount + vs.count true ≤ maxGroup → ∃ st', Judged front todo rest vs st st' ∧
      st'.trial = st.trial + world.settings.tryCount.toNat ∧
      st'.batches = st.batches ++ [(before.length,
        batchOf (world.fresh st.batches.length) (rest.take vs.length))] ∧
      ∃ j < tryGroup.length, tryRound world tryGroup (⟨i, before.length, before.length, 0⟩, st) = some
        (if st'.okflag = true ∨ before.length + vs.length = tryGroup.length then .inr (0, st')
        else .inl (⟨j, before.length + vs.length, before.length + vs.length, 0⟩, st'))) ∧
    (¬ st.setCount + vs.count true ≤ maxGroup →
      tryRound world tryGroup (⟨i, before.length, before.length, 0⟩, st) = none) := by
  have hlenvs : vs.length = fit links 255 0 rest := by rw [hvs, batchVerdicts_length]
  have hle := fit_le links 255 0 rest
  have hsizes : ∀ g ∈ rest ++ large, 0 ≤ g.linkarraysSize := by
    intro g hg
    rcases List.mem_append.mp hg with hg | hg
    · obtain ⟨cfg, _, hcfg⟩ := forall₂_mem_right h.load hg
      rw [hcfg.size]
      exact Int.natCast_nonneg _
    · exact hsizes g hg
  have hfit : 0 < fit links 255 0 rest := by
    obtain ⟨g, rest', rfl⟩ := List.exists_cons_of_ne_nil hne
    obtain ⟨cfg, _, hcfg⟩ := forall₂_mem_right h.load List.mem_cons_self
    refine fit_pos ?_
    have := hcfg.max
    rw [links, hcfg.size]
    omega
  have hlen : before.length + (rest ++ large).length = tryGroup.length := by
    rw [hgroup, ← List.length_append]
  obtain ⟨j, cur, hscan, hj, hend⟩ := scanFor_eq (Nat.zero_le 255)
    (List.append_ne_nil_of_left_ne_nil hne large) hlen hsizes
  rw [fit_append 0 rest hover] at hend
  have hload : List.Forall₂ Loaded (todo.take vs.length) (rest.take vs.length) := by
    have htake := List.forall₂_take vs.length h.load
    rw [List.take_take, Nat.min_eq_left (hlenvs ▸ hle)] at htake
    exact htake
  have hseg : (rest.take vs.length).length = vs.length := List.length_take_of_le (hlenvs ▸ hle)
  have halloc : allocTmptry (world.fresh st.batches.length) tryGroup vs.length before.length =
      some (batchOf (world.fresh st.batches.length) (rest.take vs.length)) := by
    have heq := allocTmptry_eq (world.fresh st.batches.length) before
      (rest.drop vs.length ++ large) hload
    rw [List.append_assoc, ← List.append_assoc _ _ large, List.take_append_drop, ← hgroup, hseg] at heq
    exact heq
  let fresh := world.fresh st.batches.length
  let seg := rest.take vs.length
  have hlenb : (batchOf fresh seg).length = vs.length := by rw [batchOf, List.length_mapIdx, hseg]
  have hneb : batchOf fresh seg ≠ [] := by
    intro hnil
    rw [hnil, List.length_nil] at hlenb
    omega
  have hmax := fit_le_maxGroup h.load
  let start : Counters := fun j => counters (fresh j)
  have hstart : ∀ j g, (batchOf fresh seg)[j]? = some g → start j = counters g := by
    intro j g hg
    rw [batchOf_getElem?] at hg
    obtain ⟨g', _, rfl⟩ := Option.map_eq_some_iff.mp hg
    rfl
  have hlenb' : (batchOf fresh seg).length ≤ maxGroup := by
    rw [hlenb, hlenvs]
    exact Nat.le_succ_of_le hmax
  obtain ⟨valid, c, htrials, hvalid⟩ := @runTrials_batch world (batchOf fresh seg) st.trial st.valid hneb
    hlenb' h.valid start hstart
  rw [hlenb] at hvalid
  have hlenc : (putCounters c (batchOf fresh seg)).length = vs.length := putCounters_length.trans hlenb
  let st1 : TryState := { st with
    valid := valid
    trial := st.trial + world.settings.tryCount.toNat
    batches := st.batches ++ [(before.length, batchOf fresh seg)] }
  have hcfgs1 : st1.cfgs = front ++ todo := h.cfgs
  have hfront1 : front.length = 0 + before.length := by rw [hfront, Nat.zero_add]
  have hvalid1 : ∀ j ≥ 0, st1.valid j = valid j := fun _ _ => rfl
  have hvs1 : vs = (List.range' 0 (putCounters c (batchOf fresh seg)).length).map fun j =>
      decide (world.settings.validCount.toNat ≤ valid j) := by
    rw [hlenc, ← List.range_eq_range', hlenvs]
    refine hvs.trans (List.map_congr_left fun k hk => ?_)
    rw [hvalid, if_pos (hlenvs ▸ List.mem_range.mp hk)]
    rfl
  have hsame : List.Forall₂ SameLinks seg (putCounters c (batchOf fresh seg)) := batch_sameLinks c
  obtain ⟨hroom, hfull⟩ := finishBatch_eq hcfgs1 hfront1 (by rw [hlenc]; exact loaded_same hload hsame)
    (by rw [hlenc, hlenvs, Nat.zero_add]; exact Nat.le_succ_of_le hmax) h.room h.count hvalid1 hvs1
  have hdrop : tryGroup.drop before.length = rest ++ large := by rw [hgroup, List.drop_left]
  have htmp : before.length + fit links 255 0 rest = before.length + vs.length := by rw [hlenvs]
  have hsub : before.length + vs.length - before.length = vs.length := Nat.add_sub_cancel_left _ _
  have hscan : scanFor tryGroup.length before.length 0 (rest ++ large) = some (j, cur) := hscan
  have hround : tryRound world tryGroup (⟨i, before.length, before.length, 0⟩, st) =
      (finishBatch world.settings before.length 0 (putCounters c (batchOf fresh seg)) st1).bind fun r =>
        r.elim (fun st =>
          if st.okflag = true ∨ before.length + vs.length = tryGroup.length then some (.inr (0, st))
          else some (.inl (⟨j, before.length + vs.length, before.length + vs.length, 0⟩, st)))
        fun st => some (.inr (-1, st)) := by
    rw [tryRound]
    simp only [if_neg (not_not.mpr hi), hdrop, hscan, hend, htmp, hsub]
    rw [halloc]
    simp only [Option.bind_eq_bind, Option.bind_some]
    rw [htrials, Option.bind_some]
    refine congrArg (Option.bind _) (funext fun r => ?_)
    cases r <;> rfl
  rw [hround]
  constructor
  · intro hfit
    obtain ⟨st', hfinish, hst'⟩ := hroom hfit
    obtain ⟨added, hadded, htake⟩ := hst'.added
    have hlearned := learned_same hadded (picked_same vs hsame)
    rw [picked_take] at hlearned
    refine ⟨st', ⟨hst'.cfgs, hst'.room, hst'.count, ⟨added, hlearned, htake⟩, fun k => ?_,
      hst'.preTryNum.trans (by rw [hlenc]), ?_⟩, hst'.trial, hst'.batches, j, hj, ?_⟩
    · rw [hst'.valid, hlenc]
      split
      · rfl
      · next hk =>
          change valid k = 0
          rw [hvalid, if_neg (by omega)]
    · have hok := hst'.okflag
      rw [show st1.okflag = false from h.okflag, Bool.false_or] at hok
      exact hok
    · rw [hfinish]
      simp only [Option.bind_some, Sum.elim_inl]
      split <;> rfl
  · intro hfit
    rw [hfull hfit]
    rfl

theorem runTrials_nil (left trial : Nat) (valid : Nat → Nat) :
    runTrials world left trial [] valid = some ([], valid) := by
  induction left generalizing trial with
  | zero => rfl
  | succ left ih =>
      rw [runTrials]
      exact ih (trial + 1)

/-- With a candidate that is too large in front the batch stays empty, and try does not come on. -/
theorem tryRound_idle {before large : List SgroupInfo} (hgroup : tryGroup = before ++ large)
    (hover : Oversize large) (hsizes : ∀ g ∈ large, 0 ≤ g.linkarraysSize) (hne : large ≠ [])
    (hi : i < tryGroup.length) (hok : st.okflag = false) : ∃ j < tryGroup.length,
      tryRound world tryGroup (⟨i, before.length, before.length, 0⟩, st) =
        some (.inl (⟨j, before.length, before.length, 0⟩, { st with
          trial := st.trial + world.settings.tryCount.toNat
          batches := st.batches ++ [(before.length, [])] })) := by
  have hlen : before.length + large.length = tryGroup.length := by rw [hgroup, List.length_append]
  obtain ⟨j, cur, hscan, hj, hend⟩ := scanFor_eq (Nat.zero_le 255) hne hlen hsizes
  have hfit : fit links 255 0 large = 0 := fit_append 0 [] hover
  have hpos := List.length_pos_of_ne_nil hne
  have hdrop : tryGroup.drop before.length = large := by rw [hgroup, List.drop_left]
  have hscan : scanFor tryGroup.length before.length 0 large = some (j, cur) := hscan
  refine ⟨j, hj, ?_⟩
  rw [tryRound]
  simp only [if_neg (not_not.mpr hi), hdrop, hscan, hend, hfit, Nat.add_zero, Nat.sub_self]
  rw [allocTmptry, List.range_zero, List.mapM_nil]
  simp only [Option.pure_def, Option.bind_eq_bind, Option.bind_some, runTrials_nil, finishBatch]
  rw [if_neg]
  rintro (h | h)
  · rw [hok] at h
    cases h
  · omega

end OiAmc.CascadeRounds

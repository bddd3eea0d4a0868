import OiAmc.CascadeRounds

namespace OiAmc.CascadeRun

open Function GotoLoop PartialLists SgfpGroup GrpsmLinks CascadeTry CascadeTrials GreedySegments
open CascadeBatches CascadeRounds

def verdicts (world : World) : Nat → Nat → List (List SgroupInfo) → List Bool
  | _, _, [] => []
  | batch, trial, seg :: segs =>
      let vs := batchVerdicts world batch trial seg.length
      if vs.any id then vs
      else vs ++ verdicts world (batch + 1) (trial + world.settings.tryCount.toNat) segs

def tried (world : World) : Nat → Nat → List (List SgroupInfo) → List (List SgroupInfo)
  | _, _, [] => []
  | batch, trial, seg :: segs =>
      if (batchVerdicts world batch trial seg.length).any id then [seg]
      else seg :: tried world (batch + 1) (trial + world.settings.tryCount.toNat) segs

def outcomes (world : World) : Nat → Nat → List (List SgroupInfo) → List Bool
  | _, _, [] => []
  | batch, trial, seg :: segs => batchVerdicts world batch trial seg.length ++
      outcomes world (batch + 1) (trial + world.settings.tryCount.toNat) segs

def starts : Nat → List (List SgroupInfo) → List (Nat × List SgroupInfo)
  | _, [] => []
  | start, seg :: segs => (start, seg) :: starts (start + seg.length) segs

/-- A batch as it was handed to the device: the candidates of its segment, with their position
as id. -/
structure Programmed (seg groups : List SgroupInfo) : Prop where
  length : groups.length = seg.length
  small : seg.length ≤ maxGroup
  group : ∀ (k : Nat) (g : SgroupInfo), seg[k]? = some g → ∃ g', groups[k]? = some g' ∧ g'.groupId = k ∧ SameLinks g g'

variable {world : World} {st : TryState} {g : SgroupInfo} {tryGroup seg rest groups : List SgroupInfo}
  {cfg : GroupCfg} {cfgs front todo : List GroupCfg} {n i batch trial : Nat} {fresh : Nat → SgroupInfo}
  {segs : List (List SgroupInfo)}

theorem batchOf_programmed (h : seg.length ≤ maxGroup) : Programmed seg (batchOf fresh seg) := by
  refine ⟨by rw [batchOf, List.length_mapIdx], h, fun k g hg => ?_⟩
  rw [batchOf_getElem?, hg]
  exact ⟨_, rfl, rfl, rfl, rfl⟩

structure Ran (start : Nat) (front todo : List GroupCfg) (rest : List SgroupInfo) (vs : List Bool)
    (segs : List (List SgroupInfo)) (st st' : TryState) : Prop extends Judged front todo rest vs st st' where
  batches : ∃ new, st'.batches = st.batches ++ new ∧
    List.Forall₂ (fun b log => log.1 = b.1 ∧ Programmed b.2 log.2) (starts start segs) new

theorem count_of_none {vs : List Bool} (h : vs.any id = false) : vs.count true = 0 := by
  rw [List.count_eq_zero]
  intro hmem
  rw [List.any_eq_true.mpr ⟨true, hmem, rfl⟩] at h
  cases h

theorem loaded_links (h : List.Forall₂ Loaded todo rest) : ∀ g ∈ rest, links g ≤ 255 := by
  intro g hg
  obtain ⟨cfg, _, hcfg⟩ := forall₂_mem_right h hg
  rw [links, hcfg.size]
  exact hcfg.max

theorem outcomes_tried : outcomes world batch trial (tried world batch trial segs) =
    verdicts world batch trial segs := by
  induction segs generalizing batch trial with
  | nil => rfl
  | cons seg segs ih =>
      rw [tried, verdicts]
      by_cases hany : (batchVerdicts world batch trial seg.length).any id = true
      · rw [if_pos hany, if_pos hany, outcomes, outcomes, List.append_nil]
      · rw [if_neg hany, if_neg hany, outcomes, ih]

theorem outcomes_length : (outcomes world batch trial segs).length = segs.flatten.length := by
  induction segs generalizing batch trial with
  | nil => rfl
  | cons seg segs ih =>
      rw [outcomes, List.length_append, batchVerdicts_length, ih, List.flatten_cons, List.length_append]

theorem tried_nil (h : tried world batch trial segs = []) : segs = [] := by
  cases segs with
  | nil => rfl
  | cons seg segs =>
      rw [tried] at h
      split at h <;> cases h

theorem Ran.refl {start : Nat} (h : Ready front todo rest st) : Ran start front todo rest [] [] st st where
  cfgs := by rw [judge_nil, h.cfgs]
  room := h.room
  count := rfl
  added := ⟨[], by cases rest <;> exact .nil, (List.append_nil _).symm⟩
  valid := h.valid
  preTryNum := rfl
  okflag := h.okflag
  batches := ⟨[], (List.append_nil _).symm, .nil⟩

theorem rounds_eq {before large : List SgroupInfo} (hsegs : segments links 255 rest = segs)
    (h : Ready front todo rest st) (hgroup : tryGroup = before ++ (rest ++ large)) (hover : Oversize large)
    (hsizes : ∀ g ∈ large, 0 ≤ g.linkarraysSize) (hfront : front.length = before.length)
    (hi : i < tryGroup.length) {all part : List (List SgroupInfo)}
    (hall : all = tried world st.batches.length st.trial segs) (hn : n ≤ all.length)
    (hpart : part = all.take n) {vs : List Bool}
    (hvs : vs = outcomes world st.batches.length st.trial part) :
    (st.setCount + vs.count true ≤ maxGroup → ∃ st' j, Ran before.length front todo rest vs part st st' ∧
      j < tryGroup.length ∧
      rounds (tryRound world tryGroup) n (⟨i, before.length, before.length, 0⟩, st) = some
        (if n = all.length ∧ n ≠ 0 ∧ (vs.any id = true ∨ large = []) then .inr (0, st')
        else .inl (⟨j, before.length + vs.length, before.length + vs.length, 0⟩, st'))) ∧
    (¬ st.setCount + vs.count true ≤ maxGroup →
      rounds (tryRound world tryGroup) n (⟨i, before.length, before.length, 0⟩, st) = none) := by
  induction n generalizing segs rest before front todo st i all part vs with
  | zero =>
      subst hpart hvs
      refine ⟨fun _ => ⟨st, i, .refl h, hi, ?_⟩, fun hroom => absurd h.count hroom⟩
      rw [if_neg fun h => h.2.1 rfl]
      rfl
  | succ n ih =>
      cases segs with
      | nil =>
          rw [hall] at hn
          exact absurd hn (Nat.not_succ_le_zero _)
      | cons seg segs =>
          have hne : rest ≠ [] := by
            intro hnil
            rw [hnil] at hsegs
            cases hsegs
          have hcut := hsegs
          obtain ⟨g, rest', hrest⟩ := List.exists_cons_of_ne_nil hne
          rw [hrest, segments_cons (hrest ▸ loaded_links h.load), ← hrest] at hcut
          obtain ⟨hseg, hsegs'⟩ := List.cons.inj hcut
          have hfit := fit_le links 255 0 rest
          have hlen : seg.length = fit links 255 0 rest := by rw [← hseg, List.length_take_of_le hfit]
          generalize hvs0 : batchVerdicts world st.batches.length st.trial seg.length = vs0
          have hlen0 : vs0.length = fit links 255 0 rest := by rw [← hvs0, batchVerdicts_length, hlen]
          have hle0 : vs0.length ≤ rest.length := hlen0 ▸ hfit
          have hle1 : vs0.length ≤ todo.length := hle0.trans h.le_todo
          obtain ⟨hround, hfull⟩ := tryRound_eq h hgroup hover hsizes hfront hne hi
            (hvs0.symm.trans (by rw [hlen]))
          have hsmall : seg.length ≤ maxGroup := by
            rw [hlen]
            exact Nat.le_succ_of_le (fit_le_maxGroup h.load)
          have htake : rest.take vs0.length = seg := by rw [hlen0, hseg]
          have hlog : List.Forall₂ (fun b log => log.1 = b.1 ∧ Programmed b.2 log.2)
              [(before.length, seg)] [(before.length, batchOf (world.fresh st.batches.length) seg)] :=
            .cons ⟨rfl, batchOf_programmed hsmall⟩ .nil
          rw [tried, hvs0] at hall
          by_cases hany : vs0.any id = true
          · rw [if_pos hany] at hall
            subst hall
            obtain rfl : n = 0 := Nat.le_zero.mp (Nat.le_of_succ_le_succ hn)
            obtain rfl : part = [seg] := hpart
            rw [outcomes, hvs0, outcomes, List.append_nil] at hvs
            subst hvs
            constructor
            · intro hroom
              obtain ⟨st', hjudged, _, hbatches, j, hj, hstep⟩ := hround hroom
              rw [if_pos (.inl (hjudged.okflag.trans hany))] at hstep
              rw [htake] at hbatches
              refine ⟨st', j, ⟨hjudged, _, hbatches, hlog⟩, hj, ?_⟩
              rw [rounds, hstep, if_pos ⟨rfl, Nat.one_ne_zero, .inl hany⟩]
              rfl
            · intro hroom
              rw [rounds, hfull hroom]
              rfl
          · have hfail : vs0.any id = false := Bool.eq_false_iff.mpr hany
            have hzero := count_of_none hfail
            rw [if_neg hany] at hall
            subst hall
            rw [List.take_succ_cons] at hpart
            subst hpart
            rw [outcomes, hvs0] at hvs
            obtain ⟨st1, hjudged, htrial, hbatches, j, hj, hstep⟩ := hround (by rw [hzero]; exact h.count)
            have hcount1 : st1.setCount = st.setCount := by rw [hjudged.count, hzero, Nat.add_zero]
            have hnot : ¬ st1.okflag = true := by
              rw [hjudged.okflag]
              exact hany
            rw [htake] at hbatches
            have hlens := congrArg List.length hgroup
            rw [List.length_append, List.length_append] at hlens
            by_cases hend : before.length + vs0.length = tryGroup.length
            · have hover : large = [] := List.eq_nil_of_length_eq_zero (by omega)
              have hdrop : rest.drop (fit links 255 0 rest) = [] := List.drop_of_length_le (by omega)
              rw [hdrop, segments_nil] at hsegs'
              subst hsegs'
              obtain rfl : n = 0 := Nat.le_zero.mp (Nat.le_of_succ_le_succ hn)
              rw [List.take_zero, outcomes, List.append_nil] at hvs
              subst hvs
              rw [if_pos (.inr hend)] at hstep
              refine ⟨fun _ => ⟨st1, j, ⟨hjudged, _, hbatches, hlog⟩, hj, ?_⟩, fun hroom => absurd ?_ hroom⟩
              · rw [rounds, hstep, if_pos ⟨rfl, Nat.one_ne_zero, .inr hover⟩]
                rfl
              · rw [hzero]
                exact h.count
            · rw [if_neg (not_or.mpr ⟨hnot, hend⟩)] at hstep
              have hready := hjudged.ready h.load hle1 (hcount1 ▸ h.count) hfail
              have hgroup1 : tryGroup = (before ++ rest.take vs0.length) ++ (rest.drop vs0.length ++ large) := by
                rw [List.append_assoc, ← List.append_assoc _ _ large, List.take_append_drop, hgroup]
              have hlenb : (before ++ rest.take vs0.length).length = before.length + vs0.length := by
                rw [List.length_append, List.length_take_of_le hle0]
              have hfront1 : (front ++ judge vs0 (todo.take vs0.length)).length =
                  (before ++ rest.take vs0.length).length := by
                rw [hlenb, List.length_append, judge_length, List.length_take_of_le hle1, hfront]
              have hall1 : tried world (st.batches.length + 1)
                  (st.trial + world.settings.tryCount.toNat) segs =
                  tried world st1.batches.length st1.trial segs := by
                rw [hbatches, htrial, List.length_append, List.length_singleton]
              rw [hall1] at hvs hn ⊢
              have hvs1 : outcomes world (st.batches.length + 1)
                  (st.trial + world.settings.tryCount.toNat)
                  ((tried world st1.batches.length st1.trial segs).take n) =
                  outcomes world st1.batches.length st1.trial
                    ((tried world st1.batches.length st1.trial segs).take n) := by
                rw [hbatches, htrial, List.length_append, List.length_singleton]
              rw [hvs1] at hvs
              generalize hvs2 : outcomes world st1.batches.length st1.trial
                ((tried world st1.batches.length st1.trial segs).take n) = vs1 at hvs
              obtain ⟨hgo, hstop⟩ := ih (hlen0 ▸ hsegs') hready hgroup1 hfront1 hj rfl
                (Nat.le_of_succ_le_succ hn) rfl hvs2.symm
              have hcount : vs.count true = vs1.count true := by
                rw [hvs, List.count_append, hzero, Nat.zero_add]
              rw [hlenb, hcount1] at hgo hstop
              rw [hcount, rounds, hstep]
              refine ⟨fun hroom => ?_, hstop⟩
              obtain ⟨st', j', hran, hj', hrounds⟩ := hgo hroom
              obtain ⟨new, hnew, hall'⟩ := hran.batches
              rw [hlen0, ← hlen] at hall'
              have hiff : (n + 1 = (seg :: tried world st1.batches.length st1.trial segs).length ∧ n + 1 ≠ 0 ∧
                  (vs.any id = true ∨ large = [])) ↔
                  (n = (tried world st1.batches.length st1.trial segs).length ∧ n ≠ 0 ∧
                    (vs1.any id = true ∨ large = [])) := by
                rw [hvs, List.any_append, hfail, Bool.false_or, List.length_cons, Nat.add_right_cancel_iff]
                refine and_congr_right fun hlast => ⟨fun h => ⟨?_, h.2⟩, fun h => ⟨Nat.succ_ne_zero n, h.2⟩⟩
                rintro rfl
                rcases h.2 with hany1 | hnil
                · rw [← hvs2] at hany1
                  cases hany1
                · have hempty := tried_nil (List.eq_nil_of_length_eq_zero hlast.symm)
                  rw [← hsegs', ← hlen0] at hempty
                  have hflat := (segments_spec fun g hg => loaded_links hready.load g hg).1
                  rw [hempty] at hflat
                  have hlen1 := congrArg List.length hflat
                  rw [List.flatten_nil, List.length_nil, List.length_drop] at hlen1
                  rw [hnil, List.length_nil, Nat.add_zero] at hlens
                  have hrest : rest.length = vs0.length :=
                    Nat.le_antisymm (Nat.sub_eq_zero_iff_le.mp hlen1.symm) hle0
                  exact hend (hrest ▸ hlens.symm)
              refine ⟨st', j', ⟨hvs ▸ hjudged.append hle1 hle0 hfail hran.toJudged, _, ?_,
                List.rel_append hlog hall'⟩, hj', ?_⟩
              · rw [hnew, hbatches, List.append_assoc]
              · simp only [Option.bind_some, Sum.elim_inl, hrounds, hiff]
                rw [hvs, List.length_append, Nat.add_assoc]

end OiAmc.CascadeRun

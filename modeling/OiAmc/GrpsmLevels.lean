import OiAmc.GrpsmReuse

namespace OiAmc.GrpsmFinish

open PartialMachine PartialLists GrpsmLinks GrpsmPush GrpsmSearch GrpsmGet GrpsmRound GrpsmReuse

/-- The last of the SQ levels that have links without a gap from level 0 on. -/
structure IsTop (s : GrpsmSvc) (top : Nat) : Prop where
  bound : top < grpsmSqMax
  filled : ∀ i ≤ top, s.sqlinks i ≠ []
  last : top + 1 < grpsmSqMax → s.sqlinks (top + 1) = []

def startLevel (s : GrpsmSvc) : Nat := if s.sqStatus = .got then s.sqPre + 1 else 0

/-- The level that a full round tries on a bundle: from the start level on, the
first with more links than the next, or else the top. -/
structure NextLevel (s : GrpsmSvc) (sq : Nat) : Prop where
  unfinished : s.sqStatus ≠ .finished
  start : startLevel s ≤ sq
  rising : ∀ i, startLevel s ≤ i → i < sq → (s.sqlinks i).length ≤ (s.sqlinks (i + 1)).length
  stop : ∃ top, IsTop s top ∧
    (sq = top ∨ sq < top ∧ (s.sqlinks (sq + 1)).length < (s.sqlinks sq).length)

def Combines (s : GrpsmSvc) (sq : Nat) : Prop :=
  ∃ p ∈ s.sqlinks sq, ∀ i < sq, ∃ q ∈ s.sqlinks i, grpsmNearMfi p.link q.link = true

theorem firstEmptySq_eq_succ {s : GrpsmSvc} {top : Nat} :
    firstEmptySq s.sqlinks = top + 1 ↔ IsTop s top := by
  rw [firstEmptySq]
  cases h : (List.range grpsmSqMax).find? fun i => (s.sqlinks i).isEmpty with
  | none =>
      have hall : ∀ i < grpsmSqMax, s.sqlinks i ≠ [] := by
        intro i hi
        simpa using List.find?_eq_none.mp h i (List.mem_range.mpr hi)
      constructor
      · intro he
        have htop : top + 1 = grpsmSqMax := he.symm
        exact ⟨by omega, fun i hi => hall i (by omega), fun hlt => by omega⟩
      · intro ht
        have hb := ht.bound
        by_contra hne
        have hlt : top + 1 < grpsmSqMax := by
          simp only [Option.getD_none] at hne
          omega
        exact hall _ hlt (ht.last hlt)
  | some n =>
      obtain ⟨hn, hlt, hbelow⟩ := List.find?_range_eq_some.mp h
      simp only [List.isEmpty_iff, List.mem_range] at hn hlt
      have hfull : ∀ i < n, s.sqlinks i ≠ [] := fun i hi => by simpa using hbelow i hi
      constructor
      · intro he
        have htop : n = top + 1 := he
        subst htop
        exact ⟨by omega, fun i hi => hfull i (by omega), fun _ => hn⟩
      · intro ht
        have h1 : top < n := by
          by_contra hle
          exact ht.filled n (by omega) hn
        have h2 : n ≤ top + 1 := by
          by_contra hgt
          exact hfull (top + 1) (by omega) (ht.last (by omega))
        simp only [Option.getD_some]
        omega

theorem isTop_exists {s : GrpsmSvc} (h : firstEmptySq s.sqlinks ≠ 0) :
    ∃ top, IsTop s top := by
  obtain ⟨top, ht⟩ := Nat.exists_eq_succ_of_ne_zero h
  exact ⟨top, firstEmptySq_eq_succ.mp ht⟩

theorem isTop_unique {s : GrpsmSvc} {t t' : Nat} (h : IsTop s t) (h' : IsTop s t') : t = t' := by
  have he := (firstEmptySq_eq_succ.mpr h).symm.trans (firstEmptySq_eq_succ.mpr h')
  omega

theorem realSq_eq {s : GrpsmSvc} {top : Nat} (ht : IsTop s top) :
    realSq s = if s.sqStatus = .got ∧ top ≤ s.sqPre then none
      else some (((List.range' (startLevel s) (top - startLevel s)).find? fun i =>
        decide ((s.sqlinks (i + 1)).length < (s.sqlinks i).length)).getD top) := by
  have hb := ht.bound
  have hmod : (top + 1 - 1) % 256 = top := by
    simp only [grpsmSqMax] at hb
    omega
  simp only [realSq, firstEmptySq_eq_succ.mpr ht, hmod, Nat.add_one_ne_zero, if_false]
  split
  · rfl
  · next hg =>
      have hstart : (if s.sqStatus = .got then (s.sqPre + 1) % 256 else 0) = startLevel s := by
        rw [startLevel]
        split
        · next hgot =>
            simp only [hgot, true_and] at hg
            simp only [grpsmSqMax] at hb
            omega
        · rfl
      rw [hstart]
      split
      · next he => simp [he]
      · rfl

theorem startLevel_le {s : GrpsmSvc} {top : Nat} (h : ¬ (s.sqStatus = .got ∧ top ≤ s.sqPre)) :
    startLevel s ≤ top := by
  rw [startLevel]
  split
  · next hg => simp only [hg, true_and] at h; omega
  · exact Nat.zero_le _

theorem NextLevel.le {s : GrpsmSvc} {a b : Nat} (ha : NextLevel s a) (hb : NextLevel s b) :
    b ≤ a := by
  by_contra hlt
  obtain ⟨top, ht, hatop⟩ := ha.stop
  obtain ⟨top', ht', hbtop⟩ := hb.stop
  rw [isTop_unique ht' ht] at hbtop
  rcases hatop with rfl | ⟨_, hless⟩
  · omega
  · have := hb.rising a ha.start (by omega)
    omega

theorem nextLevel_find {s : GrpsmSvc} {top : Nat} (hs : s.sqStatus ≠ .finished) (ht : IsTop s top)
    (hle : startLevel s ≤ top) :
    NextLevel s (((List.range' (startLevel s) (top - startLevel s)).find? fun i =>
      decide ((s.sqlinks (i + 1)).length < (s.sqlinks i).length)).getD top) := by
  cases hfind : (List.range' (startLevel s) (top - startLevel s)).find? fun i =>
      decide ((s.sqlinks (i + 1)).length < (s.sqlinks i).length) with
  | none =>
      refine ⟨hs, hle, fun i h1 h2 => ?_, top, ht, Or.inl rfl⟩
      have hi : i ∈ List.range' (startLevel s) (top - startLevel s) := by
        rw [List.mem_range'_1]
        exact ⟨h1, by rw [Option.getD_none] at h2; omega⟩
      simpa using List.find?_eq_none.mp hfind i hi
  | some n =>
      obtain ⟨hn, hmem, hbelow⟩ := List.find?_range'_eq_some.mp hfind
      rw [List.mem_range'_1] at hmem
      refine ⟨hs, hmem.1, fun i h1 h2 => ?_, top, ht, Or.inr ⟨?_, of_decide_eq_true hn⟩⟩
      · simpa using hbelow i h1 h2
      · rw [Option.getD_some]
        omega

theorem realSq_eq_some {s : GrpsmSvc} {sq : Nat} (hs : s.sqStatus ≠ .finished) :
    realSq s = some sq ↔ NextLevel s sq := by
  by_cases htop : firstEmptySq s.sqlinks = 0
  · constructor
    · intro h
      simp [realSq, htop] at h
    · intro h
      obtain ⟨top, ht, _⟩ := h.stop
      rw [firstEmptySq_eq_succ.mpr ht] at htop
      omega
  · obtain ⟨top, ht⟩ := isTop_exists htop
    rw [realSq_eq ht]
    split
    · next hg =>
        refine ⟨fun h => absurd h (by simp), fun h => ?_⟩
        obtain ⟨top', ht', hsq⟩ := h.stop
        have hst := h.start
        rw [isTop_unique ht' ht] at hsq
        rw [startLevel, if_pos hg.1] at hst
        omega
    · next hg =>
        have hnext := nextLevel_find hs ht (startLevel_le hg)
        rw [Option.some.injEq]
        exact ⟨fun h => h ▸ hnext, fun h => le_antisymm (h.le hnext) (hnext.le h)⟩

theorem sqGroups_ne_nil {s : GrpsmSvc} {sq : Nat} {gs : List GroupCfg}
    (h : grpsmGetVcsFromSvcSq s sq = some gs) : gs ≠ [] ↔ Combines s sq := by
  rw [grpsmGetVcsFromSvcSq] at h
  split at h
  · next hz =>
      subst hz
      cases h
      constructor
      · intro hne
        obtain ⟨g, hg⟩ := List.exists_mem_of_ne_nil _ hne
        obtain ⟨p, hp, _⟩ := List.mem_map.mp hg
        exact ⟨p, hp, fun i hi => absurd hi (Nat.not_lt_zero i)⟩
      · intro hc
        obtain ⟨p, hp, _⟩ := hc
        exact List.ne_nil_of_mem (List.mem_map_of_mem hp)
  · obtain ⟨gss, hgss, rfl⟩ := Option.map_eq_some_iff.mp h
    have hall := mapM_eq_some.mp hgss
    have hnear (p : LinkPtr) (i : Nat) : nearLinks s p.link i ≠ [] ↔
        ∃ q ∈ s.sqlinks i, grpsmNearMfi p.link q.link = true := by
      simp [nearLinks, List.filter_eq_nil_iff]
    constructor
    · intro hne
      obtain ⟨g, hg⟩ := List.exists_mem_of_ne_nil _ hne
      obtain ⟨gs, hgs, hg⟩ := List.mem_flatten.mp hg
      obtain ⟨p, hp, hb⟩ := forall₂_mem_right hall hgs
      have hlevels := (blinkGroups_spec hp hb).1.mp (List.ne_nil_of_mem hg)
      exact ⟨p, hp, fun i hi => (hnear p i).mp (hlevels i hi)⟩
    · intro hc
      obtain ⟨p, hp, hlow⟩ := hc
      obtain ⟨i, hi, rfl⟩ := List.getElem_of_mem hp
      have hi' : i < gss.length := hall.length_eq ▸ hi
      have hb := hall.get hi hi'
      have hne := (blinkGroups_spec hp hb).1.mpr fun j hj => (hnear _ j).mpr (hlow j hj)
      obtain ⟨g, hg⟩ := List.exists_mem_of_ne_nil _ hne
      exact List.ne_nil_of_mem (List.mem_flatten.mpr ⟨_, List.getElem_mem hi', hg⟩)

theorem getVcsFromSvc_full {s s' : GrpsmSvc} {gs : List GroupCfg}
    (h : grpsmGetVcsFromSvc false s = some (s', gs)) :
    (gs ≠ [] ↔ ∃ sq, NextLevel s sq ∧ Combines s sq) ∧
      (s'.sqStatus = .finished ↔ ∀ sq, ¬ NextLevel s sq) := by
  rw [grpsmGetVcsFromSvc] at h
  split at h
  · next hf =>
      cases h
      have hno : ∀ sq, ¬ NextLevel s sq := fun sq hn => hn.unfinished hf
      simp [hf, hno]
  · next hf =>
      split at h
      · next hr =>
          cases h
          have hno : ∀ sq, ¬ NextLevel s sq := by
            intro sq hn
            rw [← realSq_eq_some hf, show realSq s = none from hr] at hn
            cases hn
          simp [hno]
      · next sq hr =>
          have hn : NextLevel s sq := (realSq_eq_some hf).mp hr
          obtain ⟨cfg, hc, he⟩ := Option.map_eq_some_iff.mp h
          obtain ⟨rfl, rfl⟩ := Prod.mk.inj he
          constructor
          · rw [sqGroups_ne_nil hc]
            refine ⟨fun hcomb => ⟨sq, hn, hcomb⟩, fun hex => ?_⟩
            obtain ⟨sq', hn', hcomb⟩ := hex
            have hsame := (realSq_eq_some hf).mpr hn'
            rw [(realSq_eq_some hf).mpr hn, Option.some.injEq] at hsame
            exact hsame ▸ hcomb
          · refine ⟨fun hfin => ?_, fun hno => absurd hn (hno sq)⟩
            simp only at hfin
            split at hfin
            · cases hfin
            · exact absurd hfin hf

def LcasMatches (s : GrpsmSvc) : Prop :=
  ∃ top, IsTop s top ∧ ∃ i ≤ top, ∃ p ∈ s.sqlinks i, p.link.isLastMember ≠ 0 ∧
    ∀ j < p.link.sq.toNat, ∃ q ∈ s.sqlinks j, lcasMatch p.link q.link = true

def HasLcas (ctl : GrpsmCtl) : Prop := ∃ f ∈ ctl.fibers, ∃ s ∈ f.lcas, LcasMatches s

theorem lcasChannels_isSome {s : GrpsmSvc} {lm : LinkInfo} {n : Nat} {chs : List GroupChannel} :
    (∃ chs', lcasChannels s lm n chs = some chs') ↔
      ∀ j < n, ∃ q ∈ s.sqlinks j, lcasMatch lm q.link = true := by
  induction n generalizing chs with
  | zero => simp [lcasChannels]
  | succ n ih =>
      rw [lcasChannels]
      split
      · next p hp =>
          rw [ih]
          refine ⟨fun h j hj => ?_, fun h j hj => h j (by omega)⟩
          rcases Nat.lt_succ_iff_lt_or_eq.mp hj with hj | rfl
          · exact h j hj
          · exact ⟨p, List.mem_of_find?_eq_some hp, by simpa using List.find?_some hp⟩
      · next hp =>
          refine ⟨fun h => by simp at h, fun h => ?_⟩
          obtain ⟨q, hq, hm⟩ := h n (Nat.lt_succ_self n)
          exact absurd hm (List.find?_eq_none.mp hp q hq)

theorem grpsmGetLcasFromSvc_ne_nil {s : GrpsmSvc} :
    grpsmGetLcasFromSvc s ≠ [] ↔ LcasMatches s := by
  constructor
  · intro h
    obtain ⟨g, hg⟩ := List.exists_mem_of_ne_nil _ h
    obtain ⟨p, hp, hg⟩ := List.mem_filterMap.mp hg
    obtain ⟨chs, hc, _⟩ := Option.map_eq_some_iff.mp hg
    obtain ⟨i, hi, hp⟩ := List.mem_flatMap.mp hp
    rw [List.mem_reverse, List.mem_range] at hi
    obtain ⟨top, ht⟩ : ∃ top, IsTop s top := isTop_exists (by omega)
    rw [firstEmptySq_eq_succ.mpr ht] at hi
    obtain ⟨hp, hlast⟩ := List.mem_filter.mp hp
    exact ⟨top, ht, i, by omega, p, hp, by simpa using hlast, lcasChannels_isSome.mp ⟨chs, hc⟩⟩
  · intro h
    obtain ⟨top, ht, i, hi, p, hp, hlast, hmatch⟩ := h
    have hsome : ∃ chs, lcasChannels s p.link p.link.sq.toNat [channelOf p.link] = some chs :=
      lcasChannels_isSome.mpr hmatch
    obtain ⟨chs, hc⟩ := hsome
    refine List.ne_nil_of_mem (List.mem_filterMap.mpr ⟨p, ?_, Option.map_eq_some_iff.mpr
      ⟨chs, hc, rfl⟩⟩)
    refine List.mem_flatMap.mpr ⟨i, ?_, List.mem_filter.mpr ⟨hp, by simpa using hlast⟩⟩
    rw [List.mem_reverse, List.mem_range, firstEmptySq_eq_succ.mpr ht]
    omega

theorem grpsmGetLcas_ne_nil {ctl : GrpsmCtl} : grpsmGetLcas ctl ≠ [] ↔ HasLcas ctl := by
  simp only [grpsmGetLcas, ne_eq, List.flatMap_eq_nil_iff, not_forall, HasLcas]
  constructor
  · intro h
    obtain ⟨f, hf, s, hs, hne⟩ := h
    exact ⟨f, hf, s, hs, grpsmGetLcasFromSvc_ne_nil.mp hne⟩
  · intro h
    obtain ⟨f, hf, s, hs, hm⟩ := h
    exact ⟨f, hf, s, hs, grpsmGetLcasFromSvc_ne_nil.mpr hm⟩

def AllFinished (ctl : GrpsmCtl) : Prop := ∀ f ∈ ctl.fibers, ∀ s ∈ f.vcs, s.sqStatus = .finished

def pending (ctl : GrpsmCtl) (call : GetCall) : List GrpsmSvc :=
  ctl.fibers.flatMap fun f => f.vcs.map (grpsmRemoveOlinksFromSvc f.fiber (removedBy ctl call))

theorem runsRound_bundles {ctl ctl' : GrpsmCtl} {call : GetCall} {gs : List GroupCfg}
    (h : RunsRound ctl call ctl' gs) :
    ∃ qs, List.Forall₂ (fun s q => grpsmGetVcsFromSvc (isPartial ctl call) s = some q)
        (pending ctl call) qs ∧
      ctl'.fibers.flatMap GrpsmFiber.vcs = qs.map Prod.fst ∧ gs = (qs.map Prod.snd).flatten := by
  obtain ⟨rs, hrs, hfibers, rfl⟩ := h.rounds
  rw [hfibers, pending]
  generalize ctl.fibers = fibers at hrs
  clear hfibers h
  induction hrs with
  | nil => exact ⟨[], .nil, rfl, rfl⟩
  | cons hr _ ih =>
      obtain ⟨qs, hqs, hvcs, hout⟩ := ih
      obtain ⟨qs1, hqs1, hvcs1, hout1⟩ := hr.vcs
      refine ⟨qs1 ++ qs, ?_, ?_, ?_⟩
      · rw [List.flatMap_cons]
        exact List.rel_append (List.forall₂_map_left_iff.mpr hqs1) hqs
      · rw [List.map_cons, List.flatMap_cons, hvcs, hvcs1, List.map_append]
      · rw [List.map_cons, List.flatten_cons, hout, hout1, List.map_append, List.flatten_append]

/-- A full round gives groups when some bundle combines on its next level, and
finishes all bundles when none has a next level. -/
theorem runsRound_full {ctl ctl' : GrpsmCtl} {call : GetCall} {gs : List GroupCfg}
    (h : RunsRound ctl call ctl' gs) (hp : isPartial ctl call = false) :
    (gs ≠ [] ↔ ∃ s ∈ pending ctl call, ∃ sq, NextLevel s sq ∧ Combines s sq) ∧
      (AllFinished ctl' ↔ ∀ s ∈ pending ctl call, ∀ sq, ¬ NextLevel s sq) := by
  obtain ⟨qs, hqs, hvcs, rfl⟩ := runsRound_bundles h
  rw [hp] at hqs
  constructor
  · constructor
    · intro hne
      obtain ⟨g, hg⟩ := List.exists_mem_of_ne_nil _ hne
      obtain ⟨os, hos, hg⟩ := List.mem_flatten.mp hg
      obtain ⟨q, hq, rfl⟩ := List.mem_map.mp hos
      obtain ⟨s, hs, hsearch⟩ := forall₂_mem_right hqs hq
      exact ⟨s, hs, (getVcsFromSvc_full hsearch).1.mp (List.ne_nil_of_mem hg)⟩
    · intro hc
      obtain ⟨s, hs, hc⟩ := hc
      obtain ⟨q, hq, hsearch⟩ := forall₂_mem_right hqs.flip hs
      obtain ⟨g, hg⟩ := List.exists_mem_of_ne_nil _ ((getVcsFromSvc_full hsearch).1.mpr hc)
      exact List.ne_nil_of_mem (List.mem_flatten.mpr ⟨q.2, List.mem_map_of_mem hq, hg⟩)
  · have hall : AllFinished ctl' ↔ ∀ q ∈ qs, q.1.sqStatus = .finished := by
      have hflat : AllFinished ctl' ↔
          ∀ s ∈ ctl'.fibers.flatMap GrpsmFiber.vcs, s.sqStatus = .finished := by
        simp only [AllFinished, List.mem_flatMap, forall_exists_index, and_imp]
        exact ⟨fun h s f hf hs => h f hf s hs, fun h f hf s hs => h s f hf hs⟩
      rw [hflat, hvcs, List.forall_mem_map]
    rw [hall]
    constructor
    · intro hfin s hs
      obtain ⟨q, hq, hsearch⟩ := forall₂_mem_right hqs.flip hs
      exact (getVcsFromSvc_full hsearch).2.mp (hfin q hq)
    · intro hno q hq
      obtain ⟨s, hs, hsearch⟩ := forall₂_mem_right hqs hq
      exact (getVcsFromSvc_full hsearch).2.mpr (hno s hs)

theorem finished_searchFiber {vcPartial : Bool} {pre : List GroupCfg} {f : GrpsmFiber}
    (hf : ∀ s ∈ f.vcs, s.sqStatus = .finished) :
    searchFiber vcPartial (filterFiber pre f) = some (filterFiber pre f, []) := by
  have hs : ∀ s ∈ (filterFiber pre f).vcs, grpsmGetVcsFromSvc vcPartial s = some (s, []) := by
    intro s hs
    obtain ⟨s0, hs0, rfl⟩ := List.mem_map.mp hs
    rw [grpsmGetVcsFromSvc, GrpsmRemove.removeOlinks_fields, if_pos (hf s0 hs0)]
  rw [searchFiber, mapM_total hs]
  simp [Function.comp_def]

/-- Once all bundles are finished and no LCAS group is left, every further call
gives no groups and leaves it at that. -/
theorem finished_grpsmGet {ctl : GrpsmCtl} {call : GetCall} (hf : AllFinished ctl)
    (hl : ¬ HasLcas ctl) (hin : call.numTrygroups ≤ call.pre.length) :
    ∃ ctl', grpsmGet ctl call = some (ctl', []) ∧ AllFinished ctl' ∧ ¬ HasLcas ctl' := by
  have hno : ¬ HandsLcas ctl call := fun h => hl (grpsmGetLcas_ne_nil.mp h.2)
  have hout : ¬ (ctl.lcasGot = true ∧ call.readsOutside ctl) := fun h => by
    have := h.2.1
    omega
  have hfibers : (ctl.fibers.map (filterFiber (removedBy ctl call))).mapM
      (searchFiber (isPartial ctl call)) =
        some ((ctl.fibers.map (filterFiber (removedBy ctl call))).map fun f => (f, [])) := by
    apply mapM_total
    intro f' hf'
    obtain ⟨f, hfm, rfl⟩ := List.mem_map.mp hf'
    exact finished_searchFiber (hf f hfm)
  have hget : grpsmGet ctl call = some ({ ctl with
      fibers := ctl.fibers.map (filterFiber (removedBy ctl call)),
      vgroups := ctl.vgroups ++ recorded call.fresh call.pre, lcasGot := true,
      vcPartial := isPartial ctl call }, []) := by
    rw [grpsmGet_of_not_lcas hno, if_neg hout]
    change Option.map _ (List.mapM _ (ctl.fibers.map _)) = _
    rw [hfibers, Option.map_some]
    simp [Function.comp_def]
  refine ⟨_, hget, ?_, ?_⟩
  · intro f' hf' s hs
    obtain ⟨f, hfm, rfl⟩ := List.mem_map.mp hf'
    obtain ⟨s0, hs0, rfl⟩ := List.mem_map.mp hs
    rw [GrpsmRemove.removeOlinks_fields]
    exact hf f hfm s0 hs0
  · intro h
    obtain ⟨f', hf', s, hs, hm⟩ := h
    obtain ⟨f, hfm, rfl⟩ := List.mem_map.mp hf'
    exact hl ⟨f, hfm, s, hs, hm⟩

def NoMoreGroups (ctl : GrpsmCtl) : Prop :=
  ∀ later : List GetCall, (∀ call ∈ later, call.numTrygroups ≤ call.pre.length) →
    ∃ ctl' outs, run grpsmGet ctl later = some (ctl', outs) ∧ ∀ gs ∈ outs, gs = []

theorem finished_noMoreGroups {ctl : GrpsmCtl} (hf : AllFinished ctl) (hl : ¬ HasLcas ctl) :
    NoMoreGroups ctl := by
  intro later hin
  induction later generalizing ctl with
  | nil => exact ⟨ctl, [], rfl, by simp⟩
  | cons call later ih =>
      obtain ⟨ctl1, h1, hf1, hl1⟩ := finished_grpsmGet hf hl (hin call (by simp))
      obtain ⟨ctl2, outs, h2, hout⟩ := ih hf1 hl1 fun c hc => hin c (by simp [hc])
      refine ⟨ctl2, [] :: outs, run_cons.mpr ⟨ctl1, [], outs, h1, h2, rfl⟩, ?_⟩
      exact List.forall_mem_cons.mpr ⟨rfl, hout⟩

theorem hasLcas_step {ctl ctl' : GrpsmCtl} {call : GetCall} {gs : List GroupCfg}
    (h : grpsmGet ctl call = some (ctl', gs)) : HasLcas ctl' ↔ HasLcas ctl := by
  obtain ⟨_, hf⟩ := grpsmGet_fiberStep h
  constructor
  · intro hl
    obtain ⟨f', hf', s, hs, hm⟩ := hl
    obtain ⟨f, hfm, hstep⟩ := forall₂_mem_right hf hf'
    exact ⟨f, hfm, s, hstep.lcas ▸ hs, hm⟩
  · intro hl
    obtain ⟨f, hfm, s, hs, hm⟩ := hl
    obtain ⟨f', hf', hstep⟩ := forall₂_mem_right hf.flip hfm
    exact ⟨f', hf', s, hstep.lcas.symm ▸ hs, hm⟩

/-- When a result of 0 is final: LCAS groups are handed out, or some bundle
combines on its next level, or no bundle has a next level and no LCAS group is
left for the calls to come. -/
def ZeroIsFinal (ctl : GrpsmCtl) (call : GetCall) : Prop :=
  (call.preGroupcfg = none ∧ HasLcas ctl) ∨
  (∃ s ∈ pending ctl call, ∃ sq, NextLevel s sq ∧ Combines s sq) ∨
  ((∀ s ∈ pending ctl call, ∀ sq, ¬ NextLevel s sq) ∧ ¬ HasLcas ctl)

theorem noMoreGroups_get {ctl ctl' : GrpsmCtl} {call : GetCall} {gs : List GroupCfg}
    (h : NoMoreGroups ctl) (hin : call.numTrygroups ≤ call.pre.length)
    (hget : grpsmGet ctl call = some (ctl', gs)) : gs = [] := by
  obtain ⟨ctl2, outs, hrun, hout⟩ := h [call] (by simpa using hin)
  obtain ⟨s', o, os', h1, _, rfl⟩ := run_cons.mp hrun
  rw [hget, Option.some.injEq, Prod.mk.injEq] at h1
  exact h1.2.trans (hout o (by simp))

theorem noMoreGroups_lcas {ctl : GrpsmCtl} (h : NoMoreGroups ctl) : ¬ HasLcas ctl := by
  intro hl
  have hlcas := grpsmGetLcas_ne_nil.mpr hl
  have hget := @grpsmGet_of_lcas ctl ⟨none, 0, fun _ => ⟨fun _ => 0, 0⟩⟩ ⟨rfl, hlcas⟩
  exact hlcas (noMoreGroups_get h (Int.le_refl 0) hget)

/-- In every run from a push, a result of 0 of a call that is not partial means
that all VC bundles are finished and that no call will give groups any more,
exactly when the call meets the condition. -/
theorem grpsmGet_zero_final {ctl ctl0 ctl1 ctl2 : GrpsmCtl} {links : List LinkInfo}
    {groupcfg gs : List GroupCfg} {calls : List GetCall} {outs : List (List GroupCfg)}
    {call : GetCall} (_hpush : grpsmPush ctl links groupcfg = some (0, ctl0))
    (_hrun : run grpsmGet ctl0 calls = some (ctl1, outs))
    (hfull : call.pre.length ≤ call.numTrygroups) (hget : grpsmGet ctl1 call = some (ctl2, gs)) :
    (gs = [] → AllFinished ctl2 ∧ NoMoreGroups ctl2) ↔ ZeroIsFinal ctl1 call := by
  rcases grpsmGet_cases hget with ⟨hl, rfl, rfl⟩ | hr
  · have hlcas := grpsmGetLcas_ne_nil.mp hl.2
    exact ⟨fun _ => Or.inl ⟨hl.1, hlcas⟩, fun _ he => absurd he hl.2⟩
  · have hp : isPartial ctl1 call = false := by
      have hlt : ¬ call.numTrygroups < call.pre.length := by omega
      simp [isPartial, hlt]
    obtain ⟨hgives, hfin⟩ := runsRound_full hr hp
    constructor
    · intro h
      by_cases hgs : gs = []
      · obtain ⟨hf, hmore⟩ := h hgs
        refine Or.inr (Or.inr ⟨hfin.mp hf, fun hlc => ?_⟩)
        exact noMoreGroups_lcas hmore ((hasLcas_step hget).mpr hlc)
      · exact Or.inr (Or.inl (hgives.mp hgs))
    · intro h hgs
      rcases h with h | h | ⟨hno, hnl⟩
      · exact absurd ⟨h.1, grpsmGetLcas_ne_nil.mpr h.2⟩ hr.noLcas
      · exact absurd hgs (hgives.mpr h)
      · have hf := hfin.mpr hno
        exact ⟨hf, finished_noMoreGroups hf fun hlc => hnl ((hasLcas_step hget).mp hlc)⟩

/-- A table without a link of SQ 0. -/
theorem grpsmGet_zero_final_gap : ∃ ctl1,
    ((grpsmPush grpsmOpen [vcLink 1 1 0] []).bind fun r => grpsmGet r.2 (zeroedCall none 0)) =
      some (ctl1, []) ∧ AllFinished ctl1 ∧ NoMoreGroups ctl1 := by
  refine ⟨_, rfl, ?_⟩
  refine (@grpsmGet_zero_final grpsmOpen _ _ _ [vcLink 1 1 0] [] _ [] _ (zeroedCall none 0)
    rfl rfl (Int.le_refl 0) rfl).mpr (Or.inr (Or.inr ⟨fun s hs sq hn => ?_, fun h => ?_⟩)) rfl
  · obtain ⟨top, ht, _⟩ := hn.stop
    have hs := List.mem_singleton.mp hs
    exact ht.filled 0 (Nat.zero_le top) (by rw [hs]; rfl)
  · obtain ⟨f, hf, s, hs, _⟩ := h
    rw [List.mem_singleton.mp hf] at hs
    cases hs

/-- The level that is tried has no near links below, and the next call finds
two groups on a higher level. -/
theorem zero_hides_groups : ∃ ctl1,
    ((grpsmPush grpsmOpen [vcLink 1 0 0, vcLink 2 1 10, vcLink 3 1 10, vcLink 4 2 5] []).bind
      fun r => grpsmGet r.2 (zeroedCall none 0)) = some (ctl1, []) ∧
    (grpsmGet ctl1 (zeroedCall none 0)).map (fun r => r.2.length) = some 2 ∧
    ¬ AllFinished ctl1 ∧ ¬ NoMoreGroups ctl1 := by
  have hmore {ctl : GrpsmCtl}
      (h : (grpsmGet ctl (zeroedCall none 0)).map (fun r => r.2.length) = some 2) :
      ¬ NoMoreGroups ctl := by
    intro hno
    obtain ⟨r, hr, hlen⟩ := Option.map_eq_some_iff.mp h
    rw [noMoreGroups_get hno (Int.le_refl 0) hr] at hlen
    cases hlen
  have hopen {ctl : GrpsmCtl}
      (h : (ctl.fibers.flatMap GrpsmFiber.vcs).map GrpsmSvc.sqStatus = [.got]) :
      ¬ AllFinished ctl := by
    intro hf
    have hgot : SqStatus.got ∈ (ctl.fibers.flatMap GrpsmFiber.vcs).map GrpsmSvc.sqStatus := by
      simp [h]
    obtain ⟨s, hs, he⟩ := List.mem_map.mp hgot
    obtain ⟨f, hfm, hs⟩ := List.mem_flatMap.mp hs
    rw [hf f hfm s hs] at he
    cases he
  refine ⟨_, rfl, rfl, hopen rfl, hmore rfl⟩

end OiAmc.GrpsmFinish

namespace OiAmc.GrpsmLevels

open PartialMachine PartialLists GrpsmLinks GrpsmPush GrpsmSearch GrpsmGet GrpsmRound
open GrpsmFiling GrpsmFresh GrpsmRemove GrpsmReuse GrpsmFinish

variable {r s s' : GrpsmSvc} {ctl ctl' : GrpsmCtl} {call : GetCall} {gs : List GroupCfg} {k : Nat}

/-- A bundle is searched at a level, on the SQ lists that it has then. -/
structure SearchedAt (r : GrpsmSvc) (sq : Nat) : Prop where
  searched : ∃ gs, grpsmGetVcsFromSvcSq r sq = some gs
  bound : sq < grpsmSqMax
  filled : ∀ i ≤ sq, r.sqlinks i ≠ []

/-- A bundle over a round: r is the bundle once the links of the groups handed in are removed.
One that is finished stays so, and another one is finished or is searched above the level of its
previous search. -/
structure Climbs (r s s' : GrpsmSvc) : Prop where
  finished : s.sqStatus = .finished → s'.sqStatus = .finished
  rises : s.sqStatus ≠ .finished → s'.sqStatus = .finished ∨
    (s'.sqStatus = .got ∧ SearchedAt r s'.sqPre ∧ (s.sqStatus = .got → s.sqPre < s'.sqPre))

theorem getVcs_climbs (h : grpsmGetVcsFromSvc false r = some (s', gs)) : Climbs r r s' := by
  rw [grpsmGetVcsFromSvc] at h
  split at h
  · next hf =>
      cases h
      exact ⟨fun _ => hf, fun hne => absurd hf hne⟩
  · next hf =>
      refine ⟨fun h => absurd h hf, fun _ => ?_⟩
      split at h
      · cases h
        exact .inl rfl
      · next sq hr =>
          have hn : NextLevel r sq := (realSq_eq_some hf).mp hr
          obtain ⟨top, ht, htop⟩ := hn.stop
          have hle : sq ≤ top := by omega
          have hbound := ht.bound
          obtain ⟨cfg, hc, he⟩ := Option.map_eq_some_iff.mp h
          obtain ⟨rfl, rfl⟩ := Prod.mk.inj he
          refine .inr ⟨?_, ⟨⟨cfg, hc⟩, by change sq < _; omega, fun i hi => ht.filled i (hi.trans hle)⟩, ?_⟩
          · rcases hstatus : r.sqStatus with _ | _ | _
            · rfl
            · rfl
            · exact absurd hstatus hf
          · intro hgot
            have hstart := hn.start
            rw [startLevel, if_pos hgot] at hstart
            exact hstart

theorem removed_climbs {fiber : UInt8} {pre : List GroupCfg}
    (h : grpsmGetVcsFromSvc false (grpsmRemoveOlinksFromSvc fiber pre s) = some (s', gs)) :
    Climbs (grpsmRemoveOlinksFromSvc fiber pre s) s s' := by
  have hclimbs := getVcs_climbs h
  have hstatus : (grpsmRemoveOlinksFromSvc fiber pre s).sqStatus = s.sqStatus := by
    rw [removeOlinks_fields]
  have hpre : (grpsmRemoveOlinksFromSvc fiber pre s).sqPre = s.sqPre := by rw [removeOlinks_fields]
  exact ⟨hstatus ▸ hclimbs.finished, hpre ▸ hstatus ▸ hclimbs.rises⟩

/-- All VC bundles of a handle over a round. -/
def AllClimb (call : GetCall) (ctl ctl' : GrpsmCtl) : Prop :=
  List.Forall₂ (fun f f' : GrpsmFiber => List.Forall₂ (fun s s' =>
    Climbs (grpsmRemoveOlinksFromSvc f.fiber (removedBy ctl call) s) s s') f.vcs f'.vcs)
    ctl.fibers ctl'.fibers

theorem runsRound_climbs (h : RunsRound ctl call ctl' gs) (hfull : isPartial ctl call = false) :
    AllClimb call ctl ctl' := by
  obtain ⟨rs, hrs, hfibers, -⟩ := h.rounds
  rw [hfull] at hrs
  rw [AllClimb, hfibers, List.forall₂_map_right_iff]
  refine hrs.imp fun f r hround => ?_
  obtain ⟨qs, hqs, hvcs, -⟩ := hround.vcs
  rw [hvcs, List.forall₂_map_right_iff]
  exact hqs.imp fun s q hq => removed_climbs hq

def isRound (ctl : GrpsmCtl) (call : GetCall) : Bool :=
  !(call.preGroupcfg.isNone && !(grpsmGetLcas ctl).isEmpty)

theorem isRound_iff : isRound ctl call = true ↔ ¬HandsLcas ctl call := by
  rw [isRound, HandsLcas, Bool.not_eq_true', ← Bool.not_eq_true, not_iff_not]
  simp

def height (s : GrpsmSvc) : Nat := if s.sqStatus = .got then s.sqPre + 1 else 0

/-- Every bundle that is not finished was searched in each of k rounds. -/
def Risen (k : Nat) (ctl : GrpsmCtl) : Prop :=
  ∀ f ∈ ctl.fibers, ∀ s ∈ f.vcs, s.sqStatus = .finished ∨ (k ≤ height s ∧ height s ≤ grpsmSqMax)

theorem Climbs.height (h : Climbs r s s') (hs : s.sqStatus = .finished ∨ k ≤ height s) :
    s'.sqStatus = .finished ∨ (k + 1 ≤ GrpsmLevels.height s' ∧ GrpsmLevels.height s' ≤ grpsmSqMax) := by
  by_cases hf : s.sqStatus = .finished
  · exact .inl (h.finished hf)
  · refine (h.rises hf).imp_right fun ⟨hgot, hat, hup⟩ => ?_
    have hk := hs.resolve_left hf
    have hbound := hat.bound
    rw [GrpsmLevels.height, if_pos hgot]
    rw [GrpsmLevels.height] at hk
    split at hk
    · next hpre =>
        have hlt := hup hpre
        omega
    · omega

theorem risen_step (h : grpsmGet ctl call = some (ctl', gs)) (hfull : isPartial ctl call = false)
    (hk : Risen k ctl) : Risen (k + if isRound ctl call then 1 else 0) ctl' := by
  rcases grpsmGet_cases h with ⟨hl, rfl, -⟩ | hr
  · have hno : ¬isRound ctl' call = true := fun h => isRound_iff.mp h hl
    rwa [if_neg hno]
  · rw [if_pos (isRound_iff.mpr hr.noLcas)]
    intro f' hf' s' hs'
    obtain ⟨f, hf, hvcs⟩ := forall₂_mem_right (runsRound_climbs hr hfull) hf'
    obtain ⟨s, hs, hclimbs⟩ := forall₂_mem_right hvcs hs'
    exact hclimbs.height ((hk f hf s hs).imp_right And.left)

theorem risen_push {links : List LinkInfo} {groupcfg : List GroupCfg}
    (h : grpsmPush ctl links groupcfg = some (0, ctl')) : Risen 0 ctl' := by
  obtain ⟨_, fibers, hfibers, rfl⟩ := grpsmPush_eq_some.mp h
  intro f hf s hs
  obtain ⟨fibs, _, hfibers⟩ := Option.bind_eq_some_iff.mp hfibers
  obtain ⟨fiber, _, hinit⟩ := forall₂_mem_right (mapM_eq_some.mp hfibers) hf
  have hdefault := ((grpsmInitFiber_fresh hinit).vcs s hs).sqStatus
  refine .inr ⟨Nat.zero_le _, ?_⟩
  rw [height, hdefault]
  exact Nat.zero_le _

/-- In every run of full calls from a push, each round of such a call searches every VC bundle
above the level of its last search or finishes it, and after 257 rounds all are finished. -/
theorem vc_levels_rise {ctl0 ctl1 : GrpsmCtl} {links : List LinkInfo} {groupcfg : List GroupCfg}
    {calls : List GetCall} {outs : List (List GroupCfg)}
    (hpush : grpsmPush ctl links groupcfg = some (0, ctl0))
    (hrun : run grpsmGet ctl0 calls = some (ctl1, outs))
    (hfull : Guarded grpsmGet (fun ctl call => isPartial ctl call = false) ctl0 calls) :
    (∀ call ctl2 gs, grpsmGet ctl1 call = some (ctl2, gs) → isPartial ctl1 call = false →
      isRound ctl1 call = true → AllClimb call ctl1 ctl2) ∧
    (257 ≤ counted grpsmGet isRound ctl0 calls → AllFinished ctl1) := by
  constructor
  · intro call ctl2 gs hget hfull hround
    rcases grpsmGet_cases hget with ⟨hl, -, -⟩ | hr
    · exact absurd hl (isRound_iff.mp hround)
    · exact runsRound_climbs hr hfull
  · intro hmany f hf s hs
    have hrisen : Risen (0 + counted grpsmGet isRound ctl0 calls) ctl1 :=
      run_counted (fun _ _ _ _ _ hk hfull h => risen_step h hfull hk) (risen_push hpush) hfull hrun
    rcases hrisen f hf s hs with hfin | ⟨hlow, hhigh⟩
    · exact hfin
    · simp only [grpsmSqMax] at hhigh
      omega

theorem vc_levels_rise_single : ∃ ctl0 ctl1, grpsmPush grpsmOpen [vcLink 1 0 0] [] = some (0, ctl0) ∧
    run grpsmGet ctl0 [zeroedCall none 0] = some (ctl1, [[⟨[channelOf (vcLink 1 0 0)], 0⟩]]) ∧
    (∀ call ctl2 gs, grpsmGet ctl1 call = some (ctl2, gs) → isPartial ctl1 call = false →
      isRound ctl1 call = true → AllClimb call ctl1 ctl2) ∧
    (257 ≤ counted grpsmGet isRound ctl0 [zeroedCall none 0] → AllFinished ctl1) := by
  refine ⟨_, _, rfl, rfl, ?_⟩
  exact @vc_levels_rise grpsmOpen _ _ [vcLink 1 0 0] [] [zeroedCall none 0] _ rfl rfl
    ⟨rfl, fun _ _ => trivial⟩

/-- The first search of a bundle is at level 0, which is also what its sq_pre says before. -/
theorem first_search_level : ¬∀ (links : List LinkInfo) (ctl0 ctl1 : GrpsmCtl) (call : GetCall)
    (gs : List GroupCfg), grpsmPush grpsmOpen links [] = some (0, ctl0) →
    grpsmGet ctl0 call = some (ctl1, gs) → isPartial ctl0 call = false → isRound ctl0 call = true →
    List.Forall₂ (fun f f' : GrpsmFiber => List.Forall₂ (fun s s' => s.sqStatus ≠ .finished →
      s'.sqStatus = .finished ∨ s.sqPre < s'.sqPre) f.vcs f'.vcs) ctl0.fibers ctl1.fibers := by
  intro h
  have hfirst := h [vcLink 1 0 0] _ _ (zeroedCall none 0) _ rfl rfl rfl rfl
  cases hfirst with
  | cons hvcs _ =>
      cases hvcs with
      | cons hs _ =>
          rcases hs (by decide) with hfin | hup
          · cases hfin
          · exact absurd hup (Nat.lt_irrefl 0)

end OiAmc.GrpsmLevels

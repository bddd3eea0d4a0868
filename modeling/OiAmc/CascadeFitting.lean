import OiAmc.CascadeRun

namespace OiAmc.CascadeBatching

open Function GotoLoop PartialLists SgfpGroup GrpsmLinks CascadeTry CascadeTrials GreedySegments
open CascadeBatches CascadeRounds CascadeRun

/-- The batches are segments of the candidates one behind the other, each programmed with its
positions as ids and not too large; none is tried after one with a success, and none is left
otherwise. Exactly the candidates of these batches are counted and have their results. -/
structure Batched (world : World) (tryGroup : List SgroupInfo) (st st' : TryState)
    (segs : List (List SgroupInfo)) : Prop where
  covers : ∃ rest, tryGroup = segs.flatten ++ rest ∧
    (rest = [] ∨ true ∈ outcomes world st.batches.length st.trial segs)
  nonempty : segs ≠ []
  parts : ∀ seg ∈ segs, seg ≠ [] ∧ (seg.map links).sum ≤ 255
  stops : ∀ init last, segs = init ++ [last] → true ∉ outcomes world st.batches.length st.trial init
  batches : ∃ new, st'.batches = st.batches ++ new ∧
    List.Forall₂ (fun b log => log.1 = b.1 ∧ Programmed b.2 log.2) (starts 0 segs) new
  preTryNum : st'.preTryNum = segs.flatten.length
  cfgs : st'.cfgs = judge (outcomes world st.batches.length st.trial segs) st.cfgs

variable {world : World} {st : TryState} {tryGroup : List SgroupInfo} {batch trial : Nat}
  {segs : List (List SgroupInfo)}

theorem any_id {vs : List Bool} : vs.any id = true ↔ true ∈ vs := by
  rw [List.any_eq_true]
  exact ⟨fun ⟨v, hv, he⟩ => (show v = true from he) ▸ hv, fun h => ⟨true, h, rfl⟩⟩

theorem tried_front : ∃ more, segs = tried world batch trial segs ++ more ∧
    (more = [] ∨ true ∈ outcomes world batch trial (tried world batch trial segs)) := by
  induction segs generalizing batch trial with
  | nil => exact ⟨[], rfl, .inl rfl⟩
  | cons seg segs ih =>
      rw [tried]
      by_cases hany : (batchVerdicts world batch trial seg.length).any id = true
      · rw [if_pos hany]
        exact ⟨segs, rfl, .inr (List.mem_append_left _ (any_id.mp hany))⟩
      · rw [if_neg hany]
        obtain ⟨more, hmore, hstop⟩ := @ih (batch + 1) (trial + world.settings.tryCount.toNat)
        refine ⟨more, congrArg (seg :: ·) hmore, hstop.imp_right fun h => ?_⟩
        exact List.mem_append_right _ h

theorem tried_stops {init : List (List SgroupInfo)} {last : List SgroupInfo}
    (h : tried world batch trial segs = init ++ [last]) : true ∉ outcomes world batch trial init := by
  induction segs generalizing batch trial init with
  | nil => exact absurd h.symm (List.append_ne_nil_of_right_ne_nil _ (List.cons_ne_nil _ _))
  | cons seg segs ih =>
      rw [tried] at h
      cases init with
      | nil => exact List.not_mem_nil
      | cons seg' init =>
          by_cases hany : (batchVerdicts world batch trial seg.length).any id = true
          · rw [if_pos hany] at h
            have hnil := (List.cons.inj h).2
            exact absurd hnil.symm (List.append_ne_nil_of_right_ne_nil _ (List.cons_ne_nil _ _))
          · rw [if_neg hany] at h
            obtain ⟨rfl, hrest⟩ := List.cons.inj h
            rw [outcomes, List.mem_append]
            exact fun hmem => hmem.elim (fun hmem => hany (any_id.mpr hmem)) (ih hrest)

def successes (world : World) (st : TryState) (tryGroup : List SgroupInfo) : Nat :=
  (verdicts world st.batches.length st.trial (segments links 255 tryGroup)).count true

theorem tryGroups_eq (world : World) (hload : List.Forall₂ Loaded st.cfgs tryGroup) (hne : tryGroup ≠ [])
    (hset : st.set.length = maxGroup) (hcount : st.setCount ≤ maxGroup) (hvalid : ∀ j, st.valid j = 0)
    {fuel : Nat} (hfuel : tryGroup.length < fuel) :
    (st.setCount + successes world st tryGroup ≤ maxGroup → ∃ st',
      tryGroups world tryGroup fuel st = some (0, st') ∧
      Ran 0 [] st.cfgs tryGroup
        (verdicts world st.batches.length st.trial (segments links 255 tryGroup))
        (tried world st.batches.length st.trial (segments links 255 tryGroup))
        { st with preTryNum := 0, okflag := false } st') ∧
    (¬ st.setCount + successes world st tryGroup ≤ maxGroup →
      tryGroups world tryGroup fuel st = none) := by
  have hready : Ready [] st.cfgs tryGroup { st with preTryNum := 0, okflag := false } := by
    refine ⟨rfl, ?_, hset, hcount, hvalid, rfl⟩
    rw [← hload.length_eq, List.take_length]
    exact hload
  have hgroup : tryGroup = [] ++ (tryGroup ++ []) := (List.append_nil _).symm
  have hfront : ([] : List GroupCfg).length = ([] : List SgroupInfo).length := rfl
  generalize hall : tried world st.batches.length st.trial (segments links 255 tryGroup) = all
  have hle : all.length ≤ tryGroup.length := by
    obtain ⟨more, hmore, _⟩ := @tried_front world st.batches.length st.trial
      (segments links 255 tryGroup)
    have hlen := segments_length (loaded_links hload)
    rw [hmore, hall, List.length_append] at hlen
    omega
  have hvs : verdicts world st.batches.length st.trial (segments links 255 tryGroup) =
      outcomes world st.batches.length st.trial (all.take all.length) := by
    rw [List.take_length, ← hall, outcomes_tried]
  obtain ⟨hgo, hstop⟩ := rounds_eq rfl hready hgroup .nil (List.forall_mem_nil _) hfront
    (List.length_pos_of_ne_nil hne) hall.symm (Nat.le_refl _) rfl hvs
  rw [List.length_nil] at hgo hstop
  obtain ⟨more, rfl⟩ := Nat.exists_eq_add_of_le (Nat.le_of_lt (Nat.lt_of_le_of_lt hle hfuel))
  rw [tryGroups, loop_eq_rounds, rounds_add]
  constructor
  · intro hroom
    obtain ⟨st', j, hran, _, hrounds⟩ := hgo hroom
    have hnil : all.length ≠ 0 := by
      intro hnil
      have hempty := tried_nil (hall.trans (List.eq_nil_of_length_eq_zero hnil))
      have hflat := (segments_spec (loaded_links hload)).1
      rw [hempty] at hflat
      exact hne hflat.symm
    rw [if_pos ⟨rfl, hnil, .inr rfl⟩] at hrounds
    rw [List.take_length] at hran
    refine ⟨st', ?_, hran⟩
    rw [hrounds]
    rfl
  · intro hroom
    rw [hstop hroom]
    rfl

/-- Every trial delivers good counters for its only group. -/
def pairWorld : World where
  settings := ⟨1, 0, 0, 1⟩
  device := fun _ => ⟨0, fun _ => .result fun _ => (0, 0)⟩
  fresh := fun _ _ => .zero

def pairGroup : SgroupInfo := { SgroupInfo.zero with linkarraysSize := 1, linkarrays := some [.zero] }

/-- One candidate, with a number of learned groups in m_objSetGroup. -/
def pairState (setCount : Nat) : TryState where
  cfgs := [⟨[⟨0, 0, 0, 0⟩], 0⟩]
  set := List.replicate maxGroup .zero
  setCount := setCount
  valid := fun _ => 0
  preTryNum := 0
  okflag := false
  trial := 0
  batches := []

theorem pair_loaded (setCount : Nat) : List.Forall₂ Loaded (pairState setCount).cfgs [pairGroup] :=
  .cons ⟨Nat.le_refl 1, by decide, rfl, _, rfl, rfl⟩ .nil

theorem full_set_overruns (fuel : Nat) : tryGroups pairWorld [pairGroup] fuel (pairState 256) = none := by
  cases fuel with
  | zero => rfl
  | succ fuel =>
      have hready : Ready [] (pairState 256).cfgs [pairGroup] (pairState 256) :=
        ⟨rfl, pair_loaded 256, List.length_replicate, Nat.le_refl _, fun _ => rfl, rfl⟩
      have hgroup : [pairGroup] = [] ++ ([pairGroup] ++ []) := rfl
      have hfront : ([] : List GroupCfg).length = ([] : List SgroupInfo).length := rfl
      have hvs : [true] = batchVerdicts pairWorld 0 0 (fit links 255 0 [pairGroup]) := by decide
      have hround := (tryRound_eq hready hgroup .nil (List.forall_mem_nil _) hfront (List.cons_ne_nil _ _)
        Nat.zero_lt_one hvs).2 (by decide)
      rw [tryGroups, loop]
      exact congrArg (Option.bind · _) hround

end OiAmc.CascadeBatching

namespace OiAmc.CascadeFitting

open GotoLoop PartialLists SgfpGroup GrpsmLinks CascadeTry CascadeTrials GreedySegments
open CascadeBatches CascadeRounds CascadeRun CascadeBatching

structure Made (cfg : GroupCfg) (g : SgroupInfo) : Prop where
  pos : 1 ≤ cfg.chs.length
  size : g.linkarraysSize = cfg.chs.length
  links : ∃ ls, g.linkarrays = some ls ∧ ls.length = cfg.chs.length

/-- The candidates in front of the first one that is too large for a batch. -/
def fitting (tryGroup : List SgroupInfo) : List SgroupInfo := tryGroup.takeWhile fun g => links g ≤ 255

def fittingTried (world : World) (st : TryState) (tryGroup : List SgroupInfo) : List (List SgroupInfo) :=
  tried world st.batches.length st.trial (segments links 255 (fitting tryGroup))

/-- Rounds that program nothing. -/
structure Idle (st st' : TryState) : Prop where
  cfgs : st'.cfgs = st.cfgs
  okflag : st'.okflag = st.okflag
  batches : ∃ idle, st'.batches = st.batches ++ idle ∧ ∀ b ∈ idle, b.2 = []

variable {world : World} {st st' : TryState} {tryGroup : List SgroupInfo} {batch trial : Nat}
  {segs : List (List SgroupInfo)}

theorem Idle.refl (st : TryState) : Idle st st :=
  ⟨rfl, rfl, [], (List.append_nil _).symm, List.forall_mem_nil _⟩

theorem rounds_idle {before large : List SgroupInfo} (hgroup : tryGroup = before ++ large)
    (hover : Oversize large) (hsizes : ∀ g ∈ large, 0 ≤ g.linkarraysSize) (hne : large ≠ []) (n : Nat) {i : Nat}
    (hi : i < tryGroup.length) (hok : st.okflag = false) : ∃ j st',
      rounds (tryRound world tryGroup) n (⟨i, before.length, before.length, 0⟩, st) =
        some (.inl (⟨j, before.length, before.length, 0⟩, st')) ∧ Idle st st' := by
  induction n generalizing st i with
  | zero => exact ⟨i, st, rfl, .refl st⟩
  | succ n ih =>
      obtain ⟨j, hj, hstep⟩ := @tryRound_idle world st tryGroup i before large hgroup hover hsizes hne hi hok
      let st1 : TryState := { st with
        trial := st.trial + world.settings.tryCount.toNat
        batches := st.batches ++ [(before.length, [])] }
      have hok1 : st1.okflag = false := hok
      obtain ⟨j', st', hrounds, hidle⟩ := ih hj hok1
      obtain ⟨idle, hmore, hempty⟩ := hidle.batches
      refine ⟨j', st', ?_, hidle.cfgs, hidle.okflag, (before.length, []) :: idle, ?_,
        List.forall_mem_cons.mpr ⟨rfl, hempty⟩⟩
      · rw [rounds, hstep]
        exact hrounds
      · rw [hmore]
        exact List.append_assoc _ _ _

theorem outcomes_append (segs' : List (List SgroupInfo)) : outcomes world batch trial (segs ++ segs') =
    outcomes world batch trial segs ++ outcomes world (batch + segs.length)
      (trial + segs.length * world.settings.tryCount.toNat) segs' := by
  induction segs generalizing batch trial with
  | nil =>
      rw [List.nil_append, outcomes, List.nil_append, List.length_nil, Nat.zero_mul]
      rfl
  | cons seg segs ih =>
      rw [List.cons_append, outcomes, outcomes, ih, List.append_assoc, List.length_cons,
        Nat.add_right_comm batch, Nat.add_one_mul, Nat.add_assoc trial,
        Nat.add_comm world.settings.tryCount.toNat]
      rfl

theorem fitting_split (tryGroup : List SgroupInfo) :
    ∃ large, tryGroup = fitting tryGroup ++ large ∧ Oversize large := by
  refine ⟨tryGroup.dropWhile fun g => links g ≤ 255, List.takeWhile_append_dropWhile.symm, fun g hg => ?_⟩
  have hhead := List.head?_dropWhile_not (fun g => decide (links g ≤ 255)) tryGroup
  rw [hg] at hhead
  exact Nat.not_le.mp (of_decide_eq_false hhead)

theorem fitting_loaded {cfgs : List GroupCfg} (h : List.Forall₂ Made cfgs tryGroup) :
    List.Forall₂ Loaded (cfgs.take (fitting tryGroup).length) (fitting tryGroup) := by
  induction h with
  | nil => exact .nil
  | @cons cfg g cfgs tryGroup hmade _ ih =>
      rw [fitting, List.takeWhile_cons]
      split
      · next hle =>
          have hmax : links g ≤ 255 := of_decide_eq_true hle
          rw [links, hmade.size] at hmax
          exact .cons ⟨hmade.pos, hmax, hmade.size, hmade.links⟩ ih
      · exact .nil

theorem made_size {cfgs : List GroupCfg} {g : SgroupInfo} (h : List.Forall₂ Made cfgs tryGroup)
    (hg : g ∈ tryGroup) : 0 ≤ g.linkarraysSize := by
  obtain ⟨cfg, _, hmade⟩ := forall₂_mem_right h hg
  rw [hmade.size]
  exact Int.natCast_nonneg _

theorem tried_all (h : true ∉ outcomes world batch trial (tried world batch trial segs)) :
    tried world batch trial segs = segs := by
  obtain ⟨more, hmore, hstop⟩ := @tried_front world batch trial segs
  rw [hstop.resolve_right h, List.append_nil] at hmore
  exact hmore.symm

theorem fittingTried_split (hload : List.Forall₂ Made st.cfgs tryGroup) :
    ∃ more, fitting tryGroup = (fittingTried world st tryGroup).flatten ++ more := by
  obtain ⟨more, hmore, _⟩ := @tried_front world st.batches.length st.trial
    (segments links 255 (fitting tryGroup))
  refine ⟨more.flatten, ?_⟩
  rw [fittingTried, ← List.flatten_append, ← hmore]
  exact (segments_spec (loaded_links (fitting_loaded hload))).1.symm

theorem fittingTried_le (hload : List.Forall₂ Made st.cfgs tryGroup) :
    (fittingTried world st tryGroup).flatten.length ≤ st.cfgs.length := by
  obtain ⟨large, hsplit, _⟩ := fitting_split tryGroup
  obtain ⟨more, hmore⟩ := @fittingTried_split world st tryGroup hload
  have hlen := congrArg List.length hsplit
  have hlen' := congrArg List.length hmore
  rw [List.length_append] at hlen hlen'
  rw [hload.length_eq]
  omega

theorem fittingTried_successes : successes world st (fitting tryGroup) =
    (outcomes world st.batches.length st.trial (fittingTried world st tryGroup)).count true := by
  rw [successes, fittingTried, outcomes_tried]

theorem fitting_rounds (hload : List.Forall₂ Made st.cfgs tryGroup) (hset : st.set.length = maxGroup)
    (hcount : st.setCount ≤ maxGroup) (hvalid : ∀ j, st.valid j = 0) (hne : tryGroup ≠ [])
    {large : List SgroupInfo} (hsplit : tryGroup = fitting tryGroup ++ large) (hover : Oversize large)
    {all : List (List SgroupInfo)} (hall : all = fittingTried world st tryGroup) {n : Nat}
    (hn : n ≤ all.length) {vs : List Bool} (hvs : vs = outcomes world st.batches.length st.trial (all.take n)) :
    (st.setCount + vs.count true ≤ maxGroup → ∃ st' j,
      Ran 0 [] st.cfgs (fitting tryGroup) vs (all.take n)
        { st with preTryNum := 0, okflag := false } st' ∧ j < tryGroup.length ∧
      rounds (tryRound world tryGroup) n (⟨0, 0, 0, 0⟩, { st with preTryNum := 0, okflag := false }) = some
        (if n = all.length ∧ n ≠ 0 ∧ (vs.any id = true ∨ large = []) then .inr (0, st')
        else .inl (⟨j, vs.length, vs.length, 0⟩, st'))) ∧
    (¬ st.setCount + vs.count true ≤ maxGroup → rounds (tryRound world tryGroup) n
      (⟨0, 0, 0, 0⟩, { st with preTryNum := 0, okflag := false }) = none) := by
  have hready : Ready [] st.cfgs (fitting tryGroup) { st with preTryNum := 0, okflag := false } :=
    ⟨rfl, fitting_loaded hload, hset, hcount, hvalid, rfl⟩
  have hgroup : tryGroup = [] ++ (fitting tryGroup ++ large) := hsplit
  have hfront : ([] : List GroupCfg).length = ([] : List SgroupInfo).length := rfl
  have hsizes : ∀ g ∈ large, 0 ≤ g.linkarraysSize :=
    fun g hg => made_size hload (hsplit ▸ List.mem_append_right _ hg)
  have hrounds := rounds_eq rfl hready hgroup hover hsizes hfront (List.length_pos_of_ne_nil hne) hall hn
    rfl hvs
  rw [List.length_nil, Nat.zero_add] at hrounds
  exact hrounds

theorem fitting_stays (hload : List.Forall₂ Made st.cfgs tryGroup) (hset : st.set.length = maxGroup)
    (hcount : st.setCount ≤ maxGroup) (hvalid : ∀ j, st.valid j = 0) (hnil : tryGroup ≠ [])
    {all : List (List SgroupInfo)} (hall : fittingTried world st tryGroup = all)
    (hroom : st.setCount + (outcomes world st.batches.length st.trial all).count true ≤ maxGroup) (m : Nat) :
    ∃ st1, Ran 0 [] st.cfgs (fitting tryGroup) (outcomes world st.batches.length st.trial all) all
        { st with preTryNum := 0, okflag := false } st1 ∧
      (rounds (tryRound world tryGroup) (all.length + m)
          (⟨0, 0, 0, 0⟩, { st with preTryNum := 0, okflag := false }) = some (.inr (0, st1)) ∨
        ∃ c st', rounds (tryRound world tryGroup) (all.length + m)
          (⟨0, 0, 0, 0⟩, { st with preTryNum := 0, okflag := false }) = some (.inl (c, st')) ∧ Idle st1 st') := by
  obtain ⟨large, hsplit, hover⟩ := fitting_split tryGroup
  have hsizes : ∀ g ∈ large, 0 ≤ g.linkarraysSize :=
    fun g hg => made_size hload (hsplit ▸ List.mem_append_right _ hg)
  have hround := fitting_rounds hload hset hcount hvalid hnil hsplit hover hall.symm (Nat.le_refl _) rfl
  rw [List.take_length] at hround
  obtain ⟨st1, j, hran, hj, hrounds⟩ := hround.1 hroom
  refine ⟨st1, hran, ?_⟩
  rw [rounds_add]
  split at hrounds
  · rw [hrounds]
    exact .inl rfl
  · next hstay =>
      -- without a success every candidate that fits was tried, and one too large is next
      have hfail : true ∉ outcomes world st.batches.length st.trial all := by
        intro hmem
        have hne : all.length ≠ 0 := by
          intro hzero
          rw [List.eq_nil_of_length_eq_zero hzero] at hmem
          exact List.not_mem_nil hmem
        exact hstay ⟨rfl, hne, .inl (any_id.mpr hmem)⟩
      have hflat : all.flatten = fitting tryGroup := by
        have hwhole := tried_all (hall ▸ hfail)
        rw [← hall, fittingTried, hwhole]
        exact (segments_spec (loaded_links (fitting_loaded hload))).1
      have hover' : large ≠ [] := by
        intro hover'
        refine hstay ⟨rfl, fun hzero => ?_, .inr hover'⟩
        rw [List.eq_nil_of_length_eq_zero hzero] at hflat
        rw [hsplit, ← hflat, hover'] at hnil
        exact hnil rfl
      have hok : st1.okflag = false := by
        rw [hran.okflag]
        exact Bool.eq_false_iff.mpr fun h => hfail (any_id.mp h)
      have hpos : (outcomes world st.batches.length st.trial all).length = (fitting tryGroup).length := by
        rw [outcomes_length, hflat]
      rw [hpos] at hrounds
      obtain ⟨j', st', hidle, hst'⟩ := rounds_idle hsplit hover hsizes hover' m hj hok
      rw [hrounds]
      exact .inr ⟨_, st', hidle, hst'⟩

theorem tryGroups_returns (hload : List.Forall₂ Made st.cfgs tryGroup) (hset : st.set.length = maxGroup)
    (hcount : st.setCount ≤ maxGroup) (hvalid : ∀ j, st.valid j = 0) (hnil : tryGroup ≠ []) {fuel : Nat}
    {rc : Int} (h : tryGroups world tryGroup fuel st = some (rc, st')) :
    rc = 0 ∧ st'.setCount ≤ maxGroup ∧ Ran 0 [] st.cfgs (fitting tryGroup)
      (outcomes world st.batches.length st.trial (fittingTried world st tryGroup))
      (fittingTried world st tryGroup) { st with preTryNum := 0, okflag := false } st' := by
  obtain ⟨large, hsplit, hover⟩ := fitting_split tryGroup
  generalize hall : fittingTried world st tryGroup = all
  rw [tryGroups, loop_eq_rounds] at h
  obtain ⟨r, hr, hout⟩ := Option.bind_eq_some_iff.mp h
  have hround {n : Nat} (hn : n ≤ all.length) :=
    fitting_rounds hload hset hcount hvalid hnil hsplit hover hall.symm hn rfl
  by_cases hfuel : fuel < all.length
  · obtain ⟨hgo, hstop⟩ := hround (Nat.le_of_lt hfuel)
    by_cases hroom : st.setCount +
        (outcomes world st.batches.length st.trial (all.take fuel)).count true ≤ maxGroup
    · obtain ⟨st1, j, _, _, hrounds⟩ := hgo hroom
      rw [if_neg fun h => Nat.ne_of_lt hfuel h.1] at hrounds
      obtain rfl := Option.some.inj (hr.symm.trans hrounds)
      cases hout
    · rw [hstop hroom] at hr
      cases hr
  · obtain ⟨m, rfl⟩ := Nat.exists_eq_add_of_le (Nat.not_lt.mp hfuel)
    by_cases hroom : st.setCount + (outcomes world st.batches.length st.trial all).count true ≤ maxGroup
    · obtain ⟨st1, hran, hleft | ⟨c, st2, hidle, _⟩⟩ :=
        fitting_stays hload hset hcount hvalid hnil hall hroom m
      · obtain rfl := Option.some.inj (hr.symm.trans hleft)
        obtain ⟨rfl, rfl⟩ := Prod.mk.inj (Option.some.inj hout)
        exact ⟨rfl, hran.count ▸ hroom, hran⟩
      · obtain rfl := Option.some.inj (hr.symm.trans hidle)
        cases hout
    · have hstop := (hround (Nat.le_refl _)).2
      rw [List.take_length] at hstop
      rw [rounds_add, hstop hroom] at hr
      cases hr

end OiAmc.CascadeFitting

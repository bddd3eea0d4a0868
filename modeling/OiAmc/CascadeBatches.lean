import OiAmc.CascadeTrials
import OiAmc.GreedySegments

namespace OiAmc.CascadeBatches

open Function GotoLoop PartialLists SgfpGroup GrpsmLinks CascadeTry CascadeTrials GreedySegments

structure Loaded (cfg : GroupCfg) (g : SgroupInfo) : Prop where
  pos : 1 ≤ cfg.chs.length
  max : cfg.chs.length ≤ 255
  size : g.linkarraysSize = cfg.chs.length
  links : ∃ ls, g.linkarrays = some ls ∧ ls.length = cfg.chs.length

/-- What m_objSetGroup gets for a successful group. -/
structure Learned (g e : SgroupInfo) : Prop where
  valid : e.isValid = 1
  size : e.linkarraysSize = g.linkarraysSize
  links : e.linkarrays = g.linkarrays
  id : ∃ l, g.link 0 = some l ∧ e.groupId = learnedId l

/-- The results that some verdicts leave in the first candidates. -/
def judge : List Bool → List GroupCfg → List GroupCfg
  | v :: vs, cfg :: cfgs => { cfg with result := if v then 1 else 0 } :: judge vs cfgs
  | _, cfgs => cfgs

def picked : List Bool → List SgroupInfo → List SgroupInfo
  | v :: vs, g :: gs => if v then g :: picked vs gs else picked vs gs
  | _, _ => []

variable {world : World} {st : TryState} {g : SgroupInfo} {groups tryGroup : List SgroupInfo}
  {cfg : GroupCfg} {cfgs front todo : List GroupCfg} {settings : Settings} {pre k n : Nat}

theorem judge_append (vs vs' : List Bool) (h : vs.length ≤ todo.length) :
    judge (vs ++ vs') todo = judge vs (todo.take vs.length) ++ judge vs' (todo.drop vs.length) := by
  induction vs generalizing todo with
  | nil =>
      rw [List.length_nil, List.take_zero, List.drop_zero]
      rfl
  | cons v vs ih =>
      cases todo with
      | nil => exact absurd h (Nat.not_succ_le_zero _)
      | cons cfg todo =>
          rw [List.length_cons, List.take_succ_cons, List.drop_succ_cons, List.cons_append, judge, judge,
            ih (Nat.le_of_succ_le_succ h)]
          rfl

theorem judge_nil : judge [] todo = todo := by cases todo <;> rfl

theorem judge_length (vs : List Bool) : (judge vs todo).length = todo.length := by
  induction vs generalizing todo with
  | nil => rw [judge_nil]
  | cons v vs ih =>
      cases todo with
      | nil => rfl
      | cons cfg todo => rw [judge, List.length_cons, List.length_cons, ih]

theorem picked_append (vs vs' : List Bool) (h : vs.length ≤ groups.length) :
    picked (vs ++ vs') groups = picked vs groups ++ picked vs' (groups.drop vs.length) := by
  induction vs generalizing groups with
  | nil =>
      rw [List.length_nil, List.drop_zero]
      cases groups <;> rfl
  | cons v vs ih =>
      cases groups with
      | nil => exact absurd h (Nat.not_succ_le_zero _)
      | cons g groups =>
          rw [List.length_cons, List.drop_succ_cons, List.cons_append, picked, picked,
            ih (Nat.le_of_succ_le_succ h)]
          split <;> rfl

theorem judge_split (vs : List Bool) (h : vs.length ≤ todo.length) :
    judge vs todo = judge vs (todo.take vs.length) ++ todo.drop vs.length := by
  have hsplit := judge_append vs [] h
  rw [List.append_nil, judge_nil] at hsplit
  exact hsplit

def SameLinks (g g' : SgroupInfo) : Prop :=
  g'.linkarraysSize = g.linkarraysSize ∧ g'.linkarrays = g.linkarrays

theorem Loaded.same {g' : SgroupInfo} (h : Loaded cfg g) (hs : SameLinks g g') : Loaded cfg g' :=
  ⟨h.pos, h.max, hs.1.trans h.size, hs.2 ▸ h.links⟩

theorem Learned.same {g' e : SgroupInfo} (h : Learned g' e) (hs : SameLinks g g') : Learned g e := by
  obtain ⟨l, hl, hid⟩ := h.id
  refine ⟨h.valid, h.size.trans hs.1, h.links.trans hs.2, l, ?_, hid⟩
  rw [← hl, SgroupInfo.link, SgroupInfo.link, hs.2]

theorem mapM_link {ls : List SlinkInfo} (h : g.linkarrays = some ls) :
    (List.range ls.length).mapM g.link = some ls := by
  refine mapM_eq_some.mpr (List.forall₂_iff_get.mpr ⟨List.length_range, fun j hj hj' => ?_⟩)
  rw [List.get_eq_getElem, List.getElem_range, SgroupInfo.link, h, Option.bind_some,
    List.getElem?_eq_getElem hj', List.get_eq_getElem]

theorem collect_eq (st : TryState) (hload : Loaded cfg g) (hset : st.set.length = maxGroup) :
    (st.setCount < maxGroup → ∃ e, Learned g e ∧ collect st g (cfg.chs.length % 256) =
      some { st with set := st.set.set st.setCount e, setCount := st.setCount + 1 }) ∧
    (¬ st.setCount < maxGroup → collect st g (cfg.chs.length % 256) = none) := by
  obtain ⟨ls, hls, hlen⟩ := hload.links
  have hmax := hload.max
  obtain ⟨l, ls', rfl⟩ := List.exists_cons_of_length_pos (hlen ▸ hload.pos)
  have hlinks : (List.range (cfg.chs.length % 256)).mapM g.link = some (l :: ls') := by
    rw [Nat.mod_eq_of_lt (by omega), ← hlen]
    exact mapM_link hls
  rw [collect]
  simp only [hlinks, Option.bind_eq_bind, Option.bind_some, List.head?_cons, hset]
  constructor
  · intro hroom
    rw [if_pos hroom]
    refine ⟨{ g with linkarrays := some (l :: ls'), isValid := 1, groupId := learnedId l },
      ⟨rfl, rfl, hls.symm, l, ?_, rfl⟩, rfl⟩
    rw [SgroupInfo.link, hls]
    rfl
  · intro hroom
    rw [if_neg hroom]

theorem setResult_eq (front : List GroupCfg) (cfg : GroupCfg) (todo : List GroupCfg) (result : UInt8) :
    setResult (front ++ cfg :: todo) front.length result =
      front ++ { cfg with result := result } :: todo := by
  rw [setResult, List.modify_eq_take_cons_drop
    (by rw [List.length_append, List.length_cons]; omega), List.take_left, List.getElem_append_right
    (Nat.le_refl _)]
  simp only [Nat.sub_self, List.getElem_cons_zero]
  rw [List.drop_append, List.drop_of_length_le (by omega), Nat.add_sub_cancel_left]
  rfl

theorem finishGroup_eq (settings : Settings) (hcfgs : st.cfgs = front ++ cfg :: todo) (hfront : front.length = k + pre)
    (hload : Loaded cfg g) (hk : k < maxGroup) (hset : st.set.length = maxGroup)
    (hcount : st.setCount ≤ maxGroup) :
    (st.valid k < settings.validCount.toNat → finishGroup settings pre k g st = some (.inl
      { st with
        preTryNum := st.preTryNum + 1
        cfgs := front ++ { cfg with result := 0 } :: todo
        valid := update st.valid k 0 })) ∧
    (¬ st.valid k < settings.validCount.toNat →
      (st.setCount < maxGroup → ∃ e, Learned g e ∧ finishGroup settings pre k g st = some (.inl
        { st with
          preTryNum := st.preTryNum + 1
          okflag := true
          cfgs := front ++ { cfg with result := 1 } :: todo
          set := st.set.set st.setCount e
          setCount := st.setCount + 1
          valid := update st.valid k 0 })) ∧
      (¬ st.setCount < maxGroup → finishGroup settings pre k g st = none)) := by
  have hget : st.cfgs[k + pre]? = some cfg := by
    rw [hcfgs, ← hfront, List.getElem?_append_right (Nat.le_refl _), Nat.sub_self]
    rfl
  have hresult (result : UInt8) : setResult st.cfgs (k + pre) result =
      front ++ { cfg with result := result } :: todo := by
    rw [hcfgs, ← hfront]
    exact setResult_eq front cfg todo result
  rw [finishGroup]
  simp only [hget, Option.bind_eq_bind, Option.bind_some, if_neg (Nat.not_le.mpr hk), hresult]
  constructor
  · intro hbad
    rw [if_pos hbad]
    rfl
  · intro hgood
    rw [if_neg hgood, if_neg (by omega)]
    obtain ⟨hroom, hfull⟩ := collect_eq { st with
      preTryNum := st.preTryNum + 1
      okflag := true
      cfgs := front ++ { cfg with result := 1 } :: todo } hload hset
    constructor
    · intro hlt
      obtain ⟨e, he, hcollect⟩ := hroom hlt
      rw [hcollect]
      exact ⟨e, he, rfl⟩
    · intro hge
      rw [hfull hge]
      rfl

/-- The data after the verdicts on the groups of a batch. -/
structure Finished (k : Nat) (front todo : List GroupCfg) (vs : List Bool) (groups : List SgroupInfo)
    (st st' : TryState) : Prop where
  cfgs : st'.cfgs = front ++ judge vs todo
  room : st'.set.length = maxGroup
  count : st'.setCount = st.setCount + vs.count true
  added : ∃ added, List.Forall₂ Learned (picked vs groups) added ∧
    st'.set.take st'.setCount = st.set.take st.setCount ++ added
  valid : ∀ j, st'.valid j = if k ≤ j ∧ j < k + groups.length then 0 else st.valid j
  preTryNum : st'.preTryNum = st.preTryNum + groups.length
  okflag : st'.okflag = (st.okflag || vs.any id)
  trial : st'.trial = st.trial
  batches : st'.batches = st.batches

theorem valid_after {a b : Nat → Nat} {len : Nat}
    (h : ∀ j, b j = if k + 1 ≤ j ∧ j < k + 1 + len then 0 else update a k 0 j) (j : Nat) :
    b j = if k ≤ j ∧ j < k + (len + 1) then 0 else a j := by
  rw [h]
  by_cases hj : j = k
  · subst hj
    rw [if_neg (by omega), update_self, if_pos (by omega)]
  · rw [update_of_ne hj]
    have hiff : (k + 1 ≤ j ∧ j < k + 1 + len) ↔ (k ≤ j ∧ j < k + (len + 1)) := by omega
    simp only [hiff]

theorem take_set_succ {xs : List SgroupInfo} {e : SgroupInfo} (hn : n < xs.length) :
    (xs.set n e).take (n + 1) = xs.take n ++ [e] := by
  rw [List.take_add_one, List.getElem?_set_self hn, List.take_set_of_le (Nat.le_refl _)]
  rfl

theorem Finished.bad {st' : TryState} {vs : List Bool} {cfgs' : List GroupCfg}
    (h : Finished (k + 1) (front ++ [{ cfg with result := 0 }]) todo vs groups
      { st with
        preTryNum := st.preTryNum + 1
        cfgs := cfgs'
        valid := update st.valid k 0 } st') :
    Finished k front (cfg :: todo) (false :: vs) (g :: groups) st st' where
  cfgs := h.cfgs.trans (List.append_cons ..).symm
  room := h.room
  count := h.count.trans (congrArg _ (List.count_cons_of_ne Bool.false_ne_true).symm)
  added := h.added
  valid := valid_after h.valid
  preTryNum := h.preTryNum.trans (by rw [List.length_cons]; exact Nat.add_right_comm _ _ _)
  okflag := h.okflag
  trial := h.trial
  batches := h.batches

theorem Finished.good {e : SgroupInfo} {st' : TryState} {vs : List Bool} {cfgs' : List GroupCfg}
    (he : Learned g e) (hroom : st.setCount < st.set.length)
    (h : Finished (k + 1) (front ++ [{ cfg with result := 1 }]) todo vs groups
      { st with
        preTryNum := st.preTryNum + 1
        okflag := true
        cfgs := cfgs'
        set := st.set.set st.setCount e
        setCount := st.setCount + 1
        valid := update st.valid k 0 } st') :
    Finished k front (cfg :: todo) (true :: vs) (g :: groups) st st' where
  cfgs := h.cfgs.trans (List.append_cons ..).symm
  room := h.room
  count := by
    rw [List.count_cons_self, h.count]
    exact Nat.add_right_comm _ _ _
  added := by
    obtain ⟨added, hall, htake⟩ := h.added
    refine ⟨e :: added, .cons he hall, ?_⟩
    rw [htake, List.append_cons]
    exact congrArg (· ++ added) (take_set_succ hroom)
  valid := valid_after h.valid
  preTryNum := h.preTryNum.trans (by rw [List.length_cons]; exact Nat.add_right_comm _ _ _)
  okflag := h.okflag.trans (by rw [List.any_cons, id_eq, Bool.true_or, Bool.or_true])
  trial := h.trial
  batches := h.batches

/-- The loop over the groups of a batch: each gets its verdict, and the successful ones go to
m_objSetGroup as long as there is room. -/
theorem finishBatch_eq {v : Nat → Nat} (hcfgs : st.cfgs = front ++ todo) (hfront : front.length = k + pre)
    (hload : List.Forall₂ Loaded (todo.take groups.length) groups) (hk : k + groups.length ≤ maxGroup)
    (hset : st.set.length = maxGroup) (hcount : st.setCount ≤ maxGroup) (hv : ∀ j ≥ k, st.valid j = v j)
    {vs : List Bool} (hvs : vs = (List.range' k groups.length).map fun j =>
      decide (settings.validCount.toNat ≤ v j)) :
    (st.setCount + vs.count true ≤ maxGroup → ∃ st', finishBatch settings pre k groups st =
      some (.inl st') ∧ Finished k front todo vs groups st st') ∧
    (¬ st.setCount + vs.count true ≤ maxGroup → finishBatch settings pre k groups st = none) := by
  subst hvs
  induction groups generalizing st front todo k with
  | nil =>
      refine ⟨fun _ => ⟨st, rfl, hcfgs, hset, rfl, ⟨[], .nil, (List.append_nil _).symm⟩, fun j => ?_, rfl,
        (Bool.or_false _).symm, rfl, rfl⟩, fun h => absurd hcount h⟩
      rw [if_neg fun h => by have := h.2; rw [List.length_nil] at this; omega]
  | cons g groups ih =>
      rw [List.length_cons] at hload hk
      cases todo with
      | nil =>
          rw [List.take_nil] at hload
          cases hload
      | cons cfg todo =>
          rw [List.take_succ_cons] at hload
          obtain ⟨hcfg, hload⟩ := List.forall₂_cons.mp hload
          obtain ⟨hbad, hgood⟩ := finishGroup_eq settings hcfgs hfront hcfg (by omega) hset
            hcount
          have hfront' (cfg' : GroupCfg) : (front ++ [cfg']).length = k + 1 + pre := by
            rw [List.length_append, hfront, List.length_singleton]
            omega
          have hv' : ∀ j ≥ k + 1, update st.valid k 0 j = v j := by
            intro j hj
            rw [update_of_ne (by omega)]
            exact hv j (by omega)
          rw [List.length_cons, List.range'_succ, List.map_cons, ← hv k (Nat.le_refl _)]
          by_cases hk' : st.valid k < settings.validCount.toNat
          · rw [decide_eq_false (Nat.not_le.mpr hk'), List.count_cons_of_ne Bool.false_ne_true, finishBatch,
              hbad hk']
            let st1 : TryState := { st with
              preTryNum := st.preTryNum + 1
              cfgs := front ++ { cfg with result := 0 } :: todo
              valid := update st.valid k 0 }
            have hcfgs1 : st1.cfgs = (front ++ [{ cfg with result := 0 }]) ++ todo := List.append_cons ..
            have hrest := ih hcfgs1 (hfront' _) hload (by omega) hset hcount hv'
            exact ⟨fun hfit => (hrest.1 hfit).imp fun st' h => ⟨h.1, h.2.bad⟩, hrest.2⟩
          · rw [decide_eq_true (Nat.not_lt.mp hk'), List.count_cons_self, finishBatch]
            obtain ⟨hroom, hfull⟩ := hgood hk'
            by_cases hlt : st.setCount < maxGroup
            · obtain ⟨e, he, hfinish⟩ := hroom hlt
              rw [hfinish]
              let st1 : TryState := { st with
                preTryNum := st.preTryNum + 1
                okflag := true
                cfgs := front ++ { cfg with result := 1 } :: todo
                set := st.set.set st.setCount e
                setCount := st.setCount + 1
                valid := update st.valid k 0 }
              have hcfgs1 : st1.cfgs = (front ++ [{ cfg with result := 1 }]) ++ todo := List.append_cons ..
              have hrest := ih hcfgs1 (hfront' _) hload (by omega) (List.length_set.trans hset) hlt hv'
              rw [Nat.add_right_comm] at hrest
              exact ⟨fun hfit => (hrest.1 hfit).imp fun st' h => ⟨h.1, h.2.good he (hset ▸ hlt)⟩, hrest.2⟩
            · rw [hfull hlt]
              exact ⟨fun hfit => absurd hfit (by omega), fun _ => rfl⟩

end OiAmc.CascadeBatches

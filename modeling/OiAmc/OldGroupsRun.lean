import OiAmc.OldGroupsMerge

namespace OiAmc.OldGroupsRun

open Function PartialLists SgfpGroup OldGroups OldGroupsMerge

/-- A group whose links are all there, on ports and channels that setmap has. -/
structure Sound (g : SgroupInfo) : Prop where
  size : 0 ≤ g.linkarraysSize
  links : ∀ j < g.linkarraysSize.toNat, ∃ l, g.link j = some l ∧ InMap l

/-- No limit of an array is reached. -/
structure Fits (st : MapState) : Prop where
  learned : ∀ g ∈ st.set.take st.setCount, Sound g
  old : ∀ g ∈ st.old, Sound g
  rooms : st.set.length = maxGroup ∧ st.deal.length = maxGroup ∧ st.new.length = maxGroup
  count : st.setCount + st.old.length ≤ maxGroup

/-- What can be copied. -/
def Whole (c : Content) : Prop := 0 ≤ c.2.1 ∧ ∀ x ∈ c.2.2, ∃ l, x = some l

variable {st : MapState} {g : SgroupInfo} {gs : List SgroupInfo} {ports : Nat → PortState} {m : SetMap}

theorem Sound.whole (h : Sound g) : Whole (content g) := by
  refine ⟨h.size, fun x hx => ?_⟩
  obtain ⟨j, hj, rfl⟩ := List.mem_map.mp hx
  obtain ⟨l, hl, _⟩ := h.links j (List.mem_range.mp hj)
  exact ⟨l, hl⟩

theorem copyLinks_defined (h : Whole (content g)) : ∃ links, copyLinks g = some links := by
  have hall : ∀ j ∈ List.range g.linkarraysSize.toNat, ∃ l, g.link j = some l := fun j hj =>
    h.2 (g.link j) (List.mem_map_of_mem hj)
  obtain ⟨links, hlinks⟩ := mapM_isSome hall
  exact ⟨links, copyLinks_eq_some.mpr ⟨h.1, mapM_eq_some.mp hlinks⟩⟩

theorem buildMap_defined (h : ∀ g ∈ gs, Sound g) : ∃ m, buildMap gs = some m := by
  have hgroup (m : SetMap) : ∀ g ∈ gs, ∃ m', mapGroup m g = some m' := by
    intro g hg
    have hlink (n : Nat) (m : SetMap) : ∀ j ∈ List.range g.linkarraysSize.toNat, True →
        ∃ m', mapLink g m j = some m' ∧ True := by
      intro j hj _
      obtain ⟨l, hl, hin⟩ := (h g hg).links j (List.mem_range.mp hj)
      rw [mapLink, hl]
      simp only [Option.bind_eq_bind, Option.bind_some, if_pos hin]
      exact ⟨_, rfl, trivial⟩
    obtain ⟨m', hm', _⟩ := foldlM_budget (I := fun _ _ => True) (List.range g.linkarraysSize.toNat) hlink trivial
    exact ⟨m', hm'⟩
  obtain ⟨m, hm, _⟩ := foldlM_budget (I := fun _ _ => True) gs
    (fun _ m g hg _ => (hgroup m g hg).imp fun _ h => ⟨h, trivial⟩) trivial
  exact ⟨m, hm⟩

theorem flagged_defined (ports : Nat → PortState) (m : SetMap) (h : Sound g) {js : List Nat} (hjs : ∀ j ∈ js, j < g.linkarraysSize.toNat) :
    ∃ flag, flagged ports m g js = some flag := by
  induction js with
  | nil => exact ⟨false, rfl⟩
  | cons j js ih =>
      obtain ⟨hj, hjs⟩ := List.forall_mem_cons.mp hjs
      obtain ⟨l, hl, hin⟩ := h.links j hj
      rw [flagged]
      simp only [hl, Option.bind_eq_bind, Option.bind_some, if_neg (not_not.mpr hin)]
      split
      · exact ⟨true, rfl⟩
      · split
        · exact ⟨true, rfl⟩
        · exact ih hjs

theorem putGroup_defined {xs : List SgroupInfo} {i : Nat} (hi : i < xs.length)
    (f : SgroupInfo → SgroupInfo) : ∃ ys, putGroup xs i f = some ys ∧ ys.length = xs.length :=
  ⟨_, if_pos hi, List.length_modify _ _ _⟩

theorem checkGroup_defined (ports : Nat → PortState) (m : SetMap) (h : Sound g) (hroom : st.dealCount < st.deal.length)
    (hlen : st.deal.length = maxGroup) : ∃ st', checkGroup ports m st g = some st' ∧
      st'.deal.length = st.deal.length ∧ st'.dealCount ≤ st.dealCount + 1 := by
  obtain ⟨flag, hflag⟩ := flagged_defined ports m h fun j hj => List.mem_range.mp hj
  obtain ⟨links, hlinks⟩ := copyLinks_defined h.whole
  rw [checkGroup]
  simp only [hflag, hlinks, Option.bind_eq_bind, Option.bind_some]
  cases flag with
  | true => exact ⟨st, rfl, rfl, Nat.le_succ _⟩
  | false =>
      rw [if_neg Bool.false_ne_true]
      obtain ⟨deal, hput, hlen'⟩ := putGroup_defined hroom fun d =>
        { d with
          groupId := g.groupId
          flag := g.flag
          isValid := 1
          linkarraysSize := g.linkarraysSize
          linkarrays := some links }
      rw [hput, Option.bind_some, if_neg (by omega)]
      exact ⟨_, rfl, hlen', Nat.le_refl _⟩

theorem putNew_defined (h : Whole (content g)) (flag : Int) (hroom : st.newCount < st.new.length)
    (hlen : st.new.length = maxGroup) : ∃ st', putNew st g flag = some st' ∧
      st'.new.length = st.new.length ∧ st'.newCount = st.newCount + 1 := by
  obtain ⟨links, hlinks⟩ := copyLinks_defined h
  obtain ⟨new, hput, hlen'⟩ := putGroup_defined hroom fun d =>
    { d with
      linkarraysSize := g.linkarraysSize
      linkarrays := some links
      groupId := g.groupId
      flag := flag }
  rw [putNew]
  simp only [hlinks, Option.bind_eq_bind, Option.bind_some]
  rw [hput, Option.bind_some, if_neg (by omega)]
  exact ⟨_, rfl, hlen', rfl⟩

theorem putSet_defined (h : Whole (content g)) (hroom : st.setCount < st.set.length)
    (hlen : st.set.length = maxGroup) : ∃ st', putSet st g = some st' ∧
      st'.set.length = st.set.length ∧ st'.setCount = st.setCount + 1 := by
  obtain ⟨links, hlinks⟩ := copyLinks_defined h
  obtain ⟨set, hput, hlen'⟩ := putGroup_defined hroom fun d =>
    { d with
      groupId := g.groupId
      isValid := 1
      linkarraysSize := g.linkarraysSize
      linkarrays := some links }
  rw [putSet]
  simp only [hlinks, Option.bind_eq_bind, Option.bind_some]
  rw [hput, Option.bind_some, if_neg (by omega)]
  exact ⟨_, rfl, hlen', rfl⟩

theorem checkOldGroup_defined (ports : Nat → PortState) (h : Fits st) (hdeal : st.dealCount = 0) : ∃ st',
    checkOldGroup (some ports) st = some st' ∧ st'.dealSize ≤ st.old.length ∧
      st'.dealSize ≤ st'.deal.length := by
  obtain ⟨_, hlen, _⟩ := h.rooms
  have hcount := h.count
  obtain ⟨m, hm⟩ := buildMap_defined h.learned
  obtain ⟨st0, hcheck, hleft, hlen0⟩ := foldlM_budget (f := checkGroup ports m)
    (I := fun n st1 => st1.dealCount + n ≤ st.old.length ∧ st1.deal.length = maxGroup)
    st.old (fun n st1 g hg ⟨hleft, hlen1⟩ => by
      obtain ⟨st2, hst2, hlen2, hle⟩ := checkGroup_defined ports m (h.old g hg) (by omega) hlen1
      exact ⟨st2, hst2, by omega, hlen2.trans hlen1⟩) ⟨by omega, hlen⟩
  rw [checkOldGroup, hm]
  simp only [Option.bind_eq_bind, Option.bind_some, hcheck]
  exact ⟨_, rfl, hleft, by change st0.dealCount ≤ st0.deal.length; omega⟩

theorem learnedRound_defined {i : Nat} (hg : st.set[i]? = some g) (hwhole : Whole (content g))
    (hlen : st.new.length = maxGroup) (hroom : st.newCount < maxGroup) : ∃ st',
      learnedRound st i = some st' ∧ st'.new.length = maxGroup ∧ st'.newCount = st.newCount + 1 ∧
      st'.set = st.set ∧ st'.deal.map content = st.deal.map content := by
  obtain ⟨st', hst', hlen', hcount⟩ := @putNew_defined
    { st with deal := markFirst g.groupId st.dealSize st.deal } g hwhole 1
    (by change st.newCount < st.new.length; omega) hlen
  obtain ⟨_, hsame⟩ := putNew_eq_some hst'
  rw [learnedRound, hg]
  refine ⟨st', hst', hlen'.trans hlen, hcount, ?_, ?_⟩
  · rw [hsame]
  · rw [hsame]
    exact markFirst_content _ _ _

theorem learnedRounds_defined (hlearned : ∀ g ∈ st.set.take st.setCount, Whole (content g))
    (hset : st.setCount ≤ st.set.length) (hnew : st.new.length = maxGroup)
    (hfit : st.newCount + st.setCount ≤ maxGroup) : ∃ st',
      (List.range st.setCount).foldlM learnedRound st = some st' ∧ st'.new.length = maxGroup ∧
      st'.newCount = st.newCount + st.setCount ∧ st'.deal.map content = st.deal.map content := by
  obtain ⟨st', hst', _, hlen, hcount, hdeal⟩ := foldlM_budget
    (I := fun n st1 => st1.set = st.set ∧ st1.new.length = maxGroup ∧
      st1.newCount + n = st.newCount + st.setCount ∧ st1.deal.map content = st.deal.map content)
    (List.range st.setCount) (fun n st1 i hi ⟨hset1, hlen1, hcount1, hdeal1⟩ => by
      have hi := List.mem_range.mp hi
      have hlt : i < st.set.length := by omega
      have hg : st1.set[i]? = some st.set[i] := by
        rw [hset1]
        exact List.getElem?_eq_getElem hlt
      have hmem : st.set[i] ∈ st.set.take st.setCount := List.mem_take_iff_getElem.mpr ⟨i, by omega, rfl⟩
      obtain ⟨st2, hst2, hlen2, hcount2, hset2, hdeal2⟩ :=
        learnedRound_defined hg (hlearned _ hmem) hlen1 (by omega)
      exact ⟨st2, hst2, hset2.trans hset1, hlen2, by omega, hdeal2.trans hdeal1⟩)
    (s := st) ⟨rfl, hnew, by rw [List.length_range], rfl⟩
  exact ⟨st', hst', hlen, by omega, hdeal⟩

theorem oldRound_defined {i : Nat} (hg : st.deal[i]? = some g) (hwhole : Whole (content g))
    (hnew : st.new.length = maxGroup) (hset : st.set.length = maxGroup)
    (hroom : st.newCount < maxGroup) (hroom' : st.setCount < maxGroup) : ∃ st',
      oldRound st i = some st' ∧ st'.new.length = maxGroup ∧ st'.set.length = maxGroup ∧
      st'.newCount ≤ st.newCount + 1 ∧ st'.setCount ≤ st.setCount + 1 ∧ st'.deal = st.deal := by
  rw [oldRound, hg]
  simp only [Option.bind_eq_bind, Option.bind_some]
  by_cases hflag : g.flag = 1
  · rw [if_pos hflag]
    exact ⟨st, rfl, hnew, hset, Nat.le_succ _, Nat.le_succ _, rfl⟩
  · obtain ⟨st1, hst1, hlen1, hcount1⟩ := @putNew_defined st g hwhole g.flag (by omega) hnew
    obtain ⟨_, hsame1⟩ := putNew_eq_some hst1
    have hset1 : st1.set = st.set ∧ st1.setCount = st.setCount := by
      rw [hsame1]
      exact ⟨rfl, rfl⟩
    obtain ⟨st2, hst2, hlen2, hcount2⟩ := @putSet_defined st1 g hwhole
      (by rw [hset1.1, hset1.2]; omega) (by rw [hset1.1]; exact hset)
    rw [hset1.1] at hlen2
    rw [hset1.2] at hcount2
    obtain ⟨_, hsame2, _⟩ := putSet_eq_some hst2
    rw [if_neg hflag, hst1, Option.bind_some]
    refine ⟨st2, hst2, ?_, by omega, ?_, by omega, ?_⟩
    · rw [hsame2]
      exact hlen1.trans hnew
    · rw [hsame2]
      exact Nat.le_of_eq hcount1
    · rw [hsame2, hsame1]

theorem updateNewMap_defined (hlearned : ∀ g ∈ st.set.take st.setCount, Whole (content g))
    (hkept : ∀ c ∈ contents st.deal st.dealSize, Whole c)
    (hset : st.set.length = maxGroup) (hnew : st.new.length = maxGroup) (hdeal : st.dealSize ≤ st.deal.length)
    (hcount : st.newCount = 0) (hfit : st.setCount + st.dealSize ≤ maxGroup) :
    ∃ st', updateNewMap st = some st' := by
  obtain ⟨st1, hst1, hlen1, hcount1, hdeal1⟩ := learnedRounds_defined hlearned (by omega) hnew (by omega)
  obtain ⟨_, _, _, hsame⟩ := learnedRounds (Nat.le_refl _) hst1
  have hcontents : contents st1.deal st.dealSize = contents st.deal st.dealSize := by
    rw [contents, contents, List.map_take, List.map_take, hdeal1]
  have hset1 : st1.set = st.set ∧ st1.setCount = st.setCount ∧ st1.dealSize = st.dealSize := by
    rw [hsame]
    exact ⟨rfl, rfl, rfl⟩
  have hlen1' : st1.deal.length = st.deal.length := by
    have hmap := congrArg List.length hdeal1
    rw [List.length_map, List.length_map] at hmap
    exact hmap
  obtain ⟨st2, hst2, _⟩ := foldlM_budget
    (I := fun n st2 => st2.newCount + n ≤ maxGroup ∧ st2.setCount + n ≤ maxGroup ∧
      st2.new.length = maxGroup ∧ st2.set.length = maxGroup ∧ st2.deal = st1.deal)
    (List.range st1.dealSize) (fun n st2 i hi hleft => by
      obtain ⟨hnew2, hset2, hlen2, hlen2', hdeal2⟩ := hleft
      have hi := List.mem_range.mp hi
      rw [hset1.2.2] at hi
      have hlt : i < st1.deal.length := by omega
      have hg : st2.deal[i]? = some st1.deal[i] := by
        rw [hdeal2]
        exact List.getElem?_eq_getElem hlt
      have hmem : content st1.deal[i] ∈ contents st1.deal st.dealSize :=
        List.mem_map_of_mem (List.mem_take_iff_getElem.mpr ⟨i, by omega, rfl⟩)
      rw [hcontents] at hmem
      obtain ⟨st3, hst3, hlen3, hlen3', hnew3, hset3, hdeal3⟩ :=
        oldRound_defined hg (hkept _ hmem) hlen2 hlen2' (by omega) (by omega)
      exact ⟨st3, hst3, by omega, by omega, hlen3, hlen3', hdeal3.trans hdeal2⟩)
    (s := st1) ⟨by rw [List.length_range]; omega, by rw [List.length_range]; omega, hlen1,
      by rw [hset1.1]; exact hset, rfl⟩
  rw [updateNewMap, hst1]
  exact ⟨st2, hst2⟩

/-- Merging the history keeps learned groups and history apart, and succeeds as long as no array
is too small. -/
theorem history_merged (st : MapState) (ports : Nat → PortState)
    (hlearned : Consistent (contents st.set st.setCount)) (hold : Consistent (st.old.map content))
    (hnew : st.newCount = 0) (hdeal : st.dealCount = 0) :
    (∀ st1 st2, checkOldGroup (some ports) st = some st1 → updateNewMap st1 = some st2 →
      Merged ports st st2) ∧
    (Fits st → ∃ st1 st2, checkOldGroup (some ports) st = some st1 ∧ updateNewMap st1 = some st2) := by
  refine ⟨fun st1 st2 h1 h2 => merged hlearned hold hnew hdeal h1 h2, fun h => ?_⟩
  obtain ⟨hset, _, hnewlen⟩ := h.rooms
  have hfit := h.count
  obtain ⟨st1, h1, hsize, hsize'⟩ := checkOldGroup_defined ports h hdeal
  obtain ⟨m, _, hkept, hst1⟩ := checkOldGroup_kept hdeal h1
  have hset1 : st1.set = st.set ∧ st1.setCount = st.setCount ∧ st1.new = st.new ∧
      st1.newCount = st.newCount := by
    rw [hst1]
    exact ⟨rfl, rfl, rfl, rfl⟩
  have hwhole : ∀ c ∈ contents st1.deal st1.dealSize, Whole c := by
    intro c hc
    rw [contents, hkept.contents] at hc
    obtain ⟨g, hg, rfl⟩ := List.mem_map.mp hc
    exact (h.old g (List.mem_of_mem_filter hg)).whole
  obtain ⟨st2, h2⟩ := updateNewMap_defined
    (by rw [hset1.1, hset1.2.1]; exact fun g hg => (h.learned g hg).whole) hwhole
    (by rw [hset1.1]; exact hset) (by rw [hset1.2.2.1]; exact hnewlen) hsize' (by omega) (by omega)
  exact ⟨st1, st2, h1, h2⟩

/-- A group of one link on fiber 0. -/
def oneLink (channel : UInt8) : SgroupInfo :=
  { SgroupInfo.zero with
    groupId := 4 * channel.toNat
    isValid := 1
    linkarraysSize := 1
    linkarrays := some [{ SlinkInfo.zero with channel := channel }] }

def oneAndOne : MapState where
  set := oneLink 1 :: List.replicate 255 .zero
  setCount := 1
  old := [oneLink 2]
  deal := List.replicate 256 .zero
  dealCount := 0
  dealSize := 0
  new := List.replicate 256 .zero
  newCount := 0

theorem consistent_one (c : Content) : Consistent [c] :=
  ⟨List.pairwise_singleton _ _, List.nodup_singleton _⟩

theorem sound_oneLink {channel : UInt8} (h : channel < 64) : Sound (oneLink channel) where
  size := Int.one_nonneg
  links j hj := by
    obtain rfl : j = 0 := Nat.lt_one_iff.mp hj
    exact ⟨_, rfl, (by decide : (0 : UInt8) < 16), h⟩

theorem history_merged_one : ∃ st1 st2,
    checkOldGroup (some fun _ => ⟨0, 0⟩) oneAndOne = some st1 ∧ updateNewMap st1 = some st2 ∧
      Merged (fun _ => ⟨0, 0⟩) oneAndOne st2 := by
  have hfits : Fits oneAndOne := by
    refine ⟨fun g hg => ?_, fun g hg => ?_, ?_, by decide⟩
    · obtain rfl := List.mem_singleton.mp hg
      exact sound_oneLink (by decide)
    · obtain rfl := List.mem_singleton.mp hg
      exact sound_oneLink (by decide)
    · exact ⟨congrArg (· + 1) List.length_replicate, List.length_replicate, List.length_replicate⟩
  obtain ⟨hmerged, hrun⟩ := history_merged oneAndOne (fun _ => ⟨0, 0⟩) (consistent_one _)
    (consistent_one _) rfl rfl
  obtain ⟨st1, st2, h1, h2⟩ := hrun hfits
  exact ⟨st1, st2, h1, h2, hmerged st1 st2 h1 h2⟩

end OiAmc.OldGroupsRun

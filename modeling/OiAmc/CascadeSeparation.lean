import OiAmc.CascadePorts
import OiAmc.CascadeCompatible
import OiAmc.OldGroupsMerge

namespace OiAmc.CascadeSeparation

open GotoLoop PartialLists SgfpGroup GrpsmLinks CascadeTry CascadeStudy CascadeCandidates CascadeApart
open CascadeCompatible OldGroups OldGroupsMerge CascadePorts

def OfPort (j : Nat) (g : SgroupInfo) : Prop := ∀ l ∈ g.linkarrays.getD [], l.fiber.toNat / 4 = j

instance (j : Nat) (g : SgroupInfo) : Decidable (OfPort j g) := inferInstanceAs (Decidable (∀ _ ∈ _, _))

/-- The status of port group j is about the fibers from 4 * j on. -/
def Own : Event → Prop
  | .decided j i => 4 * j + i % 4 = i
  | .studied _ => True
  | .programmed j groups => ∀ g ∈ groups, OfPort j g
  | .printed _ j links => ∀ l ∈ links, l.fiber.toNat / 4 = j

def studiedFibers (events : List Event) : List UInt8 :=
  events.filterMap fun | .studied fiber => some fiber | _ => none

structure Separated (events : List Event) : Prop where
  own : ∀ e ∈ events, Own e
  once : (studiedFibers events).Nodup

/-- After the first status call that fails, all of them do. -/
def StaysDown (world : PortWorld) : Prop :=
  ∀ j j', j < j' → j' < world.fiberNum.toNat / 4 → world.status j = none → world.status j' = none

/-- What is left of some groups without the first of each of these ids, beside the ids seen before. -/
def notLearned (ids : List Int) : List Int → List SgroupInfo → List SgroupInfo
  | _, [] => []
  | seen, g :: gs =>
      if g.groupId ∈ ids ∧ g.groupId ∉ seen then notLearned ids (g.groupId :: seen) gs
      else g :: notLearned ids (g.groupId :: seen) gs

def OwnHistory (world : PortWorld) (s : RunState) : Prop :=
  ∀ groups ports m, world.aging s.j = .loaded groups → world.agingOpens s.j = true →
    world.recheck s.j = some ports → buildMap s.collected = some m →
    ∀ g ∈ notLearned (s.collected.map fun g => g.groupId) []
      (keptGroups ports m (oldGroups world s.j groups)), OfPort s.j g

/-- The loop over the fibers of a port group is through. -/
def AtTail (s : RunState) : Prop := ∃ i ports, s.inner = some (i, ports) ∧ ¬ i < s.j * 4 + 4

/-- The state after init_env. -/
structure Start (s : RunState) : Prop where
  between : Between s.study
  none : s.study.data.setCount = 0
  first : s.j = 0 ∧ s.inner = Option.none ∧ s.curfiber = 0
  counts : s.dealCount = 0 ∧ s.newCount = 0
  events : s.events = []

variable {world : PortWorld} {s s' : RunState} {j fuel i n : Nat} {g d : SgroupInfo}
  {gs ds kept : List SgroupInfo} {es : List Event} {r : RunState ⊕ RunState}

theorem copyOf_ofPort (h : CopyOf g d) (hg : OfPort j g) : OfPort j d := by
  obtain ⟨links, hcopy, hlinks⟩ := h.links
  obtain ⟨_, hall⟩ := copyLinks_eq_some.mp hcopy
  rw [OfPort, hlinks, Option.getD_some]
  intro l hl
  obtain ⟨k, _, hk⟩ := forall₂_mem_right hall hl
  obtain ⟨ls, hls, hget⟩ := Option.bind_eq_some_iff.mp hk
  refine hg l ?_
  rw [hls, Option.getD_some]
  exact List.mem_of_getElem? hget

theorem copies_ofPort (h : Copies gs ds) (hgs : ∀ g ∈ gs, OfPort j g) : ∀ d ∈ ds, OfPort j d := by
  intro d hd
  obtain ⟨g, hg, hcopy⟩ := forall₂_mem_right h hd
  exact copyOf_ofPort hcopy (hgs g hg)

theorem unflagged_copy {ids seen : List Int} (h : Copies kept ds) (hfirst : FirstFlagged ids seen ds)
    (hd : d ∈ ds) (hflag : d.flag ≠ 1) : ∃ g ∈ notLearned ids seen kept, CopyOf g d := by
  induction h generalizing seen with
  | nil => cases hd
  | @cons g d' kept ds hcopy _ ih =>
      obtain ⟨hhead, hrest⟩ := hfirst
      rw [hcopy.id] at hhead hrest
      rw [notLearned]
      rcases List.mem_cons.mp hd with rfl | hd
      · rw [if_neg fun hid => hflag (hhead hid.1 hid.2)]
        exact ⟨g, List.mem_cons_self, hcopy⟩
      · obtain ⟨k, hk, hkcopy⟩ := ih hrest hd
        split
        · exact ⟨k, hk, hkcopy⟩
        · exact ⟨k, List.mem_cons_of_mem _ hk, hkcopy⟩

theorem updateNewMap_ofPort {st st1 st2 : MapState} {ports : Nat → PortState} (hdeal : st.dealCount = 0)
    (hnew : st.newCount = 0) (hset : ∀ g ∈ st.set.take st.setCount, OfPort j g)
    (h1 : checkOldGroup (some ports) st = some st1) (h2 : updateNewMap st1 = some st2) :
    st2.set.length = st.set.length ∧ ((∀ m, buildMap (st.set.take st.setCount) = some m →
      ∀ g ∈ notLearned ((st.set.take st.setCount).map fun g => g.groupId) [] (keptGroups ports m st.old),
        OfPort j g) →
      (∀ g ∈ st2.set.take st2.setCount, OfPort j g) ∧ ∀ g ∈ st2.new.take st2.newCount, OfPort j g) := by
  obtain ⟨m, hm, hkept, hst1⟩ := checkOldGroup_kept hdeal h1
  obtain ⟨stl, hl, h2⟩ := Option.bind_eq_some_iff.mp h2
  obtain ⟨⟨news, hnewl, hnews⟩, hdeall, hfirst, hstl⟩ := learnedRounds (Nat.le_refl _) hl
  obtain ⟨⟨extra, more, hset2, hnew2, hextra, hmore⟩, _, hlen⟩ := oldRounds (Nat.le_refl _) h2
  have hset1 : st1.set = st.set ∧ st1.setCount = st.setCount ∧ st1.new.take st1.newCount = [] := by
    rw [hst1]
    refine ⟨rfl, rfl, ?_⟩
    change st.new.take st.newCount = []
    rw [hnew, List.take_zero]
  have hsetl : stl.set = st.set ∧ stl.setCount = st.setCount ∧ stl.dealSize = st1.dealSize := by
    rw [hstl]
    exact ⟨hset1.1, hset1.2.1, rfl⟩
  rw [hset1.1, hset1.2.1] at hnews
  rw [hset1.2.2, List.nil_append] at hnewl
  rw [hset1.1, hset1.2.1, contents, List.map_map] at hfirst
  rw [hsetl.1, hsetl.2.1] at hset2
  rw [hsetl.2.2] at hextra hmore
  refine ⟨by rw [hlen, hsetl.1], fun hold => ?_⟩
  have hleft : ∀ d ∈ (stl.deal.take st1.dealSize).filter fun d => d.flag ≠ 1, OfPort j d := by
    intro d hd
    obtain ⟨hd, hflag⟩ := List.mem_filter.mp hd
    obtain ⟨g, hg, hcopy⟩ := unflagged_copy (hdeall _ hkept) hfirst hd (of_decide_eq_true hflag)
    exact copyOf_ofPort hcopy (hold m hm g hg)
  rw [hset2, hnew2, hnewl]
  refine ⟨?_, ?_⟩
  · exact List.forall_mem_append.mpr ⟨hset, copies_ofPort hextra hleft⟩
  · exact List.forall_mem_append.mpr ⟨copies_ofPort hnews hset, copies_ofPort hmore hleft⟩

/-- What the parts of a tail do: they add events of the port group, and leave groups of it. -/
structure TailStep (s s' : RunState) : Prop where
  cursor : s'.j = s.j ∧ s'.curfiber = s.curfiber
  events : ∃ es, s'.events = s.events ++ es ∧ ∀ e ∈ es, Own e ∧ ∀ fiber, e ≠ .studied fiber
  room : s'.study.data.set.length = s.study.data.set.length
  rest : s'.study.data.valid = s.study.data.valid ∧ s'.study.data.cfgs = s.study.data.cfgs
  own : (∀ g ∈ s.collected, OfPort s.j g) → ∀ g ∈ s'.collected, OfPort s.j g

theorem TailStep.refl (s : RunState) : TailStep s s :=
  ⟨⟨rfl, rfl⟩, ⟨[], (List.append_nil _).symm, List.forall_mem_nil _⟩, rfl, ⟨rfl, rfl⟩, id⟩

theorem TailStep.trans {s1 s2 s3 : RunState} (h : TailStep s1 s2) (h' : TailStep s2 s3) : TailStep s1 s3 := by
  obtain ⟨es, hes, hown⟩ := h.events
  obtain ⟨es', hes', hown'⟩ := h'.events
  refine ⟨⟨h'.cursor.1.trans h.cursor.1, h'.cursor.2.trans h.cursor.2⟩, ⟨es ++ es', ?_, ?_⟩,
    h'.room.trans h.room, ⟨h'.rest.1.trans h.rest.1, h'.rest.2.trans h.rest.2⟩, fun hs => ?_⟩
  · rw [hes', hes, List.append_assoc]
  · exact List.forall_mem_append.mpr ⟨hown, hown'⟩
  · rw [← h.cursor.1]
    refine h'.own ?_
    rw [h.cursor.1]
    exact h.own hs

theorem freeLinks_length (n : Nat) (gs : List SgroupInfo) : (freeLinks n gs).length = gs.length :=
  List.length_mapIdx

theorem clearSetinfo_collected (s : RunState) : (clearSetinfo s).collected = [] := List.take_zero

theorem clearSetinfo_step (s : RunState) : TailStep s (clearSetinfo s) := by
  refine ⟨⟨rfl, rfl⟩, ⟨[], (List.append_nil _).symm, List.forall_mem_nil _⟩, freeLinks_length _ _,
    ⟨rfl, rfl⟩, fun _ => ?_⟩
  rw [clearSetinfo_collected]
  exact List.forall_mem_nil _

theorem log_step (s : RunState) (h : ∀ e ∈ es, Own e ∧ ∀ fiber, e ≠ .studied fiber) : TailStep s (s.log es) :=
  ⟨⟨rfl, rfl⟩, ⟨es, rfl, h⟩, rfl, ⟨rfl, rfl⟩, id⟩

theorem printGroups_step {file : SgroupInfo → File} (hgs : ∀ g ∈ gs, OfPort s.j g)
    (h : printGroups file gs s = some r) : TailStep s (r.elim id id) := by
  obtain ⟨rows, hrows, h⟩ := Option.bind_eq_some_iff.mp h
  have hown : ∀ e ∈ rows, Own e ∧ ∀ fiber, e ≠ .studied fiber := by
    intro e he
    obtain ⟨g, hg, hrow⟩ := forall₂_mem_right (mapM_eq_some.mp hrows) he
    obtain ⟨links, hlinks, rfl⟩ := Option.map_eq_some_iff.mp hrow
    refine ⟨fun l hl => ?_, fun _ => nofun⟩
    obtain ⟨k, _, hk⟩ := forall₂_mem_right (mapM_eq_some.mp hlinks) hl
    obtain ⟨ls, hls, hget⟩ := Option.bind_eq_some_iff.mp hk
    refine hgs g hg l ?_
    rw [hls, Option.getD_some]
    exact List.mem_of_getElem? hget
  obtain rfl := Option.some.inj h
  split
  · exact log_step s hown
  · exact log_step s hown

theorem printGroupfile_step (hgs : world.agingOpens s.j = true → ∀ g ∈ gs, OfPort s.j g)
    (h : printGroupfile world gs s = some r) : TailStep s (r.elim id id) := by
  rw [printGroupfile] at h
  split at h
  · next hopen => exact printGroups_step (hgs hopen) h
  · obtain rfl := Option.some.inj h
    exact clearSetinfo_step s

theorem clearMap_step {m : MapState} (hlen : m.set.length = s.study.data.set.length) :
    TailStep s (clearSetinfo (s.putMap m)) := by
  have h := clearSetinfo_step (s.putMap m)
  refine ⟨h.cursor, h.events, h.room.trans hlen, h.rest, fun _ => ?_⟩
  rw [clearSetinfo_collected]
  exact List.forall_mem_nil _

theorem putMap_step {m : MapState} (hset : ∀ g ∈ m.set.take m.setCount, OfPort s.j g)
    (hlen : m.set.length = s.study.data.set.length) : TailStep s (s.putMap m) :=
  ⟨⟨rfl, rfl⟩, ⟨[], (List.append_nil _).symm, List.forall_mem_nil _⟩, hlen, ⟨rfl, rfl⟩, fun _ => hset⟩

theorem loadOld_step (s : RunState) (old : List SgroupInfo) : TailStep s { s with old := old } :=
  ⟨⟨rfl, rfl⟩, ⟨[], (List.append_nil _).symm, List.forall_mem_nil _⟩, rfl, ⟨rfl, rfl⟩, id⟩

theorem setGroup_step (hgs : ∀ g ∈ s.collected, OfPort s.j g) (h : setGroup world s = some r) :
    TailStep s (r.elim id id) := by
  rw [setGroup] at h
  split at h
  · obtain rfl := Option.some.inj h
    exact clearSetinfo_step s
  · have hprogram : TailStep s (if s.study.data.setCount > 0 then s.log [.programmed s.j s.collected] else s) := by
      split
      · exact log_step s (List.forall_mem_singleton.mpr ⟨hgs, fun _ => nofun⟩)
      · exact .refl s
    have hsame : RunState.collected (if s.study.data.setCount > 0 then s.log [.programmed s.j s.collected] else s) =
        s.collected := by split <;> rfl
    generalize (if s.study.data.setCount > 0 then s.log [.programmed s.j s.collected] else s) = s1 at h hprogram hsame
    dsimp only at h
    split at h
    · refine hprogram.trans (printGroups_step ?_ h)
      rw [hsame, hprogram.cursor.1]
      exact hgs
    · obtain rfl := Option.some.inj h
      exact hprogram

theorem merge_step {ports : Nat → PortState} {st1 st2 : MapState} (hcounts : s.dealCount = 0 ∧ s.newCount = 0)
    (hgs : ∀ g ∈ s.collected, OfPort s.j g)
    (hold : world.agingOpens s.j = true → ∀ m, buildMap s.collected = some m →
      ∀ g ∈ notLearned (s.collected.map fun g => g.groupId) [] (keptGroups ports m s.old), OfPort s.j g)
    (h1 : checkOldGroup (some ports) s.map = some st1) (h2 : updateNewMap st1 = some st2)
    (h : printGroupfile world (st2.new.take st2.newCount) (s.putMap st2) = some r) : TailStep s (r.elim id id) := by
  obtain ⟨hlen, hboth⟩ := @updateNewMap_ofPort s.j s.map st1 st2 ports hcounts.1 hcounts.2 hgs h1 h2
  by_cases hopen : world.agingOpens s.j = true
  · obtain ⟨hset, hnew⟩ := hboth (hold hopen)
    exact (putMap_step hset hlen).trans (printGroupfile_step (fun _ => hnew) h)
  · have hclosed : ¬ world.agingOpens (s.putMap st2).j = true := hopen
    rw [printGroupfile, if_neg hclosed] at h
    obtain rfl := Option.some.inj h
    exact clearMap_step hlen

theorem putNewGroupFile_step (hcounts : s.dealCount = 0 ∧ s.newCount = 0) (hgs : ∀ g ∈ s.collected, OfPort s.j g)
    (hown : OwnHistory world s) (h : putNewGroupFile world s = some r) : TailStep s (r.elim id id) := by
  rw [putNewGroupFile] at h
  split at h
  · exact printGroupfile_step (fun _ => hgs) h
  · obtain rfl := Option.some.inj h
    exact clearSetinfo_step s
  · next groups hfile =>
      split at h
      · cases h
      · dsimp only at h
        generalize hs1 : ({ s with old := oldGroups world s.j groups } : RunState) = s1 at h
        have hload : TailStep s s1 := hs1 ▸ loadOld_step s _
        refine hload.trans ?_
        split at h
        · obtain ⟨_, _, rfl⟩ := Option.map_eq_some_iff.mp h
          exact clearSetinfo_step s1
        · next ports hports =>
            obtain ⟨st1, h1, h⟩ := Option.bind_eq_some_iff.mp h
            obtain ⟨st2, h2, h⟩ := Option.bind_eq_some_iff.mp h
            have hold : world.agingOpens s1.j = true → ∀ m, buildMap s1.collected = some m →
                ∀ g ∈ notLearned (s1.collected.map fun g => g.groupId) [] (keptGroups ports m s1.old),
                  OfPort s1.j g := by
              subst hs1
              exact fun hopen m hm => hown groups ports m hfile hopen hports hm
            exact merge_step (hs1 ▸ hcounts) (hs1 ▸ hgs) hold h1 h2 h

theorem convertLinkinfo_all {ls : List SlinkInfo} {acc links : List LinkInfo}
    (h : convertLinkinfo ls acc = (0, links)) (hroom : acc.length + ls.length ≤ maxChannel) :
    links = acc ++ ls.map convertLink := by
  induction ls generalizing acc with
  | nil =>
      obtain ⟨-, rfl⟩ := Prod.mk.inj h
      exact (List.append_nil _).symm
  | cons l ls ih =>
      rw [List.length_cons] at hroom
      rw [convertLinkinfo] at h
      split at h
      · exact absurd (Prod.mk.inj h).1 (by decide)
      · split at h
        · rw [if_pos (by omega)] at h
          rw [ih h (by rw [List.length_append, List.length_singleton]; omega), List.append_assoc]
          rfl
        · exact absurd (Prod.mk.inj h).1 (by decide)

theorem channel_toNat {k : Nat} (h : k ∈ List.range maxChannel) : (UInt8.ofNat k).toUInt16.toNat = k := by
  have hk : k < 64 := List.mem_range.mp h
  rw [UInt8.toNat_toUInt16, UInt8.toNat_ofNat']
  exact Nat.mod_eq_of_lt (by omega)

theorem fiber_table {fiber : UInt8} {links : List LinkInfo}
    (h : convertLinkinfo (getSlinkinfo world fiber) [] = (0, links)) :
    Table links ∧ ∀ l ∈ links, l.fiber = fiber := by
  have hall := convertLinkinfo_all h (by rw [List.length_nil, getSlinkinfo, List.length_map, List.length_range]; omega)
  rw [List.nil_append, getSlinkinfo, List.map_map] at hall
  subst hall
  refine ⟨⟨?_, ?_, ?_⟩, ?_⟩
  · exact List.ne_nil_of_length_pos (by rw [List.length_map, List.length_range]; decide)
  · rw [List.map_map]
    refine List.Nodup.map_on (fun k hk k' hk' he => ?_) List.nodup_range
    have hchannel := congrArg UInt16.toNat (Prod.mk.inj he).2
    exact (channel_toNat hk).symm.trans (hchannel.trans (channel_toNat hk'))
  · intro l hl
    obtain ⟨k, hk, rfl⟩ := List.mem_map.mp hl
    have hlt : k < 64 := List.mem_range.mp hk
    exact lt_of_eq_of_lt (channel_toNat hk) (by omega)
  · intro l hl
    obtain ⟨k, _, rfl⟩ := List.mem_map.mp hl
    rfl

theorem mine_ofPort {links : List LinkInfo} {e : SgroupInfo} {fiber : UInt8} (h : Mine links e)
    (hlinks : ∀ l ∈ links, l.fiber = fiber) : OfPort (fiber.toNat / 4) e := by
  intro l hl
  obtain ⟨l', hl', he⟩ := h.2 l.member (List.mem_map_of_mem hl)
  have hfiber : l'.fiber = l.fiber := (Prod.mk.inj he).1
  rw [← hfiber, hlinks l' hl']

theorem study_adds {links : List LinkInfo} {st st1 st2 : StudyState} (ht : Table links) (hb : Between st)
    (hpush : pushTable st links = some st1) (h : studyLoop world.toStudyWorld fuel n st1 = some st2) :
    Between (clear st2) ∧ ∃ mine, CascadeApart.collected st2.data = CascadeApart.collected st.data ++ mine ∧
      ∀ e ∈ mine, Mine links e := by
  obtain ⟨r, hr, h⟩ := Option.bind_eq_some_iff.mp h
  obtain ⟨mine, hgathered, _⟩ := rounds_spec ht (pushTable_inv hb ht.nonempty hpush) hr
  have hsame : ∃ cfgs, st2.data = { (r.elim id id).data with cfgs := cfgs } := by
    cases r with
    | inr st => exact ⟨_, congrArg StudyState.data (Option.some.inj h).symm⟩
    | inl st =>
        obtain ⟨⟨rc, st', _⟩, hget, rfl⟩ := Option.map_eq_some_iff.mp h
        obtain ⟨⟨ctl, gs⟩, _, hget⟩ := Option.bind_eq_some_iff.mp hget
        obtain ⟨-, hout⟩ := Prod.mk.inj (Option.some.inj hget)
        obtain ⟨rfl, -⟩ := Prod.mk.inj hout
        exact ⟨gs, rfl⟩
  obtain ⟨cfgs, hdata⟩ := hsame
  refine ⟨⟨?_, ?_, fun _ => rfl, rfl⟩, mine, ?_, hgathered.ofTable⟩
  · exact (congrArg (fun d => d.set.length) hdata).trans hgathered.room
  · exact (congrArg TryState.setCount hdata).trans_le hgathered.count
  · rw [hdata]
    exact hgathered.collected

/-- Where the fiber counter is: as long as no status call failed, each port group starts at its
first fiber. -/
def Cursor (world : PortWorld) (s : RunState) : Option (Nat × (Nat → PortState)) → Prop
  | none => s.study.data.setCount = 0 ∧ ((∀ j < s.j, world.status j ≠ none) → s.curfiber = 4 * s.j)
  | some (i, _) => s.j < world.fiberNum.toNat / 4 ∧ (∀ j ≤ s.j, world.status j ≠ none) ∧
      i = s.curfiber ∧ 4 * s.j ≤ i ∧ i ≤ 4 * s.j + 4

/-- What holds between two steps of cascade_run. -/
structure PortInv (world : PortWorld) (s : RunState) : Prop extends Separated s.events where
  between : Between s.study
  counts : s.dealCount = 0 ∧ s.newCount = 0
  groups : ∀ g ∈ s.collected, OfPort s.j g
  passed : ∀ fiber ∈ studiedFibers s.events, fiber.toNat < s.curfiber
  cursor : Cursor world s s.inner

theorem studiedFibers_append (es es' : List Event) :
    studiedFibers (es ++ es') = studiedFibers es ++ studiedFibers es' := List.filterMap_append

theorem studiedFibers_eq_nil (h : ∀ e ∈ es, ∀ fiber, e ≠ .studied fiber) : studiedFibers es = [] := by
  rw [studiedFibers, List.filterMap_eq_nil_iff]
  intro e he
  split
  · next fiber => exact absurd rfl (h _ he fiber)
  · rfl

theorem TailStep.studied (h : TailStep s s') : studiedFibers s'.events = studiedFibers s.events := by
  obtain ⟨es, hes, hown⟩ := h.events
  rw [hes, studiedFibers_append, studiedFibers_eq_nil fun e he => (hown e he).2, List.append_nil]

theorem TailStep.separated (h : TailStep s s') (hs : Separated s.events) : Separated s'.events := by
  refine ⟨?_, h.studied ▸ hs.once⟩
  obtain ⟨es, hes, hown⟩ := h.events
  rw [hes]
  exact List.forall_mem_append.mpr ⟨hs.own, fun e he => (hown e he).1⟩

theorem start_inv (h : Start s) : PortInv world s := by
  obtain ⟨hj, hinner, hfiber⟩ := h.first
  have hnone : s.collected = [] := by rw [RunState.collected, h.none, List.take_zero]
  refine ⟨⟨?_, ?_⟩, h.between, h.counts, ?_, ?_, ?_⟩
  · rw [h.events]
    exact List.forall_mem_nil _
  · rw [h.events]
    exact List.nodup_nil
  · rw [hnone]
    exact List.forall_mem_nil _
  · rw [h.events]
    exact List.forall_mem_nil _
  · rw [hinner]
    exact ⟨h.none, fun _ => by omega⟩

theorem portHead_inv (hdown : StaysDown world) (hinv : PortInv world s) (hinner : s.inner = none) :
    (portHead world s).elim (PortInv world) fun s => Separated s.events := by
  have hcursor := hinv.cursor
  rw [hinner] at hcursor
  obtain ⟨hcount, hfiber⟩ := hcursor
  have hnone : s.collected = [] := by rw [RunState.collected, hcount, List.take_zero]
  rw [portHead]
  split
  · exact hinv.toSeparated
  · next hj =>
      rw [not_not] at hj
      split
      · next hfail =>
          refine ⟨hinv.toSeparated, hinv.between, hinv.counts, ?_, hinv.passed, ?_⟩
          · change ∀ g ∈ s.collected, _
            rw [hnone]
            exact List.forall_mem_nil _
          · change Cursor world _ s.inner
            rw [hinner]
            exact ⟨hcount, fun hall => absurd hfail (hall s.j (Nat.lt_succ_self s.j))⟩
      · next ports hports =>
          have hall : ∀ j < s.j, world.status j ≠ none := by
            intro j hlt hfail
            rw [hdown j s.j hlt hj hfail] at hports
            cases hports
          have hcur := hfiber hall
          refine ⟨hinv.toSeparated, hinv.between, hinv.counts, hinv.groups, hinv.passed, hj, fun j hle => ?_, rfl,
            hcur.ge, hcur.le.trans (Nat.le_add_right _ 4)⟩
          rcases Nat.lt_or_eq_of_le hle with hlt | rfl
          · exact hall j hlt
          · rw [hports]
            exact Option.some_ne_none _

theorem clear_between {st : StudyState} (h : Between st) : Between (clear st) := ⟨h.room, h.count, fun _ => rfl, rfl⟩

theorem fiberNext_inv (s1 : RunState) {ports : Nat → PortState}
    (hcursor : Cursor world s (some (i, ports))) (hin : i < s.j * 4 + 4)
    (hsame : s1.j = s.j ∧ s1.curfiber = s.curfiber) (hsep : Separated s1.events) (hb : Between s1.study)
    (hcounts : s1.dealCount = 0 ∧ s1.newCount = 0) (hgroups : ∀ g ∈ s1.collected, OfPort s.j g)
    (hpassed : ∀ fiber ∈ studiedFibers s1.events, fiber.toNat ≤ i) :
    PortInv world { s1 with
      inner := some (i + 1, ports)
      curfiber := s1.curfiber + 1 } := by
  obtain ⟨hj, hstatus, hcur, hlow, _⟩ := hcursor
  rw [← hsame.2] at hcur
  refine ⟨hsep, hb, hcounts, ?_, fun fiber hf => ?_, ?_⟩
  · change ∀ g ∈ s1.collected, OfPort s1.j g
    rw [hsame.1]
    exact hgroups
  · exact Nat.lt_succ_of_le (hcur ▸ hpassed fiber hf)
  · change s1.j < _ ∧ (∀ j ≤ s1.j, _) ∧ i + 1 = s1.curfiber + 1 ∧ 4 * s1.j ≤ i + 1 ∧ i + 1 ≤ 4 * s1.j + 4
    rw [hsame.1]
    exact ⟨hj, hstatus, by omega, by omega, by omega⟩

theorem fiberRound_inv {ports : Nat → PortState} (hinv : PortInv world s) (hinner : s.inner = some (i, ports))
    (hin : i < s.j * 4 + 4) (h : fiberRound world fuel i ports s = some s') : PortInv world s' := by
  have hcursor := hinv.cursor
  rw [hinner] at hcursor
  obtain ⟨hj, _, hcur, hlow, _⟩ := id hcursor
  have hsmall : world.fiberNum.toNat < 256 := world.fiberNum.toNat_lt
  have hsame : studiedFibers (s.log [.decided s.j i]).events = studiedFibers s.events :=
    (studiedFibers_append _ _).trans (List.append_nil _)
  have hdecided : Separated (s.log [.decided s.j i]).events := by
    refine ⟨List.forall_mem_append.mpr ⟨hinv.own, List.forall_mem_singleton.mpr ?_⟩, ?_⟩
    · change 4 * s.j + i % 4 = i
      omega
    · rw [hsame]
      exact hinv.once
  have hpassed : ∀ fiber ∈ studiedFibers (s.log [.decided s.j i]).events, fiber.toNat < i := by
    rw [hsame, hcur]
    exact hinv.passed
  rw [fiberRound] at h
  dsimp only at h
  split at h
  · obtain rfl := Option.some.inj h
    exact fiberNext_inv (s.log [.decided s.j i]) hcursor hin ⟨rfl, rfl⟩ hdecided hinv.between hinv.counts
      hinv.groups fun fiber hf => Nat.le_of_lt (hpassed fiber hf)
  · split at h
    · next hrc =>
        obtain ⟨s1, hs1, h⟩ := Option.bind_eq_some_iff.mp h
        obtain rfl := Option.some.inj h
        obtain ⟨st1, hpush, hs1⟩ := Option.bind_eq_some_iff.mp hs1
        obtain ⟨st2, hloop, hs1⟩ := Option.bind_eq_some_iff.mp hs1
        obtain rfl := Option.some.inj hs1
        obtain ⟨ht, hlinks⟩ := fiber_table (Prod.ext hrc rfl)
        obtain ⟨hb, mine, hcollected, hmine⟩ := study_adds ht hinv.between hpush hloop
        have hfiber : (UInt8.ofNat i).toNat = i := by
          rw [UInt8.toNat_ofNat']
          exact Nat.mod_eq_of_lt (by omega)
        have hstudied : studiedFibers ((s.log [.decided s.j i]).events ++ [.studied (.ofNat i)]) =
            studiedFibers (s.log [.decided s.j i]).events ++ [.ofNat i] := studiedFibers_append _ _
        let s2 : RunState :=
          { s.log [.decided s.j i] with
            study := clear st2
            events := (s.log [.decided s.j i]).events ++ [.studied (.ofNat i)] }
        refine fiberNext_inv s2 hcursor hin ⟨rfl, rfl⟩ ⟨?_, ?_⟩ hb hinv.counts ?_ fun fiber hf => ?_
        · exact List.forall_mem_append.mpr ⟨hdecided.own, List.forall_mem_singleton.mpr trivial⟩
        · change (studiedFibers (_ ++ [Event.studied _])).Nodup
          rw [hstudied]
          refine List.nodup_append.mpr ⟨hdecided.once, List.nodup_singleton _, fun a ha b hb => ?_⟩
          have hlt := hpassed a ha
          rw [List.mem_singleton.mp hb]
          intro he
          rw [he, hfiber] at hlt
          exact Nat.lt_irrefl _ hlt
        · change ∀ g ∈ CascadeApart.collected st2.data, _
          rw [hcollected]
          refine List.forall_mem_append.mpr ⟨hinv.groups, fun e he => ?_⟩
          have hport := mine_ofPort (hmine e he) hlinks
          rw [hfiber] at hport
          have hgroup : i / 4 = s.j := by omega
          exact hgroup ▸ hport
        · change fiber ∈ studiedFibers (_ ++ [Event.studied _]) at hf
          rw [hstudied] at hf
          rcases List.mem_append.mp hf with hf | hf
          · exact Nat.le_of_lt (hpassed fiber hf)
          · rw [List.mem_singleton.mp hf, hfiber]
    · obtain rfl := Option.some.inj h
      let s2 : RunState := { s.log [.decided s.j i] with study := clear s.study }
      exact fiberNext_inv s2 hcursor hin ⟨rfl, rfl⟩ hdecided (clear_between hinv.between) hinv.counts hinv.groups
        fun fiber hf => Nat.le_of_lt (hpassed fiber hf)

theorem portTail_inv {ports : Nat → PortState} (hinv : PortInv world s) (hinner : s.inner = some (i, ports))
    (hin : ¬ i < s.j * 4 + 4) (hown : OwnHistory world s) (h : portTail world s = some r) :
    r.elim (PortInv world) fun s => Separated s.events := by
  have hcursor := hinv.cursor
  rw [hinner] at hcursor
  obtain ⟨_, hstatus, hcur, _, hhigh⟩ := hcursor
  obtain ⟨r1, hput, h⟩ := Option.bind_eq_some_iff.mp h
  have hstep1 := putNewGroupFile_step hinv.counts hinv.groups hown hput
  cases r1 with
  | inr s1 =>
      obtain rfl := Option.some.inj h
      exact hstep1.separated hinv.toSeparated
  | inl s1 =>
      have hstep1 : TailStep s s1 := hstep1
      have hgroups : ∀ g ∈ s1.collected, OfPort s1.j g := by
        rw [hstep1.cursor.1]
        exact hstep1.own hinv.groups
      obtain ⟨r2, hset, h⟩ := Option.bind_eq_some_iff.mp h
      have hstep2 := setGroup_step hgroups hset
      cases r2 with
      | inr s2 =>
          obtain rfl := Option.some.inj h
          exact (hstep1.trans hstep2).separated hinv.toSeparated
      | inl s2 =>
          obtain rfl := Option.some.inj h
          have hstep : TailStep s (clearSetinfo s2) := (hstep1.trans hstep2).trans (clearSetinfo_step s2)
          refine ⟨hstep.separated hinv.toSeparated, ?_, ⟨rfl, rfl⟩, ?_, fun fiber hf => ?_, rfl, fun _ => ?_⟩
          · refine ⟨hstep.room.trans hinv.between.room, Nat.zero_le _, fun k => ?_, ?_⟩
            · exact (congrFun hstep.rest.1 k).trans (hinv.between.valid k)
            · exact hstep.rest.2.trans hinv.between.cfgs
          · change ∀ g ∈ (clearSetinfo s2).collected, _
            rw [clearSetinfo_collected]
            exact List.forall_mem_nil _
          · exact (hinv.passed fiber (hstep.studied ▸ hf)).trans_eq hstep.cursor.2.symm
          · change (clearSetinfo s2).curfiber = 4 * ((clearSetinfo s2).j + 1)
            rw [hstep.cursor.1, hstep.cursor.2]
            omega

theorem cascadeStep_inv (hdown : StaysDown world) (hown : AtTail s → OwnHistory world s) (hinv : PortInv world s)
    (h : cascadeStep world fuel s = some r) : r.elim (PortInv world) fun s => Separated s.events := by
  rw [cascadeStep] at h
  split at h
  · next hinner =>
      obtain rfl := Option.some.inj h
      exact portHead_inv hdown hinv hinner
  · next i ports hinner =>
      split at h
      · next hin =>
          obtain ⟨s', hs', rfl⟩ := Option.map_eq_some_iff.mp h
          exact fiberRound_inv hinv hinner hin hs'
      · next hin => exact portTail_inv hinv hinner hin (hown ⟨i, ports, hinner, hin⟩) h

/-- Port groups are kept apart as long as no status call succeeds after one that failed, and the
aging files hold nothing of other port groups that is kept and was not learned again. -/
theorem ports_separated (hstart : Start s) (hdown : StaysDown world)
    (hown : ∀ k t, rounds (cascadeStep world fuel) k s = some (.inl t) → AtTail t → OwnHistory world t)
    (h : rounds (cascadeStep world fuel) n s = some r) : Separated (r.elim id id).events := by
  have hinv := rounds_induction (I := PortInv world) (P := fun t => Separated t.events) (start_inv hstart)
    (fun k t ht hinv r hr => cascadeStep_inv hdown (hown k t ht) hinv hr) h
  cases r with
  | inl t => exact PortInv.toSeparated hinv
  | inr t => exact hinv

/-- One channel of each fiber carries a group; port 0 of each port group is up, the others are not. -/
def lineUp : PortWorld := { lineWorld with
  fiberNum := 4
  status := fun _ => some fun k => if k = 0 then ⟨0, 0⟩ else ⟨1, 0⟩
  recheck := fun _ => none
  linkinfo := fun _ channel =>
    { SlinkInfo.zero with
      channelRate := grpsmChannelrateC12
      vcValid := if channel = 0 then 1 else 0 }
  running := fun _ => 1
  aging := fun _ => .absent
  stale := fun _ _ => .zero
  agingOpens := fun _ => true
  resultOpens := fun _ => true }

def atStart : RunState where
  j := 0
  inner := none
  curfiber := 0
  study := unlearned
  old := []
  deal := List.replicate 256 .zero
  dealCount := 0
  dealSize := 0
  new := List.replicate 256 .zero
  newCount := 0
  events := []

theorem atStart_start : Start atStart := ⟨unlearned_between, rfl, ⟨rfl, rfl, rfl⟩, ⟨rfl, rfl⟩, rfl⟩

theorem ports_separated_line : ∃ r, rounds (cascadeStep lineUp 2) 7 atStart = some r ∧
    Separated (r.elim id id).events := by
  have hruns : (rounds (cascadeStep lineUp 2) 7 atStart).isSome = true := by decide +kernel
  obtain ⟨r, hr⟩ := Option.isSome_iff_exists.mp hruns
  refine ⟨r, hr, ports_separated atStart_start (fun _ _ _ _ h => ?_) (fun _ _ _ _ groups _ _ h => ?_) hr⟩
  · exact absurd h (Option.some_ne_none _)
  · change AgingFile.absent = .loaded groups at h
    cases h

/-- The same with eight fibers, and a status call that fails for the first port group. -/
def statusLost : PortWorld := { lineUp with
  fiberNum := 8
  status := fun j => if j = 0 then none else lineUp.status j }

def programs (j : Nat) (p : SgroupInfo → Bool) : Event → Bool
  | .programmed j' groups => j' = j && groups.any p
  | _ => false

/-- Fiber 0 is studied with port group 1, and its group is programmed there. -/
theorem lost_status_mixes : Start atStart ∧ ∃ r, rounds (cascadeStep statusLost 2) 11 atStart = some r ∧
    (∃ groups, .programmed 1 groups ∈ (r.elim id id).events ∧ ∃ g ∈ groups, ¬ OfPort 1 g) ∧
    ¬ Separated (r.elim id id).events := by
  have hruns : (rounds (cascadeStep statusLost 2) 11 atStart).any (fun r =>
      (r.elim id id).events.any (programs 1 fun g => ¬ OfPort 1 g)) = true := by decide +kernel
  obtain ⟨r, hr, hevents⟩ := (Option.any_eq_true _ _).mp hruns
  obtain ⟨e, he, hprograms⟩ := List.any_eq_true.mp hevents
  cases e with
  | programmed j groups =>
      rw [programs, Bool.and_eq_true, decide_eq_true_eq, List.any_eq_true] at hprograms
      obtain ⟨rfl, g, hg, hport⟩ := hprograms
      have hport := of_decide_eq_true hport
      exact ⟨atStart_start, r, hr, ⟨groups, he, g, hg, hport⟩, fun hsep => hport (hsep.own _ he g hg)⟩
  | decided | studied | printed => cases hprograms

end OiAmc.CascadeSeparation

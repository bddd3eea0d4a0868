import OiAmc.CascadeCandidates

namespace OiAmc.CascadeApart

open GotoLoop PartialLists SgfpGroup GrpsmLinks GrpsmReuse CascadeTry CascadeBatches CascadeRounds
open CascadeRun CascadeBatching CascadeFitting CascadeStudy CascadeCandidates

def collected (st : TryState) : List SgroupInfo := st.set.take st.setCount

def Apart (gs : List SgroupInfo) : Prop := (gs.map members).Pairwise List.Disjoint

def successful (world : World) (st : TryState) (tryGroup : List SgroupInfo) : List SgroupInfo :=
  picked (outcomes world st.batches.length st.trial (fittingTried world st tryGroup)) tryGroup

/-- The successful candidates of the next round share no channel. -/
def RoundApart (world : StudyWorld) (s : StudyState) : Prop :=
  ∀ rc s' tryGroup, get world s = some (rc, s', tryGroup) →
    Apart (successful world.toWorld s'.data tryGroup)

def HasId (e : SgroupInfo) : Prop :=
  ∃ l ls, e.linkarrays = some (l :: ls) ∧ e.groupId = learnedId l

/-- A group made of links of the table, with its id. -/
def Mine (links : List LinkInfo) (e : SgroupInfo) : Prop :=
  HasId e ∧ ∀ m ∈ members e, ∃ l ∈ links, narrow l.member = m

structure Gathered (links : List LinkInfo) (prior mine : List SgroupInfo) (st : TryState) : Prop where
  room : st.set.length = maxGroup
  count : st.setCount ≤ maxGroup
  valid : ∀ j, st.valid j = 0
  collected : collected st = prior ++ mine
  ofTable : ∀ e ∈ mine, Mine links e

/-- What holds between two rounds: the channels of the learned groups are gone. -/
structure StudyInv (links : List LinkInfo) (prior mine : List SgroupInfo) (s : StudyState) : Prop
    extends Gathered links prior mine s.data where
  handle : HandleInv links s.ctl
  table : ∀ cfg ∈ s.data.cfgs, FromTable links cfg
  first : s.data.cfgs = [] → mine = []
  gone : ∀ e ∈ mine, ∀ m ∈ members e, Gone m s

variable {world : StudyWorld} {s s' : StudyState} {links : List LinkInfo} {prior mine : List SgroupInfo}
  {tryGroup groups added : List SgroupInfo} {cfgs : List GroupCfg} {vs : List Bool} {fuel : Nat}

theorem learned_members {g e : SgroupInfo} (h : Learned g e) : members e = members g := by
  rw [members, members, h.links]

theorem apart_learned (h : List.Forall₂ Learned groups added) : Apart added ↔ Apart groups := by
  rw [Apart, Apart, map_eq_of_forall₂ (h.imp fun _ _ hl => learned_members hl)]

theorem apart_append {gs gs' : List SgroupInfo} : Apart (gs ++ gs') ↔
    Apart gs ∧ Apart gs' ∧ ∀ g ∈ gs, ∀ g' ∈ gs', List.Disjoint (members g) (members g') := by
  rw [Apart, List.map_append, List.pairwise_append]
  refine and_congr_right fun _ => and_congr_right fun _ => ?_
  rw [List.forall_mem_map]
  exact forall₂_congr fun g _ => List.forall_mem_map

theorem judge_chs (vs : List Bool) {cfg : GroupCfg} (h : cfg ∈ judge vs cfgs) :
    ∃ cfg' ∈ cfgs, cfg.chs = cfg'.chs := by
  induction vs generalizing cfgs with
  | nil =>
      rw [judge_nil] at h
      exact ⟨cfg, h, rfl⟩
  | cons v vs ih =>
      cases cfgs with
      | nil => cases h
      | cons c cfgs =>
          rcases List.mem_cons.mp h with rfl | h
          · exact ⟨c, List.mem_cons_self, rfl⟩
          · obtain ⟨cfg', hcfg', he⟩ := ih h
            exact ⟨cfg', List.mem_cons_of_mem _ hcfg', he⟩

theorem picked_mem (vs : List Bool) {g : SgroupInfo} (h : g ∈ picked vs groups) : g ∈ groups := by
  induction vs generalizing groups with
  | nil => cases groups <;> cases h
  | cons v vs ih =>
      cases groups with
      | nil => cases h
      | cons g' groups =>
          rw [picked] at h
          split at h
          · rcases List.mem_cons.mp h with rfl | h
            · exact List.mem_cons_self
            · exact List.mem_cons_of_mem _ (ih h)
          · exact List.mem_cons_of_mem _ (ih h)

theorem picked_judged {R : GroupCfg → SgroupInfo → Prop} (h : List.Forall₂ R cfgs groups) (vs : List Bool)
    {g : SgroupInfo} (hg : g ∈ picked vs groups) : ∃ cfg ∈ (judge vs cfgs).take vs.length,
      cfg.result ≠ 0 ∧ ∃ cfg', R cfg' g ∧ cfg.chs = cfg'.chs := by
  induction h generalizing vs with
  | nil => cases vs <;> cases hg
  | @cons cfg g' cfgs groups hr _ ih =>
      cases vs with
      | nil => cases hg
      | cons v vs =>
          rw [judge, List.length_cons, List.take_succ_cons]
          rw [picked] at hg
          have hlater (hg : g ∈ picked vs groups) := ih vs hg
          cases v with
          | true =>
              rcases List.mem_cons.mp hg with rfl | hg
              · exact ⟨_, List.mem_cons_self, (by decide : (1 : UInt8) ≠ 0), cfg, hr, rfl⟩
              · obtain ⟨c, hc, hrest⟩ := hlater hg
                exact ⟨c, List.mem_cons_of_mem _ hc, hrest⟩
          | false =>
              obtain ⟨c, hc, hrest⟩ := hlater hg
              exact ⟨c, List.mem_cons_of_mem _ hc, hrest⟩

theorem learned_hasId {g e : SgroupInfo} (h : Learned g e) : HasId e := by
  obtain ⟨l, hl, hid⟩ := h.id
  obtain ⟨ls, hls, hl⟩ := Option.bind_eq_some_iff.mp hl
  cases ls with
  | nil => cases hl
  | cons l' ls =>
      obtain rfl := Option.some.inj hl
      exact ⟨_, ls, h.links.trans hls, hid⟩

theorem built_mine {cfg : GroupCfg} {g e : SgroupInfo} (hb : Built cfg g) (hl : Learned g e)
    (hfrom : FromTable links cfg) : Mine links e := by
  refine ⟨learned_hasId hl, fun m hm => ?_⟩
  rw [learned_members hl, hb.members, GroupCfg.members, List.map_map] at hm
  obtain ⟨ch, hch, rfl⟩ := List.mem_map.mp hm
  obtain ⟨l, hlink, rfl⟩ := hfrom ch hch
  exact ⟨l, hlink, rfl⟩

theorem picked_fitting (hvs : vs.length ≤ (fitting tryGroup).length) : picked vs (fitting tryGroup) = picked vs tryGroup := by
  obtain ⟨large, hsplit, _⟩ := fitting_split tryGroup
  have htake : tryGroup.take vs.length = (fitting tryGroup).take vs.length := by
    rw [hsplit, List.take_append_of_le_length hvs, ← hsplit]
  rw [← picked_take vs tryGroup, htake, picked_take]

theorem studyRound_spec {r : StudyState ⊕ StudyState} (ht : Table links) (hinv : StudyInv links prior mine s)
    (h : studyRound world fuel s = some r) : ∃ added,
      Gathered links prior (mine ++ added) (r.elim id id).data ∧
      (∀ rc s' tryGroup, get world s = some (rc, s', tryGroup) → ∀ e ∈ added, ∃ g ∈ tryGroup, Learned g e) ∧
      (RoundApart world s ↔ Apart added) ∧
      (∀ e ∈ mine, ∀ e' ∈ added, List.Disjoint (members e) (members e')) ∧
      ∀ s', r = .inl s' → StudyInv links prior (mine ++ added) s' := by
  obtain ⟨⟨rc, s1, tryGroup⟩, hget, h⟩ := Option.bind_eq_some_iff.mp h
  obtain ⟨hgot, hrc⟩ := get_got ht hinv.handle hinv.table hget
  have hsame {P : StudyState → List SgroupInfo → Prop} (hp : P s1 tryGroup) :
      ∀ rc s' tryGroup, get world s = some (rc, s', tryGroup) → P s' tryGroup := by
    intro rc' s' tg hget'
    obtain ⟨rfl, h'⟩ := Prod.mk.inj (Option.some.inj (hget.symm.trans hget'))
    obtain ⟨rfl, rfl⟩ := Prod.mk.inj h'
    exact hp
  have hround : RoundApart world s ↔ Apart (successful world.toWorld s1.data tryGroup) :=
    ⟨fun h => h rc s1 tryGroup hget, fun h => hsame h⟩
  have hkept : Gathered links prior mine s1.data := by
    obtain ⟨cfgs, hdata⟩ := hgot.data
    rw [hdata]
    exact ⟨hinv.room, hinv.count, hinv.valid, hinv.collected, hinv.ofTable⟩
  by_cases hnil : s1.data.cfgs = []
  · rw [if_pos hnil] at hrc
    subst hrc
    obtain rfl := Option.some.inj h
    have hempty : tryGroup = [] := by
      have hbuilt := hgot.built
      rw [hnil] at hbuilt
      exact List.forall₂_nil_left_iff.mp hbuilt
    refine ⟨[], ?_, ?_, ?_, fun e _ e' he' => absurd he' List.not_mem_nil, fun s' h => nomatch h⟩
    · rw [List.append_nil]
      exact hkept
    · exact fun _ _ _ _ e he => absurd he List.not_mem_nil
    · rw [hround, hempty]
      have hpicked : successful world.toWorld s1.data [] = [] := by
        rw [successful]
        cases outcomes world.toWorld s1.data.batches.length s1.data.trial _ <;> rfl
      rw [hpicked]
  · rw [if_neg hnil] at hrc
    subst hrc
    obtain ⟨⟨rc, data⟩, htry, h⟩ := Option.bind_eq_some_iff.mp h
    have hmade : List.Forall₂ Made s1.data.cfgs tryGroup := hgot.built.imp fun _ _ hb => hb.toMade
    have hne : tryGroup ≠ [] := by
      intro hempty
      have hlen := hgot.built.length_eq
      rw [hempty] at hlen
      exact hnil (List.eq_nil_of_length_eq_zero hlen)
    obtain ⟨rfl, hcount, hran⟩ := tryGroups_returns hmade hkept.room hkept.count hkept.valid hne htry
    obtain rfl := Option.some.inj h
    generalize hvs : outcomes world.toWorld s1.data.batches.length s1.data.trial
      (fittingTried world.toWorld s1.data tryGroup) = vs at hran
    have hlen : vs.length ≤ (fitting tryGroup).length := by
      obtain ⟨more, hmore⟩ := @fittingTried_split world.toWorld s1.data tryGroup hmade
      rw [hmore, List.length_append, ← hvs, outcomes_length]
      exact Nat.le_add_right _ _
    obtain ⟨added, hadded, hcoll⟩ := hran.added
    rw [picked_fitting hlen] at hadded
    have hsucc : successful world.toWorld s1.data tryGroup = picked vs tryGroup := by rw [successful, hvs]
    have hbuilt {e : SgroupInfo} (he : e ∈ added) : ∃ g ∈ tryGroup, Learned g e ∧
        ∃ cfg ∈ data.cfgs.take data.preTryNum, cfg.result ≠ 0 ∧ ∃ cfg', Built cfg' g ∧ cfg.chs = cfg'.chs := by
      obtain ⟨g, hg, hl⟩ := forall₂_mem_right hadded he
      refine ⟨g, picked_mem vs hg, hl, ?_⟩
      have hjudged := picked_judged hgot.built vs hg
      rw [← Nat.zero_add vs.length, ← List.nil_append (judge vs _)] at hjudged
      rw [hran.cfgs, hran.preTryNum]
      exact hjudged
    have hmine : ∀ e ∈ added, Mine links e := by
      intro e he
      obtain ⟨g, hg, hl, _⟩ := hbuilt he
      obtain ⟨cfg, hcfg, hb⟩ := forall₂_mem_right hgot.built hg
      exact built_mine hb hl (hgot.table cfg hcfg)
    have hall : Gathered links prior (mine ++ added) data := by
      refine ⟨hran.room, hcount, hran.valid, ?_, List.forall_mem_append.mpr ⟨hinv.ofTable, hmine⟩⟩
      rw [← List.append_assoc, ← hkept.collected]
      exact hcoll
    refine ⟨added, hall, ?_, ?_, fun e he e' he' m hm hm' => ?_, fun s' hs' => ?_⟩
    · refine hsame (P := fun _ tryGroup => ∀ e ∈ added, ∃ g ∈ tryGroup, Learned g e) fun e he => ?_
      obtain ⟨g, hg, hl, _⟩ := hbuilt he
      exact ⟨g, hg, hl⟩
    · rw [hround, hsucc, apart_learned hadded]
    · obtain ⟨g, hg, hl, _⟩ := hbuilt he'
      rw [learned_members hl] at hm'
      rcases hgot.apart with ⟨_, hnone⟩ | ⟨hfirst, _⟩
      · exact hnone m (hgot.gone m (hinv.gone e he m hm)) g hg hm'
      · rw [hinv.first hfirst] at he
        exact List.not_mem_nil he
    · obtain rfl := Sum.inl.inj hs'
      refine ⟨hall, hgot.handle, fun cfg hcfg => ?_, fun hempty => ?_, fun e he m hm => ?_⟩
      · have hcfg : cfg ∈ judge vs s1.data.cfgs := by
          rw [show judge vs s1.data.cfgs = data.cfgs from hran.cfgs.symm]
          exact hcfg
        obtain ⟨cfg', hcfg', he⟩ := judge_chs vs hcfg
        rw [FromTable, he]
        exact hgot.table cfg' hcfg'
      · have hlen := congrArg List.length (hran.cfgs.symm.trans hempty)
        rw [List.nil_append, judge_length] at hlen
        exact absurd (List.eq_nil_of_length_eq_zero hlen) hnil
      · rcases List.mem_append.mp he with he | he
        · exact .inl (hgot.gone m (hinv.gone e he m hm))
        · obtain ⟨g, hg, hl, cfg, hcfg, hok, cfg', hb, hchs⟩ := hbuilt he
          rw [learned_members hl] at hm
          rcases hgot.apart with ⟨hlcas, _⟩ | ⟨_, hspent⟩
          · refine .inr ⟨hlcas, cfg, hcfg, hok, ?_⟩
            rw [hb.members, GroupCfg.members, ← hchs] at hm
            exact hm
          · exact .inl (hspent g hg m hm)

end OiAmc.CascadeApart

import OiAmc.CascadeStudy
import OiAmc.CascadeFitting
import OiAmc.GrpsmReuse

namespace OiAmc.CascadeCandidates

open PartialLists SgfpGroup GrpsmLinks GrpsmSearch GrpsmGet GrpsmRound GrpsmRemove GrpsmReuse
open CascadeTry CascadeFitting CascadeStudy

/-- The channel of a link or candidate as the groups to be tried name it. -/
def narrow (m : UInt8 × UInt16) : UInt8 × UInt8 := (m.1, m.2.toUInt8)

def members (g : SgroupInfo) : List (UInt8 × UInt8) := (g.linkarrays.getD []).map SlinkInfo.member

def Spent (m : UInt8 × UInt8) (ctl : GrpsmCtl) : Prop :=
  ∀ f ∈ ctl.fibers, ∀ s ∈ f.vcs, ∀ ch, Listed s ch → narrow ch.member ≠ m

def FromTable (links : List LinkInfo) (cfg : GroupCfg) : Prop :=
  ∀ ch ∈ cfg.chs, ∃ l ∈ links, ch = channelOf l

/-- A link table whose channels are apart, with numbers of eight bits. -/
structure Table (links : List LinkInfo) : Prop where
  nonempty : links ≠ []
  nodup : (links.map LinkInfo.member).Nodup
  small : ∀ l ∈ links, l.channel.toNat < 256

variable {links : List LinkInfo} {ctl ctl' : GrpsmCtl} {call : GetCall} {gs : List GroupCfg}
  {world : StudyWorld} {s s' : StudyState} {tryGroup : List SgroupInfo}

theorem narrow_inj {m m' : UInt8 × UInt16} (h : m.2.toNat < 256) (h' : m'.2.toNat < 256)
    (he : narrow m = narrow m') : m = m' := by
  obtain ⟨hf, hc⟩ := Prod.mk.inj he
  refine Prod.ext hf (UInt16.toNat_inj.mp ?_)
  have hn := congrArg UInt8.toNat hc
  rw [UInt16.toNat_toUInt8, UInt16.toNat_toUInt8, Nat.mod_eq_of_lt h, Nat.mod_eq_of_lt h'] at hn
  exact hn

theorem Table.small_member (h : Table links) {cfg : GroupCfg} (hcfg : FromTable links cfg)
    {m : UInt8 × UInt16} (hm : m ∈ cfg.members) : m.2.toNat < 256 := by
  obtain ⟨ch, hch, rfl⟩ := List.mem_map.mp hm
  obtain ⟨l, hl, rfl⟩ := hcfg ch hch
  exact h.small l hl

theorem listed_link {f : GrpsmFiber} {svc : GrpsmSvc} {ch : GroupChannel} (hinv : SvcInv links f.fiber svc)
    (h : Listed svc ch) : ∃ l ∈ links, ch = channelOf l := by
  obtain ⟨k, p, hp, rfl⟩ := h
  exact ⟨p.link, link_mem_of_mem_linkPtrs (hinv.mem k p hp), rfl⟩

theorem grpsmGet_fromTable (hi : HandleInv links ctl) (h : grpsmGet ctl call = some (ctl', gs)) :
    ∀ g ∈ gs, FromTable links g := by
  intro g hg ch hch
  have hi' := grpsmGet_inv hi h
  obtain ⟨f, hf, s, hs, hl⟩ := grpsmGet_listed h g hg ch hch
  rcases List.mem_append.mp hs with hs | hs
  · exact listed_link ((hi'.fibers f hf).vcs s hs).1 hl
  · exact listed_link ((hi'.fibers f hf).lcas s hs).1 hl

theorem lcasChannels_ne_nil {svc : GrpsmSvc} {lm : LinkInfo} {n : Nat} {chs chs' : List GroupChannel}
    (hne : chs ≠ []) (h : lcasChannels svc lm n chs = some chs') : chs' ≠ [] := by
  induction n generalizing chs with
  | zero =>
      cases h
      exact hne
  | succ n ih =>
      rw [lcasChannels] at h
      split at h
      · exact ih (List.cons_ne_nil _ _) h
      · cases h

theorem blinkGroups_ne_nil {svc : GrpsmSvc} {sq : Nat} {p : LinkPtr} (h : blinkGroups svc sq p = some gs) :
    ∀ g ∈ gs, g.chs ≠ [] := by
  rw [blinkGroups] at h
  split at h
  · cases h
    exact List.forall_mem_nil _
  · next cands hcands =>
      obtain ⟨_, rfl⟩ := grpsmInitSqlinks_eq_some.mp hcands
      obtain ⟨total, _, h⟩ := Option.bind_eq_some_iff.mp h
      split at h
      · cases h
      · obtain rfl := Option.some.inj h
        intro g hg
        obtain ⟨i, _, rfl⟩ := List.mem_map.mp hg
        rw [ne_eq, List.map_eq_nil_iff, List.range_eq_nil, List.length_append, List.length_singleton]
        exact Nat.succ_ne_zero _

theorem sqGroups_ne_nil {svc : GrpsmSvc} {sq : Nat} (h : grpsmGetVcsFromSvcSq svc sq = some gs) :
    ∀ g ∈ gs, g.chs ≠ [] := by
  rw [grpsmGetVcsFromSvcSq] at h
  split at h
  · obtain rfl := Option.some.inj h
    intro g hg
    obtain ⟨p, _, rfl⟩ := List.mem_map.mp hg
    exact List.cons_ne_nil _ _
  · obtain ⟨gss, hgss, rfl⟩ := Option.map_eq_some_iff.mp h
    intro g hg
    obtain ⟨gs, hgs, hg⟩ := List.mem_flatten.mp hg
    obtain ⟨p, _, hp⟩ := forall₂_mem_right (mapM_eq_some.mp hgss) hgs
    exact blinkGroups_ne_nil hp g hg

theorem grpsmGet_ne_nil (h : grpsmGet ctl call = some (ctl', gs)) : ∀ g ∈ gs, g.chs ≠ [] := by
  intro g hg
  rcases grpsmGet_cases h with ⟨_, rfl, rfl⟩ | hr
  · obtain ⟨f, _, hg⟩ := List.mem_flatMap.mp hg
    obtain ⟨s, _, hg⟩ := List.mem_flatMap.mp hg
    obtain ⟨p, _, hg⟩ := List.mem_filterMap.mp hg
    obtain ⟨chs, hchs, rfl⟩ := Option.map_eq_some_iff.mp hg
    exact lcasChannels_ne_nil (List.cons_ne_nil _ _) hchs
  · obtain ⟨rs, hrs, _, rfl⟩ := hr.rounds
    obtain ⟨os, hos, hg⟩ := List.mem_flatten.mp hg
    obtain ⟨r, hrm, rfl⟩ := List.mem_map.mp hos
    obtain ⟨f, _, hround⟩ := forall₂_mem_right hrs hrm
    obtain ⟨qs, hqs, _, hout⟩ := hround.vcs
    rw [hout] at hg
    obtain ⟨os, hos, hg⟩ := List.mem_flatten.mp hg
    obtain ⟨q, hq, rfl⟩ := List.mem_map.mp hos
    obtain ⟨s, _, hsearch⟩ := forall₂_mem_right hqs hq
    rw [grpsmGetVcsFromSvc] at hsearch
    split at hsearch
    · cases hsearch
      cases hg
    · split at hsearch
      · cases hsearch
        cases hg
      · obtain ⟨cfg, hcfg, rfl⟩ := Option.map_eq_some_iff.mp hsearch
        exact sqGroups_ne_nil hcfg g hg

theorem Spent.get {m : UInt8 × UInt8} (hm : Spent m ctl) (h : grpsmGet ctl call = some (ctl', gs)) :
    Spent m ctl' := by
  intro f' hf' s' hs' ch hch
  obtain ⟨f, hf, hstep⟩ := forall₂_mem_right (grpsmGet_fiberStep h).2 hf'
  obtain ⟨s, hs, he⟩ := forall₂_mem_right hstep.vcs hs'
  obtain ⟨k, p, hp, rfl⟩ := hch
  rw [he] at hp
  exact hm f hf s hs _ ⟨k, p, (removeOlinks_sublist _ s k).subset hp, rfl⟩

theorem spent_of_removed (ht : Table links) (hi : HandleInv links ctl)
    (h : grpsmGet ctl call = some (ctl', gs)) {cfg : GroupCfg} (hcfg : cfg ∈ removedBy ctl call)
    (hok : cfg.result ≠ 0) (hfrom : FromTable links cfg) {m : UInt8 × UInt16} (hm : m ∈ cfg.members) :
    Spent (narrow m) ctl' := by
  intro f' hf' s' hs' ch hch he
  obtain ⟨f, hf, hstep⟩ := forall₂_mem_right (grpsmGet_fiberStep h).2 hf'
  obtain ⟨s, hs, hk⟩ := forall₂_mem_right (hstep.reduced ht.nodup (hi.fibers f hf)).vcs hs'
  obtain ⟨k, p, hp, rfl⟩ := hch
  rw [(hk k).2] at hp
  obtain ⟨hin, hout⟩ := List.mem_filter.mp hp
  refine of_decide_eq_true hout (List.mem_flatMap.mpr ⟨cfg, ?_, ?_⟩)
  · exact List.mem_filter.mpr ⟨hcfg, decide_eq_true hok⟩
  · have hlink := link_mem_of_mem_linkPtrs (((hi.fibers f hf).vcs s hs).1.mem k p hin)
    have hsame : p.link.member = m := narrow_inj (ht.small _ hlink) (ht.small_member hfrom hm) he
    exact hsame ▸ hm

theorem spent_of_lcas (ht : Table links) (hi : HandleInv links ctl) {f : GrpsmFiber} (hf : f ∈ ctl.fibers)
    {svc : GrpsmSvc} (hs : svc ∈ f.lcas) {ch : GroupChannel} (hch : Listed svc ch) :
    Spent (narrow ch.member) ctl := by
  intro f' hf' s' hs' ch' hch' he
  obtain ⟨k, p, hp, rfl⟩ := hch
  obtain ⟨k', p', hp', rfl⟩ := hch'
  obtain ⟨hinv, hlcas⟩ := (hi.fibers f hf).lcas svc hs
  obtain ⟨hinv', hvc⟩ := (hi.fibers f' hf').vcs s' hs'
  have hlink := link_mem_of_mem_linkPtrs (hinv.mem k p hp)
  have hlink' := link_mem_of_mem_linkPtrs (hinv'.mem k' p' hp')
  have hmember : p'.link.member = p.link.member := narrow_inj (ht.small _ hlink') (ht.small _ hlink) he
  have hsame : p'.link = p.link := List.inj_on_of_nodup_map ht.nodup hlink' hlink hmember
  exact hlcas k p hp (hsame ▸ hvc k' p' hp')

/-- A candidate with the entry of m_objTryGroup made of it. -/
structure Built (cfg : GroupCfg) (g : SgroupInfo) : Prop extends Made cfg g where
  members : members g = cfg.members.map narrow

theorem tryGroupOf_built (fresh : SgroupInfo) (linkarrays : Nat → SlinkInfo) {cfg : GroupCfg}
    (hne : cfg.chs ≠ []) : Built cfg (tryGroupOf fresh linkarrays cfg) := by
  refine ⟨⟨List.length_pos_of_ne_nil hne, rfl, _, rfl, List.length_mapIdx⟩, ?_⟩
  change ((cfg.chs.mapIdx fun j c => tryLink (linkarrays j) c).map SlinkInfo.member) = _
  refine List.ext_getElem? fun j => ?_
  rw [GroupCfg.members, List.map_map, List.getElem?_map, List.getElem?_mapIdx, List.getElem?_map,
    Option.map_map]
  rfl

theorem objTryGroup_built (world : StudyWorld) (gets : Nat) (hne : ∀ g ∈ gs, g.chs ≠ []) :
    List.Forall₂ Built gs (objTryGroup world gets gs) := by
  refine List.forall₂_iff_get.mpr ⟨List.length_mapIdx.symm, fun i hi hi' => ?_⟩
  simp only [List.get_eq_getElem, objTryGroup, List.getElem_mapIdx]
  exact tryGroupOf_built _ _ (hne _ (List.getElem_mem hi))

/-- What is out of the VC bundles with the next call: no bundle lists the channel, or it belongs
to a successful group that is handed in. -/
def Gone (m : UInt8 × UInt8) (s : StudyState) : Prop :=
  Spent m s.ctl ∨ s.ctl.lcasGot = true ∧
    ∃ cfg ∈ s.data.cfgs.take s.data.preTryNum, cfg.result ≠ 0 ∧ m ∈ cfg.members.map narrow

/-- What a call of Get leaves: none of its candidates has a channel that was gone before, unless
the candidates are the LCAS groups of the first call, whose channels no VC bundle lists. -/
structure Got (links : List LinkInfo) (s s' : StudyState) (tryGroup : List SgroupInfo) : Prop where
  handle : HandleInv links s'.ctl
  data : ∃ cfgs, s'.data = { s.data with cfgs := cfgs }
  built : List.Forall₂ Built s'.data.cfgs tryGroup
  table : ∀ cfg ∈ s'.data.cfgs, FromTable links cfg
  gone : ∀ m, Gone m s → Spent m s'.ctl
  apart : s'.ctl.lcasGot = true ∧ (∀ m, Spent m s'.ctl → ∀ g ∈ tryGroup, m ∉ members g) ∨
    s.data.cfgs = [] ∧ ∀ g ∈ tryGroup, ∀ m ∈ members g, Spent m s'.ctl

theorem get_got {rc : Int} (ht : Table links) (hi : HandleInv links s.ctl)
    (htable : ∀ cfg ∈ s.data.cfgs, FromTable links cfg) (h : get world s = some (rc, s', tryGroup)) :
    Got links s s' tryGroup ∧ rc = if s'.data.cfgs = [] then 0 else 1 := by
  obtain ⟨⟨ctl, gs⟩, hget, h⟩ := Option.bind_eq_some_iff.mp h
  obtain ⟨rfl, hout⟩ := Prod.mk.inj (Option.some.inj h)
  obtain ⟨rfl, rfl⟩ := Prod.mk.inj hout
  have hfrom := grpsmGet_fromTable hi hget
  have hne := grpsmGet_ne_nil hget
  have hbuilt := objTryGroup_built world s.gets hne
  have hmember {g : SgroupInfo} {m : UInt8 × UInt8} (hg : g ∈ objTryGroup world s.gets gs)
      (hm : m ∈ members g) : ∃ cfg ∈ gs, ∃ ch ∈ cfg.chs, narrow ch.member = m := by
    obtain ⟨cfg, hcfg, hb⟩ := forall₂_mem_right hbuilt hg
    rw [hb.members, GroupCfg.members, List.map_map] at hm
    obtain ⟨ch, hch, rfl⟩ := List.mem_map.mp hm
    exact ⟨cfg, hcfg, ch, hch, rfl⟩
  refine ⟨⟨grpsmGet_inv hi hget, ⟨gs, rfl⟩, hbuilt, hfrom, fun m hm => ?_, ?_⟩, rfl⟩
  · rcases hm with hm | ⟨hgot, cfg, hcfg, hok, hm⟩
    · exact hm.get hget
    · obtain ⟨m, hmem, rfl⟩ := List.mem_map.mp hm
      have hcfgs : s.data.cfgs ≠ [] := by
        intro hnil
        rw [hnil, List.take_nil] at hcfg
        cases hcfg
      refine spent_of_removed ht hi hget ?_ hok (htable cfg (List.mem_of_mem_take hcfg)) hmem
      rw [removedBy, if_pos hgot, getCall, if_neg hcfgs]
      exact hcfg
  · rcases grpsmGet_cases hget with ⟨hl, rfl, rfl⟩ | hr
    · refine .inr ⟨?_, fun g hg m hm => ?_⟩
      · by_contra hcfgs
        have hpre := hl.1
        rw [getCall, if_neg hcfgs] at hpre
        cases hpre
      · obtain ⟨cfg, hcfg, ch, hch, rfl⟩ := hmember hg hm
        obtain ⟨f, hf, svc, hs, hlisted⟩ := grpsmGetLcas_listed s.ctl cfg hcfg ch hch
        exact spent_of_lcas ht hi hf hs hlisted
    · refine .inl ⟨hr.got, fun m hspent g hg hm => ?_⟩
      obtain ⟨cfg, hcfg, ch, hch, he⟩ := hmember hg hm
      obtain ⟨f, hf, svc, hs, hlisted⟩ := runsRound_listed hr cfg hcfg ch hch
      exact hspent f hf svc hs ch hlisted he

end OiAmc.CascadeCandidates

import OiAmc.GrpsmRemove
import OiAmc.PartialMachine

namespace OiAmc.GrpsmReuse

open PartialMachine PartialLists GrpsmLinks GrpsmPush GrpsmSearch GrpsmGet GrpsmRound GrpsmRemove
open GrpsmFiling GrpsmBundles GrpsmFresh GrpsmPartition

variable {links : List LinkInfo}

structure FiberInv (links : List LinkInfo) (f : GrpsmFiber) : Prop where
  vcs : ∀ s ∈ f.vcs, SvcInv links f.fiber s ∧ ∀ k, ∀ p ∈ s.sqlinks k, p.link.isLcas = 0
  lcas : ∀ s ∈ f.lcas, SvcInv links f.fiber s ∧ ∀ k, ∀ p ∈ s.sqlinks k, p.link.isLcas ≠ 0

structure HandleInv (links : List LinkInfo) (ctl : GrpsmCtl) : Prop where
  table : ctl.links = links
  fibers : ∀ f ∈ ctl.fibers, FiberInv links f

theorem freshBundle_inv {groupcfg : List GroupCfg} {fiber : UInt8} {kind : Place} {s : GrpsmSvc}
    (hkind : kind ≠ .foreign) (h : FreshBundle (placed fiber groupcfg kind (linkPtrs links)) s) :
    SvcInv links fiber s ∧
      ∀ k, ∀ p ∈ s.sqlinks k, place fiber groupcfg p.link = kind := by
  have hmem {k : Nat} {p : LinkPtr} (hp : p ∈ s.sqlinks k) : p ∈ s.links ∧ p.link.sq.toNat = k := by
    rw [h.sqlinks] at hp
    exact ⟨(List.mem_filter.mp hp).1, of_decide_eq_true (List.mem_filter.mp hp).2⟩
  refine ⟨⟨?_, ?_, ?_, ?_⟩, ?_⟩
  · intro k p hp
    exact (freshBundle_mem h (hmem hp).1).1
  · intro k p hp
    have hplace := (freshBundle_mem h (hmem hp).1).2.1
    by_contra hne
    exact hkind (hplace.symm.trans (place_foreign.mpr hne))
  · intro k p hp
    exact (hmem hp).2
  · intro k
    have hn : s.links.Nodup := h.links.nodup (((linkPtrs_nodup links).filter _).filter _)
    rw [h.sqlinks]
    exact hn.filter _
  · intro k p hp
    exact (freshBundle_mem h (hmem hp).1).2.1

theorem grpsmPush_inv {ctl ctl' : GrpsmCtl} {groupcfg : List GroupCfg}
    (h : grpsmPush ctl links groupcfg = some (0, ctl')) :
    HandleInv links ctl' ∧ ctl'.lcasGot = false ∧ ctl'.vgroups = [] := by
  obtain ⟨_, fibers, hf, rfl⟩ := grpsmPush_eq_some.mp h
  refine ⟨⟨rfl, fun f hfm => ?_⟩, rfl, rfl⟩
  obtain ⟨fibs, _, hf⟩ := Option.bind_eq_some_iff.mp hf
  have hall := mapM_eq_some.mp hf
  obtain ⟨i, hi, rfl⟩ := List.getElem_of_mem hfm
  have hi' : i < fibs.length := hall.length_eq ▸ hi
  have hfresh := grpsmInitFiber_fresh (hall.get hi' hi)
  simp only [List.get_eq_getElem] at hfresh
  constructor
  · intro s hs
    obtain ⟨hinv, hplace⟩ := freshBundle_inv (by decide) (hfresh.vcs s hs)
    exact ⟨hfresh.own ▸ hinv, fun k p hp => (place_vc.mp (hplace k p hp)).2.2.2⟩
  · intro s hs
    obtain ⟨hinv, hplace⟩ := freshBundle_inv (by decide) (hfresh.lcas s hs)
    exact ⟨hfresh.own ▸ hinv, fun k p hp => (place_lcas.mp (hplace k p hp)).2.2.2⟩

/-- The SQ lists of the VC bundles after a round are those that the removal
leaves, and the LCAS bundles stay. -/
structure FiberStep (pre : List GroupCfg) (f f' : GrpsmFiber) : Prop where
  fiber : f'.fiber = f.fiber
  lcas : f'.lcas = f.lcas
  vcs : List.Forall₂ (fun s s' =>
    s'.sqlinks = (grpsmRemoveOlinksFromSvc f.fiber pre s).sqlinks) f.vcs f'.vcs

theorem vcRound_step {vcPartial : Bool} {pre : List GroupCfg} {f : GrpsmFiber}
    {r : GrpsmFiber × List GroupCfg} (h : VcRound vcPartial pre f r) : FiberStep pre f r.1 := by
  obtain ⟨rs, hrs, hvcs, _⟩ := h.vcs
  refine ⟨h.fiber, h.lcas, ?_⟩
  rw [hvcs, List.forall₂_map_right_iff]
  exact hrs.imp fun s q hq => (grpsmGetVcsFromSvc_listed hq).1

/-- Every call is a removal on every fiber; a call that hands out LCAS groups
removes nothing. -/
theorem grpsmGet_fiberStep {ctl ctl' : GrpsmCtl} {call : GetCall} {gs : List GroupCfg}
    (h : grpsmGet ctl call = some (ctl', gs)) :
    ctl'.links = ctl.links ∧
      List.Forall₂ (FiberStep (removedBy ctl call)) ctl.fibers ctl'.fibers := by
  rcases grpsmGet_cases h with ⟨hl, rfl, _⟩ | hr
  · refine ⟨rfl, List.forall₂_same.mpr fun f _ => ⟨rfl, rfl, List.forall₂_same.mpr fun s _ => ?_⟩⟩
    have hnil : removedBy ctl' call = [] := by simp [removedBy, GetCall.pre, hl.1]
    rw [hnil]
    rfl
  · obtain ⟨rs, hrs, hfibers, _⟩ := hr.rounds
    refine ⟨hr.links, ?_⟩
    rw [hfibers, List.forall₂_map_right_iff]
    exact hrs.imp fun f r hf => vcRound_step hf

theorem FiberStep.inv {pre : List GroupCfg} {f f' : GrpsmFiber} (h : FiberStep pre f f')
    (hf : FiberInv links f) : FiberInv links f' := by
  refine ⟨fun s' hs' => ?_, fun s hs => ?_⟩
  · obtain ⟨s, hs, he⟩ := forall₂_mem_right h.vcs hs'
    have hsub (k : Nat) : (s'.sqlinks k).Sublist (s.sqlinks k) := he ▸ removeOlinks_sublist pre s k
    obtain ⟨hinv, hvc⟩ := hf.vcs s hs
    exact ⟨h.fiber ▸ hinv.sublists hsub, fun k p hp => hvc k p ((hsub k).subset hp)⟩
  · rw [h.lcas] at hs
    rw [h.fiber]
    exact hf.lcas s hs

theorem grpsmGet_inv {ctl ctl' : GrpsmCtl} {call : GetCall} {gs : List GroupCfg}
    (hi : HandleInv links ctl) (h : grpsmGet ctl call = some (ctl', gs)) : HandleInv links ctl' := by
  obtain ⟨hl, hf⟩ := grpsmGet_fiberStep h
  refine ⟨hl.trans hi.table, fun f' hf' => ?_⟩
  obtain ⟨f, hfm, hs⟩ := forall₂_mem_right hf hf'
  exact hs.inv (hi.fibers f hfm)

def Absent (m : UInt8 × UInt16) (ctl : GrpsmCtl) : Prop :=
  ∀ f ∈ ctl.fibers, ∀ s ∈ f.vcs ++ f.lcas, ∀ ch, Listed s ch → ch.member ≠ m

theorem runsRound_listed {ctl ctl' : GrpsmCtl} {call : GetCall} {gs : List GroupCfg}
    (hr : RunsRound ctl call ctl' gs) : ∀ g ∈ gs, ∀ ch ∈ g.chs,
      ∃ f ∈ ctl'.fibers, ∃ s ∈ f.vcs, Listed s ch := by
  intro g hg ch hch
  obtain ⟨rs, hrs, hfibers, rfl⟩ := hr.rounds
  obtain ⟨os, hos, hg⟩ := List.mem_flatten.mp hg
  obtain ⟨r, hrm, rfl⟩ := List.mem_map.mp hos
  obtain ⟨f, hf, hround⟩ := forall₂_mem_right hrs hrm
  obtain ⟨qs, hqs, hvcs, hout⟩ := hround.vcs
  rw [hout] at hg
  obtain ⟨os, hos, hg⟩ := List.mem_flatten.mp hg
  obtain ⟨q, hq, rfl⟩ := List.mem_map.mp hos
  obtain ⟨s, hs, hsearch⟩ := forall₂_mem_right hqs hq
  obtain ⟨hsame, hlisted⟩ := grpsmGetVcsFromSvc_listed hsearch
  obtain ⟨k, p, hp, rfl⟩ := hlisted g hg ch hch
  refine ⟨r.1, ?_, q.1, ?_, k, p, hsame ▸ hp, rfl⟩
  · rw [hfibers]; exact List.mem_map_of_mem hrm
  · rw [hvcs]; exact List.mem_map_of_mem hq

theorem grpsmGetLcas_listed (ctl : GrpsmCtl) : ∀ g ∈ grpsmGetLcas ctl, ∀ ch ∈ g.chs,
    ∃ f ∈ ctl.fibers, ∃ s ∈ f.lcas, Listed s ch := by
  intro g hg ch hch
  obtain ⟨f, hf, hg⟩ := List.mem_flatMap.mp hg
  obtain ⟨s, hs, hg⟩ := List.mem_flatMap.mp hg
  exact ⟨f, hf, s, hs, grpsmGetLcasFromSvc_listed g hg ch hch⟩

/-- Every group that a call returns is made of links that are listed after the
removal of that call. -/
theorem grpsmGet_listed {ctl ctl' : GrpsmCtl} {call : GetCall} {gs : List GroupCfg}
    (h : grpsmGet ctl call = some (ctl', gs)) : ∀ g ∈ gs, ∀ ch ∈ g.chs,
      ∃ f ∈ ctl'.fibers, ∃ s ∈ f.vcs ++ f.lcas, Listed s ch := by
  intro g hg ch hch
  rcases grpsmGet_cases h with ⟨_, rfl, rfl⟩ | hr
  · obtain ⟨f, hf, s, hs, hl⟩ := grpsmGetLcas_listed ctl' g hg ch hch
    exact ⟨f, hf, s, List.mem_append_right _ hs, hl⟩
  · obtain ⟨f, hf, s, hs, hl⟩ := runsRound_listed hr g hg ch hch
    exact ⟨f, hf, s, List.mem_append_left _ hs, hl⟩

theorem grpsmGet_absent {m : UInt8 × UInt16} {ctl ctl' : GrpsmCtl} {call : GetCall}
    {gs : List GroupCfg} (ha : Absent m ctl) (h : grpsmGet ctl call = some (ctl', gs)) :
    Absent m ctl' ∧ ∀ g ∈ gs, m ∉ g.members := by
  have ha' : Absent m ctl' := by
    intro f' hf' s' hs' ch hch
    obtain ⟨f, hf, hstep⟩ := forall₂_mem_right (grpsmGet_fiberStep h).2 hf'
    rcases List.mem_append.mp hs' with hs' | hs'
    · obtain ⟨s, hs, he⟩ := forall₂_mem_right hstep.vcs hs'
      obtain ⟨k, p, hp, rfl⟩ := hch
      rw [he] at hp
      have hp' := (removeOlinks_sublist _ s k).subset hp
      exact ha f hf s (List.mem_append_left _ hs) _ ⟨k, p, hp', rfl⟩
    · exact ha f hf s' (List.mem_append_right _ (hstep.lcas ▸ hs')) ch hch
  refine ⟨ha', fun g hg hm => ?_⟩
  obtain ⟨ch, hch, rfl⟩ := List.mem_map.mp hm
  obtain ⟨f, hf, s, hs, hl⟩ := grpsmGet_listed h g hg ch hch
  exact ha' f hf s hs ch hl rfl

/-- None of the channels belongs to an LCAS link of the table. -/
def IsVcGroup (links : List LinkInfo) (g : GroupCfg) : Prop :=
  ∀ l ∈ links, l.member ∈ g.members → l.isLcas = 0

instance (g : GroupCfg) : Decidable (IsVcGroup links g) :=
  inferInstanceAs (Decidable (∀ l ∈ links, l.member ∈ g.members → l.isLcas = 0))

def succeeded (groupcfg : List GroupCfg) : List (UInt8 × UInt16) :=
  (groupcfg.filter fun cfg => cfg.result ≠ 0).flatMap GroupCfg.members

theorem succeeded_eq (groupcfg : List GroupCfg) :
    succeeded groupcfg = (succeededChs groupcfg).map GroupChannel.member := by
  rw [succeeded, succeededChs, List.map_flatMap]
  rfl

/-- The SQ lists of a fiber with the links of some channels taken out. -/
structure Reduced (gone : List (UInt8 × UInt16)) (f f' : GrpsmFiber) : Prop where
  fiber : f'.fiber = f.fiber
  lcas : f'.lcas = f.lcas
  vcs : List.Forall₂ (fun s s' => ∀ k, (s'.sqlinks k).Nodup ∧
    s'.sqlinks k = (s.sqlinks k).filter fun p => p.link.member ∉ gone) f.vcs f'.vcs

theorem FiberStep.reduced (hd : (links.map LinkInfo.member).Nodup) {pre : List GroupCfg}
    {f f' : GrpsmFiber} (hf : FiberInv links f) (h : FiberStep pre f f') :
    Reduced (succeeded pre) f f' := by
  refine ⟨h.fiber, h.lcas, ?_⟩
  rw [List.forall₂_iff_get]
  refine ⟨h.vcs.length_eq, fun i hi hi' k => ?_⟩
  have hinv := (hf.vcs _ (List.get_mem f.vcs ⟨i, hi⟩)).1
  rw [h.vcs.get hi hi', removeOlinks_filter hd hinv, ← succeeded_eq]
  exact ⟨(hinv.nodup k).filter _, rfl⟩

theorem absent_of_reduced {pre : List GroupCfg} {ctl ctl' : GrpsmCtl} (hi : HandleInv links ctl)
    (hr : List.Forall₂ (Reduced (succeeded pre)) ctl.fibers ctl'.fibers) {g : GroupCfg}
    (hg : g ∈ pre) (hok : g.result ≠ 0) (hvc : IsVcGroup links g) {ch : GroupChannel}
    (hch : ch ∈ g.chs) : Absent ch.member ctl' := by
  have hmem : ch.member ∈ g.members := List.mem_map_of_mem hch
  have hgone : ch.member ∈ succeeded pre := by
    refine List.mem_flatMap.mpr ⟨g, ?_, hmem⟩
    exact List.mem_filter.mpr ⟨hg, decide_eq_true hok⟩
  intro f' hf' s' hs' ch' hch' he
  obtain ⟨f, hf, hred⟩ := forall₂_mem_right hr hf'
  obtain ⟨k, p, hp, rfl⟩ := hch'
  change p.link.member = ch.member at he
  rcases List.mem_append.mp hs' with hs' | hs'
  · obtain ⟨s, hs, hk⟩ := forall₂_mem_right hred.vcs hs'
    rw [(hk k).2] at hp
    have hout := of_decide_eq_true (List.mem_filter.mp hp).2
    rw [he] at hout
    exact hout hgone
  · obtain ⟨hinv, hl⟩ := (hi.fibers f hf).lcas s' (hred.lcas ▸ hs')
    have hlink := link_mem_of_mem_linkPtrs (hinv.mem k p hp)
    have hin : p.link.member ∈ g.members := by rw [he]; exact hmem
    exact hl k p hp (hvc p.link hlink hin)

/-- Once a channel belongs to a VC group reported successful, no group of this
or of a later call names it; and the call takes exactly the links of the
successful channels out of the SQ lists. -/
theorem grpsmGet_no_reuse {ctl ctl0 ctl1 ctl2 : GrpsmCtl} {groupcfg : List GroupCfg}
    {calls : List GetCall} {outs : List (List GroupCfg)} {call : GetCall} {gs : List GroupCfg}
    (hd : (links.map LinkInfo.member).Nodup)
    (hpush : grpsmPush ctl links groupcfg = some (0, ctl0))
    (hrun : run grpsmGet ctl0 calls = some (ctl1, outs)) (hgot : ctl1.lcasGot = true)
    (hget : grpsmGet ctl1 call = some (ctl2, gs)) :
    (∀ g ∈ call.pre.take call.numTrygroups.toNat, g.result ≠ 0 → IsVcGroup links g →
      ∀ ch ∈ g.chs, (∀ o ∈ gs, ch.member ∉ o.members) ∧
        ∀ later ctl3 outs', run grpsmGet ctl2 later = some (ctl3, outs') →
          ∀ os ∈ outs', ∀ o ∈ os, ch.member ∉ o.members) ∧
    List.Forall₂ (Reduced (succeeded (call.pre.take call.numTrygroups.toNat)))
      ctl1.fibers ctl2.fibers := by
  have hinv : HandleInv links ctl1 :=
    run_preserves (fun _ _ _ _ hs h => grpsmGet_inv hs h) (grpsmPush_inv hpush).1 hrun
  have hpre : removedBy ctl1 call = call.pre.take call.numTrygroups.toNat := by
    rw [removedBy, if_pos hgot]
  obtain ⟨_, hstep⟩ := grpsmGet_fiberStep hget
  rw [hpre] at hstep
  have hred : List.Forall₂ (Reduced (succeeded (call.pre.take call.numTrygroups.toNat)))
      ctl1.fibers ctl2.fibers := by
    rw [List.forall₂_iff_get]
    refine ⟨hstep.length_eq, fun i hi hi' => ?_⟩
    exact FiberStep.reduced hd (hinv.fibers _ (List.get_mem ctl1.fibers ⟨i, hi⟩)) (hstep.get hi hi')
  refine ⟨fun g hg hok hvc ch hch => ?_, hred⟩
  have habs : Absent ch.member ctl2 := absent_of_reduced hinv hred hg hok hvc hch
  constructor
  · -- the groups of this call are made of what is listed afterwards
    intro o ho hm
    obtain ⟨ch', hch', he⟩ := List.mem_map.mp hm
    obtain ⟨f, hf, s, hs, hl⟩ := grpsmGet_listed hget o ho ch' hch'
    exact habs f hf s hs ch' hl he
  · intro later ctl3 outs' hlater
    exact run_outputs (fun _ _ _ _ ha h => grpsmGet_absent ha h) habs hlater

def vcLink (channel : UInt16) (sq : UInt8) (mfi : UInt16) : LinkInfo where
  fiber := 0
  fiberRate := 0
  channel := channel
  channelRate := 2
  vcValid := 1
  vcOrder := 2
  svcType := 1
  isLcas := 0
  isMember := 0
  isLastMember := 0
  mfi := mfi
  sq := sq
  preGid := 0
  curGid := 0

/-- A call, with blocks from malloc that happen to be zero. -/
def zeroedCall (pre : Option (List GroupCfg)) (numTry : Int) : GetCall :=
  ⟨pre, numTry, fun _ => ⟨fun _ => 0, 0⟩⟩

theorem grpsmGet_no_reuse_single : ∃ ctl2 gs,
    ((grpsmPush grpsmOpen [vcLink 1 0 0, vcLink 2 0 0] []).bind fun r =>
      (run grpsmGet r.2 [zeroedCall none 0]).bind fun q =>
        grpsmGet q.1 (zeroedCall (some [⟨[channelOf (vcLink 1 0 0)], 1⟩]) 1)) = some (ctl2, gs) ∧
    ∀ later ctl3 outs', run grpsmGet ctl2 later = some (ctl3, outs') →
      ∀ os ∈ outs', ∀ o ∈ os, ((0, 1) : UInt8 × UInt16) ∉ o.members := by
  refine ⟨_, _, rfl, ?_⟩
  exact ((@grpsmGet_no_reuse [vcLink 1 0 0, vcLink 2 0 0] grpsmOpen _ _ _ [] [zeroedCall none 0] _
    (zeroedCall (some [⟨[channelOf (vcLink 1 0 0)], 1⟩]) 1) _ (by decide) rfl rfl rfl rfl).1 _
    (List.mem_singleton_self _) (by decide) (by decide) _ (List.mem_singleton_self _)).2

end OiAmc.GrpsmReuse

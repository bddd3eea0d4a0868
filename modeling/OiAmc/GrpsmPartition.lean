import OiAmc.GrpsmBundles
import OiAmc.PartialLists

namespace OiAmc.GrpsmFresh

open BoundedFill PartialLists GrpsmLinks GrpsmPush GrpsmFiling GrpsmBundles

def sortSq (s : GrpsmSvc) : GrpsmSvc :=
  { s with sqlinks := fun k => s.links.filter (fun p => p.link.sq.toNat = k) }

/-- What every bundle of a pushed handle is, whatever table was pushed. -/
structure FreshBundle (ps : List LinkPtr) (s : GrpsmSvc) : Prop where
  rate : s.channelRate.toNat < 16
  type : s.svcType.toNat < 16
  links : s.links.Sublist (keyed (svcKey s) ps)
  sqlinks : s.sqlinks = fun k => s.links.filter (fun p => p.link.sq.toNat = k)
  sqStatus : s.sqStatus = .default

theorem initSvcs_eq {svcs : List GrpsmSvc} (h : ∀ s ∈ svcs, s.sqlinks = fun _ => []) :
    svcs.mapM grpsmInitSvc = some (svcs.map sortSq) :=
  mapM_total fun s hs => grpsmInitSvc_eq s (h s hs)

theorem filed_fresh {ps : List LinkPtr} {cells : List BundleCell} {svcs : List GrpsmSvc}
    (h : ps.foldlM fileLink (cells.map newSvc) = some svcs) :
    (∀ s ∈ svcs, s.sqlinks = fun _ => []) ∧ ∀ s ∈ svcs.map sortSq, FreshBundle ps s := by
  have hf := fileLinks_filed h
  have hall : ∀ s ∈ svcs, ∃ c : BundleCell, Filed ps (newSvc c) s := by
    intro s hs
    obtain ⟨i, hi, rfl⟩ := List.getElem_of_mem hs
    have hi' : i < (cells.map newSvc).length := by rw [hf.length_eq]; exact hi
    have hfi := hf.get hi' hi
    simp only [List.get_eq_getElem, List.getElem_map] at hfi
    exact ⟨_, hfi⟩
  refine ⟨fun s hs => ?_, fun t ht => ?_⟩
  · obtain ⟨c, hc⟩ := hall s hs
    exact hc.sqlinks
  · obtain ⟨s, hs, rfl⟩ := List.mem_map.mp ht
    obtain ⟨c, hc⟩ := hall s hs
    obtain ⟨ys, hy, hl⟩ := hc.links
    have hkey : svcKey s = cellKey c := hc.key
    have hr : s.channelRate = packedRate c.packed := congrArg Prod.fst hkey
    have ht : s.svcType = packedType c.packed := congrArg Prod.snd hkey
    refine ⟨hr ▸ packedRate_lt _, ht ▸ packedType_lt _, ?_, rfl, hc.sqStatus⟩
    change s.links.Sublist (keyed (svcKey s) ps)
    rw [hl, hkey]
    exact hy

/-- Every fiber record of a defined push, whatever table was pushed. -/
structure FreshFiber (ptrs : List LinkPtr) (groupcfg : List GroupCfg) (fiber : UInt8)
    (f : GrpsmFiber) : Prop where
  own : f.fiber = fiber
  nlinks : f.nlinks = placed fiber groupcfg .nlink ptrs
  olinks : f.olinks = placed fiber groupcfg .olink ptrs
  vcs : ∀ s ∈ f.vcs, FreshBundle (placed fiber groupcfg .vc ptrs) s
  lcas : ∀ s ∈ f.lcas, FreshBundle (placed fiber groupcfg .lcas ptrs) s

variable {ptrs : List LinkPtr} {groupcfg : List GroupCfg} {fiber : UInt8}

theorem grpsmInitFiber_eq_some {f : GrpsmFiber} :
    grpsmInitFiber ptrs groupcfg fiber = some f ↔
      ∃ vcells lcells vcs lcas,
        (placed fiber groupcfg .vc ptrs).foldlM countPtr [] = some vcells ∧
        (placed fiber groupcfg .lcas ptrs).foldlM countPtr [] = some lcells ∧
        (placed fiber groupcfg .vc ptrs).foldlM fileLink (vcells.map newSvc) = some vcs ∧
        (placed fiber groupcfg .lcas ptrs).foldlM fileLink (lcells.map newSvc) = some lcas ∧
        f = ⟨fiber, placed fiber groupcfg .nlink ptrs, placed fiber groupcfg .olink ptrs,
          vcs.map sortSq, lcas.map sortSq⟩ := by
  have hplace (vcells lcells : List BundleCell) :
      ptrs.foldlM (placeLink groupcfg ⟨(placed fiber groupcfg .nlink ptrs).length,
          (placed fiber groupcfg .olink ptrs).length, vcells, lcells⟩)
        ⟨fiber, [], [], vcells.map newSvc, lcells.map newSvc⟩ =
      ((placed fiber groupcfg .vc ptrs).foldlM fileLink (vcells.map newSvc)).bind fun vcs =>
      ((placed fiber groupcfg .lcas ptrs).foldlM fileLink (lcells.map newSvc)).map fun lcas =>
        ⟨fiber, placed fiber groupcfg .nlink ptrs, placed fiber groupcfg .olink ptrs, vcs, lcas⟩ := by
    rw [placeLinks_eq]
    simp only [foldlM_put_self, Option.bind_some]
  rw [grpsmInitFiber]
  simp only [countLinks_eq, Nat.zero_add, Option.bind_eq_bind, Option.bind_eq_some_iff,
    Option.map_eq_some_iff, Option.pure_def, Option.some.injEq]
  constructor
  · rintro ⟨_, ⟨vcells, hv, lcells, hl, rfl⟩, _, hf, vcs', hv', lcas', hl', rfl⟩
    rw [hplace] at hf
    obtain ⟨vcs, hvs, hf⟩ := Option.bind_eq_some_iff.mp hf
    obtain ⟨lcas, hls, rfl⟩ := Option.map_eq_some_iff.mp hf
    rw [initSvcs_eq (filed_fresh hvs).1, Option.some.injEq] at hv'
    rw [initSvcs_eq (filed_fresh hls).1, Option.some.injEq] at hl'
    exact ⟨vcells, lcells, vcs, lcas, hv, hl, hvs, hls, by rw [← hv', ← hl']⟩
  · rintro ⟨vcells, lcells, vcs, lcas, hv, hl, hvs, hls, rfl⟩
    refine ⟨_, ⟨vcells, hv, lcells, hl, rfl⟩, ⟨fiber, placed fiber groupcfg .nlink ptrs,
      placed fiber groupcfg .olink ptrs, vcs, lcas⟩, ?_, _, initSvcs_eq (filed_fresh hvs).1, _,
      initSvcs_eq (filed_fresh hls).1, rfl⟩
    rw [hplace, hvs, hls]
    rfl

theorem grpsmInitFiber_fresh {f : GrpsmFiber} (h : grpsmInitFiber ptrs groupcfg fiber = some f) :
    FreshFiber ptrs groupcfg fiber f := by
  obtain ⟨vcells, lcells, vcs, lcas, -, -, hvs, hls, rfl⟩ := grpsmInitFiber_eq_some.mp h
  exact ⟨rfl, rfl, rfl, (filed_fresh hvs).2, (filed_fresh hls).2⟩

end OiAmc.GrpsmFresh

namespace OiAmc.GrpsmPartition

open PartialLists GrpsmLinks GrpsmPush GrpsmFiling GrpsmBundles GrpsmFresh

variable {ptrs : List LinkPtr} {groupcfg : List GroupCfg} {fiber : UInt8}

def fiberRefs (f : GrpsmFiber) : List LinkPtr :=
  f.nlinks ++ f.olinks ++ f.vcs.flatMap (·.links) ++ f.lcas.flatMap (·.links)

/-- Inside a bundle each link is in the list of its own SQ, once, and in no
other list. -/
structure BundleSorted (s : GrpsmSvc) : Prop where
  once : ∀ p ∈ s.links, (s.sqlinks p.link.sq.toNat).count p = 1
  own : ∀ k, ∀ p ∈ s.sqlinks k, p ∈ s.links ∧ k = p.link.sq.toNat

structure FiberPartitioned (ptrs : List LinkPtr) (groupcfg : List GroupCfg) (f : GrpsmFiber) :
    Prop where
  once : ∀ p ∈ ptrs, p.link.fiber = f.fiber → (fiberRefs f).count p = 1
  own : ∀ p ∈ fiberRefs f, p ∈ ptrs ∧ p.link.fiber = f.fiber
  nlinks : ∀ p ∈ f.nlinks, p.link.vcValid = 0
  olinks : ∀ p ∈ f.olinks, p.link.vcValid ≠ 0 ∧ ∃ g ∈ groupcfg, p.link.member ∈ g.members
  vcs : ∀ s ∈ f.vcs, ∀ p ∈ s.links, p.link.vcValid ≠ 0 ∧
    (∀ g ∈ groupcfg, p.link.member ∉ g.members) ∧ p.link.isLcas = 0 ∧ linkKey p.link = svcKey s
  lcas : ∀ s ∈ f.lcas, ∀ p ∈ s.links, p.link.vcValid ≠ 0 ∧
    (∀ g ∈ groupcfg, p.link.member ∉ g.members) ∧ p.link.isLcas ≠ 0 ∧ linkKey p.link = svcKey s
  sorted : ∀ s ∈ f.vcs ++ f.lcas, BundleSorted s

/-- The handle splits the pushed links by fiber, and every fiber's links among
its arrays. -/
structure Partitioned (groupcfg : List GroupCfg) (ctl : GrpsmCtl) : Prop where
  fibers : (ctl.fibers.map GrpsmFiber.fiber).Nodup
  covers : ∀ l ∈ ctl.links, l.fiber ∈ ctl.fibers.map GrpsmFiber.fiber
  each : ∀ f ∈ ctl.fibers, FiberPartitioned (linkPtrs ctl.links) groupcfg f

def bundleSize (links : List LinkInfo) (groupcfg : List GroupCfg) (fiber : UInt8) (kind : Place)
    (k : UInt8 × UInt8) : Nat :=
  links.countP fun l => place fiber groupcfg l = kind ∧ linkKey l = k

def RatesFit (links : List LinkInfo) (groupcfg : List GroupCfg) : Prop :=
  ∀ l ∈ links, l.vcValid ≠ 0 → (∀ g ∈ groupcfg, l.member ∉ g.members) → FitsNibbles l

/-- The links of a bundle can be counted in 16 bits. -/
def CountsFit (links : List LinkInfo) (groupcfg : List GroupCfg) : Prop :=
  ∀ fiber k, bundleSize links groupcfg fiber .vc k < 65536 ∧
    bundleSize links groupcfg fiber .lcas k < 65536

theorem bundleSize_eq (links : List LinkInfo) (fiber : UInt8) (kind : Place) (k : UInt8 × UInt8) :
    bundleSize links groupcfg fiber kind k =
      (keyed k (placed fiber groupcfg kind (linkPtrs links))).length := by
  conv_lhs => rw [bundleSize, ← linkPtrs_map_link links, List.countP_map]
  rw [keyed, placed, List.filter_filter, List.countP_eq_length_filter]
  congr 2
  funext p
  simp [Bool.and_comm]

theorem ungrouped_iff (l : LinkInfo) :
    ¬ (isLinkInGroup l groupcfg).isSome = true ↔ ∀ g ∈ groupcfg, l.member ∉ g.members := by
  rw [isLinkInGroup_isSome]
  push Not
  rfl

theorem place_nlink {l : LinkInfo} :
    place fiber groupcfg l = .nlink ↔ l.fiber = fiber ∧ l.vcValid = 0 := by
  rw [place]
  split_ifs <;> simp_all

theorem place_olink {l : LinkInfo} :
    place fiber groupcfg l = .olink ↔
      l.fiber = fiber ∧ l.vcValid ≠ 0 ∧ ∃ g ∈ groupcfg, l.member ∈ g.members := by
  rw [← isLinkInGroup_isSome]
  rw [place]
  split_ifs <;> simp_all

theorem place_vc {l : LinkInfo} :
    place fiber groupcfg l = .vc ↔ l.fiber = fiber ∧ l.vcValid ≠ 0 ∧
      (∀ g ∈ groupcfg, l.member ∉ g.members) ∧ l.isLcas = 0 := by
  rw [← ungrouped_iff]
  rw [place]
  split_ifs <;> simp_all

theorem place_lcas {l : LinkInfo} :
    place fiber groupcfg l = .lcas ↔ l.fiber = fiber ∧ l.vcValid ≠ 0 ∧
      (∀ g ∈ groupcfg, l.member ∉ g.members) ∧ l.isLcas ≠ 0 := by
  rw [← ungrouped_iff]
  rw [place]
  split_ifs <;> simp_all

theorem place_foreign {l : LinkInfo} : place fiber groupcfg l = .foreign ↔ l.fiber ≠ fiber := by
  rw [place]
  split_ifs <;> simp_all

theorem mem_placed {kind : Place} {p : LinkPtr} :
    p ∈ placed fiber groupcfg kind ptrs ↔ p ∈ ptrs ∧ place fiber groupcfg p.link = kind := by
  simp [placed]

theorem mem_keyed {k : UInt8 × UInt8} {p : LinkPtr} :
    p ∈ keyed k ptrs ↔ p ∈ ptrs ∧ linkKey p.link = k := by
  simp [keyed]

theorem count_placed (kind : Place) (p : LinkPtr) :
    (placed fiber groupcfg kind ptrs).count p =
      if place fiber groupcfg p.link = kind then ptrs.count p else 0 := by
  split
  · next h => exact List.count_filter (by simpa using h)
  · next h => exact List.count_eq_zero.mpr fun hp => h (mem_placed.mp hp).2

theorem count_flatMap_keyed {ks : List (UInt8 × UInt8)} (hn : ks.Nodup) (p : LinkPtr) :
    (ks.flatMap fun k => keyed k ptrs).count p = if linkKey p.link ∈ ks then ptrs.count p else 0 := by
  induction ks with
  | nil => simp
  | cons k ks ih =>
      simp only [List.nodup_cons] at hn
      have hk : (keyed k ptrs).count p = if linkKey p.link = k then ptrs.count p else 0 := by
        split
        · next h => exact List.count_filter (by simpa using h)
        · next h => exact List.count_eq_zero.mpr fun hp => h (mem_keyed.mp hp).2
      rw [List.flatMap_cons, List.count_append, hk, ih hn.2]
      by_cases h : linkKey p.link = k
      · have hout : linkKey p.link ∉ ks := h ▸ hn.1
        simp [h, h ▸ hout]
      · simp [h]

theorem links_vcs (cells : List BundleCell) (ps : List LinkPtr) :
    (((cells.map newSvc).map (takeKeyed ps)).map sortSq).flatMap (·.links) =
      (cells.map cellKey).flatMap fun k => keyed k ps := by
  simp only [List.flatMap_map]
  rfl

theorem count_bundles {cells : List BundleCell} {ps : List LinkPtr} (hc : Counted ps cells)
    (p : LinkPtr) :
    ((((cells.map newSvc).map (takeKeyed ps)).map sortSq).flatMap (·.links)).count p =
      ps.count p := by
  rw [links_vcs, count_flatMap_keyed hc.nodup]
  split
  · rfl
  · next h => exact (List.count_eq_zero.mpr fun hp => h (hc.covers p hp)).symm

theorem freshBundle_sorted {ps : List LinkPtr} {s : GrpsmSvc} (h : FreshBundle ps s)
    (hn : ps.Nodup) : BundleSorted s := by
  have hl : s.links.Nodup := h.links.nodup (hn.filter _)
  constructor
  · intro p hp
    rw [h.sqlinks]
    exact List.count_eq_one_of_mem (hl.filter _) (List.mem_filter.mpr ⟨hp, by simp⟩)
  · intro k p hp
    rw [h.sqlinks] at hp
    obtain ⟨hp, hk⟩ := List.mem_filter.mp hp
    exact ⟨hp, (of_decide_eq_true hk).symm⟩

theorem freshBundle_mem {kind : Place} {s : GrpsmSvc} {p : LinkPtr}
    (h : FreshBundle (placed fiber groupcfg kind ptrs) s) (hp : p ∈ s.links) :
    p ∈ ptrs ∧ place fiber groupcfg p.link = kind ∧ linkKey p.link = svcKey s := by
  obtain ⟨hp, hk⟩ := mem_keyed.mp (h.links.subset hp)
  exact ⟨(mem_placed.mp hp).1, (mem_placed.mp hp).2, hk⟩

theorem freshFiber_sound {f : GrpsmFiber} (h : FreshFiber ptrs groupcfg fiber f)
    (hn : ptrs.Nodup) (honce : ∀ p ∈ ptrs, p.link.fiber = f.fiber → (fiberRefs f).count p = 1) :
    FiberPartitioned ptrs groupcfg f := by
  obtain ⟨hf, hnl, hol, hv, hl⟩ := h
  subst hf
  refine ⟨honce, ?_, ?_, ?_, ?_, ?_, ?_⟩
  · intro p hp
    simp only [fiberRefs, List.mem_append, List.mem_flatMap] at hp
    rcases hp with ((hp | hp) | ⟨s, hs, hp⟩) | ⟨s, hs, hp⟩
    · rw [hnl] at hp
      exact ⟨(mem_placed.mp hp).1, (place_nlink.mp (mem_placed.mp hp).2).1⟩
    · rw [hol] at hp
      exact ⟨(mem_placed.mp hp).1, (place_olink.mp (mem_placed.mp hp).2).1⟩
    · obtain ⟨hm, hk, _⟩ := freshBundle_mem (hv s hs) hp
      exact ⟨hm, (place_vc.mp hk).1⟩
    · obtain ⟨hm, hk, _⟩ := freshBundle_mem (hl s hs) hp
      exact ⟨hm, (place_lcas.mp hk).1⟩
  · intro p hp
    rw [hnl] at hp
    exact (place_nlink.mp (mem_placed.mp hp).2).2
  · intro p hp
    rw [hol] at hp
    exact (place_olink.mp (mem_placed.mp hp).2).2
  · intro s hs p hp
    obtain ⟨_, hk, he⟩ := freshBundle_mem (hv s hs) hp
    obtain ⟨_, h1, h2, h3⟩ := place_vc.mp hk
    exact ⟨h1, h2, h3, he⟩
  · intro s hs p hp
    obtain ⟨_, hk, he⟩ := freshBundle_mem (hl s hs) hp
    obtain ⟨_, h1, h2, h3⟩ := place_lcas.mp hk
    exact ⟨h1, h2, h3, he⟩
  · intro s hs
    rcases List.mem_append.mp hs with hs | hs
    · exact freshBundle_sorted (hv s hs) (hn.filter _)
    · exact freshBundle_sorted (hl s hs) (hn.filter _)

theorem place_fits {links : List LinkInfo} (hr : RatesFit links groupcfg) (fiber : UInt8) {kind : Place}
    (hk : kind = .vc ∨ kind = .lcas) :
    ∀ p ∈ placed fiber groupcfg kind (linkPtrs links), FitsNibbles p.link := by
  intro p hp
  obtain ⟨hm, hpl⟩ := mem_placed.mp hp
  rcases hk with rfl | rfl
  · obtain ⟨_, h1, h2, _⟩ := place_vc.mp hpl
    exact hr _ (link_mem_of_mem_linkPtrs hm) h1 h2
  · obtain ⟨_, h1, h2, _⟩ := place_lcas.mp hpl
    exact hr _ (link_mem_of_mem_linkPtrs hm) h1 h2

theorem grpsmInitFiber_partitions {links : List LinkInfo} (hr : RatesFit links groupcfg)
    (hc : CountsFit links groupcfg) (fiber : UInt8) :
    ∃ f, grpsmInitFiber (linkPtrs links) groupcfg fiber = some f ∧ f.fiber = fiber ∧
      FiberPartitioned (linkPtrs links) groupcfg f := by
  obtain ⟨vcells, hv, hvc⟩ := counted_all (place_fits hr fiber (Or.inl rfl))
  obtain ⟨lcells, hl, hlc⟩ := counted_all (place_fits hr fiber (Or.inr rfl))
  have hvs := (passes_eq_some hvc).mpr ⟨fun k => bundleSize_eq links fiber .vc k ▸ (hc fiber k).1, rfl⟩
  have hls := (passes_eq_some hlc).mpr ⟨fun k => bundleSize_eq links fiber .lcas k ▸ (hc fiber k).2, rfl⟩
  have hinit := grpsmInitFiber_eq_some.mpr ⟨vcells, lcells, _, _, hv, hl, hvs, hls, rfl⟩
  refine ⟨_, hinit, rfl, freshFiber_sound (grpsmInitFiber_fresh hinit) (linkPtrs_nodup links) ?_⟩
  intro p hp hf
  have hone : (linkPtrs links).count p = 1 := List.count_eq_one_of_mem (linkPtrs_nodup links) hp
  simp only [fiberRefs, List.count_append, count_bundles hvc, count_bundles hlc, count_placed, hone]
  have hforeign : place fiber groupcfg p.link ≠ .foreign := fun h => place_foreign.mp h hf
  cases hk : place fiber groupcfg p.link with
  | foreign => exact absurd hk hforeign
  | nlink | olink | vc | lcas => simp

theorem bytes_length {xs : List UInt8} (h : xs.Nodup) : xs.length ≤ 256 := by
  have hs : xs.map UInt8.toNat ⊆ List.range 256 := by
    intro n hn
    obtain ⟨b, _, rfl⟩ := List.mem_map.mp hn
    exact List.mem_range.mpr b.toNat_lt
  have hl := (List.subperm_of_subset (h.map fun _ _ => UInt8.toNat_inj.mp) hs).length_le
  simpa using hl

/-- There are never more fibers than the array of fibers has room for. -/
theorem collectFibers_total (links : List LinkInfo) :
    ∃ fibs, collectFibers links = some fibs ∧ fibs.Nodup ∧ ∀ l ∈ links, l.fiber ∈ fibs := by
  have h (fibs : List UInt8) (hn : fibs.Nodup) : ∃ fibs',
      links.foldlM (fun fibs link => if link.fiber ∈ fibs then some fibs
        else BoundedFill.put 256 fibs link.fiber) fibs = some fibs' ∧
      fibs'.Nodup ∧ fibs ⊆ fibs' ∧ ∀ l ∈ links, l.fiber ∈ fibs' := by
    induction links generalizing fibs with
    | nil => exact ⟨fibs, rfl, hn, List.Subset.refl _, by simp⟩
    | cons l ls ih =>
        rw [List.foldlM_cons]
        by_cases hm : l.fiber ∈ fibs
        · obtain ⟨fibs', hf, hn', hs, hc⟩ := ih fibs hn
          refine ⟨fibs', by simpa [hm] using hf, hn', hs, ?_⟩
          exact List.forall_mem_cons.mpr ⟨hs hm, hc⟩
        · have hn1 : (fibs ++ [l.fiber]).Nodup := by
            simp only [List.nodup_append, hn, List.nodup_singleton, List.mem_singleton, true_and]
            rintro a ha b rfl rfl
            exact hm ha
          have hlen := bytes_length hn1
          rw [List.length_append, List.length_singleton] at hlen
          have hput : BoundedFill.put 256 fibs l.fiber = some (fibs ++ [l.fiber]) :=
            BoundedFill.put_eq_some.mpr ⟨by omega, rfl⟩
          obtain ⟨fibs', hf, hn', hs, hc⟩ := ih _ hn1
          refine ⟨fibs', by simpa [hm, hput] using hf, hn', (List.append_subset.mp hs).1, ?_⟩
          exact List.forall_mem_cons.mpr ⟨(List.append_subset.mp hs).2 (by simp), hc⟩
  obtain ⟨fibs, hf, hn, -, hc⟩ := h [] List.nodup_nil
  exact ⟨fibs, hf, hn, hc⟩

theorem partitioned_rates {links : List LinkInfo} {f : GrpsmFiber}
    (hf : FreshFiber (linkPtrs links) groupcfg fiber f)
    (hp : FiberPartitioned (linkPtrs links) groupcfg f) {p : LinkPtr} (hm : p ∈ linkPtrs links)
    (hown : p.link.fiber = fiber) (hv : p.link.vcValid ≠ 0)
    (hu : ∀ g ∈ groupcfg, p.link.member ∉ g.members) : FitsNibbles p.link := by
  have hc := hp.once p hm (hown.trans hf.own.symm)
  have hin : p ∈ fiberRefs f := List.count_pos_iff.mp (by omega)
  simp only [fiberRefs, List.mem_append, List.mem_flatMap] at hin
  have hfit {kind : Place} {s : GrpsmSvc}
      (hs : FreshBundle (placed fiber groupcfg kind (linkPtrs links)) s) (hps : p ∈ s.links) :
      FitsNibbles p.link := by
    obtain ⟨_, _, hk⟩ := freshBundle_mem hs hps
    have h1 : p.link.channelRate = s.channelRate := congrArg Prod.fst hk
    have h2 : p.link.svcType = s.svcType := congrArg Prod.snd hk
    exact ⟨h1 ▸ hs.rate, h2 ▸ hs.type⟩
  rcases hin with ((hin | hin) | ⟨s, hs, hin⟩) | ⟨s, hs, hin⟩
  · exact absurd (hp.nlinks p hin) hv
  · obtain ⟨_, g, hg, hmem⟩ := hp.olinks p hin
    exact absurd hmem (hu g hg)
  · exact hfit (hf.vcs s hs) hin
  · exact hfit (hf.lcas s hs) hin

theorem grpsmInitFiber_counts {links : List LinkInfo} {f : GrpsmFiber}
    (hr : RatesFit links groupcfg) (h : grpsmInitFiber (linkPtrs links) groupcfg fiber = some f)
    (k : UInt8 × UInt8) : bundleSize links groupcfg fiber .vc k < 65536 ∧
      bundleSize links groupcfg fiber .lcas k < 65536 := by
  obtain ⟨vcells, lcells, vcs, lcas, hv, hl, hvs, hls, rfl⟩ := grpsmInitFiber_eq_some.mp h
  obtain ⟨vcells', hv', hvc⟩ := counted_all (place_fits hr fiber (Or.inl rfl))
  obtain ⟨lcells', hl', hlc⟩ := counted_all (place_fits hr fiber (Or.inr rfl))
  rw [hv, Option.some.injEq] at hv'
  rw [hl, Option.some.injEq] at hl'
  subst hv' hl'
  rw [bundleSize_eq, bundleSize_eq]
  exact ⟨((passes_eq_some hvc).mp hvs).1 k, ((passes_eq_some hlc).mp hls).1 k⟩

theorem bundleSize_absent {links : List LinkInfo} {groupcfg : List GroupCfg} {fibs : List UInt8}
    (hcov : ∀ l ∈ links, l.fiber ∈ fibs) {fiber : UInt8} (hm : fiber ∉ fibs) {kind : Place}
    (hk : kind ≠ .foreign) {k : UInt8 × UInt8} : bundleSize links groupcfg fiber kind k = 0 := by
  apply List.countP_eq_zero.mpr
  intro l hlm h
  have hplace := (of_decide_eq_true h).1
  by_cases hfor : l.fiber = fiber
  · exact hm (hfor ▸ hcov l hlm)
  · exact hk (hplace.symm.trans (place_foreign.mpr hfor))

/-- grpsm_push stays inside its arrays and partitions the links exactly when
rates and types of the bundled links fit a nibble, and every bundle's link
count fits 16 bits. -/
theorem grpsmPush_partitions (ctl : GrpsmCtl) (links : List LinkInfo) (groupcfg : List GroupCfg) :
    ((∃ r, grpsmPush ctl links groupcfg = some r) ∧
      ∀ ctl', grpsmPush ctl links groupcfg = some (0, ctl') → Partitioned groupcfg ctl') ↔
    RatesFit links groupcfg ∧ CountsFit links groupcfg := by
  obtain ⟨fibs, hfibs, hn, hcov⟩ := collectFibers_total links
  have hinit : grpsmInit links groupcfg = fibs.mapM (grpsmInitFiber (linkPtrs links) groupcfg) := by
    rw [grpsmInit, hfibs, Option.bind_some]
  constructor
  · rintro ⟨⟨r, hr⟩, hpart⟩
    by_cases hl : links = []
    · subst hl
      exact ⟨by simp [RatesFit], fun fiber k => by simp [bundleSize]⟩
    obtain ⟨fibers, hfibers, hr⟩ := Option.map_eq_some_iff.mp ((if_neg hl).symm.trans hr)
    obtain ⟨_, _, hfc⟩ := hpart _ (grpsmPush_eq_some.mpr ⟨hl, fibers, hfibers, rfl⟩)
    rw [hinit, mapM_eq_some] at hfibers
    have hfind {fiber : UInt8} (hm : fiber ∈ fibs) :
        ∃ f ∈ fibers, grpsmInitFiber (linkPtrs links) groupcfg fiber = some f := by
      obtain ⟨i, hi, rfl⟩ := List.getElem_of_mem hm
      have hi' : i < fibers.length := hfibers.length_eq ▸ hi
      exact ⟨fibers[i], List.getElem_mem hi', hfibers.get hi hi'⟩
    have hrates : RatesFit links groupcfg := by
      intro l hlm hv hu
      rw [← linkPtrs_map_link links] at hlm
      obtain ⟨p, hp, rfl⟩ := List.mem_map.mp hlm
      obtain ⟨f, hf, hfi⟩ := hfind (hcov _ (link_mem_of_mem_linkPtrs hp))
      exact partitioned_rates (grpsmInitFiber_fresh hfi) (hfc f hf) hp rfl hv hu
    refine ⟨hrates, fun fiber k => ?_⟩
    by_cases hm : fiber ∈ fibs
    · obtain ⟨f, _, hfi⟩ := hfind hm
      exact grpsmInitFiber_counts hrates hfi k
    · simp [bundleSize_absent (fun l hl => hcov l hl) hm]
  · rintro ⟨hr, hc⟩
    by_cases hl : links = []
    · simp [grpsmPush, hl]
    have hall (fiber : UInt8) := grpsmInitFiber_partitions hr hc fiber
    choose build hbuild hown hparts using hall
    have hfibers : grpsmInit links groupcfg = some (fibs.map build) := by
      rw [hinit]
      exact mapM_total fun fiber _ => hbuild fiber
    refine ⟨⟨_, grpsmPush_eq_some.mpr ⟨hl, _, hfibers, rfl⟩⟩, fun ctl' h => ?_⟩
    obtain ⟨_, fibers, hf, rfl⟩ := grpsmPush_eq_some.mp h
    rw [hfibers, Option.some.injEq] at hf
    subst hf
    have hmap : (fibs.map build).map GrpsmFiber.fiber = fibs := by
      rw [List.map_map]
      exact (List.map_congr_left fun fiber _ => hown fiber).trans (List.map_id fibs)
    refine ⟨?_, fun l hlm => ?_, fun f hf => ?_⟩
    · rw [hmap]; exact hn
    · rw [hmap]; exact hcov l hlm
    · obtain ⟨fiber, _, rfl⟩ := List.mem_map.mp hf
      exact hparts fiber

def wideLink : LinkInfo where
  fiber := 0
  fiberRate := 0
  channel := 1
  channelRate := 16
  vcValid := 1
  vcOrder := 2
  svcType := 0
  isLcas := 0
  isMember := 0
  isLastMember := 0
  mfi := 0
  sq := 0
  preGid := 0
  curGid := 0

theorem wideLink_lost : ∃ ctl, grpsmPush grpsmOpen [wideLink] [] = some (0, ctl) ∧
    ¬ Partitioned [] ctl := by
  refine ⟨_, rfl, fun h => ?_⟩
  have hone := (h.each _ (List.mem_singleton_self _)).once ⟨0, wideLink⟩ (by decide) (by decide)
  exact absurd hone (by decide)

end OiAmc.GrpsmPartition

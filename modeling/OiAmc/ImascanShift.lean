import OiAmc.ImascanKeys

namespace OiAmc.ImascanShift

open CompareSort ListRanges ImascanSplit ImascanRanges ImascanClasses ImascanKeys
open SwimaLinks (maxGrpNum maxLnkNum)

variable {n i : Nat} {f : PhyLink → PhyLink} {k : PhyLink → Nat} {s s' t : Scan} {qs : Qsort}
  {links : List PhyLink} {sort : List PhyLink → Nat → Nat → Option (List PhyLink)}
  {differs : List PhyLink → Nat → Option (Nat → Option Bool)}

/-- Two scans with the same groups, whose links correspond up to their order. No group
is marked ok yet. -/
structure Shifted (f : PhyLink → PhyLink) (n : Nat) (s s' : Scan) : Prop where
  bounds : InBounds n s
  bounds' : InBounds n s'
  tiles : Tiles 0 s
  zero : ∀ i, (s.grp i).ok = 0
  num : s'.grpNum = s.grpNum
  grp : s'.grp = s.grp
  perm : ∀ i < s.grpNum, (s'.range i).Perm ((s.range i).map f)

theorem Shifted.tiles' (h : Shifted f n s s') : Tiles 0 s' := by
  refine ⟨?_, fun p hp => absurd hp (Nat.not_lt_zero p)⟩
  rw [h.num, h.grp]
  exact h.tiles.apart

theorem take_eq_filter {ys : List PhyLink} {m c : Nat} (hc : ∀ x ∈ ys.take m, k x = c)
    (hlt : ∀ y ∈ ys.drop m, c < k y) : ys.take m = ys.filter (k · = c) ∧
      ys.drop m = ys.filter (k · ≠ c) := by
  have htake : (ys.take m).filter (k · = c) = ys.take m :=
    List.filter_eq_self.mpr fun x hx => decide_eq_true (hc x hx)
  have hdrop : (ys.drop m).filter (k · = c) = [] :=
    List.filter_eq_nil_iff.mpr fun y hy => by simpa using (hlt y hy).ne'
  have htake' : (ys.take m).filter (k · ≠ c) = [] :=
    List.filter_eq_nil_iff.mpr fun x hx => by simpa using hc x hx
  have hdrop' : (ys.drop m).filter (k · ≠ c) = ys.drop m :=
    List.filter_eq_self.mpr fun y hy => by simpa using (hlt y hy).ne'
  constructor
  · rw [← List.take_append_drop m ys, List.filter_append, List.take_append_drop, htake, hdrop,
      List.append_nil]
  · rw [← List.take_append_drop m ys, List.filter_append, List.take_append_drop, htake', hdrop',
      List.nil_append]

/-- Where a range is cut: behind the links with the least value of k. -/
structure CutBehind (k : PhyLink → Nat) (ys : List PhyLink) (m : Nat) : Prop where
  pos : 0 < m
  lt : m < ys.length
  same : ∀ x ∈ ys.take m, ∀ y ∈ ys.take m, k x = k y
  above : ∀ x ∈ ys.take m, ∀ y ∈ ys.drop m, k x < k y

theorem CutBehind.least {ys : List PhyLink} {m : Nat} (h : CutBehind k ys m) :
    ∃ x ∈ ys, (∀ y ∈ ys, k x ≤ k y) ∧ ys.take m = ys.filter (k · = k x) ∧
      ys.drop m = ys.filter (k · ≠ k x) := by
  have hpos := h.pos
  have hlt := h.lt
  have hmem : ys[0] ∈ ys.take m := List.mem_take_iff_getElem.mpr ⟨0, by omega, rfl⟩
  refine ⟨ys[0], List.mem_of_mem_take hmem, fun y hy => ?_,
    take_eq_filter (fun x hx => h.same x hx _ hmem) (fun y hy => h.above _ hmem y hy)⟩
  rw [← List.take_append_drop m ys, List.mem_append] at hy
  rcases hy with hy | hy
  · exact (h.same _ hmem y hy).le
  · exact (h.above _ hmem y hy).le

theorem cutBehind_shifted {ys ys' : List PhyLink} {m m' : Nat} (hk : ∀ x, k (f x) = k x)
    (hperm : ys'.Perm (ys.map f)) (h : CutBehind k ys m) (h' : CutBehind k ys' m') :
    m' = m ∧ (ys'.take m').Perm ((ys.take m).map f) ∧ (ys'.drop m').Perm ((ys.drop m).map f) := by
  obtain ⟨x, hx, hmin, htake, hdrop⟩ := h.least
  obtain ⟨x', hx', hmin', htake', hdrop'⟩ := h'.least
  have heq : k x' = k x := by
    apply le_antisymm
    · have hle := hmin' (f x) (hperm.symm.subset (List.mem_map_of_mem hx))
      rwa [hk] at hle
    · obtain ⟨z, hz, rfl⟩ := List.mem_map.mp (hperm.subset hx')
      rw [hk]
      exact hmin z hz
  have hfilter (p : Nat → Bool) :
      (ys'.filter fun y => p (k y)).Perm ((ys.filter fun y => p (k y)).map f) := by
    have h := hperm.filter fun y => p (k y)
    rw [List.filter_map] at h
    have hcomp : ((fun y => p (k y)) ∘ f) = fun y => p (k y) := by
      funext y
      simp only [Function.comp, hk]
    rwa [hcomp] at h
  have htp := hfilter fun c => decide (c = k x)
  have hdp := hfilter fun c => decide (c ≠ k x)
  rw [heq] at htake' hdrop'
  rw [← htake, ← htake'] at htp
  rw [← hdrop, ← hdrop'] at hdp
  refine ⟨?_, htp, hdp⟩
  have hlen := htp.length_eq
  rw [List.length_take_of_le h'.lt.le, List.length_map, List.length_take_of_le h.lt.le] at hlen
  exact hlen

theorem not_cutBehind_of_same {ys ys' : List PhyLink} {m : Nat} (hk : ∀ x, k (f x) = k x)
    (hperm : ys'.Perm (ys.map f)) (hsame : ∀ x ∈ ys, ∀ y ∈ ys, k x = k y) :
    ¬ CutBehind k ys' m := by
  intro h
  have hpos := h.pos
  have hlt := h.lt
  have h1 : ys'[0] ∈ ys'.take m := List.mem_take_iff_getElem.mpr ⟨0, by omega, rfl⟩
  have h2 : ys'[m] ∈ ys'.drop m := List.mem_drop_iff_getElem.mpr ⟨0, by omega, rfl⟩
  have habove := h.above _ h1 _ h2
  obtain ⟨x, hx, hx'⟩ := List.mem_map.mp (hperm.subset (List.mem_of_mem_take h1))
  obtain ⟨y, hy, hy'⟩ := List.mem_map.mp (hperm.subset (List.mem_of_mem_drop h2))
  rw [← hx', ← hy', hk, hk, hsame x hx y hy] at habove
  exact lt_irrefl _ habove

theorem cutAt_ok (s : Scan) (i m a : Nat) : (cutAt s i m a).ok = (s.grp a).ok := by
  by_cases hai : a = i
  · subst hai
    simp only [cutAt, Function.update_self]
  · by_cases han : a = s.grpNum
    · subst han
      simp only [cutAt, Function.update_of_ne hai, Function.update_self]
    · simp only [cutAt, Function.update_of_ne hai, Function.update_of_ne han]

theorem cutAt_congr {m : Nat} (hnum : s'.grpNum = s.grpNum) (hgrp : s'.grp = s.grp) :
    cutAt s' i m = cutAt s i m := by
  rw [cutAt, cutAt, hnum, hgrp]

theorem range_len (hb : InBounds n s) (hi : i < s.grpNum) :
    (s.range i).length = (s.grp i).linkNum := by
  have hle := hb.le i hi
  have hlen := hb.live.le
  exact range_length (by omega)

theorem Shifted.perm_map {ys ys' : List PhyLink} (h : Shifted f n s s') (hi : i < s.grpNum)
    (hperm : ys.Perm (s.range i)) (hperm' : ys'.Perm (s'.range i)) : ys'.Perm (ys.map f) :=
  (hperm'.trans (h.perm i hi)).trans (hperm.symm.map f)

theorem splitGroup_shifted_some (hs : Splits sort differs k) (hk : ∀ x, k (f x) = k x)
    (h : Shifted f n s s') (hi : i < s.grpNum) (hst : splitGroup sort differs s i = some t) :
    ∃ t', splitGroup sort differs s' i = some t' := by
  have hi' : i < s'.grpNum := h.num.symm ▸ hi
  obtain ⟨ys, hperm, _, _, _, hcase⟩ := splitGroup_parts hs h.bounds h.tiles hi hst
  obtain ⟨ys', hperm', ⟨he, _⟩ | ⟨m, hm, hml, he, hsame, hlt⟩⟩ := splitGroup_cases hs h.bounds' hi'
  · exact ⟨_, he⟩
  · rcases hcase with ⟨_, _, _, hall⟩ | ⟨_, _, _, hroom, _⟩
    · have hlen : ys'.length = (s'.grp i).linkNum := by
        rw [hperm'.length_eq, range_len h.bounds' hi']
      exact absurd ⟨hm, hlen ▸ hml, hsame, hlt⟩
        (not_cutBehind_of_same hk (h.perm_map hi hperm hperm') hall)
    · exact splitGroup_room hs h.bounds' hi' (h.num.symm ▸ hroom)

theorem splitGroup_shifted (hs : Splits sort differs k) (hk : ∀ x, k (f x) = k x)
    (h : Shifted f n s s') (hi : i < s.grpNum) (hst : splitGroup sort differs s i = some t) :
    ∃ t', splitGroup sort differs s' i = some t' ∧ Shifted f n t t' := by
  have hi' : i < s'.grpNum := h.num.symm ▸ hi
  obtain ⟨t', ht'⟩ := splitGroup_shifted_some hs hk h hi hst
  obtain ⟨hbt, _⟩ := splitGroup_inBounds hs h.bounds hi hst
  obtain ⟨hbt', _⟩ := splitGroup_inBounds hs h.bounds' hi' ht'
  obtain ⟨ys, hperm, htiles, _, hother, hcase⟩ := splitGroup_parts hs h.bounds h.tiles hi hst
  obtain ⟨ys', hperm', _, _, hother', hcase'⟩ := splitGroup_parts hs h.bounds' h.tiles' hi' ht'
  have hyl : ys.length = (s.grp i).linkNum := by rw [hperm.length_eq, range_len h.bounds hi]
  have hyl' : ys'.length = (s'.grp i).linkNum := by rw [hperm'.length_eq, range_len h.bounds' hi']
  have hshift := h.perm_map hi hperm hperm'
  refine ⟨t', ht', ?_⟩
  rcases hcase with ⟨hn, hg, hti, hall⟩ | ⟨m, hm, hml, hroom, hn, hg, hti, htn, hsame, hlt⟩
  · rcases hcase' with ⟨hn', hg', hti', _⟩ | ⟨m', hm', hml', _, _, _, _, _, hsame', hlt'⟩
    · refine ⟨hbt, hbt', htiles, hg ▸ h.zero, by rw [hn', hn, h.num], by rw [hg', hg, h.grp],
        fun a ha => ?_⟩
      by_cases hai : a = i
      · rw [hai, hti, hti']
        exact hshift
      · rw [hn] at ha
        rw [hother a ha hai, hother' a (h.num.symm ▸ ha) hai]
        exact h.perm a ha
    · exact absurd ⟨hm', hyl' ▸ hml', hsame', hlt'⟩ (not_cutBehind_of_same hk hshift hall)
  · have hcut : CutBehind k ys m := ⟨hm, hyl ▸ hml, hsame, hlt⟩
    rcases hcase' with ⟨_, _, _, hall'⟩ | ⟨m', hm', hml', _, hn', hg', hti', htn', hsame', hlt'⟩
    · refine absurd hcut (@not_cutBehind_of_same id k ys ys m (fun _ => rfl) (by rw [List.map_id])
        fun x hx y hy => ?_)
      have hval := hall' (f x) (hshift.symm.subset (List.mem_map_of_mem hx)) (f y)
        (hshift.symm.subset (List.mem_map_of_mem hy))
      rwa [hk, hk] at hval
    · obtain ⟨rfl, htake, hdrop⟩ := cutBehind_shifted hk hshift hcut
        ⟨hm', hyl' ▸ hml', hsame', hlt'⟩
      refine ⟨hbt, hbt', htiles, fun a => ?_, by rw [hn', hn, h.num],
        by rw [hg', hg, cutAt_congr h.num h.grp], fun a ha => ?_⟩
      · rw [hg, cutAt_ok]
        exact h.zero a
      · by_cases hai : a = i
        · rw [hai, hti, hti']
          exact htake
        · by_cases han : a = s.grpNum
          · rw [h.num] at htn'
            rw [han, htn, htn']
            exact hdrop
          · have ha : a < s.grpNum := by omega
            rw [hother a ha hai, hother' a (h.num.symm ▸ ha) hai]
            exact h.perm a ha

theorem splitLoop_shifted (hs : Splits sort differs k) (hk : ∀ x, k (f x) = k x)
    {limit fuel : Nat} {rc : Int} (h : Shifted f n s s')
    (hst : splitLoop sort differs limit fuel i s = some (t, rc)) :
    ∃ t', splitLoop sort differs limit fuel i s' = some (t', rc) ∧ Shifted f n t t' := by
  induction fuel generalizing i s s' with
  | zero => cases hst
  | succ fuel ih =>
      rw [splitLoop] at hst ⊢
      by_cases hi : i < s.grpNum
      · rw [if_pos hi] at hst
        rw [if_pos (h.num.symm ▸ hi)]
        obtain ⟨u, hu, hst⟩ := Option.bind_eq_some_iff.mp hst
        obtain ⟨u', hu', hshift⟩ := splitGroup_shifted hs hk h hi hu
        simp only [hu', Option.bind_eq_bind, Option.bind_some, hshift.num]
        by_cases hlimit : limit ≤ u.grpNum
        · rw [if_pos hlimit] at hst ⊢
          cases hst
          exact ⟨u', rfl, hshift⟩
        · rw [if_neg hlimit] at hst ⊢
          exact ih hshift hst
      · rw [if_neg hi] at hst
        rw [if_neg (h.num.symm ▸ hi)]
        cases hst
        exact ⟨s', rfl, h⟩

theorem InBounds.fewer {m : Nat} (hb : InBounds n s) (hm : m ≤ s.grpNum) :
    InBounds n { s with grpNum := m } :=
  ⟨hb.live, fun i hi => hb.pos i (hi.trans_le hm), fun i hi => hb.le i (hi.trans_le hm),
    hm.trans hb.num⟩

theorem Shifted.fewer {m : Nat} (h : Shifted f n s s') (hm : m ≤ s.grpNum) :
    Shifted f n { s with grpNum := m } { s' with grpNum := m } where
  bounds := InBounds.fewer h.bounds hm
  bounds' := InBounds.fewer h.bounds' (h.num.symm ▸ hm)
  tiles := ⟨fun i hi j hj => h.tiles.apart i (hi.trans_le hm) j (hj.trans_le hm),
    fun p hp => absurd hp (Nat.not_lt_zero p)⟩
  zero := h.zero
  num := rfl
  grp := h.grp
  perm := fun i hi => h.perm i (hi.trans_le hm)

theorem splitAll_shifted (hs : Splits sort differs k) (hk : ∀ x, k (f x) = k x) {limit : Nat}
    {rc : Int} (h : Shifted f n s s') (hst : splitAll sort differs limit s = some (t, rc)) :
    ∃ t', splitAll sort differs limit s' = some (t', rc) ∧ Shifted f n t t' := by
  obtain ⟨⟨u, rc'⟩, hu, he⟩ := Option.map_eq_some_iff.mp hst
  obtain ⟨_, hle⟩ := splitLoop_inBounds hs h.bounds hu
  obtain ⟨u', hu', hshift⟩ := splitLoop_shifted hs hk h hu
  rw [splitAll, hu', Option.map_some]
  simp only at he ⊢
  by_cases hrc : rc' < 0
  · rw [if_pos hrc] at he
    cases he
    refine ⟨_, by rw [if_pos hrc], ?_⟩
    rw [h.num]
    exact hshift.fewer hle
  · rw [if_neg hrc] at he
    cases he
    exact ⟨u', by rw [if_neg hrc], hshift⟩

structure Unseen (f : PhyLink → PhyLink) : Prop where
  icp : ∀ x, (f x).pIcp.isSome = x.pIcp.isSome
  vals : ∀ k ∈ passVals, ∀ x, k (f x) = k x

theorem Unseen.icpLinks (hf : Unseen f) (links : List PhyLink) :
    icpLinks (links.map f) = (icpLinks links).map f := by
  rw [ImascanKeys.icpLinks, ImascanKeys.icpLinks, List.filter_map]
  congr 2
  funext x
  exact hf.icp x

theorem start_shifted (hf : Unseen f) (hsize : links.length = maxLnkNum)
    (hn : 0 < icpLinkNum links) {ys ys' : List PhyLink} (hlive : Live (icpLinks links).length ys)
    (hlive' : Live (icpLinks links).length ys')
    (hperm : (range ys 0 (icpLinks links).length).Perm (icpLinks links))
    (hperm' : (range ys' 0 (icpLinks links).length).Perm ((icpLinks links).map f)) :
    Shifted f (icpLinks links).length { scanStart links with links := ys }
      { scanStart (links.map f) with links := ys' } := by
  have hnum := icpLinkNum_eq hsize
  have hsize' : (links.map f).length = maxLnkNum := by rw [List.length_map, hsize]
  have hlinks : (icpLinks (links.map f)).length = (icpLinks links).length := by
    rw [hf.icpLinks, List.length_map]
  have hnum' : icpLinkNum (links.map f) = icpLinkNum links := by
    rw [icpLinkNum_eq hsize', hnum, hlinks]
  have hgrp : (scanStart (links.map f)).grp = (scanStart links).grp := by
    simp only [scanStart, hnum']
  refine ⟨start_bounds hn hsize hlive, ?_, ⟨?_, fun p hp => absurd hp (Nat.not_lt_zero p)⟩,
    fun i => ?_, rfl, hgrp, fun i hi => ?_⟩
  · have hstart := @start_bounds (links.map f) (hnum'.symm ▸ hn) hsize' ys' (hlinks.symm ▸ hlive')
    rwa [hlinks] at hstart
  · intro i hi j hj hij
    change i < 1 at hi
    change j < 1 at hj
    omega
  · by_cases hi : i = 0
    · subst hi
      simp only [scanStart, Function.update_self]
    · simp only [scanStart, Function.update_of_ne hi]
  · change i < 1 at hi
    obtain rfl : i = 0 := by omega
    simp only [Scan.range, scanStart, Function.update_self, hnum', hnum]
    exact hperm'.trans (hperm.symm.map f)

theorem passes_shifted (hf : Unseen f) {ps : List Pass} (hvals : ∀ p ∈ ps, p.val ∈ passVals)
    (h : Shifted f n s s') (hst : ps.foldlM (fun s p => p.split s) s = some t) :
    ∃ t', ps.foldlM (fun s p => p.split s) s' = some t' ∧ Shifted f n t t' := by
  induction ps generalizing s s' with
  | nil =>
      cases hst
      exact ⟨s', rfl, h⟩
  | cons p ps ih =>
      obtain ⟨hp, hps⟩ := List.forall_mem_cons.mp hvals
      rw [List.foldlM_cons] at hst
      obtain ⟨s1, h1, hst⟩ := Option.bind_eq_some_iff.mp hst
      obtain ⟨⟨u, rc⟩, hu, rfl⟩ := Option.map_eq_some_iff.mp h1
      obtain ⟨u', hu', hshift⟩ := splitAll_shifted p.splits (hf.vals _ hp) h hu
      obtain ⟨t', ht', hshift'⟩ := ih hps hshift hst
      refine ⟨t', ?_, hshift'⟩
      rw [List.foldlM_cons, Pass.split, hu']
      exact ht'

theorem scanGroups_shifted (hf : Unseen f) (hsize : links.length = maxLnkNum)
    (hn : 0 < icpLinkNum links) (h : scanGroups qs links = some s) :
    ∃ s', scanGroups qs (links.map f) = some s' ∧ Shifted f (icpLinks links).length s s' := by
  have hsize' : (links.map f).length = maxLnkNum := by rw [List.length_map, hsize]
  obtain ⟨ys, hys, hlive, hperm⟩ := verSort_spec qs hsize
  obtain ⟨ys', hys', hlive', hperm'⟩ := verSort_spec qs hsize'
  rw [hf.icpLinks, List.length_map] at hlive' hperm'
  rw [scanGroups_eq hys] at h
  rw [scanGroups_eq hys']
  exact passes_shifted hf (fun p hp => val_mem_passVals hp)
    (start_shifted hf hsize hn hlive hlive' hperm hperm') h

end OiAmc.ImascanShift

import OiAmc.ImascanSplit

namespace OiAmc.ImascanRanges

open CompareSort ListRanges ImascanSplit
open SwimaLinks (maxGrpNum maxLnkNum)

variable {links : List PhyLink} {n a i m : Nat} {k : PhyLink → Nat} {s t : Scan} {ys : List PhyLink}
  {sort : List PhyLink → Nat → Nat → Option (List PhyLink)}
  {differs : List PhyLink → Nat → Option (Nat → Option Bool)} {test : Nat → Option Bool}

structure Live (n : Nat) (links : List PhyLink) : Prop where
  le : n ≤ links.length
  live : ∀ x ∈ range links 0 n, x.pIcp ≠ none

/-- The ranges of all groups lie among the first n links, that have ICP cells. -/
structure InBounds (n : Nat) (s : Scan) : Prop where
  live : Live n s.links
  pos : ∀ i < s.grpNum, 0 < (s.grp i).linkNum
  le : ∀ i < s.grpNum, (s.grp i).index + (s.grp i).linkNum ≤ n
  num : s.grpNum ≤ maxGrpNum

theorem InBounds.range_live (hb : InBounds n s) (hi : i < s.grpNum) :
    ∀ x ∈ s.range i, x.pIcp ≠ none := by
  intro x hx
  have hle := hb.le i hi
  exact hb.live.live x (range_subset (Nat.zero_le _) (by omega) hx)

/-- A pass orders the links of a group by k, and finds the first of them that
differs in k from the first one. -/
structure Splits (sort : List PhyLink → Nat → Nat → Option (List PhyLink))
    (differs : List PhyLink → Nat → Option (Nat → Option Bool)) (k : PhyLink → Nat) : Prop where
  sorts : ∀ links a n, a + n ≤ links.length → (∀ x ∈ range links a n, x.pIcp ≠ none) →
    ∃ ys, sort links a n = some (splice links a ys) ∧ ys.Perm (range links a n) ∧
      ys.Pairwise fun x y => k x ≤ k y
  tests : ∀ links a x, links[a]? = some x → x.pIcp ≠ none → ∃ test, differs links a = some test ∧
    ∀ j y, links[j]? = some y → y.pIcp ≠ none → test j = some (decide (k y ≠ k x))

theorem findNew_range' {b : Nat → Bool} (h : ∀ p < n, test (a + p) = some (b p)) :
    findNew test (List.range' a n) = some none ∧ (∀ p < n, b p = false) ∨
      ∃ m < n, findNew test (List.range' a n) = some (some (a + m)) ∧ b m = true ∧
        ∀ p < m, b p = false := by
  induction n generalizing a b with
  | zero => exact Or.inl ⟨rfl, fun p hp => absurd hp (Nat.not_lt_zero p)⟩
  | succ n ih =>
      have h0 : test a = some (b 0) := h 0 (by omega)
      rw [List.range'_succ, findNew, h0]
      cases hb : b 0 with
      | true =>
          exact Or.inr ⟨0, by omega, rfl, hb, fun p hp => absurd hp (Nat.not_lt_zero p)⟩
      | false =>
          have hrest := @ih (a + 1) (fun p => b (p + 1)) fun p hp => by
            rw [Nat.add_assoc, Nat.add_comm 1 p]
            exact h (p + 1) (by omega)
          rcases hrest with ⟨hf, hall⟩ | ⟨m, hm, hf, hbm, hall⟩
          · refine Or.inl ⟨hf, fun p hp => ?_⟩
            cases p with
            | zero => exact hb
            | succ p => exact hall p (by omega)
          · refine Or.inr ⟨m + 1, by omega, ?_, hbm, fun p hp => ?_⟩
            · rw [← Nat.add_assoc, Nat.add_right_comm]
              exact hf
            · cases p with
              | zero => exact hb
              | succ p => exact hall p (by omega)

/-- All the links before the first that differs are like the first one. -/
theorem alike_before {ys : List PhyLink} {y0 : PhyLink} {m : Nat} (hy0 : ys[0]? = some y0)
    (hm : ∀ p < m, decide (∃ y, ys[p + 1]? = some y ∧ k y ≠ k y0) = false) :
    ∀ x ∈ ys.take (m + 1), k x = k y0 := by
  intro x hx
  obtain ⟨p, hp⟩ := List.mem_iff_getElem?.mp hx
  rw [List.getElem?_take] at hp
  split at hp
  · next hlt =>
      cases p with
      | zero => exact congrArg k (Option.some.inj (hp.symm.trans hy0))
      | succ p =>
          have hno := of_decide_eq_false (hm p (by omega))
          by_contra hne
          exact hno ⟨x, hp, hne⟩
  · cases hp

theorem above_behind {ys : List PhyLink} {y0 z : PhyLink} {m : Nat}
    (hord : ys.Pairwise fun x y => k x ≤ k y) (hy0 : ys[0]? = some y0) (hz : ys[m + 1]? = some z)
    (hne : k z ≠ k y0) : ∀ y ∈ ys.drop (m + 1), k y0 < k y := by
  intro y hy
  obtain ⟨q, hq⟩ := List.mem_iff_getElem?.mp hy
  rw [List.getElem?_drop] at hq
  obtain ⟨h0l, rfl⟩ := List.getElem?_eq_some_iff.mp hy0
  obtain ⟨hzl, rfl⟩ := List.getElem?_eq_some_iff.mp hz
  obtain ⟨hql, rfl⟩ := List.getElem?_eq_some_iff.mp hq
  have h0z := List.pairwise_iff_getElem.mp hord 0 (m + 1) h0l hzl (by omega)
  rcases Nat.eq_zero_or_pos q with rfl | hqpos
  · exact lt_of_le_of_ne h0z (Ne.symm hne)
  · have hzq := List.pairwise_iff_getElem.mp hord (m + 1) (m + 1 + q) hzl hql (by omega)
    exact lt_of_lt_of_le (lt_of_le_of_ne h0z (Ne.symm hne)) hzq

/-- What a round does: it permutes the links of the group, and cuts them where k
changes for the first time. -/
theorem splitGroup_cases (hs : Splits sort differs k) (hb : InBounds n s) (hi : i < s.grpNum) :
    ∃ ys, ys.Perm (s.range i) ∧
      ((splitGroup sort differs s i = some { s with links := splice s.links (s.grp i).index ys } ∧
          ∀ x ∈ ys, ∀ y ∈ ys, k x = k y) ∨
        ∃ m, 0 < m ∧ m < (s.grp i).linkNum ∧
          splitGroup sort differs s i =
            cutGroup { s with links := splice s.links (s.grp i).index ys } i ((s.grp i).index + m) ∧
          (∀ x ∈ ys.take m, ∀ y ∈ ys.take m, k x = k y) ∧
          ∀ x ∈ ys.take m, ∀ y ∈ ys.drop m, k x < k y) := by
  have hpos := hb.pos i hi
  have hle := (hb.le i hi).trans hb.live.le
  have hlive := hb.range_live hi
  generalize hidx : (s.grp i).index = idx at *
  generalize hnum : (s.grp i).linkNum = len at *
  have hrange : s.range i = range s.links idx len := by rw [Scan.range, hidx, hnum]
  rw [hrange] at hlive ⊢
  obtain ⟨ys, hsort, hperm, hord⟩ := hs.sorts s.links idx len hle hlive
  have hlen : ys.length = len := by rw [hperm.length_eq, range_length hle]
  have hylive : ∀ y ∈ ys, y.pIcp ≠ none := fun y hy => hlive y (hperm.subset hy)
  have hget (p : Nat) (hp : p < len) : (splice s.links idx ys)[idx + p]? = ys[p]? := by
    rw [splice_getElem? (by omega), if_pos (by omega), Nat.add_sub_cancel_left]
  obtain ⟨y0, hy0⟩ : ∃ y0, ys[0]? = some y0 := ⟨_, List.getElem?_eq_getElem (by omega)⟩
  have hy0m := List.mem_of_getElem? hy0
  obtain ⟨test, hd, htest⟩ := hs.tests (splice s.links idx ys) idx y0
    (by rw [← hy0, ← hget 0 hpos, Nat.add_zero]) (hylive y0 hy0m)
  have htests : ∀ p < len - 1, test (idx + 1 + p) =
      some (decide (∃ y, ys[p + 1]? = some y ∧ k y ≠ k y0)) := by
    intro p hp
    have hlt : p + 1 < ys.length := by omega
    have hyp := List.getElem?_eq_getElem hlt
    have hyg : (splice s.links idx ys)[idx + 1 + p]? = some ys[p + 1] := by
      rw [Nat.add_assoc, Nat.add_comm 1 p, hget (p + 1) (by omega), hyp]
    rw [htest _ _ hyg (hylive _ (List.getElem_mem hlt))]
    simp [hyp]
  refine ⟨ys, hperm, ?_⟩
  rw [splitGroup]
  simp only [hidx, hnum, hsort, hd, Option.bind_eq_bind, Option.bind_some]
  rcases findNew_range' htests with ⟨hf, hall⟩ | ⟨m, hm, hf, hbm, hall⟩
  · left
    have hk : ∀ x ∈ ys, k x = k y0 := by
      have h := alike_before hy0 hall
      rwa [List.take_of_length_le (by omega)] at h
    refine ⟨?_, fun x hx y hy => (hk x hx).trans (hk y hy).symm⟩
    rw [hf]
    rfl
  · right
    have hk := alike_before hy0 hall
    obtain ⟨z, hz, hne⟩ := of_decide_eq_true hbm
    refine ⟨m + 1, by omega, by omega, ?_, fun x hx y hy => (hk x hx).trans (hk y hy).symm, ?_⟩
    · rw [hf, Nat.add_assoc, Nat.add_comm 1 m]
      rfl
    · intro x hx y hy
      rw [hk x hx]
      exact above_behind hord hy0 hz hne y hy

theorem qsortLinks_eq (qs : Qsort) (cmp : PhyLink → PhyLink → Int) (h : a + n ≤ links.length) :
    qsortLinks qs cmp links a n = some (splice links a (qs.sort cmp (range links a n))) := if_pos h

theorem qsortIcps_eq (qs : Qsort) (cmp : PhyLink → PhyLink → Int) (h : a + n ≤ links.length)
    (hlive : ∀ x ∈ range links a n, x.pIcp ≠ none) :
    qsortIcps qs cmp links a n = some (splice links a (qs.sort cmp (range links a n))) := by
  rw [qsortIcps, if_pos, qsortLinks_eq qs cmp h]
  right
  rw [List.all_eq_true]
  exact fun x hx => Option.isSome_iff_ne_none.mpr (hlive x hx)

theorem fieldDiffers_tests (field : Icp → UInt8) {x : PhyLink} (hx : links[a]? = some x)
    (hn : x.pIcp ≠ none) : ∃ test, fieldDiffers field links a = some test ∧
      ∀ j y, links[j]? = some y → y.pIcp ≠ none →
        test j = some (decide (icpVal field y ≠ icpVal field x)) := by
  obtain ⟨icp, hicp⟩ := Option.ne_none_iff_exists'.mp hn
  refine ⟨fun j => (icpAt links j).map fun icp2 => field icp2 ≠ field icp, ?_,
    fun j y hy hny => ?_⟩
  · rw [fieldDiffers, icpAt, hx, Option.bind_some, hicp]
    rfl
  · obtain ⟨icp2, hicp2⟩ := Option.ne_none_iff_exists'.mp hny
    simp [icpAt, icpVal, hy, hicp, hicp2, UInt8.toNat_inj]

theorem splits_field (qs : Qsort) (field : Icp → UInt8) :
    Splits (qsortIcps qs (sortLinkFor field)) (fieldDiffers field) (icpVal field) where
  sorts links a n hle hlive := by
    refine ⟨_, qsortIcps_eq qs _ hle hlive, qs.perm _ _, ?_⟩
    apply (qs.sorted _ _ (ordered_sub (icpVal field))).imp
    intro x y h
    change ¬ (icpVal field y : Int) - icpVal field x < 0 at h
    omega
  tests _ _ _ hx hn := fieldDiffers_tests field hx hn

theorem sortLinkForImaVer_ordered : Ordered sortLinkForImaVer where
  asymm x y h := by
    cases hx : x.pIcp <;> cases hy : y.pIcp <;>
      simp only [sortLinkForImaVer, hx, hy] at h ⊢ <;> omega
  trans x y z h h' := by
    cases hx : x.pIcp <;> cases hy : y.pIcp <;> cases hz : z.pIcp <;>
      simp only [sortLinkForImaVer, hx, hy, hz] at h h' ⊢ <;> omega

theorem splits_ver (qs : Qsort) :
    Splits (qsortLinks qs sortLinkForImaVer) (fieldDiffers Icp.ver) (icpVal Icp.ver) where
  sorts links a n hle hlive := by
    refine ⟨_, qsortLinks_eq qs _ hle, qs.perm _ _, ?_⟩
    apply (qs.sorted _ _ sortLinkForImaVer_ordered).imp_of_mem
    intro x y hx hy h
    obtain ⟨icp, hicp⟩ := Option.ne_none_iff_exists'.mp (hlive x ((qs.perm _ _).subset hx))
    obtain ⟨icp2, hicp2⟩ := Option.ne_none_iff_exists'.mp (hlive y ((qs.perm _ _).subset hy))
    simp only [sortLinkForImaVer, icpVal, hicp, hicp2] at h ⊢
    omega
  tests _ _ _ hx hn := fieldDiffers_tests Icp.ver hx hn

theorem splits_status (qs : Qsort) :
    Splits (qsortIcps qs sortLinkForLinkStatusCtrl) statusDiffers fun _ => 0 where
  sorts links a n hle hlive := by
    refine ⟨_, qsortIcps_eq qs _ hle hlive, qs.perm _ _, ?_⟩
    exact List.pairwise_of_forall fun _ _ => le_refl 0
  tests links a x hx hn := by
    obtain ⟨icp, hicp⟩ := Option.ne_none_iff_exists'.mp hn
    refine ⟨_, rfl, fun j y _ _ => ?_⟩
    simp [isSameLinkStatusCtrl, icpAt, hx, hicp]

theorem Live.splice (h : Live n links) (hn : a + m ≤ n) (hy : ys.Perm (range links a m)) :
    Live n (splice links a ys) ∧ (ListRanges.range (ListRanges.splice links a ys) 0 n).Perm (range links 0 n) := by
  have hle := h.le
  have hperm := @range_splice_perm _ links ys a 0 m n (by omega) hy (by omega) (by omega)
  have hlen : ys.length = m := by rw [hy.length_eq, range_length (by omega)]
  refine ⟨⟨?_, fun x hx => h.live x (hperm.subset hx)⟩, hperm⟩
  rw [splice_length (by omega)]
  exact hle

theorem cutGroup_eq_some {j : Nat} (h : cutGroup s i j = some t) (hi : i < s.grpNum) :
    s.grpNum < maxGrpNum ∧ t.links = s.links ∧ t.grpNum = s.grpNum + 1 ∧
      (t.grp i = { s.grp i with linkNum := j - (s.grp i).index }) ∧
      (t.grp s.grpNum).index = j ∧
      (t.grp s.grpNum).linkNum = (s.grp i).linkNum + (s.grp i).index - j ∧
      ∀ a, a ≠ i → a ≠ s.grpNum → t.grp a = s.grp a := by
  rw [cutGroup] at h
  simp only at h
  split at h
  · next hlt =>
      cases h
      refine ⟨hlt, rfl, rfl, ?_, ?_, ?_, fun a ha hn => ?_⟩
      · simp only [Function.update_self, Function.update_of_ne hi.ne]
      · simp only [Function.update_of_ne hi.ne', Function.update_self]
      · simp only [Function.update_of_ne hi.ne', Function.update_self]
      · simp only [Function.update_of_ne ha, Function.update_of_ne hn]
  · cases h

theorem splitGroup_inBounds (hs : Splits sort differs k) (hb : InBounds n s) (hi : i < s.grpNum)
    (h : splitGroup sort differs s i = some t) : InBounds n t ∧ s.grpNum ≤ t.grpNum := by
  have hle := hb.le i hi
  obtain ⟨ys, hperm, ⟨he, -⟩ | ⟨m, hm, hml, he, -⟩⟩ := splitGroup_cases hs hb hi
  · rw [he] at h
    cases h
    exact ⟨⟨(hb.live.splice hle hperm).1, hb.pos, hb.le, hb.num⟩, le_refl _⟩
  · rw [he] at h
    obtain ⟨hlt, hl, hn, h1, h2, h3, h4⟩ := cutGroup_eq_some h hi
    simp only at hlt hl hn h1 h2 h3 h4
    refine ⟨⟨hl ▸ (hb.live.splice hle hperm).1, fun a ha => ?_, fun a ha => ?_, by omega⟩, by omega⟩
    · by_cases hai : a = i
      · subst hai
        rw [h1]
        simp only
        omega
      · by_cases han : a = s.grpNum
        · subst han
          omega
        · rw [h4 a hai han]
          exact hb.pos a (by omega)
    · by_cases hai : a = i
      · subst hai
        rw [h1]
        simp only
        omega
      · by_cases han : a = s.grpNum
        · subst han
          omega
        · rw [h4 a hai han]
          exact hb.le a (by omega)

theorem splitLoop_inBounds (hs : Splits sort differs k) {limit f : Nat} {rc : Int} (hb : InBounds n s)
    (h : splitLoop sort differs limit f i s = some (t, rc)) : InBounds n t ∧ s.grpNum ≤ t.grpNum := by
  induction f generalizing i s with
  | zero => cases h
  | succ f ih =>
      rw [splitLoop] at h
      split at h
      · next hi =>
          obtain ⟨s1, hs1, h⟩ := Option.bind_eq_some_iff.mp h
          obtain ⟨hb1, hle1⟩ := splitGroup_inBounds hs hb hi hs1
          split at h
          · cases h
            exact ⟨hb1, hle1⟩
          · obtain ⟨hb2, hle2⟩ := ih hb1 h
            exact ⟨hb2, hle1.trans hle2⟩
      · cases h
        exact ⟨hb, le_refl _⟩

theorem splitAll_inBounds (hs : Splits sort differs k) {limit : Nat} {rc : Int} (hb : InBounds n s)
    (h : splitAll sort differs limit s = some (t, rc)) : InBounds n t := by
  obtain ⟨⟨u, rc'⟩, hu, he⟩ := Option.map_eq_some_iff.mp h
  obtain ⟨hbu, hle⟩ := splitLoop_inBounds hs hb hu
  simp only at he
  split at he
  · cases he
    exact ⟨hbu.live, fun i hi => hbu.pos i (hi.trans_le hle), fun i hi => hbu.le i (hi.trans_le hle),
      hb.num⟩
  · cases he
    exact hbu

end OiAmc.ImascanRanges

import OiAmc.ImascanRanges
import Mathlib.Data.Finset.Card

namespace OiAmc.ImascanClasses

open CompareSort ListRanges ImascanSplit ImascanRanges
open SwimaLinks (maxGrpNum maxLnkNum)

variable {n i f limit : Nat} {k : PhyLink → Nat} {R : PhyLink → PhyLink → Prop} {s t : Scan}
  {sort : List PhyLink → Nat → Nat → Option (List PhyLink)}
  {differs : List PhyLink → Nat → Option (Nat → Option Bool)}

/-- The ranges of the groups are disjoint and cover the first n links. -/
structure Tiles (n : Nat) (s : Scan) : Prop where
  apart : ∀ i < s.grpNum, ∀ j < s.grpNum, i ≠ j →
    (s.grp i).index + (s.grp i).linkNum ≤ (s.grp j).index ∨
      (s.grp j).index + (s.grp j).linkNum ≤ (s.grp i).index
  cover : ∀ p < n, ∃ i < s.grpNum, (s.grp i).index ≤ p ∧ p < (s.grp i).index + (s.grp i).linkNum

theorem Tiles.cut {m : Nat} (ht : Tiles n s) (hi : i < s.grpNum) (hm : m < (s.grp i).linkNum)
    (hcut : cutGroup s i ((s.grp i).index + m) = some t) : Tiles n t := by
  obtain ⟨-, -, hn, h1, h2, h3, h4⟩ := cutGroup_eq_some hcut hi
  have hself : (t.grp i).index = (s.grp i).index ∧ (t.grp i).linkNum = m := by
    rw [h1]
    simp
  have hold : ∀ a < s.grpNum, a ≠ i → t.grp a = s.grp a := fun a ha hai => h4 a hai ha.ne
  -- every range lies in one of those before
  have horigin (a : Nat) (ha : a < t.grpNum) : ∃ b < s.grpNum, (a ≠ s.grpNum → b = a) ∧
      (a = s.grpNum → b = i) ∧ (s.grp b).index ≤ (t.grp a).index ∧
      (t.grp a).index + (t.grp a).linkNum ≤ (s.grp b).index + (s.grp b).linkNum := by
    by_cases han : a = s.grpNum
    · subst han
      refine ⟨i, hi, fun h => absurd rfl h, fun _ => rfl, ?_⟩
      omega
    · refine ⟨a, by omega, fun _ => rfl, fun h => absurd h han, ?_⟩
      by_cases hai : a = i
      · subst hai
        omega
      · rw [hold a (by omega) hai]
        omega
  constructor
  · intro a ha b hb hab
    obtain ⟨c, hc, hca, hcn, hc1, hc2⟩ := horigin a ha
    obtain ⟨d, hd, hda, hdn, hd1, hd2⟩ := horigin b hb
    by_cases hcd : c = d
    · -- only the two halves lie in the same range
      rcases Decidable.em (a = s.grpNum) with han | han
      · have hbn : b ≠ s.grpNum := fun h => hab (han.trans h.symm)
        obtain rfl : b = i := by rw [← hda hbn, ← hcd, hcn han]
        rw [han]
        omega
      · rcases Decidable.em (b = s.grpNum) with hbn | hbn
        · obtain rfl : a = i := by rw [← hca han, hcd, hdn hbn]
          rw [hbn]
          omega
        · exact absurd ((hca han).symm.trans (hcd.trans (hda hbn))) hab
    · have := ht.apart c hc d hd hcd
      omega
  · intro p hp
    obtain ⟨a, ha, hp1, hp2⟩ := ht.cover p hp
    by_cases hai : a = i
    · subst hai
      by_cases hpm : p < (s.grp a).index + m
      · exact ⟨a, by omega, by omega, by omega⟩
      · exact ⟨s.grpNum, by omega, by omega, by omega⟩
    · refine ⟨a, by omega, ?_⟩
      rw [hold a ha hai]
      exact ⟨hp1, hp2⟩

def cutAt (s : Scan) (i m : Nat) : Nat → ImaGrp :=
  Function.update (Function.update s.grp s.grpNum
    { s.grp s.grpNum with index := (s.grp i).index + m, linkNum := (s.grp i).linkNum - m })
    i { s.grp i with linkNum := m }

theorem cutGroup_cutAt {m : Nat} (hi : i < s.grpNum)
    (h : cutGroup s i ((s.grp i).index + m) = some t) : t.grp = cutAt s i m := by
  rw [cutGroup] at h
  simp only at h
  split at h
  · cases h
    have hsub : (s.grp i).linkNum + (s.grp i).index - ((s.grp i).index + m) =
        (s.grp i).linkNum - m := by omega
    simp only [cutAt, Function.update_of_ne hi.ne, Nat.add_sub_cancel_left, hsub]
  · cases h

/-- A round: the other groups keep their links, and those of group i are permuted and
stay, or are cut in two. -/
theorem splitGroup_parts {l : Nat} (hs : Splits sort differs k) (hb : InBounds n s)
    (ht : Tiles l s) (hi : i < s.grpNum) (h : splitGroup sort differs s i = some t) :
    ∃ ys, ys.Perm (s.range i) ∧ Tiles l t ∧ (range t.links 0 n).Perm (range s.links 0 n) ∧
      (∀ a < s.grpNum, a ≠ i → t.range a = s.range a) ∧
      ((t.grpNum = s.grpNum ∧ t.grp = s.grp ∧ t.range i = ys ∧ ∀ x ∈ ys, ∀ y ∈ ys, k x = k y) ∨
        ∃ m, 0 < m ∧ m < (s.grp i).linkNum ∧ s.grpNum < maxGrpNum ∧ t.grpNum = s.grpNum + 1 ∧
          t.grp = cutAt s i m ∧ t.range i = ys.take m ∧ t.range s.grpNum = ys.drop m ∧
          (∀ x ∈ ys.take m, ∀ y ∈ ys.take m, k x = k y) ∧
          ∀ x ∈ ys.take m, ∀ y ∈ ys.drop m, k x < k y) := by
  have hle := hb.le i hi
  have hlen := hb.live.le
  obtain ⟨ys, hperm, hcase⟩ := splitGroup_cases hs hb hi
  have hyl : ys.length = (s.grp i).linkNum := by
    rw [hperm.length_eq, Scan.range, range_length (by omega)]
  have hself : range (splice s.links (s.grp i).index ys) (s.grp i).index (s.grp i).linkNum = ys := by
    rw [← hyl]
    exact range_splice_self (by omega)
  have hother : ∀ a < s.grpNum, a ≠ i →
      range (splice s.links (s.grp i).index ys) (s.grp a).index (s.grp a).linkNum = s.range a := by
    intro a ha hai
    have := ht.apart a ha i hi hai
    exact range_splice_apart (by omega) (by omega)
  have hall := (hb.live.splice hle hperm).2
  have hsorted : Tiles l { s with links := splice s.links (s.grp i).index ys } :=
    ⟨ht.apart, ht.cover⟩
  refine ⟨ys, hperm, ?_⟩
  rcases hcase with ⟨he, hk⟩ | ⟨m, hm, hml, he, hk, hne⟩
  · obtain rfl := Option.some.inj (he.symm.trans h)
    exact ⟨hsorted, hall, hother, Or.inl ⟨rfl, rfl, hself, hk⟩⟩
  · have hcut := he.symm.trans h
    have hgrp : t.grp = cutAt s i m :=
      cutGroup_cutAt (s := { s with links := splice s.links (s.grp i).index ys }) hi hcut
    obtain ⟨hroom, hl, hn, h1, h2, h3, h4⟩ := cutGroup_eq_some hcut hi
    simp only at hroom hl hn h1 h2 h3 h4
    refine ⟨hsorted.cut hi hml hcut, ?_, fun a ha hai => ?_,
      Or.inr ⟨m, hm, hml, hroom, hn, hgrp, ?_, ?_, hk, hne⟩⟩
    · rw [hl]
      exact hall
    · rw [Scan.range, hl, h4 a hai ha.ne]
      exact hother a ha hai
    · rw [Scan.range, hl, h1]
      simp only [Nat.add_sub_cancel_left]
      rw [range_take hml.le, hself]
    · have hsub : (s.grp i).linkNum + (s.grp i).index - ((s.grp i).index + m) =
          (s.grp i).linkNum - m := by omega
      rw [Scan.range, hl, h2, h3, hsub, range_drop, hself]

theorem splitGroup_room (hs : Splits sort differs k) (hb : InBounds n s) (hi : i < s.grpNum)
    (hroom : s.grpNum < maxGrpNum) : ∃ t, splitGroup sort differs s i = some t := by
  obtain ⟨ys, _, ⟨he, _⟩ | ⟨m, _, _, he, _⟩⟩ := splitGroup_cases hs hb hi
  · exact ⟨_, he⟩
  · exact ⟨_, he.trans (if_pos hroom)⟩

/-- A round on a table with room for one group more: the other groups keep their
links, and the links of group i stay or are cut in two. -/
theorem splitGroup_ranges (hs : Splits sort differs k) (hb : InBounds n s) (ht : Tiles n s)
    (hi : i < s.grpNum) (hroom : s.grpNum < maxGrpNum) :
    ∃ t, splitGroup sort differs s i = some t ∧ Tiles n t ∧
      (range t.links 0 n).Perm (range s.links 0 n) ∧
      (∀ a < s.grpNum, a ≠ i → t.range a = s.range a) ∧ t.range i ⊆ s.range i ∧
      (∀ x ∈ t.range i, ∀ y ∈ t.range i, k x = k y) ∧
      (t.grpNum = s.grpNum ∨ t.grpNum = s.grpNum + 1 ∧ t.range s.grpNum ⊆ s.range i ∧
        ∀ x ∈ t.range i, ∀ y ∈ t.range s.grpNum, k x ≠ k y) := by
  obtain ⟨t, h⟩ := splitGroup_room hs hb hi hroom
  obtain ⟨ys, hperm, htiles, hall, hother, ⟨hn, _, hti, hk⟩ |
    ⟨m, _, _, _, hn, _, hti, htn, hk, hlt⟩⟩ := splitGroup_parts hs hb ht hi h
  · refine ⟨t, h, htiles, hall, hother, ?_, ?_, Or.inl hn⟩
    · rw [hti]
      exact hperm.subset
    · rw [hti]
      exact hk
  · refine ⟨t, h, htiles, hall, hother, ?_, ?_, Or.inr ⟨hn, ?_, ?_⟩⟩
    · rw [hti]
      exact fun x hx => hperm.subset (List.mem_of_mem_take hx)
    · rw [hti]
      exact hk
    · rw [htn]
      exact fun x hx => hperm.subset (List.mem_of_mem_drop hx)
    · rw [hti, htn]
      exact fun x hx y hy => (hlt x hx y hy).ne

structure Classified (n : Nat) (R : PhyLink → PhyLink → Prop) (s : Scan) : Prop where
  bounds : InBounds n s
  tiles : Tiles n s
  same : ∀ i < s.grpNum, ∀ x ∈ s.range i, ∀ y ∈ s.range i, R x y
  differ : ∀ i < s.grpNum, ∀ j < s.grpNum, i ≠ j → ∀ x ∈ s.range i, ∀ y ∈ s.range j, ¬ R x y

/-- In the middle of a pass: the groups before i have one value of k, and no two
groups have links in common of which R and k are alike. -/
structure Splitting (n : Nat) (R : PhyLink → PhyLink → Prop) (k : PhyLink → Nat) (i : Nat)
    (s : Scan) : Prop where
  bounds : InBounds n s
  tiles : Tiles n s
  same : ∀ a < s.grpNum, ∀ x ∈ s.range a, ∀ y ∈ s.range a, R x y
  differ : ∀ a < s.grpNum, ∀ b < s.grpNum, a ≠ b → ∀ x ∈ s.range a, ∀ y ∈ s.range b,
    ¬ (R x y ∧ k x = k y)
  done : ∀ a < i, a < s.grpNum → ∀ x ∈ s.range a, ∀ y ∈ s.range a, k x = k y

theorem splitGroup_splitting (hs : Splits sort differs k) (h : Splitting n R k i s)
    (hi : i < s.grpNum) (hroom : s.grpNum < maxGrpNum) :
    ∃ t, splitGroup sort differs s i = some t ∧ Splitting n R k (i + 1) t ∧
      (range t.links 0 n).Perm (range s.links 0 n) ∧ s.grpNum ≤ t.grpNum := by
  obtain ⟨t, he, ht, hperm, hother, hsub, hk, hnum⟩ :=
    splitGroup_ranges hs h.bounds h.tiles hi hroom
  obtain ⟨hb, hle⟩ := splitGroup_inBounds hs h.bounds hi he
  have horigin (a : Nat) (ha : a < t.grpNum) : ∃ b < s.grpNum, t.range a ⊆ s.range b ∧
      (a = b ∨ a = s.grpNum ∧ b = i) := by
    by_cases hai : a = i
    · subst hai
      exact ⟨a, hi, hsub, Or.inl rfl⟩
    · by_cases han : a < s.grpNum
      · exact ⟨a, han, by rw [hother a han hai]; exact List.Subset.refl _, Or.inl rfl⟩
      · rcases hnum with hnum | ⟨hnum, hnew, -⟩
        · omega
        · obtain rfl : a = s.grpNum := by omega
          exact ⟨i, hi, hnew, Or.inr ⟨rfl, rfl⟩⟩
  refine ⟨t, he, ⟨hb, ht, ?_, ?_, ?_⟩, hperm, hle⟩
  · intro a ha x hx y hy
    obtain ⟨b, hb, hab, -⟩ := horigin a ha
    exact h.same b hb x (hab hx) y (hab hy)
  · intro a ha b hb hab x hx y hy hxy
    obtain ⟨c, hc, hac, hc'⟩ := horigin a ha
    obtain ⟨d, hd, hbd, hd'⟩ := horigin b hb
    by_cases hcd : c = d
    · -- both come from group i, that was cut
      rcases hnum with hnum | ⟨hnum, -, hne⟩
      · omega
      · have hcut : a = i ∧ b = s.grpNum ∨ a = s.grpNum ∧ b = i := by omega
        rcases hcut with ⟨rfl, rfl⟩ | ⟨rfl, rfl⟩
        · exact hne x hx y hy hxy.2
        · exact hne y hy x hx hxy.2.symm
    · exact h.differ c hc d hd hcd x (hac hx) y (hbd hy) hxy
  · intro a hai ha x hx y hy
    by_cases hae : a = i
    · subst hae
      exact hk x hx y hy
    · have han : a < s.grpNum := by omega
      rw [hother a han hae] at hx hy
      exact h.done a (by omega) han x hx y hy

theorem range_nonempty (hb : InBounds n s) (hi : i < s.grpNum) : ∃ x, x ∈ s.range i := by
  have hpos := hb.pos i hi
  have hle := hb.le i hi
  have hlen := hb.live.le
  have hlt : (s.grp i).index < s.links.length := by omega
  refine ⟨s.links[(s.grp i).index], mem_range_iff.mpr ⟨_, le_refl _, by omega, ?_⟩⟩
  exact List.getElem?_eq_getElem hlt

theorem grpNum_le {κ : Type} [DecidableEq κ] {full : PhyLink → κ} (hb : InBounds n s)
    (hdiffer : ∀ a < s.grpNum, ∀ b < s.grpNum, a ≠ b → ∀ x ∈ s.range a, ∀ y ∈ s.range b,
      full x ≠ full y) : s.grpNum ≤ ((range s.links 0 n).map full).toFinset.card := by
  have hne : Nonempty PhyLink := ⟨0, 0, none⟩
  choose! rep hrep using fun a (ha : a < s.grpNum) => range_nonempty hb ha
  have hcard := Finset.card_le_card_of_injOn (s := Finset.range s.grpNum)
    (t := ((range s.links 0 n).map full).toFinset) (fun a => full (rep a)) ?_ ?_
  · rwa [Finset.card_range] at hcard
  · intro a ha
    have ha := Finset.mem_range.mp ha
    have hle := hb.le a ha
    apply List.mem_toFinset.mpr
    exact List.mem_map_of_mem (range_subset (Nat.zero_le _) (by omega) (hrep a ha))
  · intro a ha b hb' hab
    have ha := Finset.mem_range.mp ha
    have hb' := Finset.mem_range.mp hb'
    by_contra hne
    exact hdiffer a ha b hb' hne _ (hrep a ha) _ (hrep b hb') hab

section Passes

variable {κ : Type} [DecidableEq κ] {full : PhyLink → κ}

theorem Splitting.grpNum_le (h : Splitting n R k i s)
    (hfull : ∀ x y, full x = full y → R x y ∧ k x = k y) :
    s.grpNum ≤ ((range s.links 0 n).map full).toFinset.card := by
  apply ImascanClasses.grpNum_le h.bounds
  intro a ha b hb hab x hx y hy he
  exact h.differ a ha b hb hab x hx y hy (hfull x y he)

theorem splitLoop_splitting (hs : Splits sort differs k) (hlimit : maxGrpNum ≤ limit)
    (hfull : ∀ x y, full x = full y → R x y ∧ k x = k y) (h : Splitting n R k i s)
    (hcard : ((range s.links 0 n).map full).toFinset.card < maxGrpNum) (hi : i ≤ s.grpNum)
    (hf : maxGrpNum ≤ i + f) :
    ∃ t, splitLoop sort differs limit f i s = some (t, 0) ∧
      Classified n (fun x y => R x y ∧ k x = k y) t ∧
      (range t.links 0 n).Perm (range s.links 0 n) := by
  induction f generalizing i s with
  | zero =>
      have hnum := h.grpNum_le hfull
      omega
  | succ f ih =>
      have hnum := h.grpNum_le hfull
      rw [splitLoop]
      split
      · next hlt =>
          obtain ⟨t, he, ht, hperm, hle⟩ := splitGroup_splitting hs h hlt (by omega)
          have hset : ((range t.links 0 n).map full).toFinset.card < maxGrpNum := by
            rwa [List.toFinset_eq_of_perm _ _ (hperm.map full)]
          have hnum' := ht.grpNum_le hfull
          obtain ⟨u, hu, hc, hperm'⟩ := ih ht hset (by omega) (by omega)
          refine ⟨u, ?_, hc, hperm'.trans hperm⟩
          rw [he]
          simp only [Option.bind_eq_bind, Option.bind_some]
          rw [if_neg (by omega)]
          exact hu
      · next hge =>
          refine ⟨s, rfl, ⟨h.bounds, h.tiles, fun a ha x hx y hy => ?_, h.differ⟩, List.Perm.refl _⟩
          exact ⟨h.same a ha x hx y hy, h.done a (by omega) ha x hx y hy⟩

theorem splitAll_classified (hs : Splits sort differs k) (hlimit : maxGrpNum ≤ limit)
    (hfull : ∀ x y, full x = full y → R x y ∧ k x = k y) (h : Classified n R s)
    (hcard : ((range s.links 0 n).map full).toFinset.card < maxGrpNum) :
    ∃ t, splitAll sort differs limit s = some (t, 0) ∧
      Classified n (fun x y => R x y ∧ k x = k y) t ∧
      (range t.links 0 n).Perm (range s.links 0 n) := by
  have hstart : Splitting n R k 0 s := ⟨h.bounds, h.tiles, h.same,
    fun a ha b hb hab x hx y hy hxy => h.differ a ha b hb hab x hx y hy hxy.1,
    fun a ha => absurd ha (Nat.not_lt_zero a)⟩
  obtain ⟨t, ht, hc, hperm⟩ := @splitLoop_splitting _ _ (maxGrpNum + 2) _ _ _ _ _ _ _ _ _ hs hlimit
    hfull hstart hcard (Nat.zero_le _) (by omega)
  refine ⟨t, ?_, hc, hperm⟩
  rw [splitAll, ht]
  rfl

end Passes

end OiAmc.ImascanClasses

import OiAmc.ImascanKeys
import Mathlib.Algebra.BigOperators.Intervals
import Mathlib.Algebra.Order.BigOperators.Group.Finset

namespace OiAmc.ImascanLimit

open CompareSort ListRanges ImascanSplit ImascanRanges ImascanClasses ImascanKeys
open SwimaLinks (maxGrpNum maxLnkNum)

variable {qs : Qsort} {links xs ys : List PhyLink} {n m i f limit : Nat} {k : PhyLink → Nat} {s t u : Scan}
  {sort : List PhyLink → Nat → Nat → Option (List PhyLink)}
  {differs : List PhyLink → Nat → Option (Nat → Option Bool)}

def Alike (k : PhyLink → Nat) (xs : List PhyLink) : Prop := ∀ x ∈ xs, ∀ y ∈ xs, k x = k y

def distinct (k : PhyLink → Nat) (xs : List PhyLink) : Nat := (xs.map k).toFinset.card

/-- The number of groups when each of them is split by k. -/
def classes (k : PhyLink → Nat) (s : Scan) : Nat := ∑ a ∈ Finset.range s.grpNum, distinct k (s.range a)

theorem distinct_perm (h : xs.Perm ys) : distinct k xs = distinct k ys := by
  rw [distinct, distinct, List.toFinset_eq_of_perm _ _ (h.map k)]

theorem distinct_pos (h : xs ≠ []) : 0 < distinct k xs := by
  obtain ⟨x, hx⟩ := List.exists_mem_of_ne_nil _ h
  exact Finset.card_pos.mpr ⟨k x, List.mem_toFinset.mpr (List.mem_map_of_mem hx)⟩

theorem distinct_alike (h : xs ≠ []) (ha : Alike k xs) : distinct k xs = 1 := by
  obtain ⟨x, hx⟩ := List.exists_mem_of_ne_nil _ h
  refine Finset.card_eq_one.mpr ⟨k x, Finset.ext fun v => ?_⟩
  rw [List.mem_toFinset, List.mem_map, Finset.mem_singleton]
  constructor
  · rintro ⟨y, hy, rfl⟩
    exact ha y hy x hx
  · rintro rfl
    exact ⟨x, hx, rfl⟩

theorem distinct_cut (h : ∀ x ∈ ys.take m, ∀ y ∈ ys.drop m, k x < k y) :
    distinct k ys = distinct k (ys.take m) + distinct k (ys.drop m) := by
  have hdisjoint : Disjoint ((ys.take m).map k).toFinset ((ys.drop m).map k).toFinset := by
    rw [Finset.disjoint_left]
    intro v hx hy
    obtain ⟨x, hx', rfl⟩ := List.mem_map.mp (List.mem_toFinset.mp hx)
    obtain ⟨y, hy', hxy⟩ := List.mem_map.mp (List.mem_toFinset.mp hy)
    exact (h x hx' y hy').ne hxy.symm
  rw [distinct, distinct, distinct, ← Finset.card_union_of_disjoint hdisjoint, ← List.toFinset_append,
    ← List.map_append, List.take_append_drop]

theorem range_ne_nil (hb : InBounds n s) (hi : i < s.grpNum) : s.range i ≠ [] := by
  obtain ⟨x, hx⟩ := range_nonempty hb hi
  exact List.ne_nil_of_mem hx

theorem grpNum_le_classes (hb : InBounds n s) : s.grpNum ≤ classes k s := by
  calc s.grpNum = ∑ _ ∈ Finset.range s.grpNum, 1 := by simp
    _ ≤ classes k s := Finset.sum_le_sum fun a ha =>
        distinct_pos (range_ne_nil hb (Finset.mem_range.mp ha))

theorem grpNum_lt_classes (hb : InBounds n s) (hi : i < s.grpNum) (htwo : 1 < distinct k (s.range i)) :
    s.grpNum < classes k s := by
  calc s.grpNum = ∑ _ ∈ Finset.range s.grpNum, 1 := by simp
    _ < classes k s := Finset.sum_lt_sum
        (fun a ha => distinct_pos (range_ne_nil hb (Finset.mem_range.mp ha)))
        ⟨i, Finset.mem_range.mpr hi, htwo⟩

theorem classes_alike (hb : InBounds n s) (ha : ∀ a < s.grpNum, Alike k (s.range a)) :
    classes k s = s.grpNum := by
  calc classes k s = ∑ _ ∈ Finset.range s.grpNum, 1 := Finset.sum_congr rfl fun a h =>
        distinct_alike (range_ne_nil hb (Finset.mem_range.mp h)) (ha a (Finset.mem_range.mp h))
    _ = s.grpNum := by simp

theorem splitGroup_classes (hs : Splits sort differs k) (hb : InBounds n s) (ht : Tiles n s)
    (hi : i < s.grpNum) (h : splitGroup sort differs s i = some t) :
    classes k t = classes k s ∧ Tiles n t ∧ Alike k (t.range i) ∧
      ∀ a < s.grpNum, a ≠ i → t.range a = s.range a := by
  obtain ⟨ys, hperm, htiles, -, hother, hcase⟩ := splitGroup_parts hs hb ht hi h
  have hmem : i ∈ Finset.range s.grpNum := Finset.mem_range.mpr hi
  have hrest : ∑ a ∈ (Finset.range s.grpNum).erase i, distinct k (t.range a) =
      ∑ a ∈ (Finset.range s.grpNum).erase i, distinct k (s.range a) := by
    refine Finset.sum_congr rfl fun a ha => ?_
    obtain ⟨hai, ha⟩ := Finset.mem_erase.mp ha
    rw [hother a (Finset.mem_range.mp ha) hai]
  rcases hcase with ⟨hnum, -, hti, hk⟩ | ⟨m, -, -, -, hnum, -, hti, htn, hk, hlt⟩
  · refine ⟨?_, htiles, hti ▸ hk, hother⟩
    rw [classes, classes, hnum, ← Finset.sum_erase_add _ _ hmem, hrest, hti, distinct_perm hperm,
      Finset.sum_erase_add _ _ hmem]
  · refine ⟨?_, htiles, hti ▸ hk, hother⟩
    rw [classes, classes, hnum, Finset.sum_range_succ, ← Finset.sum_erase_add _ _ hmem, hrest, hti, htn,
      Nat.add_assoc, ← distinct_cut hlt, distinct_perm hperm, Finset.sum_erase_add _ _ hmem]

def Done (k : PhyLink → Nat) (i : Nat) (s : Scan) : Prop := ∀ a < i, a < s.grpNum → Alike k (s.range a)

theorem Done.step (hd : Done k i s) (hi : i < s.grpNum) (hlast : Alike k (t.range i))
    (hother : ∀ a < s.grpNum, a ≠ i → t.range a = s.range a) : Done k (i + 1) t := by
  intro a ha _
  by_cases hai : a = i
  · subst hai
    exact hlast
  · have hbefore : a < i := by omega
    rw [hother a (hbefore.trans hi) hai]
    exact hd a hbefore (hbefore.trans hi)

theorem splitGroup_defined (hs : Splits sort differs k) (hb : InBounds n s) (hi : i < s.grpNum)
    (hroom : classes k s ≤ maxGrpNum) : ∃ t, splitGroup sort differs s i = some t := by
  obtain ⟨ys, hperm, ⟨he, -⟩ | ⟨m, hm, hml, he, hk, hlt⟩⟩ := splitGroup_cases hs hb hi
  · exact ⟨_, he⟩
  · have hle := hb.le i hi
    have hlen := hb.live.le
    have hyl : ys.length = (s.grp i).linkNum := by
      rw [hperm.length_eq, Scan.range, range_length (by omega)]
    have hhead : ys.take m ≠ [] := List.ne_nil_of_length_pos (by rw [List.length_take]; omega)
    have htail : ys.drop m ≠ [] := List.ne_nil_of_length_pos (by rw [List.length_drop]; omega)
    have htwo : 1 < distinct k (s.range i) := by
      have h1 : 0 < distinct k (ys.take m) := distinct_pos hhead
      have h2 : 0 < distinct k (ys.drop m) := distinct_pos htail
      rw [← distinct_perm hperm, distinct_cut hlt]
      omega
    have hnum := grpNum_lt_classes hb hi htwo
    exact ⟨_, he.trans (if_pos (by change s.grpNum < maxGrpNum; omega))⟩

theorem splitLoop_fits (hs : Splits sort differs k) (hb : InBounds n s) (ht : Tiles n s) (hd : Done k i s)
    (hc : classes k s < limit) (hlimit : limit ≤ maxGrpNum + 1) (hi : i ≤ s.grpNum)
    (hf : maxGrpNum < i + f) : ∃ t, splitLoop sort differs limit f i s = some (t, 0) ∧ Tiles n t := by
  induction f generalizing i s with
  | zero =>
      have hnum := hb.num
      omega
  | succ f ih =>
      rw [splitLoop]
      split
      · next hlt =>
          obtain ⟨t, he⟩ := splitGroup_defined hs hb hlt (by omega)
          obtain ⟨hclasses, htiles, hlast, hother⟩ := splitGroup_classes hs hb ht hlt he
          obtain ⟨hbt, hle⟩ := splitGroup_inBounds hs hb hlt he
          have hnum := @grpNum_le_classes _ k _ hbt
          obtain ⟨u, hu, htu⟩ := ih hbt htiles (hd.step hlt hlast hother) (by omega) (by omega) (by omega)
          refine ⟨u, ?_, htu⟩
          rw [he]
          simp only [Option.bind_eq_bind, Option.bind_some]
          rw [if_neg (by omega)]
          exact hu
      · exact ⟨s, rfl, ht⟩

theorem splitLoop_overruns (hs : Splits sort differs k) (hb : InBounds n s) (ht : Tiles n s) (hd : Done k i s)
    (hc : limit ≤ classes k s) (hnum : s.grpNum < limit) {rc : Int}
    (h : splitLoop sort differs limit f i s = some (u, rc)) : rc = -1 ∧ limit ≤ u.grpNum ∧ Tiles n u := by
  induction f generalizing i s with
  | zero => cases h
  | succ f ih =>
      rw [splitLoop] at h
      split at h
      · next hlt =>
          obtain ⟨t, he, h⟩ := Option.bind_eq_some_iff.mp h
          obtain ⟨hclasses, htiles, hlast, hother⟩ := splitGroup_classes hs hb ht hlt he
          split at h
          · next hover =>
              cases h
              exact ⟨rfl, hover, htiles⟩
          · next hunder =>
              exact ih (splitGroup_inBounds hs hb hlt he).1 htiles (hd.step hlt hlast hother) (by omega)
                (by omega) h
      · next hge =>
          have hall := classes_alike hb fun a ha => hd a (by omega) ha
          omega

theorem Tiles.not_fewer (hb : InBounds n u) (ht : Tiles n u) (hm : m < u.grpNum) :
    ¬Tiles n { u with grpNum := m } := by
  intro hfewer
  have hpos := hb.pos m hm
  have hle := hb.le m hm
  obtain ⟨a, ha, hlow, hhigh⟩ := hfewer.cover (u.grp m).index (by omega)
  change a < m at ha
  simp only at hlow hhigh
  have hapart := ht.apart a (by omega) m hm (by omega)
  omega

structure Grouped (links : List PhyLink) (s : Scan) : Prop where
  covers : Covers links s
  num : s.grpNum ≤ maxGrpNum

theorem Grouped.inBounds (h : Grouped links s) : InBounds (icpLinks links).length s where
  live := by
    have hlength := h.covers.perm.length_eq
    rw [ListRanges.range, List.length_take, List.drop_zero] at hlength
    refine ⟨by omega, fun x hx => ?_⟩
    exact Option.isSome_iff_ne_none.mp (List.mem_filter.mp (h.covers.perm.subset hx)).2
  pos := fun i hi => (h.covers.inside i hi).1
  le := fun i hi => (h.covers.inside i hi).2
  num := h.num

/-- A pass writes no group outside of the array, and where it fails, the groups that it leaves
behind cover the links as before. -/
def Kept (links : List PhyLink) (r : Option (Scan × Int)) : Prop :=
  ∃ t rc, r = some (t, rc) ∧ (rc = -1 → Covers links t)

/-- There is room for all classes, or, where the array is full at once, the first group has one. -/
def Fits (limit : Nat) (k : PhyLink → Nat) (s : Scan) : Prop :=
  if s.grpNum < limit then classes k s < limit else Alike k (s.range 0)

theorem splitAll_full (hs : Splits sort differs k) (h : Grouped links s) (hfull : s.grpNum = maxGrpNum) :
    Kept links (splitAll sort differs maxGrpNum s) ↔ Alike k (s.range 0) := by
  have hb := h.inBounds
  have hi : 0 < s.grpNum := by rw [hfull]; decide
  have hstart : splitLoop sort differs maxGrpNum (maxGrpNum + 2) 0 s =
      (splitGroup sort differs s 0).bind fun s' => if maxGrpNum ≤ s'.grpNum then some (s', -1)
        else splitLoop sort differs maxGrpNum (maxGrpNum + 1) 1 s' := by
    rw [splitLoop, if_pos hi]
    rfl
  obtain ⟨ys, hperm, hcase⟩ := splitGroup_cases hs hb hi
  have hle := hb.le 0 hi
  rcases hcase with ⟨he, hk⟩ | ⟨m, hm, hml, he, -, hlt⟩
  · have halike : Alike k (s.range 0) := fun x hx y hy =>
      hk x (hperm.symm.subset hx) y (hperm.symm.subset hy)
    refine iff_of_true ⟨{ s with links := splice s.links (s.grp 0).index ys }, -1, ?_, fun _ => ?_⟩ halike
    · rw [splitAll, hstart, he, Option.bind_some, if_pos (le_of_eq hfull.symm)]
      rfl
    · exact ⟨h.covers.inside, ⟨h.covers.tiles.apart, h.covers.tiles.cover⟩,
        (hb.live.splice hle hperm).2.trans h.covers.perm⟩
  · refine iff_of_false ?_ fun halike => ?_
    · rintro ⟨t, rc, ht, -⟩
      rw [splitAll, hstart, he, cutGroup] at ht
      simp only [hfull, Nat.lt_irrefl, if_false] at ht
      cases ht
    · have hlen := hb.live.le
      have hyl : ys.length = (s.grp 0).linkNum := by
        rw [hperm.length_eq, Scan.range, range_length (by omega)]
      have hhead : 0 < (ys.take m).length := by rw [List.length_take]; omega
      have htail : 0 < (ys.drop m).length := by rw [List.length_drop]; omega
      have hx := List.getElem_mem hhead
      have hy := List.getElem_mem htail
      have hless := hlt _ hx _ hy
      rw [halike _ (hperm.subset (List.mem_of_mem_take hx)) _ (hperm.subset (List.mem_of_mem_drop hy))] at hless
      exact Nat.lt_irrefl _ hless

theorem splitAll_kept_iff (hs : Splits sort differs k) (hlimit : limit = maxGrpNum ∨ limit = maxGrpNum + 1)
    (h : Grouped links s) : Kept links (splitAll sort differs limit s) ↔ Fits limit k s := by
  have hb := h.inBounds
  have hd : Done k 0 s := fun a ha => absurd ha (Nat.not_lt_zero a)
  have hnum := h.num
  rw [Fits]
  split_ifs with hroom
  · constructor
    · rintro ⟨t, rc, ht, hkept⟩
      by_contra hc
      obtain ⟨⟨u, rc'⟩, hu, he⟩ := Option.map_eq_some_iff.mp ht
      obtain ⟨rfl, hover, htiles⟩ := splitLoop_overruns hs hb h.covers.tiles hd (not_lt.mp hc) hroom hu
      rw [if_pos (by change (-1 : Int) < 0; decide)] at he
      obtain ⟨rfl, rfl⟩ := Prod.mk.inj he
      have hbu := (splitLoop_inBounds hs hb hu).1
      exact Tiles.not_fewer hbu htiles (by omega) (hkept rfl).tiles
    · intro hc
      obtain ⟨t, ht, -⟩ := @splitLoop_fits _ _ (maxGrpNum + 2) _ _ _ _ _ hs hb h.covers.tiles hd hc
        (by omega) (Nat.zero_le _) (by omega)
      refine ⟨t, 0, ?_, fun h0 => absurd h0 (by decide)⟩
      rw [splitAll, ht]
      rfl
  · have hfull : s.grpNum = maxGrpNum := by omega
    obtain rfl : limit = maxGrpNum := by omega
    exact splitAll_full hs h hfull

/-- The nine passes, by the field that they split for. -/
inductive Split
  | imaVer
  | imaId
  | statusCtrlInd
  | grpStatusCtrl
  | txTimingInfo
  | txTestCtrl
  | txTestPattern
  | rxTestPattern
  | linkStatusCtrl

def Split.run (qs : Qsort) : Split → Scan → Option (Scan × Int)
  | imaVer => splitForImaVer qs
  | imaId => splitForImaId qs
  | statusCtrlInd => splitForStatusCtrlInd qs
  | grpStatusCtrl => splitForGrpStatusCtrl qs
  | txTimingInfo => splitForTxTimingInfo qs
  | txTestCtrl => splitForTxTestCtrl qs
  | txTestPattern => splitForTxTestPattern qs
  | rxTestPattern => splitForRxTestPattern qs
  | linkStatusCtrl => splitForLinkStatusCtrl qs

/-- The value that a pass tells links apart by. That for the 32 octets compares a cell with itself. -/
def Split.val : Split → PhyLink → Nat
  | imaVer => icpVal Icp.ver
  | imaId => icpVal Icp.imaId
  | statusCtrlInd => icpVal Icp.statusCtrlInd
  | grpStatusCtrl => icpVal Icp.grpStatusCtrl
  | txTimingInfo => icpVal Icp.txTimingInfo
  | txTestCtrl => icpVal Icp.txTestCtrl
  | txTestPattern => icpVal Icp.txTestPattern
  | rxTestPattern => icpVal Icp.rxTestPattern
  | linkStatusCtrl => fun _ => 0

def Split.givesUp : Split → Nat
  | imaVer => maxGrpNum + 1
  | _ => maxGrpNum

/-- The table that the loop over the groups starts from. -/
def Split.entry (qs : Qsort) : Split → Scan → Scan
  | imaVer, s => { s with links := qs.sort sortLinkForImaVer s.links }
  | _, s => s

theorem Split.run_eq (qs : Qsort) (p : Split) (hsize : s.links.length = maxLnkNum) :
    ∃ sort differs, Splits sort differs p.val ∧ p.run qs s = splitAll sort differs p.givesUp (p.entry qs s) := by
  cases p with
  | imaVer =>
      refine ⟨_, _, splits_ver qs, ?_⟩
      rw [Split.run, splitForImaVer, verSort_eq qs hsize]
      rfl
  | imaId => exact ⟨_, _, splits_field qs _, rfl⟩
  | statusCtrlInd => exact ⟨_, _, splits_field qs _, rfl⟩
  | grpStatusCtrl => exact ⟨_, _, splits_field qs _, rfl⟩
  | txTimingInfo => exact ⟨_, _, splits_field qs _, rfl⟩
  | txTestCtrl => exact ⟨_, _, splits_field qs _, rfl⟩
  | txTestPattern => exact ⟨_, _, splits_field qs _, rfl⟩
  | rxTestPattern => exact ⟨_, _, splits_field qs _, rfl⟩
  | linkStatusCtrl => exact ⟨_, _, splits_status qs, rfl⟩

/-- A pass that fails keeps the links covered, and no pass writes past the groups, just where
there is room for all classes, or the array is full and the first group has one value. -/
theorem splits_kept_iff (qs : Qsort) (p : Split) (s : Scan) (hsize : s.links.length = maxLnkNum)
    (h : Grouped s.links (p.entry qs s)) :
    Kept s.links (p.run qs s) ↔ Fits p.givesUp p.val (p.entry qs s) := by
  obtain ⟨sort, differs, hs, hrun⟩ := p.run_eq qs hsize
  have hlimit : p.givesUp = maxGrpNum ∨ p.givesUp = maxGrpNum + 1 := by
    cases p
    all_goals decide
  rw [hrun]
  exact splitAll_kept_iff hs hlimit h

/-- Links with IMA ids from 0 on, in one group. -/
def idLinks (n : Nat) : Scan :=
  scanStart (tableOf ((List.range n).map fun i => icpOf (.ofNat i) 0 0)).links

theorem idLinks_grouped {n : Nat} (hpos : 0 < n) (hnum : icpLinkNum (idLinks n).links = n)
    (hfront : ListRanges.range (idLinks n).links 0 n = icpLinks (idLinks n).links) :
    Grouped (idLinks n).links (idLinks n) := by
  have hsize : (idLinks n).links.length = maxLnkNum := (tableOf _).size
  have hcount : (icpLinks (idLinks n).links).length = n := (icpLinkNum_eq hsize).symm.trans hnum
  have hgrp : (idLinks n).grp 0 = ⟨0, n, 0⟩ := congrArg (ImaGrp.mk 0 · 0) hnum
  have hone : (idLinks n).grpNum = 1 := rfl
  refine ⟨⟨fun i hi => ?_, ⟨fun i hi j hj hij => ?_, fun p hp => ⟨0, Nat.one_pos, ?_⟩⟩, ?_⟩, ?_⟩
  · obtain rfl : i = 0 := by omega
    rw [hgrp, hcount]
    exact ⟨hpos, by simp⟩
  · omega
  · rw [hgrp]
    exact ⟨Nat.zero_le p, by simpa [hcount] using hp⟩
  · rw [hcount, hfront]
  · rw [hone]
    decide

theorem splits_kept_two : Kept (idLinks 2).links (Split.imaId.run insertionQsort (idLinks 2)) ↔
    Fits maxGrpNum (icpVal Icp.imaId) (idLinks 2) :=
  splits_kept_iff insertionQsort .imaId (idLinks 2) (by decide +kernel)
    (idLinks_grouped (by decide) (by decide +kernel) (by decide +kernel))

/-- With 128 ids on 128 links the pass for the ids fails, and one link is left in its group. -/
theorem ids_lost : ¬∀ (qs : Qsort) (p : Split) (s : Scan), s.links.length = maxLnkNum →
    Grouped s.links (p.entry qs s) → Kept s.links (p.run qs s) := by
  intro h
  have hgrouped : Grouped (idLinks 128).links (idLinks 128) :=
    idLinks_grouped (by decide) (by decide +kernel) (by decide +kernel)
  have hfits : Fits maxGrpNum (icpVal Icp.imaId) (idLinks 128) :=
    (splitAll_kept_iff (splits_field insertionQsort Icp.imaId) (.inl rfl) hgrouped).mp
      (h insertionQsort .imaId (idLinks 128) (by decide +kernel) hgrouped)
  rw [Fits, if_pos (by decide)] at hfits
  revert hfits
  decide +kernel

end OiAmc.ImascanLimit

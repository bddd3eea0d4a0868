import OiAmc.ImascanProc
import OiAmc.ImascanShift

namespace OiAmc.ImascanAccept

open PartialLists CompareSort ListRanges ImascanSplit ImascanRanges ImascanClasses ImascanKeys
  ImascanCfg ImascanShift
open SwimaLinks (maxLnkNum)

variable {n i m : Nat} {g g' s s' t : Scan} {qs : Qsort} {xs ys : List PhyLink}

def ifsnOf : PhyLink → Nat := icpVal Icp.ifsn

/-- The distance on the circle of 256 frame numbers. -/
def ifsnDist (a b : Nat) : Nat := min ((a + 256 - b) % 256) ((b + 256 - a) % 256)

def Near (xs : List PhyLink) : Prop := ∀ x ∈ xs, ∀ y ∈ xs, ifsnDist (ifsnOf x) (ifsnOf y) ≤ 1

/-- Some of the links are in the last frame of the cycle, and all others in the first of
the next one. -/
def Wraps (xs : List PhyLink) : Prop :=
  (∃ x ∈ xs, ifsnOf x = 255) ∧ (∃ x ∈ xs, ifsnOf x = 0) ∧ ∀ x ∈ xs, ifsnOf x = 255 ∨ ifsnOf x = 0

def Close (xs : List PhyLink) : Prop := ∀ x ∈ xs, ∀ y ∈ xs, ifsnOf x ≤ ifsnOf y + 1

theorem ifsnOf_lt (x : PhyLink) : ifsnOf x < 256 := by
  unfold ifsnOf icpVal
  split
  · exact UInt8.toNat_lt _
  · exact Nat.zero_lt_succ 255

theorem close_iff : Close xs ↔ Near xs ∧ ¬ Wraps xs := by
  constructor
  · intro h
    refine ⟨fun x hx y hy => ?_, ?_⟩
    · have hxy := h x hx y hy
      have hyx := h y hy x hx
      have hlx := ifsnOf_lt x
      have hly := ifsnOf_lt y
      unfold ifsnDist
      omega
    · rintro ⟨⟨x, hx, hx'⟩, ⟨y, hy, hy'⟩, _⟩
      have hxy := h x hx y hy
      omega
  · rintro ⟨hnear, hwraps⟩ x hx y hy
    by_contra hfar
    have hdist := hnear x hx y hy
    have hlx := ifsnOf_lt x
    have hly := ifsnOf_lt y
    unfold ifsnDist at hdist
    have hx' : ifsnOf x = 255 := by omega
    have hy' : ifsnOf y = 0 := by omega
    refine hwraps ⟨⟨x, hx, hx'⟩, ⟨y, hy, hy'⟩, fun z hz => ?_⟩
    have hzx := hnear z hz x hx
    have hzy := hnear z hz y hy
    have hlz := ifsnOf_lt z
    unfold ifsnDist at hzx hzy
    omega

theorem Close.perm (h : xs.Perm ys) : Close xs ↔ Close ys := by
  simp only [Close, h.mem_iff]

theorem Near.perm (h : xs.Perm ys) : Near xs ↔ Near ys := by
  simp only [Near, h.mem_iff]

theorem close_iff_ends {x y : PhyLink} (hord : xs.Pairwise fun x y => ifsnOf x ≤ ifsnOf y)
    (hx : xs[0]? = some x) (hy : xs[xs.length - 1]? = some y) :
    Close xs ↔ ifsnOf y - ifsnOf x ≤ 1 := by
  obtain ⟨h0, rfl⟩ := List.getElem?_eq_some_iff.mp hx
  obtain ⟨h1, rfl⟩ := List.getElem?_eq_some_iff.mp hy
  have hle (i j : Nat) (hi : i < xs.length) (hj : j < xs.length) (hij : i ≤ j) :
      ifsnOf xs[i] ≤ ifsnOf xs[j] := by
    rcases Nat.lt_or_eq_of_le hij with hij | rfl
    · exact List.pairwise_iff_getElem.mp hord i j hi hj hij
    · exact le_refl _
  constructor
  · intro h
    have hends := h _ (List.getElem_mem h1) _ (List.getElem_mem h0)
    omega
  · intro h x hx y hy
    obtain ⟨i, hi, rfl⟩ := List.mem_iff_getElem.mp hx
    obtain ⟨j, hj, rfl⟩ := List.mem_iff_getElem.mp hy
    have hfirst := hle 0 j h0 hj (Nat.zero_le j)
    have hlast := hle i (xs.length - 1) hi h1 (by omega)
    omega

structure Sorted (P : List PhyLink → Prop) (n m : Nat) (s t : Scan) : Prop where
  bounds : InBounds n t
  num : t.grpNum = s.grpNum
  grp : t.grp = s.grp
  perm : ∀ i < s.grpNum, (t.range i).Perm (s.range i)
  done : ∀ i < m, P (t.range i)

theorem Sorted.step {P : List PhyLink → Prop} {m : Nat} {u : Scan} {ys : List PhyLink}
    (h : Sorted P n m s u) (ht : Tiles 0 s) (hm : m < s.grpNum) (hperm : ys.Perm (u.range m))
    (hP : P ys) :
    Sorted P n (m + 1) s { u with links := splice u.links (u.grp m).index ys } := by
  have hle := h.bounds.le m (h.num.symm ▸ hm)
  have hlen := h.bounds.live.le
  have hyl : ys.length = (u.grp m).linkNum := by
    rw [hperm.length_eq]
    exact range_length (by omega)
  have hself : range (splice u.links (u.grp m).index ys) (u.grp m).index (u.grp m).linkNum = ys := by
    rw [← hyl]
    exact range_splice_self (by omega)
  have hother : ∀ a < s.grpNum, a ≠ m →
      range (splice u.links (u.grp m).index ys) (u.grp a).index (u.grp a).linkNum = u.range a := by
    intro a ha ham
    have hapart := ht.apart a ha m hm ham
    rw [← h.grp] at hapart
    exact range_splice_apart (by omega) (by omega)
  refine ⟨⟨(h.bounds.live.splice hle hperm).1, h.bounds.pos, h.bounds.le, h.bounds.num⟩, h.num,
    h.grp, fun a ha => ?_, fun a ha => ?_⟩
  · by_cases ham : a = m
    · subst ham
      have hrange := hperm.trans (h.perm a ha)
      rw [← hself] at hrange
      exact hrange
    · have hrange := h.perm a ha
      rw [← hother a ha ham] at hrange
      exact hrange
  · by_cases ham : a = m
    · subst ham
      rw [← hself] at hP
      exact hP
    · have hrange := h.done a (by omega)
      rw [← hother a (by omega) ham] at hrange
      exact hrange

theorem sortEach_sorted {sort : List PhyLink → Nat → Nat → Option (List PhyLink)}
    {P : List PhyLink → Prop}
    (hsort : ∀ links a n, a + n ≤ links.length → (∀ x ∈ range links a n, x.pIcp ≠ none) →
      ∃ ys, sort links a n = some (splice links a ys) ∧ ys.Perm (range links a n) ∧ P ys)
    (hb : InBounds n s) (ht : Tiles 0 s) :
    ∃ t, sortEach sort s = some t ∧ Sorted P n s.grpNum s t := by
  have hprefix : ∀ m ≤ s.grpNum, ∃ t, (List.range m).foldlM (fun s i =>
      (sort s.links (s.grp i).index (s.grp i).linkNum).map fun links =>
        { s with links := links }) s = some t ∧ Sorted P n m s t := by
    intro m hm
    induction m with
    | zero => exact ⟨s, rfl, hb, rfl, rfl, fun _ _ => List.Perm.refl _,
        fun i hi => absurd hi (Nat.not_lt_zero i)⟩
    | succ m ih =>
        obtain ⟨u, hu, hsorted⟩ := ih (by omega)
        have hmu : m < u.grpNum := hsorted.num.symm ▸ hm
        have hle := hsorted.bounds.le m hmu
        have hlen := hsorted.bounds.live.le
        obtain ⟨ys, hys, hperm, hP⟩ := hsort u.links (u.grp m).index (u.grp m).linkNum (by omega)
          (hsorted.bounds.range_live hmu)
        refine ⟨_, ?_, hsorted.step ht hm hperm hP⟩
        rw [foldlM_range_succ, hu, Option.bind_some, hys]
        rfl
  obtain ⟨t, ht, hsorted⟩ := hprefix s.grpNum (le_refl _)
  exact ⟨t, ht, hsorted⟩

theorem last_index {a k : Nat} (h : a + k ≤ 256) (hk : 0 < k) :
    (a + k + 4294967295) % 4294967296 = a + (k - 1) := by
  omega

theorem unsigned_sub {a b : Nat} (hb : b < 256) (hab : a ≤ b) :
    (b + 4294967296 - a) % 4294967296 = b - a := by
  omega

theorem verifyGroup_eq (s : Scan) (i : Nat) : verifyGroup s i =
    (icpAt s.links (s.grp i).index).bind fun tmpVal1 =>
      (icpAt s.links (((s.grp i).index + (s.grp i).linkNum + 4294967295) % 4294967296)).bind
        fun tmpVal2 =>
          if (tmpVal2.ifsn.toNat + 4294967296 - tmpVal1.ifsn.toNat) % 4294967296 ≤ 1 then
            some { s with grp := Function.update s.grp i { s.grp i with ok := 1 } }
          else some s := by
  rw [verifyGroup]
  rfl

/-- What verifyGroup makes of a group whose links are in the order of their frame
numbers. -/
theorem verifyGroup_spec (hb : InBounds n s) (hn : n ≤ maxLnkNum) (hi : i < s.grpNum)
    (hord : (s.range i).Pairwise fun x y => ifsnOf x ≤ ifsnOf y) :
    ∃ ok, verifyGroup s i =
        some { s with grp := Function.update s.grp i { s.grp i with ok := ok } } ∧
      (Close (s.range i) ∧ ok = 1 ∨ ¬ Close (s.range i) ∧ ok = (s.grp i).ok) := by
  have hpos := hb.pos i hi
  have hle := hb.le i hi
  have hlen := hb.live.le
  have hrl := range_len hb hi
  have hget (p : Nat) (hp : p < (s.grp i).linkNum) : ∃ x icp, (s.range i)[p]? = some x ∧
      icpAt s.links ((s.grp i).index + p) = some icp ∧ ifsnOf x = icp.ifsn.toNat := by
    obtain ⟨x, hx⟩ : ∃ x, (s.range i)[p]? = some x := ⟨_, List.getElem?_eq_getElem (by omega)⟩
    obtain ⟨icp, hicp⟩ := Option.ne_none_iff_exists'.mp (hb.range_live hi x (List.mem_of_getElem? hx))
    have hlink := hx
    rw [Scan.range, range_getElem?, if_pos hp] at hlink
    refine ⟨x, icp, hx, ?_, ?_⟩
    · rw [icpAt, hlink, Option.bind_some, hicp]
    · simp only [ifsnOf, icpVal, hicp]
  obtain ⟨x, icp1, hx, h1, hv1⟩ := hget 0 hpos
  obtain ⟨y, icp2, hy, h2, hv2⟩ := hget ((s.grp i).linkNum - 1) (by omega)
  rw [← hrl] at hy
  have hclose := close_iff_ends hord hx hy
  have hlx := ifsnOf_lt x
  have hly := ifsnOf_lt y
  have hxy : ifsnOf x ≤ ifsnOf y := by
    obtain ⟨h0, rfl⟩ := List.getElem?_eq_some_iff.mp hx
    obtain ⟨h1, rfl⟩ := List.getElem?_eq_some_iff.mp hy
    rcases Nat.eq_zero_or_pos ((s.range i).length - 1) with hz | hz
    · simp only [hz, le_refl]
    · exact List.pairwise_iff_getElem.mp hord 0 _ h0 h1 hz
  have hlast : ((s.grp i).index + (s.grp i).linkNum + 4294967295) % 4294967296 =
      (s.grp i).index + ((s.grp i).linkNum - 1) := last_index (hle.trans hn) hpos
  rw [Nat.add_zero] at h1
  rw [hv1, hv2] at hclose hxy
  rw [hv1] at hlx
  rw [hv2] at hly
  rw [verifyGroup_eq, h1, Option.bind_some, hlast, h2, Option.bind_some, unsigned_sub hly hxy]
  by_cases hdiff : icp2.ifsn.toNat - icp1.ifsn.toNat ≤ 1
  · exact ⟨1, if_pos hdiff, Or.inl ⟨hclose.mpr hdiff, rfl⟩⟩
  · refine ⟨(s.grp i).ok, ?_, Or.inr ⟨fun h => hdiff (hclose.mp h), rfl⟩⟩
    rw [if_neg hdiff, Function.update_eq_self]

structure Verified (m : Nat) (s t : Scan) : Prop where
  links : t.links = s.links
  num : t.grpNum = s.grpNum
  place : ∀ i, (t.grp i).index = (s.grp i).index ∧ (t.grp i).linkNum = (s.grp i).linkNum
  done : ∀ i < m, (t.grp i).ok = 1 ∧ Close (s.range i) ∨ (t.grp i).ok = 0 ∧ ¬ Close (s.range i)
  rest : ∀ i, m ≤ i → (t.grp i).ok = 0

theorem Verified.range (h : Verified m s t) (i : Nat) : t.range i = s.range i := by
  rw [Scan.range, Scan.range, h.links, (h.place i).1, (h.place i).2]

theorem Verified.bounds (h : Verified m s t) (hb : InBounds n s) : InBounds n t := by
  refine ⟨h.links ▸ hb.live, fun i hi => ?_, fun i hi => ?_, h.num ▸ hb.num⟩
  · rw [(h.place i).2]
    exact hb.pos i (h.num ▸ hi)
  · rw [(h.place i).1, (h.place i).2]
    exact hb.le i (h.num ▸ hi)

theorem Verified.tiles (h : Verified m s t) (ht : Tiles 0 s) : Tiles 0 t := by
  refine ⟨fun i hi j hj hij => ?_, fun p hp => absurd hp (Nat.not_lt_zero p)⟩
  rw [(h.place i).1, (h.place i).2, (h.place j).1, (h.place j).2]
  exact ht.apart i (h.num ▸ hi) j (h.num ▸ hj) hij

theorem Verified.step (h : Verified m s t) (hb : InBounds n s) (hn : n ≤ maxLnkNum)
    (hm : m < s.grpNum) (hord : (s.range m).Pairwise fun x y => ifsnOf x ≤ ifsnOf y) :
    ∃ u, verifyGroup t m = some u ∧ Verified (m + 1) s u := by
  obtain ⟨ok, hv, hok⟩ := verifyGroup_spec (h.bounds hb) hn (h.num ▸ hm) (h.range m ▸ hord)
  rw [h.range, h.rest m (le_refl _)] at hok
  refine ⟨_, hv, h.links, h.num, fun i => ?_, fun i hi => ?_, fun i hi => ?_⟩
  · by_cases him : i = m
    · subst him
      simp only [Function.update_self]
      exact h.place i
    · simp only [Function.update_of_ne him]
      exact h.place i
  · by_cases him : i = m
    · subst him
      simp only [Function.update_self]
      rcases hok with ⟨hclose, hok⟩ | ⟨hfar, hok⟩
      · exact Or.inl ⟨hok, hclose⟩
      · exact Or.inr ⟨hok, hfar⟩
    · simp only [Function.update_of_ne him]
      exact h.done i (by omega)
  · have him : i ≠ m := by omega
    simp only [Function.update_of_ne him]
    exact h.rest i (by omega)

theorem verifyGroups_spec (hb : InBounds n s) (hn : n ≤ maxLnkNum) (hzero : ∀ i, (s.grp i).ok = 0)
    (hord : ∀ i < s.grpNum, (s.range i).Pairwise fun x y => ifsnOf x ≤ ifsnOf y) :
    ∃ t, (List.range s.grpNum).foldlM verifyGroup s = some t ∧ Verified s.grpNum s t := by
  have hprefix : ∀ m ≤ s.grpNum, ∃ t, (List.range m).foldlM verifyGroup s = some t ∧
      Verified m s t := by
    intro m hm
    induction m with
    | zero => exact ⟨s, rfl, rfl, rfl, fun i => ⟨rfl, rfl⟩, fun i hi => absurd hi (Nat.not_lt_zero i),
        fun i _ => hzero i⟩
    | succ m ih =>
        obtain ⟨t, ht, hver⟩ := ih (by omega)
        obtain ⟨u, hu, hver⟩ := hver.step hb hn hm (hord m hm)
        refine ⟨u, ?_, hver⟩
        rw [foldlM_range_succ, ht, Option.bind_some, hu]
  exact hprefix s.grpNum (le_refl _)

/-- What the end of imascan_result makes of the groups. -/
structure Accepted (g s : Scan) : Prop where
  num : s.grpNum = g.grpNum
  perm : ∀ i < g.grpNum, (s.range i).Perm (g.range i)
  ok : ∀ i < g.grpNum, (s.grp i).ok = 1 ∧ Close (g.range i) ∨ (s.grp i).ok = 0 ∧ ¬ Close (g.range i)

theorem qsortIcps_ifsn (qs : Qsort) (links : List PhyLink) (a n : Nat) (hle : a + n ≤ links.length)
    (hlive : ∀ x ∈ range links a n, x.pIcp ≠ none) :
    ∃ ys, qsortIcps qs sortLinkForIfsn links a n = some (splice links a ys) ∧
      ys.Perm (range links a n) ∧ ys.Pairwise fun x y => ifsnOf x ≤ ifsnOf y :=
  (splits_field qs Icp.ifsn).sorts links a n hle hlive

theorem scanResult_spec {links : List PhyLink} (hg : scanGroups qs links = some g)
    (hb : InBounds n g) (hn : n ≤ maxLnkNum) (ht : Tiles 0 g) (hzero : ∀ i, (g.grp i).ok = 0) :
    ∃ s, scanResult qs links = some s ∧ Accepted g s := by
  obtain ⟨s1, h1, hsort⟩ := sortEach_sorted (qsortIcps_ifsn qs) hb ht
  have hlt (i : Nat) (hi : i < s1.grpNum) : i < g.grpNum := hsort.num ▸ hi
  have htiles : Tiles 0 s1 := by
    refine ⟨fun i hi j hj hij => ?_, fun p hp => absurd hp (Nat.not_lt_zero p)⟩
    rw [hsort.grp]
    exact ht.apart i (hlt i hi) j (hlt j hj) hij
  obtain ⟨s2, h2, hver⟩ := verifyGroups_spec hsort.bounds hn
    (fun i => by rw [hsort.grp, hzero]) (fun i hi => hsort.done i (hlt i hi))
  obtain ⟨s3, h3, hlast⟩ := @sortEach_sorted n s2 (qsortLinks qs sortLinkForPhylink) (fun _ => True)
    (fun links a k hle _ => ⟨_, qsortLinks_eq qs _ hle, qs.perm _ _, trivial⟩)
    (hver.bounds hsort.bounds) (hver.tiles htiles)
  refine ⟨s3, ?_, ?_⟩
  · rw [scanResult, hg]
    simp only [Option.bind_eq_bind, Option.bind_some, h1, h2, h3]
  · have hnum : s2.grpNum = g.grpNum := hver.num.trans hsort.num
    refine ⟨hlast.num.trans hnum, fun i hi => ?_, fun i hi => ?_⟩
    · have hrange := hlast.perm i (hnum ▸ hi)
      rw [hver.range] at hrange
      exact hrange.trans (hsort.perm i hi)
    · have hdone := hver.done i (hsort.num ▸ hi)
      rw [Close.perm (hsort.perm i hi), ← hlast.grp] at hdone
      exact hdone

theorem Accepted.ok_iff (h : Accepted g s) {i : Nat} (hi : i < g.grpNum) :
    (s.grp i).ok = 1 ↔ Close (g.range i) := by
  rcases h.ok i hi with ⟨hok, hclose⟩ | ⟨hok, hfar⟩
  · exact iff_of_true hok hclose
  · rw [hok]
    exact iff_of_false Nat.zero_ne_one hfar

theorem Accepted.ok_eq_iff {i j : Nat} (h : Accepted g s) (h' : Accepted g' s')
    (hi : i < g.grpNum) (hj : j < g'.grpNum) :
    (s'.grp j).ok = (s.grp i).ok ↔ (Close (g'.range j) ↔ Close (g.range i)) := by
  rcases h.ok i hi with ⟨hok, hclose⟩ | ⟨hok, hclose⟩ <;>
    rcases h'.ok j hj with ⟨hok', hclose'⟩ | ⟨hok', hclose'⟩ <;>
    simp only [hok, hok', hclose, hclose', iff_self, iff_true, iff_false, not_true_eq_false,
      Nat.zero_ne_one, Nat.one_ne_zero]

end OiAmc.ImascanAccept

namespace OiAmc.ImascanCyclic

open CompareSort ImascanSplit ImascanRanges ImascanClasses ImascanKeys ImascanCfg ImascanShift
  ImascanAccept
open SwimaLinks (maxLnkNum)

variable {n : Nat} {c : UInt8} {g s : Scan} {qs : Qsort} {xs ys : List PhyLink}

def addIfsn (c : UInt8) (link : PhyLink) : PhyLink :=
  { link with pIcp := link.pIcp.map fun icp => { icp with ifsn := icp.ifsn + c } }

def PhyTable.addIfsn (t : PhyTable) (c : UInt8) : PhyTable where
  links := t.links.map (ImascanCyclic.addIfsn c)
  size := by rw [List.length_map, t.size]

/-- Every group is marked ok when its frame numbers are near, and the same groups are
when c frames are added to every link. -/
def CyclicAcceptance (qs : Qsort) (t : PhyTable) (c : UInt8) : Prop :=
  ∀ s s', scanResult qs t.links = some s → scanResult qs (PhyTable.addIfsn t c).links = some s' →
    (∀ i < s.grpNum, (s.grp i).ok = 1 ↔ Near (s.range i)) ∧ s'.grpNum = s.grpNum ∧
      ∀ i < s.grpNum, (s'.grp i).ok = (s.grp i).ok

/-- No group that the passes make wraps around, neither now nor c frames later. -/
def NoneWraps (qs : Qsort) (t : PhyTable) (c : UInt8) : Prop :=
  ∀ g, scanGroups qs t.links = some g → ∀ i < g.grpNum,
    ¬ Wraps (g.range i) ∧ ¬ Wraps ((g.range i).map (addIfsn c))

theorem unseen_addIfsn (c : UInt8) : Unseen (addIfsn c) where
  icp x := by cases hx : x.pIcp <;> simp [addIfsn, hx]
  vals k hk x := by
    simp only [passVals, List.mem_cons, List.not_mem_nil, or_false] at hk
    cases hx : x.pIcp <;>
      rcases hk with rfl | rfl | rfl | rfl | rfl | rfl | rfl | rfl | rfl <;>
      simp only [icpVal, addIfsn, hx, Option.map_none, Option.map_some]

theorem ifsnOf_addIfsn {x : PhyLink} (hx : x.pIcp ≠ none) :
    ifsnOf (addIfsn c x) = (ifsnOf x + c.toNat) % 256 := by
  obtain ⟨icp, hicp⟩ := Option.ne_none_iff_exists'.mp hx
  simp only [ifsnOf, icpVal, addIfsn, hicp, Option.map_some]
  exact UInt8.toNat_add icp.ifsn c

theorem ifsnDist_add {a b : Nat} (ha : a < 256) (hb : b < 256) :
    ifsnDist ((a + c.toNat) % 256) ((b + c.toNat) % 256) = ifsnDist a b := by
  have hc := c.toNat_lt
  unfold ifsnDist
  omega

theorem Wraps.near (h : Wraps xs) : Near xs := by
  obtain ⟨-, -, hall⟩ := h
  intro x hx y hy
  have hxv := hall x hx
  have hyv := hall y hy
  unfold ifsnDist
  omega

theorem near_addIfsn (hlive : ∀ x ∈ xs, x.pIcp ≠ none) :
    Near (xs.map (addIfsn c)) ↔ Near xs := by
  have hdist (x : PhyLink) (hx : x ∈ xs) (y : PhyLink) (hy : y ∈ xs) :
      ifsnDist (ifsnOf (addIfsn c x)) (ifsnOf (addIfsn c y)) = ifsnDist (ifsnOf x) (ifsnOf y) := by
    rw [ifsnOf_addIfsn (hlive x hx), ifsnOf_addIfsn (hlive y hy),
      ifsnDist_add (ifsnOf_lt x) (ifsnOf_lt y)]
  constructor
  · intro h x hx y hy
    rw [← hdist x hx y hy]
    exact h _ (List.mem_map_of_mem hx) _ (List.mem_map_of_mem hy)
  · intro h x' hx' y' hy'
    obtain ⟨x, hx, rfl⟩ := List.mem_map.mp hx'
    obtain ⟨y, hy, rfl⟩ := List.mem_map.mp hy'
    rw [hdist x hx y hy]
    exact h x hx y hy

theorem scanResult_addIfsn (t : PhyTable) (hn : 0 < icpLinkNum t.links)
    (hg : scanGroups qs t.links = some g) :
    ∃ s s' g', scanResult qs t.links = some s ∧ Accepted g s ∧
      scanResult qs (PhyTable.addIfsn t c).links = some s' ∧ Accepted g' s' ∧
      Shifted (addIfsn c) (icpLinks t.links).length g g' := by
  obtain ⟨g', hg', hshift⟩ := scanGroups_shifted (unseen_addIfsn c) t.size hn hg
  have hle : (icpLinks t.links).length ≤ maxLnkNum := t.size ▸ List.length_filter_le _ _
  obtain ⟨s, hs, hacc⟩ := scanResult_spec hg hshift.bounds hle hshift.tiles hshift.zero
  obtain ⟨s', hs', hacc'⟩ := scanResult_spec hg' hshift.bounds' hle hshift.tiles'
    (fun i => by rw [hshift.grp, hshift.zero])
  exact ⟨s, s', g', hs, hacc, hs', hacc', hshift⟩

/-- Acceptance goes around the circle of frame numbers exactly when no group wraps. -/
theorem cyclicAcceptance_iff (qs : Qsort) (t : PhyTable) (c : UInt8)
    (hn : 0 < icpLinkNum t.links) : CyclicAcceptance qs t c ↔ NoneWraps qs t c := by
  have hgroup {g s s' g' : Scan} (hacc : Accepted g s) (hacc' : Accepted g' s')
      (hshift : Shifted (addIfsn c) (icpLinks t.links).length g g') {i : Nat} (hi : i < g.grpNum) :
      ((s.grp i).ok = 1 ↔ Near (s.range i)) ∧ (s'.grp i).ok = (s.grp i).ok ↔
        ¬ Wraps (g.range i) ∧ ¬ Wraps ((g.range i).map (addIfsn c)) := by
    have hnear := near_addIfsn (c := c) (hshift.bounds.range_live hi)
    have hwraps : Wraps ((g.range i).map (addIfsn c)) → Near (g.range i) :=
      fun h => hnear.mp (Wraps.near h)
    have hwraps' : Wraps (g.range i) → Near (g.range i) := Wraps.near
    rw [hacc.ok_iff hi, Near.perm (hacc.perm i hi), hacc.ok_eq_iff hacc' hi (hshift.num ▸ hi),
      Close.perm (hshift.perm i hi), close_iff, close_iff, hnear]
    tauto
  constructor
  · intro h g hg i hi
    obtain ⟨s, s', g', hs, hacc, hs', hacc', hshift⟩ := scanResult_addIfsn t hn hg
    obtain ⟨hok, -, hsame⟩ := h s s' hs hs'
    exact (hgroup hacc hacc' hshift hi).mp
      ⟨hok i (hacc.num.symm ▸ hi), hsame i (hacc.num.symm ▸ hi)⟩
  · intro h s s' hs hs'
    obtain ⟨g, hg, -⟩ := Option.bind_eq_some_iff.mp hs
    obtain ⟨s1, s1', g', hs1, hacc, hs1', hacc', hshift⟩ := scanResult_addIfsn (c := c) t hn hg
    cases hs.symm.trans hs1
    cases hs'.symm.trans hs1'
    have hall (i : Nat) (hi : i < s.grpNum) :=
      (hgroup hacc hacc' hshift (hacc.num ▸ hi)).mpr (h g hg i (hacc.num ▸ hi))
    refine ⟨fun i hi => (hall i hi).1, ?_, fun i hi => (hall i hi).2⟩
    rw [hacc'.num, hshift.num, hacc.num]

theorem cyclicAcceptance_iff_apart :
    CyclicAcceptance insertionQsort (tableOf [icpOf 1 3 0, icpOf 1 4 0]) 1 ↔
      NoneWraps insertionQsort (tableOf [icpOf 1 3 0, icpOf 1 4 0]) 1 :=
  cyclicAcceptance_iff insertionQsort (tableOf [icpOf 1 3 0, icpOf 1 4 0]) 1 (by decide +kernel)

/-- Two links of one group in the frames 254 and 255: one frame later they are not ok. -/
theorem wrapping_group_refused :
    ¬ CyclicAcceptance insertionQsort (tableOf [icpOf 1 254 0, icpOf 1 255 0]) 1 := by
  intro h
  have hnow : ((scanResult insertionQsort (tableOf [icpOf 1 254 0, icpOf 1 255 0]).links).map
      fun s => (s.grpNum, (s.grp 0).ok)) = some (1, 1) := by decide +kernel
  have hlater : ((scanResult insertionQsort
      (PhyTable.addIfsn (tableOf [icpOf 1 254 0, icpOf 1 255 0]) 1).links).map
      fun s => (s.grp 0).ok) = some 0 := by decide +kernel
  obtain ⟨s, hs, hone⟩ := Option.map_eq_some_iff.mp hnow
  obtain ⟨s', hs', hzero⟩ := Option.map_eq_some_iff.mp hlater
  obtain ⟨hnum, hok⟩ := Prod.mk.inj hone
  obtain ⟨-, -, hsame⟩ := h s s' hs hs'
  have hcontra := hsame 0 (by omega)
  rw [hzero, hok] at hcontra
  exact Nat.zero_ne_one hcontra

end OiAmc.ImascanCyclic

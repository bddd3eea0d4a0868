import OiAmc.ImascanClasses

namespace OiAmc.ImascanKeys

open CompareSort ListRanges ImascanSplit ImascanRanges ImascanClasses
open SwimaLinks (maxGrpNum maxLnkNum)

variable {qs : Qsort} {links : List PhyLink} {n limit : Nat} {k : PhyLink → Nat}
  {ks : List (PhyLink → Nat)} {s : Scan}
  {sort : List PhyLink → Nat → Nat → Option (List PhyLink)}
  {differs : List PhyLink → Nat → Option (Nat → Option Bool)}

structure PhyTable where
  links : List PhyLink
  size : links.length = maxLnkNum

structure IcpKeys where
  ver : UInt8
  imaId : UInt8
  statusCtrlInd : UInt8
  grpStatusCtrl : UInt8
  txTimingInfo : UInt8
  txTestCtrl : UInt8
  txTestPattern : UInt8
  rxTestPattern : UInt8
  linkStatusCtrl : Fin 32 → UInt8
  deriving DecidableEq

def Icp.keys (icp : Icp) : IcpKeys where
  ver := icp.ver
  imaId := icp.imaId
  statusCtrlInd := icp.statusCtrlInd
  grpStatusCtrl := icp.grpStatusCtrl
  txTimingInfo := icp.txTimingInfo
  txTestCtrl := icp.txTestCtrl
  txTestPattern := icp.txTestPattern
  rxTestPattern := icp.rxTestPattern
  linkStatusCtrl := icp.linkStatusCtrl

def linkKeys (link : PhyLink) : Option IcpKeys := link.pIcp.map Icp.keys

def icpLinks (links : List PhyLink) : List PhyLink := links.filter (·.pIcp.isSome)

def icpClasses (links : List PhyLink) : Nat := ((icpLinks links).map linkKeys).dedup.length

/-- The values by which the passes split, the last pass first. -/
def passVals : List (PhyLink → Nat) :=
  [fun _ => 0, icpVal Icp.rxTestPattern, icpVal Icp.txTestPattern, icpVal Icp.txTestCtrl,
    icpVal Icp.txTimingInfo, icpVal Icp.grpStatusCtrl, icpVal Icp.statusCtrlInd, icpVal Icp.imaId,
    icpVal Icp.ver]

def AgreeIn (ks : List (PhyLink → Nat)) (x y : PhyLink) : Prop := ∀ k ∈ ks, k x = k y

theorem linkKeys_agree {x y : PhyLink} (h : linkKeys x = linkKeys y) : AgreeIn passVals x y := by
  intro k hk
  have hval (field : Icp → UInt8) (of : IcpKeys → UInt8) (hof : ∀ icp, of (Icp.keys icp) = field icp) :
      icpVal field x = icpVal field y := by
    have hmap := congrArg (Option.map of) h
    rw [linkKeys, linkKeys, Option.map_map, Option.map_map] at hmap
    cases hx : x.pIcp <;> cases hy : y.pIcp <;> simp_all [icpVal]
  simp only [passVals, List.mem_cons, List.not_mem_nil, or_false] at hk
  rcases hk with rfl | rfl | rfl | rfl | rfl | rfl | rfl | rfl | rfl
  · rfl
  · exact hval _ IcpKeys.rxTestPattern fun _ => rfl
  · exact hval _ IcpKeys.txTestPattern fun _ => rfl
  · exact hval _ IcpKeys.txTestCtrl fun _ => rfl
  · exact hval _ IcpKeys.txTimingInfo fun _ => rfl
  · exact hval _ IcpKeys.grpStatusCtrl fun _ => rfl
  · exact hval _ IcpKeys.statusCtrlInd fun _ => rfl
  · exact hval _ IcpKeys.imaId fun _ => rfl
  · exact hval _ IcpKeys.ver fun _ => rfl

structure SplitBy (links : List PhyLink) (ks : List (PhyLink → Nat)) (s : Scan) : Prop where
  classified : Classified (icpLinks links).length (AgreeIn ks) s
  perm : (range s.links 0 (icpLinks links).length).Perm (icpLinks links)

theorem splitAll_splitBy (hs : Splits sort differs k) (hlimit : maxGrpNum ≤ limit)
    (hks : k :: ks ⊆ passVals) (hc : icpClasses links < maxGrpNum) (h : SplitBy links ks s) :
    ∃ t, splitAll sort differs limit s = some (t, 0) ∧ SplitBy links (k :: ks) t := by
  have hfull (x y : PhyLink) (he : linkKeys x = linkKeys y) : AgreeIn ks x y ∧ k x = k y :=
    ⟨fun l hl => linkKeys_agree he l (hks (List.mem_cons_of_mem k hl)),
      linkKeys_agree he k (hks List.mem_cons_self)⟩
  have hcard : ((range s.links 0 (icpLinks links).length).map linkKeys).toFinset.card < maxGrpNum := by
    rw [List.toFinset_eq_of_perm _ _ (h.perm.map linkKeys), List.card_toFinset]
    exact hc
  obtain ⟨t, ht, hcl, hperm⟩ := splitAll_classified hs hlimit hfull h.classified hcard
  have hiff (x y : PhyLink) : AgreeIn (k :: ks) x y ↔ AgreeIn ks x y ∧ k x = k y := by
    rw [AgreeIn, List.forall_mem_cons, and_comm, AgreeIn]
  refine ⟨t, ht, ⟨hcl.bounds, hcl.tiles, fun i hi x hx y hy => ?_, fun i hi j hj hij x hx y hy => ?_⟩,
    hperm.trans h.perm⟩
  · exact (hiff x y).mpr (hcl.same i hi x hx y hy)
  · exact fun he => hcl.differ i hi j hj hij x hx y hy ((hiff x y).mp he)

theorem take_icpLinks (h : links.Pairwise fun x y => ¬ sortLinkForImaVer y x < 0) :
    links.take (icpLinks links).length = icpLinks links := by
  induction links with
  | nil => rfl
  | cons x xs ih =>
      obtain ⟨hx, hxs⟩ := List.pairwise_cons.mp h
      cases hicp : x.pIcp with
      | some icp =>
          have hf : icpLinks (x :: xs) = x :: icpLinks xs := by simp [icpLinks, hicp]
          rw [hf, List.length_cons, List.take_succ_cons, ih hxs]
      | none =>
          have hf : icpLinks (x :: xs) = [] := by
            apply List.filter_eq_nil_iff.mpr
            intro y hy hsome
            rcases List.mem_cons.mp hy with rfl | hy
            · rw [hicp] at hsome
              cases hsome
            · apply hx y hy
              obtain ⟨icp, hy'⟩ := Option.isSome_iff_exists.mp hsome
              simp [sortLinkForImaVer, hicp, hy']
          rw [hf]
          rfl

theorem icpLinkNum_eq (h : links.length = maxLnkNum) : icpLinkNum links = (icpLinks links).length := by
  rw [icpLinkNum, List.take_of_length_le h.le, List.countP_eq_length_filter, icpLinks]

theorem verSort_eq (qs : Qsort) (h : links.length = maxLnkNum) :
    qsortLinks qs sortLinkForImaVer links 0 maxLnkNum = some (qs.sort sortLinkForImaVer links) := by
  have hall : range links 0 maxLnkNum = links := by
    rw [range, List.drop_zero, List.take_of_length_le h.le]
  rw [qsortLinks_eq qs _ (by omega), hall, splice, (qs.perm sortLinkForImaVer links).length_eq]
  simp

theorem verSort_spec (qs : Qsort) (h : links.length = maxLnkNum) :
    ∃ ys, qsortLinks qs sortLinkForImaVer links 0 maxLnkNum = some ys ∧
      Live (icpLinks links).length ys ∧
      (range ys 0 (icpLinks links).length).Perm (icpLinks links) := by
  have hperm := qs.perm sortLinkForImaVer links
  have hfilter : (icpLinks (qs.sort sortLinkForImaVer links)).Perm (icpLinks links) := hperm.filter _
  have htake := take_icpLinks (qs.sorted _ links sortLinkForImaVer_ordered)
  rw [hfilter.length_eq] at htake
  have hrange : range (qs.sort sortLinkForImaVer links) 0 (icpLinks links).length =
      icpLinks (qs.sort sortLinkForImaVer links) := htake
  refine ⟨qs.sort sortLinkForImaVer links, verSort_eq qs h, ⟨?_, ?_⟩, ?_⟩
  · rw [hperm.length_eq]
    exact List.length_filter_le _ _
  · rw [hrange]
    intro x hx
    exact Option.isSome_iff_ne_none.mp (List.mem_filter.mp hx).2
  · rw [hrange]
    exact hfilter

theorem start_bounds (hn : 0 < icpLinkNum links) (hsize : links.length = maxLnkNum)
    {ys : List PhyLink} (hlive : Live (icpLinks links).length ys) :
    InBounds (icpLinks links).length { scanStart links with links := ys } := by
  have hnum := icpLinkNum_eq hsize
  have hgrp : ∀ i < 1, (scanStart links).grp i = ⟨0, icpLinkNum links, 0⟩ := by
    intro i hi
    obtain rfl : i = 0 := by omega
    simp only [scanStart, Function.update_self]
  refine ⟨hlive, fun i hi => ?_, fun i hi => ?_, show 1 ≤ maxGrpNum by decide⟩
  · simp only [hgrp i hi]
    exact hn
  · simp only [hgrp i hi, hnum]
    omega

theorem start_splitBy (hn : 0 < icpLinkNum links) (hsize : links.length = maxLnkNum)
    {ys : List PhyLink} (hlive : Live (icpLinks links).length ys)
    (hperm : (range ys 0 (icpLinks links).length).Perm (icpLinks links)) :
    SplitBy links [] { scanStart links with links := ys } := by
  refine ⟨⟨start_bounds hn hsize hlive, ⟨?_, ?_⟩, ?_, ?_⟩, hperm⟩
  · intro i hi j hj hij
    change i < 1 at hi
    change j < 1 at hj
    omega
  · intro p hp
    refine ⟨0, Nat.zero_lt_one, ?_⟩
    simp only [scanStart, Function.update_self, icpLinkNum_eq hsize]
    omega
  · intro i _ x _ y _ k hk
    cases hk
  · intro i hi j hj hij
    change i < 1 at hi
    change j < 1 at hj
    omega

structure Pass where
  limit : Nat
  sort : List PhyLink → Nat → Nat → Option (List PhyLink)
  differs : List PhyLink → Nat → Option (Nat → Option Bool)
  val : PhyLink → Nat
  splits : Splits sort differs val

def Pass.split (p : Pass) (s : Scan) : Option Scan :=
  (splitAll p.sort p.differs p.limit s).map Prod.fst

def fieldPass (qs : Qsort) (field : Icp → UInt8) : Pass := ⟨maxGrpNum, _, _, _, splits_field qs field⟩

/-- The nine passes. The first one comes behind the sort of the whole table. -/
def passes (qs : Qsort) : List Pass :=
  [⟨maxGrpNum + 1, _, _, _, splits_ver qs⟩, fieldPass qs Icp.imaId, fieldPass qs Icp.statusCtrlInd,
    fieldPass qs Icp.grpStatusCtrl, fieldPass qs Icp.txTimingInfo, fieldPass qs Icp.txTestCtrl,
    fieldPass qs Icp.txTestPattern, fieldPass qs Icp.rxTestPattern,
    ⟨maxGrpNum, _, _, _, splits_status qs⟩]

theorem passes_val (qs : Qsort) : (passes qs).map Pass.val = passVals.reverse := rfl

theorem val_mem_passVals {p : Pass} (hp : p ∈ passes qs) : p.val ∈ passVals := by
  rw [← List.mem_reverse, ← passes_val qs]
  exact List.mem_map_of_mem hp

theorem passes_limit (qs : Qsort) : ∀ p ∈ passes qs, maxGrpNum ≤ p.limit := by
  simp [passes, fieldPass]

theorem scanGroups_eq {ys : List PhyLink}
    (hys : qsortLinks qs sortLinkForImaVer links 0 maxLnkNum = some ys) :
    scanGroups qs links =
      (passes qs).foldlM (fun s p => p.split s) { scanStart links with links := ys } := by
  have hver : splitForImaVer qs (scanStart links) =
      splitAll (qsortLinks qs sortLinkForImaVer) (fieldDiffers Icp.ver) (maxGrpNum + 1)
        { scanStart links with links := ys } := by
    rw [splitForImaVer]
    simp only [scanStart] at hys ⊢
    rw [hys]
    rfl
  rw [scanGroups, splitPasses, hver]
  simp only [passes, fieldPass, List.foldlM_cons, List.foldlM_nil, Pass.split, Option.bind_eq_bind,
    Option.bind_map, Function.comp_def]
  rfl

theorem passes_splitBy (hc : icpClasses links < maxGrpNum) {ps : List Pass}
    (hlimit : ∀ p ∈ ps, maxGrpNum ≤ p.limit) (hks : (ps.map Pass.val).reverse ++ ks ⊆ passVals)
    (h : SplitBy links ks s) :
    ∃ t, ps.foldlM (fun s p => p.split s) s = some t ∧
      SplitBy links ((ps.map Pass.val).reverse ++ ks) t := by
  induction ps generalizing ks s with
  | nil => exact ⟨s, rfl, h⟩
  | cons p ps ih =>
      obtain ⟨hp, hps⟩ := List.forall_mem_cons.mp hlimit
      rw [List.map_cons, List.reverse_cons, List.append_assoc, List.singleton_append] at hks ⊢
      obtain ⟨s1, h1, hs1⟩ := splitAll_splitBy p.splits hp
        (fun x hx => hks (List.mem_append_right _ hx)) hc h
      obtain ⟨t, ht, hst⟩ := ih hps hks hs1
      refine ⟨t, ?_, hst⟩
      rw [List.foldlM_cons, Pass.split, h1]
      exact ht

theorem scanGroups_splitBy (qs : Qsort) (hsize : links.length = maxLnkNum)
    (hn : 0 < icpLinkNum links) (hc : icpClasses links < maxGrpNum) :
    ∃ s, scanGroups qs links = some s ∧ SplitBy links passVals s := by
  obtain ⟨ys, hys, hlive, hperm⟩ := verSort_spec qs hsize
  have hvals : ((passes qs).map Pass.val).reverse ++ [] = passVals := by
    rw [passes_val, List.reverse_reverse, List.append_nil]
  have h := @passes_splitBy links [] _ hc (passes qs) (passes_limit qs) (fun k hk => hvals ▸ hk)
    (start_splitBy hn hsize hlive hperm)
  rw [hvals, ← scanGroups_eq hys] at h
  exact h

def SameRange (s : Scan) (p q : Nat) : Prop :=
  ∃ i < s.grpNum, ((s.grp i).index ≤ p ∧ p < (s.grp i).index + (s.grp i).linkNum) ∧
    (s.grp i).index ≤ q ∧ q < (s.grp i).index + (s.grp i).linkNum

theorem sameRange_iff {R : PhyLink → PhyLink → Prop} (h : Classified n R s) {p q : Nat} (hp : p < n)
    (hq : q < n) {x y : PhyLink} (hx : s.links[p]? = some x) (hy : s.links[q]? = some y) :
    SameRange s p q ↔ R x y := by
  constructor
  · rintro ⟨i, hi, hpi, hqi⟩
    exact h.same i hi x (mem_range_iff.mpr ⟨p, hpi.1, hpi.2, hx⟩) y
      (mem_range_iff.mpr ⟨q, hqi.1, hqi.2, hy⟩)
  · intro hR
    obtain ⟨i, hi, hpi⟩ := h.tiles.cover p hp
    obtain ⟨j, hj, hqj⟩ := h.tiles.cover q hq
    by_cases hij : i = j
    · subst hij
      exact ⟨i, hi, hpi, hqj⟩
    · exact absurd hR (h.differ i hi j hj hij x (mem_range_iff.mpr ⟨p, hpi.1, hpi.2, hx⟩) y
        (mem_range_iff.mpr ⟨q, hqj.1, hqj.2, hy⟩))

/-- The groups are disjoint ranges of the table, that cover the links that had
ICP cells. -/
structure Covers (links : List PhyLink) (s : Scan) : Prop where
  inside : ∀ i < s.grpNum, 0 < (s.grp i).linkNum ∧
    (s.grp i).index + (s.grp i).linkNum ≤ (icpLinks links).length
  tiles : Tiles (icpLinks links).length s
  perm : (range s.links 0 (icpLinks links).length).Perm (icpLinks links)

/-- The nine passes come to an end, and their groups are the classes of links
with equal keys. -/
def SplitsByKeys (qs : Qsort) (t : PhyTable) : Prop :=
  ∃ s, scanGroups qs t.links = some s ∧ Covers t.links s ∧
    ∀ p < (icpLinks t.links).length, ∀ q < (icpLinks t.links).length, ∀ x y,
      s.links[p]? = some x → s.links[q]? = some y → (SameRange s p q ↔ linkKeys x = linkKeys y)

def EightAgree (icp1 icp2 : Icp) : Prop :=
  icp1.ver = icp2.ver ∧ icp1.imaId = icp2.imaId ∧ icp1.statusCtrlInd = icp2.statusCtrlInd ∧
    icp1.grpStatusCtrl = icp2.grpStatusCtrl ∧ icp1.txTimingInfo = icp2.txTimingInfo ∧
    icp1.txTestCtrl = icp2.txTestCtrl ∧ icp1.txTestPattern = icp2.txTestPattern ∧
    icp1.rxTestPattern = icp2.rxTestPattern

/-- Cells that agree in the other keys agree in the 32 octets of
link_status_ctrl. -/
def OctetsAgree (t : PhyTable) : Prop :=
  ∀ x ∈ t.links, ∀ y ∈ t.links, ∀ icp1 icp2, x.pIcp = some icp1 → y.pIcp = some icp2 →
    EightAgree icp1 icp2 → icp1.linkStatusCtrl = icp2.linkStatusCtrl

theorem agreeIn_iff {x y : PhyLink} {icp1 icp2 : Icp} (hx : x.pIcp = some icp1)
    (hy : y.pIcp = some icp2) : AgreeIn passVals x y ↔ EightAgree icp1 icp2 := by
  simp only [AgreeIn, passVals, List.forall_mem_cons, icpVal, hx, hy, UInt8.toNat_inj, EightAgree]
  constructor
  · rintro ⟨-, h8, h7, h6, h5, h4, h3, h2, h1, -⟩
    exact ⟨h1, h2, h3, h4, h5, h6, h7, h8⟩
  · rintro ⟨h1, h2, h3, h4, h5, h6, h7, h8⟩
    exact ⟨trivial, h8, h7, h6, h5, h4, h3, h2, h1, fun _ hk => by cases hk⟩

theorem linkKeys_iff {x y : PhyLink} {icp1 icp2 : Icp} (hx : x.pIcp = some icp1)
    (hy : y.pIcp = some icp2) : linkKeys x = linkKeys y ↔
      EightAgree icp1 icp2 ∧ icp1.linkStatusCtrl = icp2.linkStatusCtrl := by
  simp only [linkKeys, hx, hy, Option.map_some, Option.some.injEq, Icp.keys, IcpKeys.mk.injEq,
    EightAgree, and_assoc]

/-- The passes split a table by all keys exactly when link_status_ctrl never has to
make a difference. -/
theorem scanGroups_byKeys (qs : Qsort) (t : PhyTable) (hn : 0 < icpLinkNum t.links)
    (hc : icpClasses t.links < maxGrpNum) : SplitsByKeys qs t ↔ OctetsAgree t := by
  obtain ⟨s, hs, hsplit⟩ := scanGroups_splitBy qs t.size hn hc
  have hbounds := hsplit.classified.bounds
  have hlive {p : Nat} {x : PhyLink} (hp : p < (icpLinks t.links).length) (hx : s.links[p]? = some x) :
      ∃ icp, x.pIcp = some icp ∧ x ∈ t.links := by
    have hmem : x ∈ range s.links 0 (icpLinks t.links).length :=
      mem_range_iff.mpr ⟨p, Nat.zero_le p, by omega, hx⟩
    obtain ⟨hmem', hsome⟩ := List.mem_filter.mp (hsplit.perm.subset hmem)
    obtain ⟨icp, hicp⟩ := Option.isSome_iff_exists.mp hsome
    exact ⟨icp, hicp, hmem'⟩
  constructor
  · rintro ⟨s', hs', -, hkeys⟩
    cases hs.symm.trans hs'
    intro x hx y hy icp1 icp2 hicp1 hicp2 hagree
    have hpos {x : PhyLink} {icp : Icp} (hx : x ∈ t.links) (hicp : x.pIcp = some icp) :
        ∃ p < (icpLinks t.links).length, s.links[p]? = some x := by
      have hmem : x ∈ icpLinks t.links := List.mem_filter.mpr ⟨hx, by rw [hicp]; rfl⟩
      obtain ⟨p, -, hp, hpx⟩ := mem_range_iff.mp (hsplit.perm.symm.subset hmem)
      exact ⟨p, by omega, hpx⟩
    obtain ⟨p, hp, hpx⟩ := hpos hx hicp1
    obtain ⟨q, hq, hqy⟩ := hpos hy hicp2
    have hsame := (sameRange_iff hsplit.classified hp hq hpx hqy).mpr
      ((agreeIn_iff hicp1 hicp2).mpr hagree)
    exact ((linkKeys_iff hicp1 hicp2).mp ((hkeys p hp q hq x y hpx hqy).mp hsame)).2
  · intro hoct
    refine ⟨s, hs, ⟨fun i hi => ⟨hbounds.pos i hi, hbounds.le i hi⟩, hsplit.classified.tiles,
      hsplit.perm⟩, fun p hp q hq x y hx hy => ?_⟩
    obtain ⟨icp1, hicp1, hxm⟩ := hlive hp hx
    obtain ⟨icp2, hicp2, hym⟩ := hlive hq hy
    rw [sameRange_iff hsplit.classified hp hq hx hy, agreeIn_iff hicp1 hicp2,
      linkKeys_iff hicp1 hicp2, iff_self_and]
    exact hoct x hxm y hym icp1 icp2 hicp1 hicp2

def tableOf (icps : List Icp) : PhyTable where
  links := (List.range maxLnkNum).map fun i => ⟨UInt8.ofNat i, 1, icps[i]?⟩
  size := by rw [List.length_map, List.length_range]

def icpOf (imaId ifsn octet : UInt8) : Icp :=
  ⟨3, 0, ifsn, 0, 0, imaId, 0, 0, 0, 0, 0, fun _ => octet⟩

theorem scanGroups_byKeys_two : SplitsByKeys insertionQsort (tableOf [icpOf 1 0 0, icpOf 2 0 0]) ↔
    OctetsAgree (tableOf [icpOf 1 0 0, icpOf 2 0 0]) :=
  scanGroups_byKeys insertionQsort (tableOf [icpOf 1 0 0, icpOf 2 0 0]) (by decide +kernel)
    (by decide)

/-- Two links that differ in link_status_ctrl only are left in one group. -/
theorem octets_not_split : icpClasses (tableOf [icpOf 1 0 0, icpOf 1 0 1]).links < maxGrpNum ∧
    ¬ SplitsByKeys insertionQsort (tableOf [icpOf 1 0 0, icpOf 1 0 1]) := by
  refine ⟨by decide, ?_⟩
  rintro ⟨s, hs, -, hkeys⟩
  have heval : ((scanGroups insertionQsort (tableOf [icpOf 1 0 0, icpOf 1 0 1]).links).map fun s =>
      (s.grpNum, s.grp 0, s.links[0]?, s.links[1]?)) = some (1, ⟨0, 2, 0⟩,
        some ⟨0, 1, some (icpOf 1 0 0)⟩, some ⟨1, 1, some (icpOf 1 0 1)⟩) := by decide +kernel
  rw [hs, Option.map_some, Option.some.injEq, Prod.mk.injEq, Prod.mk.injEq, Prod.mk.injEq] at heval
  obtain ⟨hnum, hgrp, h0, h1⟩ := heval
  have hlen : (icpLinks (tableOf [icpOf 1 0 0, icpOf 1 0 1]).links).length = 2 := by decide
  have hsame : SameRange s 0 1 := by
    refine ⟨0, by omega, ?_⟩
    rw [hgrp]
    decide
  have h := (hkeys 0 (by omega) 1 (by omega) _ _ h0 h1).mp hsame
  exact absurd h (by decide)

end OiAmc.ImascanKeys

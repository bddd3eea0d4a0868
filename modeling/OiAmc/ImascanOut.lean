import OiAmc.ImascanProc

namespace OiAmc.ImascanOut

open PartialLists CompareSort ListRanges ImascanSplit ImascanRanges ImascanKeys ImascanCfg
open SwimaLinks (maxGrpNum maxLnkNum)

variable {qs : Qsort} {links : List PhyLink} {n i m : Nat} {s t : Scan} {cfg : ImaCfg}

theorem scanGroups_inBounds (hsize : links.length = maxLnkNum) (hn : 0 < icpLinkNum links)
    (h : scanGroups qs links = some s) : InBounds (icpLinks links).length s := by
  obtain ⟨ys, hys, hlive, -⟩ := verSort_spec qs hsize
  rw [scanGroups_eq hys] at h
  refine foldlM_preserves ?_ (start_bounds hn hsize hlive) h
  intro u p _ v hu hv
  obtain ⟨⟨w, rc⟩, hw, rfl⟩ := Option.map_eq_some_iff.mp hv
  exact splitAll_inBounds p.splits hu hw

theorem sortEach_inBounds {sort : List PhyLink → Nat → Nat → Option (List PhyLink)}
    (hsort : ∀ links a n l, sort links a n = some l →
      ∃ ys, ys.Perm (range links a n) ∧ l = splice links a ys)
    (hb : InBounds n s) (h : sortEach sort s = some t) : InBounds n t := by
  have hinv := foldlM_preserves (I := fun u => InBounds n u ∧ u.grpNum = s.grpNum) ?_ ⟨hb, rfl⟩ h
  · exact hinv.1
  · rintro u a ha v ⟨hu, hnum⟩ huv
    obtain ⟨l, hl, rfl⟩ := Option.map_eq_some_iff.mp huv
    obtain ⟨ys, hperm, rfl⟩ := hsort _ _ _ _ hl
    have hle := hu.le a (hnum ▸ List.mem_range.mp ha)
    exact ⟨⟨(hu.live.splice hle hperm).1, hu.pos, hu.le, hu.num⟩, hnum⟩

theorem qsortLinks_cases {cmp : PhyLink → PhyLink → Int} {a : Nat} {l : List PhyLink}
    (h : qsortLinks qs cmp links a n = some l) :
    ∃ ys, ys.Perm (range links a n) ∧ l = splice links a ys := by
  rw [qsortLinks] at h
  split at h
  · cases h
    exact ⟨_, qs.perm _ _, rfl⟩
  · cases h

theorem qsortIcps_cases {cmp : PhyLink → PhyLink → Int} {a : Nat} {l : List PhyLink}
    (h : qsortIcps qs cmp links a n = some l) :
    ∃ ys, ys.Perm (range links a n) ∧ l = splice links a ys := by
  rw [qsortIcps] at h
  split at h
  · exact qsortLinks_cases h
  · cases h

theorem verifyGroup_inBounds (hb : InBounds n s) (h : verifyGroup s i = some t) : InBounds n t := by
  simp only [verifyGroup, Option.bind_eq_bind, Option.bind_eq_some_iff] at h
  obtain ⟨icp1, -, icp2, -, h⟩ := h
  split at h
  · cases h
    have hgrp (a : Nat) :
        (Function.update s.grp i { s.grp i with ok := 1 } a).index = (s.grp a).index ∧
          (Function.update s.grp i { s.grp i with ok := 1 } a).linkNum = (s.grp a).linkNum := by
      by_cases ha : a = i
      · subst ha
        simp only [Function.update_self, and_self]
      · simp only [Function.update_of_ne ha, and_self]
    refine ⟨hb.live, fun a ha => ?_, fun a ha => ?_, hb.num⟩
    · simp only [hgrp a]
      exact hb.pos a ha
    · simp only [hgrp a]
      exact hb.le a ha
  · cases h
    exact hb

theorem scanResult_inBounds (hsize : links.length = maxLnkNum) (hn : 0 < icpLinkNum links)
    (h : scanResult qs links = some s) : InBounds (icpLinks links).length s := by
  simp only [scanResult, Option.bind_eq_bind, Option.bind_eq_some_iff] at h
  obtain ⟨s1, h1, s2, h2, s3, h3, h4⟩ := h
  have hb1 := scanGroups_inBounds hsize hn h1
  have hb2 := sortEach_inBounds (fun _ _ _ _ h => qsortIcps_cases h) hb1 h2
  have hb3 := foldlM_preserves (fun _ _ _ _ hb h => verifyGroup_inBounds hb h) hb2 h3
  exact sortEach_inBounds (fun _ _ _ _ h => qsortLinks_cases h) hb3 h4

structure Written (s : Scan) (i : Nat) (cfg : GrpCfg) : Prop where
  num : cfg.numTxLinks = UInt16.ofNat (s.grp i).linkNum
  txM : cfg.txM.toNat < 4
  phys : ((List.range (s.grp i).linkNum).map fun j => (cfg.txLinks j).phyLink) =
    (s.range i).map fun x => UInt16.ofNat (outPhy x.phyNr)

theorem outLinks_spec (hb : InBounds n s) (hi : i < s.grpNum) (r : GrpCfg × UInt8)
    (hm : m ≤ (s.grp i).linkNum) (h32 : m ≤ imaMaxLinksOfImaGrp) :
    ∃ r', (List.range m).foldlM (outLink s i) r = some r' ∧ r'.1.numTxLinks = r.1.numTxLinks ∧
      r'.1.txM = r.1.txM ∧ ((List.range m).map fun j => (r'.1.txLinks j).phyLink) =
        ((s.range i).take m).map fun x => UInt16.ofNat (outPhy x.phyNr) := by
  have hlive := hb.range_live hi
  have hle := hb.le i hi
  have hlen := hb.live.le
  have hrl : (s.range i).length = (s.grp i).linkNum := range_length (by omega)
  induction m with
  | zero => exact ⟨r, rfl, rfl, rfl, by simp⟩
  | succ m ih =>
      obtain ⟨r', hr, hnum, htx, hphys⟩ := ih (by omega) (by omega)
      have hlt : m < (s.range i).length := by omega
      have hget : s.links[(s.grp i).index + m]? = some (s.range i)[m] := by
        have h := List.getElem?_eq_getElem hlt
        conv at h => lhs; rw [Scan.range, range_getElem?, if_pos (by omega)]
        exact h
      obtain ⟨icp, hicp⟩ := Option.ne_none_iff_exists'.mp (hlive _ (List.getElem_mem hlt))
      have hj : ¬ imaMaxLinksOfImaGrp ≤ m := by omega
      rw [foldlM_range_succ, hr]
      refine ⟨(outLinkCfg r'.1 (s.range i)[m].phyNr icp m, icp.imaId), ?_, hnum, htx, ?_⟩
      · simp only [Option.bind_some, outLink, hget, hicp, hj, if_false, Option.bind_eq_bind]
        rfl
      · rw [List.range_succ, List.map_append, ← List.take_append_getElem hlt, List.map_append, ← hphys]
        refine congrArg₂ _ (List.map_congr_left fun j hj => ?_) ?_
        · simp only [outLinkCfg, Function.update_of_ne (List.mem_range.mp hj).ne]
        · simp only [outLinkCfg, List.map_cons, List.map_nil, Function.update_self]

theorem outGrp_spec (hb : InBounds n s) (hi : i < s.grpNum) (hok : (s.grp i).ok ≠ 0) (cfg : ImaCfg)
    (h32 : (s.grp i).linkNum ≤ imaMaxLinksOfImaGrp) :
    ∃ cfg', outGrp s cfg i = some cfg' ∧ cfg'.grpMode = Function.update cfg.grpMode i 2 ∧
      cfg'.groupNum = cfg.groupNum + 1 ∧ cfg'.grpNumAll = cfg.grpNumAll + 1 ∧
      (∀ a, a ≠ i → cfg'.grpCfg a = cfg.grpCfg a) ∧ Written s i (cfg'.grpCfg i) := by
  have hpos := hb.pos i hi
  have hle := hb.le i hi
  have hlen := hb.live.le
  have hlt : (s.grp i).index < s.links.length := by omega
  have hmem : s.links[(s.grp i).index] ∈ s.range i :=
    mem_range_iff.mpr ⟨_, le_refl _, by omega, List.getElem?_eq_getElem hlt⟩
  obtain ⟨icp, hicp⟩ := Option.ne_none_iff_exists'.mp (hb.range_live hi _ hmem)
  have hat : icpAt s.links (s.grp i).index = some icp := by
    rw [icpAt, List.getElem?_eq_getElem hlt, Option.bind_some, hicp]
  obtain ⟨r, hr, hnum, htx, hphys⟩ := outLinks_spec hb hi
    (outGrpCfg (cfg.grpCfg i) icp i (s.grp i).linkNum, cfg.grpId i) (le_refl _) h32
  rw [List.take_of_length_le (by rw [Scan.range, range_length (by omega)])] at hphys
  refine ⟨{ cfg with
      grpMode := Function.update cfg.grpMode i 2
      grpId := Function.update cfg.grpId i r.2
      grpCfg := Function.update cfg.grpCfg i { r.1 with txTrl := (r.1.txLinks 0).phyLink }
      grpNumAll := cfg.grpNumAll + 1
      groupNum := cfg.groupNum + 1 }, ?_, rfl, rfl, rfl, fun a ha => ?_, ?_⟩
  · rw [outGrp, if_neg hok, hat]
    simp only [Option.bind_eq_bind, Option.bind_some, hr]
    rfl
  · exact Function.update_of_ne ha _ _
  · simp only [Function.update_self]
    refine ⟨hnum, ?_, hphys⟩
    rw [htx]
    exact Nat.lt_succ_of_le (UInt8.le_iff_toNat_le.mp UInt8.and_le_right)

def okBelow (s : Scan) (m : Nat) : List Nat := (List.range m).filter fun i => (s.grp i).ok ≠ 0

structure Outed (s : Scan) (m : Nat) (cfg : ImaCfg) : Prop where
  count : cfg.groupNum.toNat = (okBelow s m).length
  all : cfg.grpNumAll = cfg.groupNum
  mode : ∀ i, cfg.grpMode i = if i < m ∧ (s.grp i).ok ≠ 0 then 2 else 0
  written : ∀ i < m, (s.grp i).ok ≠ 0 → Written s i (cfg.grpCfg i)

theorem okBelow_succ (s : Scan) (m : Nat) :
    okBelow s (m + 1) = okBelow s m ++ if (s.grp m).ok ≠ 0 then [m] else [] := by
  rw [okBelow, List.range_succ, List.filter_append, ← okBelow]
  by_cases hok : (s.grp m).ok = 0
  · simp [hok]
  · simp [hok]

theorem okBelow_length_le (s : Scan) (m : Nat) : (okBelow s m).length ≤ m := by
  have h := List.length_filter_le (fun i => decide ((s.grp i).ok ≠ 0)) (List.range m)
  rwa [List.length_range] at h

theorem outGrp_outed (hb : InBounds n s) (hm : m < s.grpNum) (ho : Outed s m cfg)
    (h32 : (s.grp m).ok ≠ 0 → (s.grp m).linkNum ≤ imaMaxLinksOfImaGrp) :
    ∃ cfg', outGrp s cfg m = some cfg' ∧ Outed s (m + 1) cfg' := by
  by_cases hok : (s.grp m).ok = 0
  · have hne : ∀ i, i < m + 1 ∧ (s.grp i).ok ≠ 0 ↔ i < m ∧ (s.grp i).ok ≠ 0 := by
      intro i
      constructor
      · rintro ⟨hi, hoki⟩
        refine ⟨?_, hoki⟩
        by_contra hge
        obtain rfl : i = m := by omega
        exact hoki hok
      · exact fun h => ⟨by omega, h.2⟩
    refine ⟨cfg, if_pos hok, ?_, ho.all, fun i => ?_, fun i hi hoki => ?_⟩
    · rw [okBelow_succ, if_neg (not_not.mpr hok), List.append_nil]
      exact ho.count
    · rw [ho.mode i]
      exact if_congr (hne i).symm rfl rfl
    · exact ho.written i ((hne i).mp ⟨hi, hoki⟩).1 hoki
  · obtain ⟨cfg', he, hmode, hnum, hall, hother, hw⟩ := outGrp_spec hb hm hok cfg (h32 hok)
    refine ⟨cfg', he, ?_, by rw [hall, hnum, ho.all], fun i => ?_, fun i hi hoki => ?_⟩
    · have hlt := okBelow_length_le s m
      have hmax := hb.num
      rw [hnum, okBelow_succ, if_pos hok, List.length_append, List.length_singleton, UInt8.toNat_add,
        ho.count]
      change _ ≤ 128 at hmax
      change (_ + 1) % 256 = _
      omega
    · rw [hmode]
      by_cases hi : i = m
      · subst hi
        rw [Function.update_self, if_pos ⟨Nat.lt_succ_self i, hok⟩]
      · rw [Function.update_of_ne hi, ho.mode i]
        refine if_congr (and_congr_left fun _ => ?_) rfl rfl
        omega
    · by_cases hie : i = m
      · subst hie
        exact hw
      · rw [hother i hie]
        exact ho.written i (by omega) hoki

theorem imascanOutcfg_spec (hb : InBounds n s)
    (h32 : ∀ i < s.grpNum, (s.grp i).ok ≠ 0 → (s.grp i).linkNum ≤ imaMaxLinksOfImaGrp) :
    ∃ cfg, imascanOutcfg s ImaCfg.zero = some cfg ∧ Outed s s.grpNum cfg := by
  have hstart : Outed s 0 ImaCfg.zero := by
    refine ⟨rfl, rfl, fun i => ?_, fun i hi => absurd hi (Nat.not_lt_zero i)⟩
    rw [if_neg fun h => Nat.not_lt_zero i h.1]
    rfl
  have hloop (m : Nat) (hm : m ≤ s.grpNum) :
      ∃ cfg, (List.range m).foldlM (outGrp s) ImaCfg.zero = some cfg ∧ Outed s m cfg := by
    induction m with
    | zero => exact ⟨_, rfl, hstart⟩
    | succ m ih =>
        obtain ⟨cfg, he, ho⟩ := ih (by omega)
        obtain ⟨cfg', he', ho'⟩ := outGrp_outed hb (by omega) ho (h32 m (by omega))
        refine ⟨cfg', ?_, ho'⟩
        rw [foldlM_range_succ, he]
        exact he'
  exact hloop s.grpNum (le_refl _)

/-- A group that is ok and has more links does not fit into the configuration. -/
theorem imascanOutcfg_fits (h : imascanOutcfg s ImaCfg.zero = some cfg) (hi : i < s.grpNum)
    (hok : (s.grp i).ok ≠ 0) : (s.grp i).linkNum ≤ imaMaxLinksOfImaGrp := by
  obtain ⟨u, v, hv⟩ := foldlM_mem h (List.mem_range.mpr hi)
  simp only [outGrp, if_neg hok, Option.bind_eq_bind, Option.bind_eq_some_iff] at hv
  obtain ⟨icp, -, r, hr, -⟩ := hv
  by_contra hgt
  obtain ⟨r1, r2, hr2⟩ := foldlM_mem hr (List.mem_range.mpr (Nat.lt_of_not_le hgt))
  simp only [outLink, le_refl, if_true, Option.bind_eq_bind, Option.bind_eq_some_iff] at hr2
  obtain ⟨_, _, _, _, _, hc, _⟩ := hr2
  cases hc

end OiAmc.ImascanOut

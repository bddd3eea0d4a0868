import OiAmc.ImascanOut

namespace OiAmc.SwimaOpen

open CompareSort ListRanges SwimaLinks ImascanCfg

def sortLinkForSwima (p1 p2 : TxLink) : Int := p1.lid.toNat - p2.lid.toNat

/-- The links of a group in the order of their LIDs. The array they come in is the
parameter of the call; it is taken to keep its contents. -/
def getImalinks (qs : Qsort) (cfg : GrpCfg) : Option (List TxLink) :=
  let links := (List.range imaMaxLinksOfImaGrp).map cfg.txLinks
  if cfg.numTxLinks.toNat ≤ imaMaxLinksOfImaGrp then
    some (splice links 0 (qs.sort sortLinkForSwima (range links 0 cfg.numTxLinks.toNat)))
  else none

def getImalinkChannel (seq : Nat) : UInt16 :=
  let port := UInt8.ofNat (seq / 64)
  let link := UInt8.ofNat (seq % 64)
  (((port &&& 0x03) >>> 1).toUInt16 <<< 7) ||| ((link &&& 0x3f).toUInt16 <<< 1) ||| (port % 2).toUInt16

def openPlseq (link : TxLink) : Nat := link.phyLink.toNat - link.phyLink.toNat / 28 * 7

structure Opening where
  gseq : Nat
  group : Nat → ImaGroup
  link : UInt8 → LinkArgs

def openLink (cfg : GrpCfg) (links : List TxLink) (channel : UInt16)
    (r : ImaGroup × (UInt8 → LinkArgs)) (j : Nat) : Option (ImaGroup × (UInt8 → LinkArgs)) := do
  let link ← links[j]?
  let plseq := openPlseq link
  if maxLnkNum ≤ plseq ∨ 4 ≤ cfg.txM.toNat then none
  let a := UInt8.ofNat plseq
  return ({ r.1 with links := Function.update r.1.links j a },
    Function.update r.2 a { r.2 a with m := imaM cfg.txM, channel := channel })

def openGroup (qs : Qsort) (cfg : ImaCfg) (o : Opening) (i : Nat) : Option Opening :=
  if cfg.grpMode i ≠ 2 then some o
  else if maxGrpNum ≤ o.gseq then none
  else do
    let linknum := (cfg.grpCfg i).numTxLinks.toUInt8
    let links ← getImalinks qs (cfg.grpCfg i)
    let plseqs ← (List.range linknum.toNat).mapM fun j => links[j]?.map openPlseq
    let channel := getImalinkChannel (plseqs.foldl min 0xff)
    let group := { o.group o.gseq with status := .unusable, lseq := 0, linknum := linknum }
    let (group, link) ← (List.range linknum.toNat).foldlM
      (openLink (cfg.grpCfg i) links channel) (group, o.link)
    return ⟨o.gseq + 1, Function.update o.group o.gseq group, link⟩

def opening : Opening where
  gseq := 0
  group := fun _ => ⟨.unusable, 0, 0, fun _ => 0⟩
  link := fun _ => ⟨.unusable, 255, 0, 0, 0, 0⟩

/-- A handle with more groups than the array holds would be read past its end. -/
def swimaOpen (qs : Qsort) (cfg : ImaCfg) : Option Opened := do
  let o ← (List.range cfg.grpNumAll.toNat).foldlM (openGroup qs cfg) opening
  if h : cfg.groupNum.toNat ≤ maxGrpNum then
    return ⟨cfg.groupNum.toNat, h, o.group, o.link⟩
  else none

end OiAmc.SwimaOpen

namespace OiAmc.ScanOpen

open PartialLists CompareSort ListRanges SwimaLinks ImascanSplit ImascanRanges ImascanKeys ImascanCfg
  ImascanOut SwimaOpen

variable {qs : Qsort} {s : Scan} {cfg : ImaCfg} {gc : GrpCfg} {o o' : Opening} {n i m : Nat}

/-- The renumbering of imascan_outcfg is undone by swima_open. -/
theorem openPlseq_outPhy {link : TxLink} {phyNr : UInt8}
    (h : link.phyLink = UInt16.ofNat (outPhy phyNr)) : openPlseq link = phyNr.toNat := by
  have hlt := phyNr.toNat_lt
  have hphy : link.phyLink.toNat = phyNr.toNat + phyNr.toNat / 21 * 7 := by
    rw [h, UInt16.toNat_ofNat', outPhy, Nat.mod_eq_of_lt (by omega)]
  rw [openPlseq, hphy]
  omega

theorem getImalinks_spec (qs : Qsort) (h32 : gc.numTxLinks.toNat ≤ imaMaxLinksOfImaGrp) :
    ∃ links, ∃ ys : List TxLink, getImalinks qs gc = some links ∧ ys.length = gc.numTxLinks.toNat ∧
      (∀ j < gc.numTxLinks.toNat, links[j]? = ys[j]?) ∧
      ys.Perm ((List.range gc.numTxLinks.toNat).map gc.txLinks) := by
  generalize hnum : gc.numTxLinks.toNat = num at *
  have hall : ((List.range imaMaxLinksOfImaGrp).map gc.txLinks).length = imaMaxLinksOfImaGrp := by
    rw [List.length_map, List.length_range]
  have hrange : range ((List.range imaMaxLinksOfImaGrp).map gc.txLinks) 0 num =
      (List.range num).map gc.txLinks := by
    rw [range, List.drop_zero, ← List.map_take, List.take_range, Nat.min_eq_left h32]
  have hperm := qs.perm sortLinkForSwima ((List.range num).map gc.txLinks)
  have hlen : (qs.sort sortLinkForSwima ((List.range num).map gc.txLinks)).length = num := by
    rw [hperm.length_eq, List.length_map, List.length_range]
  refine ⟨splice ((List.range imaMaxLinksOfImaGrp).map gc.txLinks) 0
    (qs.sort sortLinkForSwima ((List.range num).map gc.txLinks)), _, ?_, hlen, fun j hj => ?_, hperm⟩
  · rw [getImalinks, hnum]
    simp only [if_pos h32]
    rw [hrange]
  · rw [splice_getElem? (by omega), if_pos (by omega), Nat.sub_zero]

theorem openLinks_spec {links : List TxLink} {ys : List TxLink} (channel : UInt16)
    (hget : ∀ j < ys.length, links[j]? = ys[j]?) (htx : gc.txM.toNat < 4)
    (hlt : ∀ y ∈ ys, openPlseq y < maxLnkNum) (r : ImaGroup × (UInt8 → LinkArgs)) (hm : m ≤ ys.length) :
    ∃ r', (List.range m).foldlM (openLink gc links channel) r = some r' ∧
      r'.1.linknum = r.1.linknum ∧
      (List.range m).map r'.1.links = (ys.take m).map fun y => UInt8.ofNat (openPlseq y) := by
  induction m with
  | zero => exact ⟨r, rfl, rfl, by simp⟩
  | succ m ih =>
      obtain ⟨r', hr, hnum, hmap⟩ := ih (by omega)
      have hmy : m < ys.length := by omega
      have hno : ¬ (maxLnkNum ≤ openPlseq ys[m] ∨ 4 ≤ gc.txM.toNat) := by
        have := hlt _ (List.getElem_mem hmy)
        omega
      refine ⟨({ r'.1 with links := Function.update r'.1.links m (UInt8.ofNat (openPlseq ys[m])) },
        Function.update r'.2 (UInt8.ofNat (openPlseq ys[m]))
          { r'.2 (UInt8.ofNat (openPlseq ys[m])) with m := imaM gc.txM, channel := channel }),
        ?_, hnum, ?_⟩
      · rw [foldlM_range_succ, hr]
        simp only [Option.bind_some, openLink, hget m hmy, List.getElem?_eq_getElem hmy, hno, if_false,
          Option.bind_eq_bind]
        rfl
      · rw [List.range_succ, List.map_append, ← List.take_append_getElem hmy, List.map_append, ← hmap]
        refine congrArg₂ _ (List.map_congr_left fun j hj => ?_) ?_
        · simp only [Function.update_of_ne (List.mem_range.mp hj).ne]
        · simp only [List.map_cons, List.map_nil, Function.update_self]

def Configures (s : Scan) (group : ImaGroup) (i : Nat) : Prop :=
  group.linknum.toNat = (s.grp i).linkNum ∧ group.members.Perm ((s.range i).map PhyLink.phyNr)

theorem openGroup_spec (qs : Qsort) (hmode : cfg.grpMode i = 2) (hgseq : o.gseq < maxGrpNum)
    (hw : Written s i (cfg.grpCfg i)) (h32 : (s.grp i).linkNum ≤ imaMaxLinksOfImaGrp) :
    ∃ o', openGroup qs cfg o i = some o' ∧ o'.gseq = o.gseq + 1 ∧
      (∀ k, k ≠ o.gseq → o'.group k = o.group k) ∧ Configures s (o'.group o.gseq) i := by
  have h32' : (s.grp i).linkNum ≤ 32 := h32
  have hnum : (cfg.grpCfg i).numTxLinks.toNat = (s.grp i).linkNum := by
    rw [hw.num, UInt16.toNat_ofNat', Nat.mod_eq_of_lt (by omega)]
  have hnum8 : (cfg.grpCfg i).numTxLinks.toUInt8.toNat = (s.grp i).linkNum := by
    rw [UInt16.toNat_toUInt8, hnum, Nat.mod_eq_of_lt (by omega)]
  obtain ⟨links, ys, hl, hylen, hget, hperm⟩ := getImalinks_spec qs (hnum.trans_le h32)
  rw [hnum] at hylen hget hperm
  -- the physical links, in the order of the scan and in that of the LIDs
  have hphys : ((List.range (s.grp i).linkNum).map (cfg.grpCfg i).txLinks).map openPlseq =
      (s.range i).map fun x => x.phyNr.toNat := by
    have h := congrArg (List.map fun p : UInt16 => p.toNat - p.toNat / 28 * 7) hw.phys
    rw [List.map_map, List.map_map] at h
    rw [List.map_map]
    refine h.trans (List.map_congr_left fun x _ => ?_)
    exact @openPlseq_outPhy ⟨0, 0, _⟩ _ rfl
  have hyphys : (ys.map openPlseq).Perm ((s.range i).map fun x => x.phyNr.toNat) := by
    rw [← hphys]
    exact hperm.map openPlseq
  have hlt : ∀ y ∈ ys, openPlseq y < maxLnkNum := by
    intro y hy
    obtain ⟨x, -, hx⟩ := List.mem_map.mp (hyphys.subset (List.mem_map_of_mem hy))
    rw [← hx]
    exact x.phyNr.toNat_lt
  have hgety : ∀ j < ys.length, links[j]? = ys[j]? := fun j hj => hget j (hylen ▸ hj)
  obtain ⟨plseqs, hpl⟩ := @mapM_isSome _ _ (fun j => links[j]?.map openPlseq)
    (List.range (s.grp i).linkNum) fun j hj => by
      have hjl : j < ys.length := by rw [hylen]; exact List.mem_range.mp hj
      exact ⟨openPlseq ys[j], by rw [hgety j hjl, List.getElem?_eq_getElem hjl]; rfl⟩
  obtain ⟨r, hr, hrn, hrl⟩ := openLinks_spec (getImalinkChannel (plseqs.foldl min 0xff)) hgety hw.txM hlt
    ({ o.group o.gseq with
      status := .unusable, lseq := 0, linknum := (cfg.grpCfg i).numTxLinks.toUInt8 }, o.link) hylen.ge
  refine ⟨⟨o.gseq + 1, Function.update o.group o.gseq r.1, r.2⟩, ?_, rfl, fun k hk => ?_, ?_, ?_⟩
  · rw [openGroup, if_neg (not_not.mpr hmode), if_neg (by omega)]
    simp only [hl, hnum8, hpl, hr, Option.bind_eq_bind, Option.bind_some]
    rfl
  · exact Function.update_of_ne hk _ _
  · simp only [Function.update_self, hrn]
    exact hnum8
  · simp only [Function.update_self, ImaGroup.members, hrn, hnum8, hrl]
    rw [List.take_of_length_le hylen.le]
    have h := hyphys.map UInt8.ofNat
    rw [List.map_map, List.map_map] at h
    refine h.trans (List.Perm.of_eq (List.map_congr_left fun x _ => ?_))
    exact UInt8.ofNat_toNat

theorem openGroup_cases (h : openGroup qs cfg o i = some o') :
    cfg.grpMode i ≠ 2 ∧ o' = o ∨
      cfg.grpMode i = 2 ∧ o'.gseq = o.gseq + 1 ∧ ∀ k, k ≠ o.gseq → o'.group k = o.group k := by
  rw [openGroup] at h
  split at h
  · next hmode =>
      cases h
      exact Or.inl ⟨hmode, rfl⟩
  · next hmode =>
      split at h
      · cases h
      · simp only [Option.bind_eq_bind, Option.bind_eq_some_iff] at h
        obtain ⟨_, _, _, _, r, _, he⟩ := h
        cases he
        exact Or.inr ⟨not_not.mp hmode, rfl, fun k hk => Function.update_of_ne hk _ _⟩

/-- The handle after m entries of the configuration: the slots behind the turn are
as memset left them. -/
structure Filling (s : Scan) (m : Nat) (o : Opening) : Prop where
  gseq : o.gseq = (okBelow s m).length
  rest : ∀ k, o.gseq ≤ k → (o.group k).linknum = 0

theorem openGroups_filling (hc : Outed s s.grpNum cfg) (hm : m ≤ s.grpNum)
    (h : (List.range m).foldlM (openGroup qs cfg) opening = some o) : Filling s m o := by
  induction m generalizing o with
  | zero =>
      cases h
      exact ⟨rfl, fun _ _ => rfl⟩
  | succ m ih =>
      rw [foldlM_range_succ] at h
      obtain ⟨o1, h1, h2⟩ := Option.bind_eq_some_iff.mp h
      obtain ⟨hgseq, hrest⟩ := ih (by omega) h1
      have hmode := hc.mode m
      by_cases hok : (s.grp m).ok = 0
      · rw [if_neg fun h => h.2 hok] at hmode
        rcases openGroup_cases h2 with ⟨-, rfl⟩ | ⟨h2, -⟩
        · refine ⟨?_, hrest⟩
          rw [okBelow_succ, if_neg (not_not.mpr hok), List.append_nil]
          exact hgseq
        · rw [hmode] at h2
          cases h2
      · rw [if_pos ⟨by omega, hok⟩] at hmode
        rcases openGroup_cases h2 with ⟨hne, -⟩ | ⟨-, hg, hother⟩
        · exact absurd hmode hne
        · refine ⟨?_, fun k hk => ?_⟩
          · rw [hg, okBelow_succ, if_pos hok, List.length_append, List.length_singleton, hgseq]
          · rw [hother k (by omega)]
            exact hrest k (by omega)

def okGroups (s : Scan) : List Nat := okBelow s s.grpNum

theorem mem_okGroups : i ∈ okGroups s ↔ i < s.grpNum ∧ (s.grp i).ok ≠ 0 := by
  rw [okGroups, okBelow, List.mem_filter, List.mem_range, decide_eq_true_eq]

/-- What the scan of the table finds and what swima_open makes of its configuration
are the same groups: the slots below gnum hold the ok groups, one each. -/
def Opens (qs : Qsort) (t : PhyTable) (s : Scan) : Prop :=
  ∃ cfg o, imascanResult qs t.links ImaCfg.zero = some (s.links, cfg, 0) ∧
    swimaOpen qs cfg = some o ∧ ∃ js, js.Perm (okGroups s) ∧
      List.Forall₂ (fun k i => Configures s (o.group k) i) (List.range o.gnum) js

/-- The ok groups come before all others, and have at most 32 links each. -/
def OkFirst (s : Scan) : Prop :=
  (∀ i < s.grpNum, (s.grp i).ok ≠ 0 → ∀ j < i, (s.grp j).ok ≠ 0) ∧
    ∀ i < s.grpNum, (s.grp i).ok ≠ 0 → (s.grp i).linkNum ≤ imaMaxLinksOfImaGrp

theorem okBelow_mono (s : Scan) {m m' : Nat} (h : m ≤ m') :
    (okBelow s m).length ≤ (okBelow s m').length := by
  induction m', h using Nat.le_induction with
  | base => exact le_refl _
  | succ k hk ih =>
      rw [okBelow_succ, List.length_append]
      omega

theorem okFirst_of_length (hlen : (okBelow s (okGroups s).length).length = (okGroups s).length) :
    ∀ i < s.grpNum, (s.grp i).ok ≠ 0 → ∀ j < i, (s.grp j).ok ≠ 0 := by
  intro i hi hok j hj
  have hic : i < (okGroups s).length := by
    by_contra hge
    have h1 := okBelow_mono s (Nat.le_of_not_lt hge)
    have h2 : (okBelow s (i + 1)).length = (okBelow s i).length + 1 := by
      rw [okBelow_succ, if_pos hok, List.length_append, List.length_singleton]
    have h3 : (okBelow s (i + 1)).length ≤ (okGroups s).length := okBelow_mono s hi
    omega
  have hall := List.length_filter_eq_length_iff.mp (hlen.trans List.length_range.symm)
  exact of_decide_eq_true (hall j (List.mem_range.mpr (hj.trans hic)))

/-- Ok groups that come first are the first groups. -/
theorem okBelow_eq_range (h : ∀ i < s.grpNum, (s.grp i).ok ≠ 0 → ∀ j < i, (s.grp j).ok ≠ 0)
    (hm : m ≤ s.grpNum) : okBelow s m = List.range (okBelow s m).length := by
  induction m with
  | zero => rfl
  | succ m ih =>
      by_cases hok : (s.grp m).ok = 0
      · have he : okBelow s (m + 1) = okBelow s m := by
          rw [okBelow_succ, if_neg (not_not.mpr hok), List.append_nil]
        rw [he]
        exact ih (by omega)
      · have hall : okBelow s (m + 1) = List.range (m + 1) := by
          apply List.filter_eq_self.mpr
          intro j hj
          apply decide_eq_true
          rcases Nat.lt_succ_iff_lt_or_eq.mp (List.mem_range.mp hj) with hj | rfl
          · exact h m (by omega) hok j hj
          · exact hok
        rw [hall, List.length_range]

theorem openGroups_configures (hb : InBounds n s) (hc : Outed s s.grpNum cfg) (hfirst : OkFirst s)
    (hok : ∀ i < m, i < s.grpNum ∧ (s.grp i).ok ≠ 0) :
    ∃ o, (List.range m).foldlM (openGroup qs cfg) opening = some o ∧ o.gseq = m ∧
      ∀ k < m, Configures s (o.group k) k := by
  induction m with
  | zero => exact ⟨opening, rfl, rfl, fun k hk => absurd hk (Nat.not_lt_zero k)⟩
  | succ m ih =>
      obtain ⟨o, he, hgseq, hconf⟩ := ih fun i hi => hok i (by omega)
      obtain ⟨hm, hokm⟩ := hok m (Nat.lt_succ_self m)
      have hmode : cfg.grpMode m = 2 := by rw [hc.mode m, if_pos ⟨hm, hokm⟩]
      have hmax := hb.num
      obtain ⟨o', he', hgseq', hother, hnew⟩ := openGroup_spec qs hmode (show o.gseq < maxGrpNum by omega)
        (hc.written m hm hokm) (hfirst.2 m hm hokm)
      refine ⟨o', ?_, by omega, fun k hk => ?_⟩
      · rw [foldlM_range_succ, he]
        exact he'
      · rcases Nat.lt_succ_iff_lt_or_eq.mp hk with hk | rfl
        · rw [hother k (by omega)]
          exact hconf k hk
        · rw [← hgseq]
          rw [hgseq] at hnew ⊢
          exact hnew

theorem imascanResult_eq (t : PhyTable) (hn : 0 < icpLinkNum t.links)
    (h : scanResult qs t.links = some s) :
    imascanResult qs t.links ImaCfg.zero = some (s.links, cfg, 0) ↔
      imascanOutcfg s ImaCfg.zero = some cfg := by
  rw [imascanResult, if_neg t.size.not_lt, if_neg hn.ne']
  simp only [h, Option.bind_eq_bind, Option.bind_some]
  cases imascanOutcfg s ImaCfg.zero with
  | none => simp
  | some cfg' => simp

end OiAmc.ScanOpen

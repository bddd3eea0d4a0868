import OiAmc.ImascanAccept
import OiAmc.ImascanOut
import OiAmc.ImascanProc
import OiAmc.PartialMachine

namespace OiAmc.ImascanPlace

open ByteOrder PartialMachine PartialLists CompareSort ListRanges ImascanSplit ImascanRanges ImascanClasses
  ImascanKeys ImascanCfg ImascanShift ImascanAccept ImascanOut ImascanProc
open SwimaLinks (maxGrpNum maxLnkNum)

variable {host : Endian} {qs : Qsort} {links links' : List PhyLink} {s t g : Scan} {hd : Probe} {c : Call}
  {calls log : List Call} {link : PhyLink} {icp : Icp} {n : Nat}
  {sort : List PhyLink → Nat → Nat → Option (List PhyLink)}
  {differs : List PhyLink → Nat → Option (Nat → Option Bool)}

/-- A cell that some call received on the link that the entry names. -/
def Delivered (host : Endian) (calls : List Call) (link : PhyLink) (icp : Icp) : Prop :=
  ∃ c ∈ calls, c.phyLink host = link.phyNr.toNat ∧ c.icp = some icp

/-- A table after some calls: no two entries name one link, and every cell is kept where it
belongs. -/
structure Sound (host : Endian) (calls : List Call) (links : List PhyLink) : Prop where
  distinct : (links.map PhyLink.phyNr).Nodup
  delivered : ∀ link ∈ links, ∀ icp, link.pIcp = some icp → Delivered host calls link icp

/-- A sort that moves the entries of the table only. -/
def Permutes (sort : List PhyLink → Nat → Nat → Option (List PhyLink)) : Prop :=
  ∀ links a n l, sort links a n = some l → l.Perm links

theorem permutes_qsortLinks (qs : Qsort) (cmp : PhyLink → PhyLink → Int) : Permutes (qsortLinks qs cmp) := by
  intro links a n l h
  rw [qsortLinks] at h
  split at h
  · next hle =>
      cases h
      have hperm := @range_splice_perm _ links _ a 0 n links.length hle
        (qs.perm cmp (range links a n)) (Nat.zero_le a) (by omega)
      have hlen : (splice links a (qs.sort cmp (range links a n))).length = links.length := by
        apply splice_length
        rw [(qs.perm cmp _).length_eq, range_length hle]
        exact hle
      have hall (xs : List PhyLink) (h : xs.length = links.length) : range xs 0 links.length = xs := by
        rw [range, List.drop_zero, List.take_of_length_le h.le]
      rwa [hall _ hlen, hall _ rfl] at hperm
  · cases h

theorem permutes_qsortIcps (qs : Qsort) (cmp : PhyLink → PhyLink → Int) : Permutes (qsortIcps qs cmp) := by
  intro links a n l h
  rw [qsortIcps] at h
  split at h
  · exact permutes_qsortLinks qs cmp _ _ _ _ h
  · cases h

theorem cutGroup_links {i j : Nat} (h : cutGroup s i j = some t) : t.links = s.links := by
  simp only [cutGroup] at h
  split at h
  · cases h
    rfl
  · cases h

theorem splitGroup_perm (hsort : Permutes sort) {i : Nat} (h : splitGroup sort differs s i = some t) :
    t.links.Perm s.links := by
  simp only [splitGroup, Option.bind_eq_bind, Option.bind_eq_some_iff] at h
  obtain ⟨l, hl, test, _, r, _, h⟩ := h
  have hperm := hsort _ _ _ _ hl
  cases r with
  | none =>
      cases h
      exact hperm
  | some j =>
      rw [cutGroup_links h]
      exact hperm

theorem splitLoop_perm (hsort : Permutes sort) {limit f i : Nat} {rc : Int}
    (h : splitLoop sort differs limit f i s = some (t, rc)) : t.links.Perm s.links := by
  induction f generalizing i s with
  | zero => cases h
  | succ f ih =>
      rw [splitLoop] at h
      split at h
      · obtain ⟨s1, hs1, h⟩ := Option.bind_eq_some_iff.mp h
        have hperm := splitGroup_perm hsort hs1
        split at h
        · cases h
          exact hperm
        · exact (ih h).trans hperm
      · cases h
        exact .refl _

theorem splitAll_perm (hsort : Permutes sort) {limit : Nat} {rc : Int}
    (h : splitAll sort differs limit s = some (t, rc)) : t.links.Perm s.links := by
  obtain ⟨⟨u, rc'⟩, hu, he⟩ := Option.map_eq_some_iff.mp h
  have hperm := splitLoop_perm hsort hu
  simp only at he
  split at he <;> cases he <;> exact hperm

theorem splitFor_perm {cmp : PhyLink → PhyLink → Int} {field : Icp → UInt8} {rc : Int}
    (h : splitFor qs cmp field s = some (t, rc)) : t.links.Perm s.links :=
  splitAll_perm (permutes_qsortIcps qs cmp) h

theorem scanGroups_perm (h : scanGroups qs links = some s) : s.links.Perm links := by
  simp only [scanGroups, splitPasses, Option.bind_eq_bind, Option.bind_eq_some_iff, Prod.exists] at h
  obtain ⟨s1, _, h1, s2, _, h2, s3, _, h3, s4, _, h4, s5, _, h5, s6, _, h6, s7, _, h7, s8, _, h8, s9, _,
    h9, he⟩ := h
  obtain rfl := Option.some.inj he
  obtain ⟨l, hl, h1⟩ := Option.bind_eq_some_iff.mp h1
  have p0 := permutes_qsortLinks qs _ _ _ _ _ hl
  have p1 := splitAll_perm (permutes_qsortLinks qs _) h1
  have p9 := splitAll_perm (permutes_qsortIcps qs _) h9
  exact p9.trans ((splitFor_perm h8).trans ((splitFor_perm h7).trans ((splitFor_perm h6).trans
    ((splitFor_perm h5).trans ((splitFor_perm h4).trans ((splitFor_perm h3).trans
    ((splitFor_perm h2).trans (p1.trans p0))))))))

theorem sortEach_perm (hsort : Permutes sort) (h : sortEach sort s = some t) : t.links.Perm s.links := by
  refine foldlM_preserves (I := fun u => u.links.Perm s.links) ?_ (.refl _) h
  intro u i _ v hu hv
  obtain ⟨l, hl, rfl⟩ := Option.map_eq_some_iff.mp hv
  exact (hsort _ _ _ _ hl).trans hu

theorem verifyGroup_links {i : Nat} (h : verifyGroup s i = some t) : t.links = s.links := by
  simp only [verifyGroup, Option.bind_eq_bind, Option.bind_eq_some_iff] at h
  obtain ⟨icp1, _, icp2, _, h⟩ := h
  split at h <;> cases h <;> rfl

theorem scanResult_perm (h : scanResult qs links = some s) : s.links.Perm links := by
  simp only [scanResult, Option.bind_eq_bind, Option.bind_eq_some_iff] at h
  obtain ⟨s1, h1, s2, h2, s3, h3, h4⟩ := h
  have p3 : s3.links = s2.links := foldlM_preserves (I := fun u => u.links = s2.links)
    (fun u i _ v hu hv => (verifyGroup_links hv).trans hu) rfl h3
  have p4 := sortEach_perm (permutes_qsortLinks qs _) h4
  rw [p3] at p4
  exact p4.trans ((sortEach_perm (permutes_qsortIcps qs _) h2).trans (scanGroups_perm h1))

def peers (links : List PhyLink) (x : PhyLink) : List PhyLink :=
  (icpLinks links).filter fun y => passVals.all fun k => k y = k x

structure Scannable (links : List PhyLink) : Prop where
  size : links.length = maxLnkNum
  classes : icpClasses links < maxGrpNum
  peers : ∀ x ∈ icpLinks links, (peers links x).length ≤ imaMaxLinksOfImaGrp

theorem linkNum_le (hsplit : SplitBy links passVals g) (h : Scannable links) {i : Nat} (hi : i < g.grpNum) :
    (g.grp i).linkNum ≤ imaMaxLinksOfImaGrp := by
  have hb := hsplit.classified.bounds
  obtain ⟨x, hx⟩ := range_nonempty hb hi
  have hle := hb.le i hi
  have hmem : x ∈ icpLinks links :=
    hsplit.perm.subset (range_subset (Nat.zero_le _) (by omega) hx)
  have hsub : (g.range i).Sublist (range g.links 0 (icpLinks links).length) := by
    rw [show (icpLinks links).length = (g.grp i).index + ((icpLinks links).length - (g.grp i).index) by omega,
      range_append, Nat.zero_add]
    refine List.Sublist.trans ?_ (List.sublist_append_right _ _)
    rw [show (icpLinks links).length - (g.grp i).index = (g.grp i).linkNum +
      ((icpLinks links).length - (g.grp i).index - (g.grp i).linkNum) by omega, range_append]
    exact List.sublist_append_left _ _
  have hall : (g.range i).filter (fun y => passVals.all fun k => k y = k x) = g.range i := by
    rw [List.filter_eq_self]
    intro y hy
    rw [List.all_eq_true]
    exact fun k hk => decide_eq_true (hsplit.classified.same i hi y hy x hx k hk)
  have hlen := (hsub.filter fun y => passVals.all fun k => k y = k x).length_le
  rw [hall, (hsplit.perm.filter _).length_eq, range_len hb hi] at hlen
  exact hlen.trans (h.peers x hmem)

theorem imascanResult_perm (qs : Qsort) (h : Scannable links) (hn : 0 < icpLinkNum links) :
    ∃ links' cfg, imascanResult qs links ImaCfg.zero = some (links', cfg, 0) ∧ links'.Perm links := by
  obtain ⟨g, hg, hsplit⟩ := scanGroups_splitBy qs h.size hn h.classes
  obtain ⟨s, _, _, hs, hacc, _⟩ :=
    ImascanCyclic.scanResult_addIfsn (c := 0) ⟨links, h.size⟩ hn hg
  have hb := scanResult_inBounds h.size hn hs
  obtain ⟨cfg, hcfg, _⟩ := imascanOutcfg_spec hb fun i hi _ => by
    rw [hacc.num] at hi
    have hbg := hsplit.classified.bounds
    rw [← range_len hb (hacc.num.symm ▸ hi), (hacc.perm i hi).length_eq, range_len hbg hi]
    exact linkNum_le hsplit h hi
  refine ⟨s.links, cfg, ?_, scanResult_perm hs⟩
  rw [imascanResult, if_neg h.size.not_lt, if_neg hn.ne']
  have hs' : scanResult qs links = some s := hs
  simp only [hs', hcfg, Option.bind_eq_bind, Option.bind_some]
  rfl

theorem Sound.mono (h : Sound host log links) (c : Call) : Sound host (log ++ [c]) links := by
  refine ⟨h.distinct, fun link hlink icp hicp => ?_⟩
  obtain ⟨d, hd, hfrom⟩ := h.delivered link hlink icp hicp
  exact ⟨d, List.mem_append_left _ hd, hfrom⟩

theorem Sound.perm (h : Sound host log links) (hperm : links'.Perm links) : Sound host log links' :=
  ⟨(hperm.map PhyLink.phyNr).nodup_iff.mpr h.distinct,
    fun link hlink => h.delivered link (hperm.subset hlink)⟩

theorem Sound.set (h : Sound host log links) {i : Nat} (hlink : links[i]? = some link) {new : PhyLink}
    (hname : new.phyNr = link.phyNr)
    (hnew : ∀ icp, new.pIcp = some icp → Delivered host log new icp) : Sound host log (links.set i new) := by
  obtain ⟨hi, hget⟩ := List.getElem?_eq_some_iff.mp hlink
  constructor
  · have hsame : (links.set i new).map PhyLink.phyNr = links.map PhyLink.phyNr := by
      rw [List.map_set, hname, ← hget, ← List.getElem_map PhyLink.phyNr, List.set_getElem_self]
      rwa [List.length_map]
    rw [hsame]
    exact h.distinct
  · intro x hx icp hicp
    rcases List.mem_or_eq_of_mem_set hx with hx | rfl
    · exact h.delivered x hx icp hicp
    · exact hnew icp hicp

/-- What is asked of a call in the state it is made in: an ICP cell comes on a link inside the table,
and the entry in that place is the link's own or drops the cell as unstable; a scan that completes
has a table that fits. -/
def Placed (host : Endian) (hd : Probe) (c : Call) : Prop :=
  ∀ icp, c.icp = some icp → c.phyLink host ≤ maxLnkNum →
    ∃ link, hd.imaplink[c.phyLink host]? = some link ∧
      (link.rcvNr ≠ 0 ∧ isLinkStable link.pIcp (some icp) = false ∨
        link.phyNr.toNat = c.phyLink host ∧ hd.icpcount < intMax ∧
          (hd.maxicp ≤ hd.icpcount + 1 → c.cfgMem = true →
            Scannable (storeIcp hd.imaplink (c.phyLink host) link icp)))

theorem Sound.store (h : Sound host log links) (hlink : links[c.phyLink host]? = some link)
    (hname : link.phyNr.toNat = c.phyLink host) (hicp : c.icp = some icp) :
    Sound host (log ++ [c]) (storeIcp links (c.phyLink host) link icp) := by
  have hsame : (if link.rcvNr = 0 then UInt8.ofNat (c.phyLink host) else link.phyNr) = link.phyNr := by
    split
    · rw [← hname, UInt8.ofNat_toNat]
    · rfl
  refine (h.mono c).set hlink hsame ?_
  intro icp' hicp'
  obtain rfl := Option.some.inj hicp'
  refine ⟨c, List.mem_append_right _ List.mem_cons_self, ?_, hicp⟩
  simp only [hsame, hname]

theorem icpLinkNum_store (hsize : (storeIcp links n link icp).length = maxLnkNum) (hn : n < links.length) :
    0 < icpLinkNum (storeIcp links n link icp) := by
  rw [icpLinkNum_eq hsize]
  refine List.length_pos_of_mem (a := { link with
    pIcp := some icp
    phyNr := if link.rcvNr = 0 then UInt8.ofNat n else link.phyNr
    rcvNr := link.rcvNr + 1 }) ?_
  exact List.mem_filter.mpr ⟨List.mem_set hn _, rfl⟩

theorem rcv_cases (h : Placed host hd c) :
    (∃ links, rcvIcpFromLink host c hd.imaplink = some (links, -1) ∧
      (Sound host log hd.imaplink → Sound host (log ++ [c]) links)) ∨
    ∃ link icp, hd.imaplink[c.phyLink host]? = some link ∧ c.icp = some icp ∧
      link.phyNr.toNat = c.phyLink host ∧ hd.icpcount < intMax ∧
      (hd.maxicp ≤ hd.icpcount + 1 → c.cfgMem = true →
        Scannable (storeIcp hd.imaplink (c.phyLink host) link icp)) ∧
      rcvIcpFromLink host c hd.imaplink =
        some (storeIcp hd.imaplink (c.phyLink host) link icp, 0) := by
  simp only [rcvIcpFromLink]
  by_cases hout : maxLnkNum < c.phyLink host
  · exact .inl ⟨hd.imaplink, if_pos hout, fun hs => hs.mono c⟩
  rw [if_neg hout]
  cases hicp : c.icp with
  | none => exact .inl ⟨hd.imaplink, rfl, fun hs => hs.mono c⟩
  | some icp =>
      obtain ⟨link, hlink, hplaced⟩ := h icp hicp (by omega)
      simp only [hlink, Option.bind_eq_bind, Option.bind_some]
      by_cases hdrop : link.rcvNr ≠ 0 ∧ isLinkStable link.pIcp (some icp) = false
      · refine .inl ⟨hd.imaplink.set (c.phyLink host) { link with rcvNr := 0 }, ?_, fun hs => ?_⟩
        · rw [if_neg hdrop.1, hdrop.2]
          rfl
        · refine (hs.mono c).set hlink rfl fun icp' hicp' => ?_
          exact (hs.mono c).delivered link (List.mem_of_getElem? hlink) icp' hicp'
      · obtain ⟨hname, hcount, hscan⟩ := hplaced.resolve_left hdrop
        refine .inr ⟨link, icp, rfl, rfl, hname, hcount, hscan, ?_⟩
        by_cases hzero : link.rcvNr = 0
        · rw [if_pos hzero]
          rfl
        · have hstable : isLinkStable link.pIcp (some icp) = true := by
            rw [← Bool.not_eq_false]
            exact fun hf => hdrop ⟨hzero, hf⟩
          rw [if_neg hzero, hstable]
          rfl

theorem proc_sound (qs : Qsort) (hs : Sound host log hd.imaplink) (h : Placed host hd c) :
    ∃ hd' o, imascanProc host qs hd c = some (hd', o) ∧ Sound host (log ++ [c]) hd'.imaplink := by
  rcases @rcv_cases host hd c log h with
    ⟨links, hrcv, hsound⟩ | ⟨link, icp, hlink, hicp, hname, hcount, hscan, hrcv⟩
  · refine ⟨{ hd with imaplink := links }, none, ?_, hsound hs⟩
    simp [imascanProc, hrcv]
  · have hstored := hs.store hlink hname hicp
    obtain ⟨hi, _⟩ := List.getElem?_eq_some_iff.mp hlink
    generalize hl : storeIcp hd.imaplink (c.phyLink host) link icp = links at hstored hscan hrcv
    by_cases hmore : hd.icpcount + 1 < hd.maxicp
    · refine ⟨⟨hd.icpcount + 1, hd.maxicp, links⟩, none, ?_, hstored⟩
      simp [imascanProc, hrcv, hmore, not_le.mpr hcount]
    by_cases hmem : c.cfgMem = true
    · have hscan := hscan (not_lt.mp hmore) hmem
      have hn : 0 < icpLinkNum links := by
        rw [← hl]
        exact icpLinkNum_store (hl ▸ hscan.size) hi
      obtain ⟨links', cfg, hres, hperm⟩ := imascanResult_perm qs hscan hn
      refine ⟨⟨hd.icpcount + 1, hd.maxicp, links'⟩, some cfg, ?_, hstored.perm hperm⟩
      simp [imascanProc, hrcv, hmore, not_le.mpr hcount, hmem, hres]
    · refine ⟨⟨hd.icpcount + 1, hd.maxicp, links⟩, none, ?_, hstored⟩
      simp [imascanProc, hrcv, hmore, not_le.mpr hcount, hmem]

theorem run_places (qs : Qsort) (hs : Sound host log hd.imaplink)
    (h : Guarded (imascanProc host qs) (Placed host) hd calls) (n : Nat) :
    ∃ t outs, run (imascanProc host qs) hd (calls.take n) = some (t, outs) ∧
      Sound host (log ++ calls.take n) t.imaplink := by
  induction calls generalizing hd log n with
  | nil => exact ⟨hd, [], by simp, by simpa using hs⟩
  | cons c calls ih =>
      cases n with
      | zero => exact ⟨hd, [], rfl, by simpa using hs⟩
      | succ n =>
          obtain ⟨hd', o, hproc, hs'⟩ := proc_sound qs hs h.1
          obtain ⟨t, outs, hrun, ht⟩ := ih hs' (h.2 _ hproc) n
          refine ⟨t, o :: outs, run_cons.mpr ⟨hd', o, outs, hproc, hrun, rfl⟩, ?_⟩
          rwa [List.append_assoc] at ht

theorem open_sound {maxChannel maxIcpnum : Int} (h : imascanOpen maxChannel maxIcpnum = some hd) :
    Sound host [] hd.imaplink := by
  rw [imascanOpen] at h
  split at h
  · cases h
  · next hrange =>
      cases h
      constructor
      · rw [List.map_map]
        refine List.Nodup.map_on ?_ List.nodup_range
        intro i hi j hj heq
        have hi := List.mem_range.mp hi
        have hj := List.mem_range.mp hj
        have hval := congrArg UInt8.toNat heq
        simp only [Function.comp_apply, UInt8.toNat_ofNat'] at hval
        omega
      · intro link hlink icp hicp
        obtain ⟨i, _, rfl⟩ := List.mem_map.mp hlink
        cases hicp

/-- An ICP cell of a link below 256. -/
def icpCall (phyLink ifsn : UInt8) : Call where
  pktcell i :=
    if i = 11 then phyLink
    else if 20 ≤ i then [0, 0, 0, 0x0b, 0x64, 0x01, 0x80, ifsn].getD (i - 20) 0
    else 0
  cellMem := true
  cfgMem := true

end OiAmc.ImascanPlace

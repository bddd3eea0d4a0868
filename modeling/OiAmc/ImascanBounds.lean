import OiAmc.ImascanLimit
import OiAmc.ImascanPlace

namespace OiAmc.ImascanBounds

open ByteOrder PartialMachine PartialLists CompareSort ListRanges ImascanSplit ImascanRanges ImascanClasses
  ImascanKeys ImascanCfg ImascanOut ImascanProc ImascanPlace ImascanLimit
open SwimaLinks (maxGrpNum maxLnkNum)

variable {host : Endian} {qs : Qsort} {links : List PhyLink} {s t : Scan} {hd hd' : Probe} {c : Call}
  {link : PhyLink} {icp : Icp} {n m i f a limit size : Nat} {k : PhyLink → Nat}
  {sort : List PhyLink → Nat → Nat → Option (List PhyLink)}
  {differs : List PhyLink → Nat → Option (Nat → Option Bool)} {reads : Nat → Nat → Nat}

/-- An index into the table of links, or into the array of groups. -/
inductive Access
  | link (i : Nat)
  | grp (i : Nat)
  deriving DecidableEq

def Access.Within (size : Nat) : Access → Prop
  | .link i => i < size
  | .grp i => i < maxGrpNum

def linkRange (a n : Nat) : List Access := (List.range' a n).map .link

def sortTrace (index linkNum : Nat) : List Access := .link index :: linkRange index linkNum

def findTrace (reads : Nat → Nat) (differs : Nat → Option Bool) : List Nat → List Access
  | [] => []
  | j :: js => .link (reads j) :: if differs j = some false then findTrace reads differs js else []

/-- Behind an index that has no outcome nothing is known. -/
def splitGroupTrace (sort : List PhyLink → Nat → Nat → Option (List PhyLink))
    (differs : List PhyLink → Nat → Option (Nat → Option Bool)) (reads : Nat → Nat → Nat) (s : Scan)
    (i : Nat) : List Access :=
  let tmpIndex := (s.grp i).index
  let js := List.range' (tmpIndex + 1) ((s.grp i).linkNum - 1)
  .grp i :: sortTrace tmpIndex (s.grp i).linkNum ++
    match (sort s.links tmpIndex (s.grp i).linkNum).bind fun links => differs links tmpIndex with
    | none => []
    | some test => .link tmpIndex :: findTrace (reads tmpIndex) test js ++
        match findNew test js with
        | some (some _) => [.grp s.grpNum, .grp i]
        | _ => []

def splitLoopTrace (sort : List PhyLink → Nat → Nat → Option (List PhyLink))
    (differs : List PhyLink → Nat → Option (Nat → Option Bool)) (reads : Nat → Nat → Nat) (limit : Nat) :
    Nat → Nat → Scan → List Access
  | 0, _, _ => []
  | n + 1, i, s =>
      if i < s.grpNum then
        splitGroupTrace sort differs reads s i ++
          match splitGroup sort differs s i with
          | none => []
          | some s => if limit ≤ s.grpNum then [] else splitLoopTrace sort differs reads limit n (i + 1) s
      else []

/-- A pass, and the link that it reads to test link j of a group that starts with link i. -/
structure Look where
  pass : Pass
  reads : Nat → Nat → Nat
  reads_le : ∀ i j, i ≤ j → reads i j ≤ j

def Look.trace (l : Look) (s : Scan) : List Access :=
  splitLoopTrace l.pass.sort l.pass.differs l.reads l.pass.limit (maxGrpNum + 2) 0 s

def fieldLook (p : Pass) : Look := ⟨p, fun _ j => j, fun _ _ _ => le_refl _⟩

/-- is_same_link_status_ctrl does not read the link that it is called for. -/
def statusLook (p : Pass) : Look := ⟨p, fun i _ => i, fun _ _ h => h⟩

def laterLooks (qs : Qsort) : List Look :=
  [fieldLook (fieldPass qs Icp.imaId), fieldLook (fieldPass qs Icp.statusCtrlInd),
    fieldLook (fieldPass qs Icp.grpStatusCtrl), fieldLook (fieldPass qs Icp.txTimingInfo),
    fieldLook (fieldPass qs Icp.txTestCtrl), fieldLook (fieldPass qs Icp.txTestPattern),
    fieldLook (fieldPass qs Icp.rxTestPattern), statusLook ⟨maxGrpNum, _, _, _, splits_status qs⟩]

def verLook (qs : Qsort) : Look := fieldLook ⟨maxGrpNum + 1, _, _, _, splits_ver qs⟩

def looks (qs : Qsort) : List Look := verLook qs :: laterLooks qs

theorem looks_pass (qs : Qsort) : (looks qs).map Look.pass = passes qs := rfl

def looksTrace : List Look → Scan → List Access
  | [], _ => []
  | l :: ls, s => l.trace s ++
      match l.pass.split s with
      | none => []
      | some s => looksTrace ls s

def scanGroupsTrace (qs : Qsort) (links : List PhyLink) : List Access :=
  linkRange 0 maxLnkNum ++
    match qsortLinks qs sortLinkForImaVer links 0 maxLnkNum with
    | none => []
    | some ys => looksTrace (looks qs) { scanStart links with links := ys }

def sortEachTrace (s : Scan) : List Access :=
  (List.range s.grpNum).flatMap fun i => .grp i :: sortTrace (s.grp i).index (s.grp i).linkNum

def verifyTrace (s : Scan) : List Access :=
  (List.range s.grpNum).flatMap fun i =>
    [.grp i, .link (s.grp i).index, .link (((s.grp i).index + (s.grp i).linkNum + 4294967295) % 4294967296)]

def logTrace (linkNum : Nat) (s : Scan) : List Access :=
  linkRange 0 linkNum ++ (List.range s.grpNum).map .grp

def outcfgTrace (s : Scan) : List Access :=
  (List.range s.grpNum).flatMap fun i =>
    .grp i :: if (s.grp i).ok = 0 then []
      else .link (s.grp i).index :: linkRange (s.grp i).index (s.grp i).linkNum

/-- No loop behind the passes changes the range of a group. -/
def scanResultTrace (qs : Qsort) (links : List PhyLink) : List Access :=
  scanGroupsTrace qs links ++
    (match scanGroups qs links with
      | none => []
      | some s => sortEachTrace s ++ verifyTrace s ++ sortEachTrace s ++ logTrace (icpLinkNum links) s) ++
    match scanResult qs links with
    | none => []
    | some s => outcfgTrace s

/-- Where the table is shorter the count itself leaves it, and what follows is not known. -/
def imascanResultTrace (qs : Qsort) (links : List PhyLink) : List Access :=
  (List.range maxGrpNum).map .grp ++ linkRange 0 maxLnkNum ++
    if links.length < maxLnkNum ∨ icpLinkNum links = 0 then [] else scanResultTrace qs links

def rcvTrace (host : Endian) (c : Call) : List Access :=
  if c.phyLink host ≤ maxLnkNum ∧ c.icp.isSome then [.link (c.phyLink host)] else []

/-- The call gets to the scan when it keeps the cell. -/
def imascanProcTrace (host : Endian) (qs : Qsort) (hd : Probe) (c : Call) : List Access :=
  rcvTrace host c ++
    match rcvIcpFromLink host c hd.imaplink with
    | none => []
    | some (links, rc) =>
        if 0 ≤ rc ∧ hd.icpcount < intMax ∧ hd.maxicp ≤ hd.icpcount + 1 ∧ c.cfgMem = true then
          imascanResultTrace qs links
        else []

theorem linkRange_within (h : a + n ≤ size) : ∀ x ∈ linkRange a n, x.Within size := by
  intro x hx
  obtain ⟨j, hj, rfl⟩ := List.mem_map.mp hx
  have hj := (List.mem_range'_1.mp hj).2
  change j < size
  omega

theorem sortTrace_within (hn : 0 < n) (h : a + n ≤ size) : ∀ x ∈ sortTrace a n, x.Within size := by
  intro x hx
  rcases List.mem_cons.mp hx with rfl | hx
  · change a < size
    omega
  · exact linkRange_within h x hx

theorem findTrace_within {reads : Nat → Nat} {test : Nat → Option Bool} {js : List Nat}
    (h : ∀ j ∈ js, reads j < size) : ∀ x ∈ findTrace reads test js, x.Within size := by
  induction js with
  | nil => simp [findTrace]
  | cons j js ih =>
      obtain ⟨hj, hjs⟩ := List.forall_mem_cons.mp h
      intro x hx
      rw [findTrace] at hx
      rcases List.mem_cons.mp hx with rfl | hx
      · exact hj
      · split at hx
        · exact ih hjs x hx
        · cases hx

theorem splitGroupTrace_within (hreads : ∀ i j, i ≤ j → reads i j ≤ j) (hb : InBounds n s)
    (hroom : s.grpNum < maxGrpNum) (hi : i < s.grpNum) (hn : n ≤ size) :
    ∀ x ∈ splitGroupTrace sort differs reads s i, x.Within size := by
  have hpos := hb.pos i hi
  have hle := hb.le i hi
  have hgrp : (Access.grp i).Within size := hi.trans_le hb.num
  have hindex : (Access.link (s.grp i).index).Within size := by
    change (s.grp i).index < size
    omega
  intro x hx
  simp only [splitGroupTrace] at hx
  rcases List.mem_append.mp hx with hx | hx
  · rcases List.mem_cons.mp hx with rfl | hx
    · exact hgrp
    · exact sortTrace_within hpos (by omega) x hx
  split at hx
  · cases hx
  · next test _ =>
      rcases List.mem_append.mp hx with hx | hx
      · rcases List.mem_cons.mp hx with rfl | hx
        · exact hindex
        · apply findTrace_within _ x hx
          intro j hj
          have hj := List.mem_range'_1.mp hj
          have hread := hreads (s.grp i).index j (by omega)
          omega
      · split at hx
        · rcases List.mem_pair.mp hx with rfl | rfl
          · exact hroom
          · exact hgrp
        · cases hx

/-- A loop over the groups that always has room for one group more when a round begins stays
inside both arrays and comes to its end, with room behind it or with a failure. -/
theorem splitLoop_room {J : Nat → Scan → Prop} (hs : Splits sort differs k)
    (hreads : ∀ i j, i ≤ j → reads i j ≤ j) (hJ : ∀ i s, J i s → InBounds n s ∧ s.grpNum < maxGrpNum)
    (hstep : ∀ i s t, J i s → i < s.grpNum → splitGroup sort differs s i = some t →
      ¬ limit ≤ t.grpNum → J (i + 1) t) (hn : n ≤ size) (hf : maxGrpNum ≤ i + f) (h : J i s) :
    (∀ x ∈ splitLoopTrace sort differs reads limit (f + 1) i s, x.Within size) ∧
      ∃ t rc, splitLoop sort differs limit (f + 1) i s = some (t, rc) ∧
        (rc < 0 ∨ t.grpNum < maxGrpNum) := by
  induction f generalizing i s with
  | zero =>
      obtain ⟨-, hroom⟩ := hJ i s h
      rw [splitLoopTrace, splitLoop, if_neg (by omega), if_neg (by omega)]
      exact ⟨by simp, s, 0, rfl, .inr hroom⟩
  | succ f ih =>
      obtain ⟨hb, hroom⟩ := hJ i s h
      rw [splitLoopTrace, splitLoop]
      split
      · next hi =>
          have hround := @splitGroupTrace_within _ _ _ _ sort differs _ hreads hb hroom hi hn
          obtain ⟨u, he⟩ := splitGroup_room hs hb hi hroom
          simp only [he, Option.bind_eq_bind, Option.bind_some]
          by_cases hlimit : limit ≤ u.grpNum
          · rw [if_pos hlimit, if_pos hlimit, List.append_nil]
            exact ⟨hround, u, -1, rfl, .inl (by decide)⟩
          · rw [if_neg hlimit, if_neg hlimit]
            obtain ⟨hrest, hend⟩ := ih (by omega) (hstep i s u h hi he hlimit)
            exact ⟨List.forall_mem_append.mpr ⟨hround, hrest⟩, hend⟩
      · exact ⟨by simp, s, 0, rfl, .inr hroom⟩

structure Roomy (n : Nat) (s : Scan) : Prop where
  bounds : InBounds n s
  room : s.grpNum < maxGrpNum

/-- The pass stays inside both arrays and comes to its end, with room behind it. -/
def Look.Keeps (l : Look) (n size : Nat) (s : Scan) : Prop :=
  (∀ x ∈ l.trace s, x.Within size) ∧ ∃ t, l.pass.split s = some t ∧ Roomy n t

theorem Look.keeps_of_loop (l : Look) {J : Nat → Scan → Prop}
    (hJ : ∀ i s, J i s → InBounds n s ∧ s.grpNum < maxGrpNum)
    (hstep : ∀ i s t, J i s → i < s.grpNum → splitGroup l.pass.sort l.pass.differs s i = some t →
      ¬ l.pass.limit ≤ t.grpNum → J (i + 1) t) (hn : n ≤ size) (h : J 0 s) : l.Keeps n size s := by
  have hf : maxGrpNum ≤ 0 + (maxGrpNum + 1) := by omega
  obtain ⟨htrace, t, rc, ht, hend⟩ := splitLoop_room l.pass.splits l.reads_le hJ hstep hn hf h
  obtain ⟨hb, hroom⟩ := hJ 0 s h
  have hall : ∃ u rc, splitAll l.pass.sort l.pass.differs l.pass.limit s = some (u, rc) ∧
      u.grpNum < maxGrpNum := by
    rw [splitAll, ht, Option.map_some]
    by_cases hrc : rc < 0
    · exact ⟨{ t with grpNum := s.grpNum }, rc, congrArg some (if_pos hrc), hroom⟩
    · exact ⟨t, rc, congrArg some (if_neg hrc), hend.resolve_left hrc⟩
  obtain ⟨u, rc', hu, hless⟩ := hall
  exact ⟨htrace, u, by rw [Pass.split, hu]; rfl, splitAll_inBounds l.pass.splits hb hu, hless⟩

theorem Look.keeps (l : Look) (hlimit : l.pass.limit = maxGrpNum) (hn : n ≤ size) (h : Roomy n s) :
    l.Keeps n size s := by
  refine l.keeps_of_loop (J := fun _ s => InBounds n s ∧ s.grpNum < maxGrpNum) (fun _ _ h => h) ?_ hn
    ⟨h.bounds, h.room⟩
  intro i s t hs hi he hroom
  exact ⟨(splitGroup_inBounds l.pass.splits hs.1 hi he).1, by omega⟩

theorem verLook_keeps (qs : Qsort) (hn : n ≤ size) (hb : InBounds n s) (ht : Tiles n s)
    (hc : classes (icpVal Icp.ver) s ≤ 2) : (verLook qs).Keeps n size s := by
  refine (verLook qs).keeps_of_loop
    (J := fun _ s => (InBounds n s ∧ Tiles n s) ∧ classes (icpVal Icp.ver) s ≤ 2) ?_ ?_ hn ⟨⟨hb, ht⟩, hc⟩
  · rintro i s ⟨⟨hb, -⟩, hc⟩
    have hnum := @grpNum_le_classes _ (icpVal Icp.ver) _ hb
    exact ⟨hb, by change _ < 128; omega⟩
  · rintro i s t ⟨⟨hb, ht⟩, hc⟩ hi he -
    obtain ⟨hclasses, htiles, -⟩ := splitGroup_classes (splits_ver qs) hb ht hi he
    exact ⟨⟨(splitGroup_inBounds (splits_ver qs) hb hi he).1, htiles⟩, hclasses.le.trans hc⟩

theorem laterLooks_limit (qs : Qsort) : ∀ l ∈ laterLooks qs, l.pass.limit = maxGrpNum := by
  simp [laterLooks, fieldLook, statusLook, fieldPass]

theorem looks_within {ls : List Look} (hlimit : ∀ l ∈ ls, l.pass.limit = maxGrpNum) (hn : n ≤ size)
    (h : Roomy n s) : (∀ x ∈ looksTrace ls s, x.Within size) ∧
      ∃ t, (ls.map Look.pass).foldlM (fun s p => p.split s) s = some t := by
  induction ls generalizing s with
  | nil => exact ⟨by simp [looksTrace], s, rfl⟩
  | cons l ls ih =>
      obtain ⟨hl, hls⟩ := List.forall_mem_cons.mp hlimit
      obtain ⟨htrace, u, hu, hroomy⟩ := l.keeps hl hn h
      obtain ⟨hrest, t, ht⟩ := ih hls hroomy
      simp only [looksTrace, List.map_cons, List.foldlM_cons, hu]
      exact ⟨List.forall_mem_append.mpr ⟨htrace, hrest⟩, t, ht⟩

/-- The cells that is_icp_cell lets through have one of two versions. -/
def Versioned (links : List PhyLink) : Prop :=
  ∀ link ∈ links, ∀ icp, link.pIcp = some icp → icp.ver = 1 ∨ icp.ver = 3

theorem distinct_ver {xs : List PhyLink} (h : Versioned xs) (hlive : ∀ x ∈ xs, x.pIcp ≠ none) :
    distinct (icpVal Icp.ver) xs ≤ 2 := by
  have hsub : (xs.map (icpVal Icp.ver)).toFinset ⊆ {1, 3} := by
    intro v hv
    obtain ⟨x, hx, rfl⟩ := List.mem_map.mp (List.mem_toFinset.mp hv)
    obtain ⟨icp, hicp⟩ := Option.ne_none_iff_exists'.mp (hlive x hx)
    rcases h x hx icp hicp with hver | hver <;> simp [icpVal, hicp, hver]
  exact Finset.card_le_card hsub

structure Ready (links : List PhyLink) : Prop where
  size : links.length = maxLnkNum
  num : 0 < icpLinkNum links
  versioned : Versioned links

theorem Ready.le (h : Ready links) : (icpLinks links).length ≤ maxLnkNum := by
  rw [← h.size]
  exact List.length_filter_le _ _

theorem scanGroups_within (qs : Qsort) (h : Ready links) :
    (∀ x ∈ scanGroupsTrace qs links, x.Within maxLnkNum) ∧ ∃ s, scanGroups qs links = some s := by
  obtain ⟨ys, hys, hlive, hperm⟩ := verSort_spec qs h.size
  have hsplit := start_splitBy h.num h.size hlive hperm
  have hb := hsplit.classified.bounds
  have hone : ({ scanStart links with links := ys } : Scan).grpNum = 1 := rfl
  have hc : classes (icpVal Icp.ver) { scanStart links with links := ys } ≤ 2 := by
    rw [classes, hone, Finset.sum_range_one]
    refine distinct_ver (fun x hx => h.versioned x ?_) (hb.range_live Nat.one_pos)
    have hle := hb.le 0 Nat.one_pos
    have hmem := hperm.subset (range_subset (Nat.zero_le _) (by omega) hx)
    exact (List.mem_filter.mp hmem).1
  obtain ⟨htrace, u, hu, hroomy⟩ := verLook_keeps qs h.le hb hsplit.classified.tiles hc
  obtain ⟨hrest, t, ht⟩ := looks_within (laterLooks_limit qs) h.le hroomy
  rw [scanGroupsTrace, hys, scanGroups_eq hys, ← looks_pass]
  simp only [looks, looksTrace, hu, List.map_cons, List.foldlM_cons]
  have hsort : ∀ x ∈ linkRange 0 maxLnkNum, x.Within maxLnkNum := linkRange_within (le_refl _)
  exact ⟨List.forall_mem_append.mpr ⟨hsort, List.forall_mem_append.mpr ⟨htrace, hrest⟩⟩, t, ht⟩

theorem sortEachTrace_within (hb : InBounds n s) (hn : n ≤ size) :
    ∀ x ∈ sortEachTrace s, x.Within size := by
  intro x hx
  obtain ⟨i, hi, hx⟩ := List.mem_flatMap.mp hx
  have hi := List.mem_range.mp hi
  have hle := hb.le i hi
  rcases List.mem_cons.mp hx with rfl | hx
  · exact hi.trans_le hb.num
  · exact sortTrace_within (hb.pos i hi) (by omega) x hx

theorem verifyTrace_within (hb : InBounds n s) (hn : n ≤ size) (hsize : size ≤ maxLnkNum) :
    ∀ x ∈ verifyTrace s, x.Within size := by
  intro x hx
  obtain ⟨i, hi, hx⟩ := List.mem_flatMap.mp hx
  have hi := List.mem_range.mp hi
  have hpos := hb.pos i hi
  have hle := hb.le i hi
  change size ≤ 256 at hsize
  simp only [List.mem_cons, List.not_mem_nil, or_false] at hx
  rcases hx with rfl | rfl | rfl
  · exact hi.trans_le hb.num
  · change _ < size
    omega
  · change _ % 4294967296 < size
    omega

theorem logTrace_within (hb : InBounds n s) (hm : m ≤ size) : ∀ x ∈ logTrace m s, x.Within size := by
  refine List.forall_mem_append.mpr ⟨linkRange_within (by omega), ?_⟩
  intro x hx
  obtain ⟨i, hi, rfl⟩ := List.mem_map.mp hx
  exact (List.mem_range.mp hi).trans_le hb.num

theorem outcfgTrace_within (hb : InBounds n s) (hn : n ≤ size) :
    ∀ x ∈ outcfgTrace s, x.Within size := by
  intro x hx
  obtain ⟨i, hi, hx⟩ := List.mem_flatMap.mp hx
  have hi := List.mem_range.mp hi
  have hle := hb.le i hi
  rcases List.mem_cons.mp hx with rfl | hx
  · exact hi.trans_le hb.num
  split at hx
  · cases hx
  · exact sortTrace_within (hb.pos i hi) (by omega) x hx

theorem scanResult_within (qs : Qsort) (h : Ready links) :
    (∀ x ∈ scanResultTrace qs links, x.Within maxLnkNum) ∧ ∃ s, scanResult qs links = some s := by
  have hnum : icpLinkNum links ≤ maxLnkNum := by
    rw [icpLinkNum_eq h.size]
    exact h.le
  obtain ⟨htrace, g, hg⟩ := scanGroups_within qs h
  obtain ⟨s, _, _, hs, -⟩ := ImascanCyclic.scanResult_addIfsn (c := 0) ⟨links, h.size⟩ h.num hg
  have hbg := scanGroups_inBounds h.size h.num hg
  have hbs := scanResult_inBounds h.size h.num hs
  have hs : scanResult qs links = some s := hs
  have hsort := sortEachTrace_within hbg h.le
  refine ⟨?_, s, hs⟩
  simp only [scanResultTrace, hg, hs, List.forall_mem_append]
  exact ⟨⟨htrace, ⟨⟨hsort, verifyTrace_within hbg h.le (le_refl _)⟩, hsort⟩, logTrace_within hbg hnum⟩,
    outcfgTrace_within hbs h.le⟩

def Stored (host : Endian) (hd : Probe) (c : Call) : Prop :=
  c.phyLink host ≤ maxLnkNum ∧ ∃ link icp, hd.imaplink[c.phyLink host]? = some link ∧ c.icp = some icp ∧
    (link.rcvNr = 0 ∨ isLinkStable link.pIcp (some icp) = true)

def Completes (host : Endian) (hd : Probe) (c : Call) : Prop :=
  Stored host hd c ∧ hd.icpcount < intMax ∧ hd.maxicp ≤ hd.icpcount + 1 ∧ c.cfgMem = true

/-- An ICP cell that gets past the check of its link number names a link of the table, and a
scan has the whole table that it counts on. -/
def Meets (host : Endian) (maxChannel : Int) (hd : Probe) (c : Call) : Prop :=
  (c.phyLink host ≤ maxLnkNum → c.icp ≠ none → (c.phyLink host : Int) < maxChannel) ∧
    (Completes host hd c → maxChannel = maxLnkNum)

/-- Every index of a call is inside the table or the array of groups. -/
def Inside (host : Endian) (qs : Qsort) (maxChannel : Int) (hd : Probe) (c : Call) : Prop :=
  ∀ x ∈ imascanProcTrace host qs hd c, x.Within maxChannel.toNat

structure Sized (maxChannel : Int) (hd : Probe) : Prop where
  size : (hd.imaplink.length : Int) = maxChannel
  versioned : Versioned hd.imaplink

theorem Versioned.set (h : Versioned links) {new : PhyLink} (hlink : links[i]? = some link)
    (hnew : new.pIcp = link.pIcp ∨ ∃ icp, new.pIcp = some icp ∧ (icp.ver = 1 ∨ icp.ver = 3)) :
    Versioned (links.set i new) := by
  intro x hx icp hicp
  rcases List.mem_or_eq_of_mem_set hx with hx | rfl
  · exact h x hx icp hicp
  · rcases hnew with hsame | ⟨icp', hicp', hver⟩
    · exact h link (List.mem_of_getElem? hlink) icp (hsame.symm.trans hicp)
    · obtain rfl := Option.some.inj (hicp.symm.trans hicp')
      exact hver

theorem icp_ver (h : c.icp = some icp) : icp.ver = 1 ∨ icp.ver = 3 := by
  rw [Call.icp, isIcpCell] at h
  split at h
  · next hcell =>
      split at h
      · cases h
        exact hcell.2.2.2.2.2.1
      · cases h
  · cases h

theorem storeIcp_versioned (h : Versioned links) (hlink : links[n]? = some link) (hicp : c.icp = some icp) :
    Versioned (storeIcp links n link icp) :=
  h.set hlink (.inr ⟨icp, rfl, icp_ver hicp⟩)

/-- The call keeps the cell, and then some link has one, or leaves the table as it is but for
the count of the link. -/
theorem rcv_outcome {rc : Int} {links' : List PhyLink}
    (h : rcvIcpFromLink host c hd.imaplink = some (links', rc)) (hv : Versioned hd.imaplink) :
    links'.length = hd.imaplink.length ∧ Versioned links' ∧
      (Stored host hd c ∧ rc = 0 ∧ (hd.imaplink.length = maxLnkNum → 0 < icpLinkNum links') ∨
        ¬ Stored host hd c ∧ rc = -1) := by
  simp only [rcvIcpFromLink] at h
  split at h
  · next hout =>
      cases h
      exact ⟨rfl, hv, .inr ⟨fun hs => absurd hs.1 (by omega), rfl⟩⟩
  · next hle =>
      cases hicp : c.icp with
      | none =>
          rw [hicp] at h
          cases h
          refine ⟨rfl, hv, .inr ⟨?_, rfl⟩⟩
          rintro ⟨-, _, _, -, hsome, -⟩
          rw [hicp] at hsome
          cases hsome
      | some icp =>
          rw [hicp] at h
          obtain ⟨link, hlink, h⟩ := Option.bind_eq_some_iff.mp h
          obtain ⟨hlt, -⟩ := List.getElem?_eq_some_iff.mp hlink
          have hlen : (storeIcp hd.imaplink (c.phyLink host) link icp).length = hd.imaplink.length :=
            List.length_set
          have hnum (hsize : hd.imaplink.length = maxLnkNum) :
              0 < icpLinkNum (storeIcp hd.imaplink (c.phyLink host) link icp) :=
            icpLinkNum_store (hlen.trans hsize) hlt
          have hstored (hkeep : link.rcvNr = 0 ∨ isLinkStable link.pIcp (some icp) = true) :
              Stored host hd c := ⟨by omega, link, icp, hlink, hicp, hkeep⟩
          split at h
          · next hzero =>
              cases h
              exact ⟨hlen, storeIcp_versioned hv hlink hicp, .inl ⟨hstored (.inl hzero), rfl, hnum⟩⟩
          · next hzero =>
              split at h
              · next hstable =>
                  cases h
                  exact ⟨hlen, storeIcp_versioned hv hlink hicp,
                    .inl ⟨hstored (.inr hstable), rfl, hnum⟩⟩
              · next hunstable =>
                  cases h
                  refine ⟨List.length_set, hv.set hlink (.inl rfl), .inr ⟨?_, rfl⟩⟩
                  rintro ⟨-, link', icp', hlink', hicp', hkeep⟩
                  cases hlink.symm.trans hlink'
                  cases hicp.symm.trans hicp'
                  exact hkeep.elim hzero hunstable

theorem rcvTrace_within {maxChannel : Int} :
    (∀ x ∈ rcvTrace host c, x.Within maxChannel.toNat) ↔
      (c.phyLink host ≤ maxLnkNum → c.icp ≠ none → (c.phyLink host : Int) < maxChannel) := by
  rw [rcvTrace]
  split
  · next hcell =>
      rw [List.forall_mem_singleton]
      change c.phyLink host < maxChannel.toNat ↔ _
      constructor
      · intro h _ _
        omega
      · intro h
        have := h hcell.1 (Option.isSome_iff_ne_none.mp hcell.2)
        omega
  · next hcell =>
      refine iff_of_true (by simp) fun hle hicp => ?_
      exact absurd ⟨hle, Option.isSome_iff_ne_none.mpr hicp⟩ hcell

theorem resultTrace_within (qs : Qsort) {maxChannel : Int} (hle : maxChannel ≤ maxLnkNum)
    (hsize : (links.length : Int) = maxChannel) (hv : Versioned links)
    (hnum : links.length = maxLnkNum → 0 < icpLinkNum links) :
    (∀ x ∈ imascanResultTrace qs links, x.Within maxChannel.toNat) ↔ maxChannel = maxLnkNum := by
  constructor
  · intro h
    have hlast : Access.link 255 ∈ imascanResultTrace qs links := by
      refine List.mem_append_left _ (List.mem_append_right _ ?_)
      exact List.mem_map_of_mem (List.mem_range'_1.mpr (by decide))
    have hlast : 255 < maxChannel.toNat := h _ hlast
    change maxChannel ≤ 256 at hle
    change maxChannel = 256
    omega
  · rintro rfl
    have hlen : links.length = maxLnkNum := by omega
    rw [Int.toNat_natCast, imascanResultTrace]
    refine List.forall_mem_append.mpr ⟨List.forall_mem_append.mpr ⟨?_, linkRange_within (le_refl _)⟩, ?_⟩
    · intro x hx
      obtain ⟨i, hi, rfl⟩ := List.mem_map.mp hx
      exact List.mem_range.mp hi
    · split
      · simp
      · exact (scanResult_within qs ⟨hlen, hnum hlen, hv⟩).1

theorem rcv_stored (h : Stored host hd c) :
    ∃ links', rcvIcpFromLink host c hd.imaplink = some (links', 0) := by
  obtain ⟨hle, link, icp, hlink, hicp, hkeep⟩ := h
  refine ⟨storeIcp hd.imaplink (c.phyLink host) link icp, ?_⟩
  simp only [rcvIcpFromLink]
  rw [if_neg (by omega), hicp]
  simp only [hlink, Option.bind_eq_bind, Option.bind_some]
  by_cases hzero : link.rcvNr = 0
  · rw [if_pos hzero]
    rfl
  · rw [if_neg hzero, if_pos (hkeep.resolve_left hzero)]
    rfl

theorem inside_iff (qs : Qsort) {maxChannel : Int} (hle : maxChannel ≤ maxLnkNum)
    (h : Sized maxChannel hd) :
    Inside host qs maxChannel hd c ↔ Meets host maxChannel hd c := by
  rw [Inside, imascanProcTrace, List.forall_mem_append, rcvTrace_within, Meets]
  apply and_congr_right
  intro _
  cases hrcv : rcvIcpFromLink host c hd.imaplink with
  | none =>
      refine iff_of_true (by simp) fun hcomplete => ?_
      obtain ⟨links', hsome⟩ := rcv_stored hcomplete.1
      rw [hrcv] at hsome
      cases hsome
  | some r =>
      obtain ⟨links', rc⟩ := r
      obtain ⟨hlen, hv, ⟨hstored, rfl, hnum⟩ | ⟨hstored, rfl⟩⟩ := rcv_outcome hrcv h.versioned
      · by_cases hrest : hd.icpcount < intMax ∧ hd.maxicp ≤ hd.icpcount + 1 ∧ c.cfgMem = true
        · have hcomplete : Completes host hd c := ⟨hstored, hrest⟩
          simp only [le_refl, hrest, and_self, if_true, hcomplete, true_imp_iff]
          exact resultTrace_within qs hle (hlen ▸ h.size) hv fun hsize => hnum (hlen ▸ hsize)
        · refine iff_of_true ?_ fun hcomplete => absurd hcomplete.2 hrest
          simp only [hrest, and_false, if_false]
          simp
      · refine iff_of_true (by simp) fun hcomplete => absurd hcomplete.1 hstored

theorem imascanResult_perm_of_eq {cfg cfg' : ImaCfg} {links' : List PhyLink} {rc : Int}
    (h : imascanResult qs links cfg = some (links', cfg', rc)) : links'.Perm links := by
  rw [imascanResult] at h
  split at h
  · cases h
  · split at h
    · cases h
      exact .refl _
    · obtain ⟨s, hs, h⟩ := Option.bind_eq_some_iff.mp h
      obtain ⟨cfg2, _, h⟩ := Option.bind_eq_some_iff.mp h
      cases h
      exact scanResult_perm hs

theorem Sized.proc {maxChannel : Int} {o : Option ImaCfg} (h : Sized maxChannel hd)
    (hproc : imascanProc host qs hd c = some (hd', o)) : Sized maxChannel hd' := by
  obtain ⟨⟨links1, rc⟩, hrcv, hproc⟩ := Option.bind_eq_some_iff.mp hproc
  obtain ⟨hlen, hv, -⟩ := rcv_outcome hrcv h.versioned
  have hsized (hd' : Probe) (hperm : hd'.imaplink.Perm links1) : Sized maxChannel hd' :=
    ⟨by rw [hperm.length_eq, hlen, h.size], fun x hx => hv x (hperm.subset hx)⟩
  simp only at hproc
  split at hproc
  · cases hproc
    exact hsized _ (.refl _)
  split at hproc
  · cases hproc
  split at hproc
  · cases hproc
    exact hsized _ (.refl _)
  split at hproc
  · cases hproc
    exact hsized _ (.refl _)
  obtain ⟨⟨links2, cfg, rc2⟩, hres, hproc⟩ := Option.bind_eq_some_iff.mp hproc
  have hperm := imascanResult_perm_of_eq hres
  simp only at hproc
  split at hproc
  · cases hproc
    exact hsized _ hperm
  · cases hproc
    exact hsized _ hperm

theorem open_sized {maxChannel maxIcpnum : Int} (h : imascanOpen maxChannel maxIcpnum = some hd) :
    Sized maxChannel hd ∧ maxChannel ≤ maxLnkNum := by
  rw [imascanOpen] at h
  split at h
  · cases h
  · next hrange =>
      cases h
      refine ⟨⟨?_, ?_⟩, ?_⟩
      · simp only [List.length_map, List.length_range]
        omega
      · intro link hlink icp hicp
        obtain ⟨i, _, rfl⟩ := List.mem_map.mp hlink
        cases hicp
      · change maxChannel ≤ 256
        omega

/-- Whatever is opened and called, the indices of all calls of a run are inside just when every
call of it meets the condition. -/
theorem imascan_inside_iff (host : Endian) (qs : Qsort) (maxChannel maxIcpnum : Int)
    (hopen : imascanOpen maxChannel maxIcpnum = some hd) (calls : List Call) :
    Guarded (imascanProc host qs) (Inside host qs maxChannel) hd calls ↔
      Guarded (imascanProc host qs) (Meets host maxChannel) hd calls := by
  obtain ⟨hsized, hle⟩ := open_sized hopen
  have hnext (hd : Probe) (c : Call) (h : Sized maxChannel hd) :
      ∀ p, imascanProc host qs hd c = some p → Sized maxChannel p.1 := fun p hp => h.proc hp
  constructor
  · apply guarded_imp (I := Sized maxChannel) _ hsized
    exact fun hd c h hin => ⟨(inside_iff qs hle h).mp hin, hnext hd c h⟩
  · apply guarded_imp (I := Sized maxChannel) _ hsized
    exact fun hd c h hmeets => ⟨(inside_iff qs hle h).mpr hmeets, hnext hd c h⟩

theorem imascan_inside_two : Guarded (imascanProc .little insertionQsort)
      (Inside .little insertionQsort 2) ⟨0, 5, [⟨0, 0, none⟩, ⟨1, 0, none⟩]⟩ [icpCall 1 0] ↔
    Guarded (imascanProc .little insertionQsort) (Meets .little 2) ⟨0, 5, [⟨0, 0, none⟩, ⟨1, 0, none⟩]⟩
      [icpCall 1 0] :=
  imascan_inside_iff .little insertionQsort 2 5 rfl [icpCall 1 0]

/-- A table for two links takes a cell of link 2. -/
theorem third_link_outside : ¬ ∀ (maxChannel maxIcpnum : Int) (hd : Probe),
    imascanOpen maxChannel maxIcpnum = some hd → ∀ calls,
      Guarded (imascanProc .little insertionQsort) (Inside .little insertionQsort maxChannel) hd calls := by
  intro h
  have hin := (h 2 5 _ rfl [icpCall 2 0]).1
  have hmem : Access.link 2 ∈ imascanProcTrace .little insertionQsort
      ⟨0, 5, [⟨0, 0, none⟩, ⟨1, 0, none⟩]⟩ (icpCall 2 0) := List.mem_append_left _ (by decide)
  have hlt : 2 < (2 : Int).toNat := hin _ hmem
  exact absurd hlt (by decide)

end OiAmc.ImascanBounds

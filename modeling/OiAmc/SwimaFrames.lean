import OiAmc.SwimaAlign

namespace OiAmc.SwimaTrack

open SwimaLinks SwimaQueue

variable {link link' : QLink} {icp : Nat → UInt8}

def frameLength (code : UInt8) : Nat := [32, 64, 128, 256].getD code.toNat 0

def icpFrameLength (icp : Nat → UInt8) : Nat := frameLength (icp 12 &&& 0x03)

structure Tracks (link : QLink) (icp : Nat → UInt8) : Prop where
  m : link.m.toNat = icpFrameLength icp
  ifsn : link.ifsn = icpIfsn icp
  offset : link.offset = icpOff icp

/-- The link is one cell ahead of the ICP cell, and either a filler is taken back from a
link that differs from the cell in more than that, or a freed cell is looked at. -/
def RepairFails (link : QLink) (icp : Nat → UInt8) : Prop :=
  link.offset.toNat = (icpOff icp).toNat + 1 ∧
    ((∃ qcell, link.queue.getLast? = some qcell ∧ qcell.type = .filler ∧
        (link.m ≠ icpM icp ∨ link.ifsn ≠ icpIfsn icp)) ∨
      link.queue = [] ∧ link.stale = true)

theorem code_lt (icp : Nat → UInt8) : (icp 12 &&& 0x03).toNat < 4 := by
  rw [UInt8.toNat_and]
  exact Nat.lt_of_le_of_lt Nat.and_le_right (by decide)

theorem frameLength_cases {code : UInt8} (h : code.toNat < 4) :
    frameLength code = 32 ∨ frameLength code = 64 ∨ frameLength code = 128 ∨
      frameLength code = 256 := by
  unfold frameLength
  generalize code.toNat = n at h
  revert n
  decide

theorem imaM_toNat_iff {code : UInt8} (h : code.toNat < 4) :
    (imaM code).toNat = frameLength code ↔ frameLength code ≠ 256 := by
  have hm : imaM code = UInt8.ofNat (frameLength code) := rfl
  rw [hm, UInt8.toNat_ofNat']
  rcases frameLength_cases h with h | h | h | h <;> rw [h] <;> decide

theorem tracks_iff_same (link : QLink) (icp : Nat → UInt8) :
    Tracks link icp ↔ icpFrameLength icp ≠ 256 ∧ ¬ link.Differs icp := by
  have hm := imaM_toNat_iff (code_lt icp)
  constructor
  · intro h
    have hlength : icpFrameLength icp ≠ 256 := fun h' => absurd (h.m.trans h') (by
      have hlt := link.m.toNat_lt
      omega)
    refine ⟨hlength, ?_⟩
    rintro (hd | hd | hd)
    · exact hd (UInt8.toNat_inj.mp (h.m.trans (hm.mpr hlength).symm))
    · exact hd h.ifsn
    · exact hd h.offset
  · rintro ⟨hlength, hsame⟩
    simp only [LinkArgs.Differs, not_or, not_not] at hsame
    refine ⟨?_, hsame.2.1, hsame.2.2⟩
    rw [hsame.1]
    exact hm.mpr hlength

theorem reset_same (link : QLink) (icp : Nat → UInt8) : ¬ (link.reset icp).Differs icp := by
  simp [LinkArgs.Differs, QLink.reset, LinkArgs.resync]

theorem checkImaLink_same (h : ¬ link.checked icp = .unusable) :
    checkImaLink link icp = some link ∧ ¬ link.Differs icp := by
  refine ⟨if_neg h, fun hd => h (if_pos hd)⟩

theorem checkImaLink_apart (h : link.checked icp = .unusable)
    (ho : ¬ link.offset.toNat = (icpOff icp).toNat + 1) :
    checkImaLink link icp = some (link.reset icp) := by
  rw [checkImaLink, if_pos h, if_neg ho]

theorem unusable_of_ahead (ho : link.offset.toNat = (icpOff icp).toNat + 1) :
    link.checked icp = .unusable := by
  refine if_pos (Or.inr (Or.inr fun he => ?_))
  rw [he] at ho
  omega

theorem some_tracks_iff {link' : QLink} (h : checkImaLink link icp = some link') :
    (∃ l, checkImaLink link icp = some l ∧ Tracks l icp) ↔ Tracks link' icp := by
  simp only [h, Option.some.injEq, exists_eq_left']

theorem tracks_ahead_iff (ho : link.offset.toNat = (icpOff icp).toNat + 1) :
    (∃ link', checkImaLink link icp = some link' ∧ Tracks link' icp) ↔
      icpFrameLength icp ≠ 256 ∧ ¬ RepairFails link icp := by
  have hu := unusable_of_ahead ho
  have hreset := (tracks_iff_same (link.reset icp) icp).trans
    (and_iff_left (reset_same link icp))
  cases hq : link.queue.getLast? with
  | none =>
      have hnil := List.getLast?_eq_none_iff.mp hq
      cases hs : link.stale with
      | true =>
          have hcheck : checkImaLink link icp = none := by
            simp only [checkImaLink, hu, ho, hq, hs, ↓reduceIte]
          have hfails : RepairFails link icp := ⟨ho, Or.inr ⟨hnil, hs⟩⟩
          simp [hcheck, hfails]
      | false =>
          have hcheck : checkImaLink link icp = some (link.reset icp) := by
            simp only [checkImaLink, hu, ho, hq, hs, Bool.false_eq_true, ↓reduceIte]
          have hfine : ¬ RepairFails link icp := by
            rintro ⟨_, ⟨_, h, _⟩ | ⟨_, h⟩⟩
            · rw [hq] at h
              cases h
            · rw [hs] at h
              cases h
          rw [some_tracks_iff hcheck, hreset, and_iff_left hfine]
  | some qcell =>
      have hne : link.queue ≠ [] := fun h => by simp [h] at hq
      by_cases hf : qcell.type = .filler
      · have hcheck : checkImaLink link icp = some
            { link with offset := icpOff icp, queue := link.queue.dropLast, stale := false } := by
          simp only [checkImaLink, hu, ho, hq, hf, ↓reduceIte]
        rw [some_tracks_iff hcheck, tracks_iff_same]
        apply and_congr_right
        intro _
        simp [LinkArgs.Differs, RepairFails, ho, hq, hf, hne]
      · have hcheck : checkImaLink link icp = some (link.reset icp) := by
          simp only [checkImaLink, hu, ho, hq, hf, ↓reduceIte]
        have hfine : ¬ RepairFails link icp := by
          rintro ⟨_, ⟨q, h, hfiller, _⟩ | ⟨h, _⟩⟩
          · obtain rfl := Option.some.inj (hq.symm.trans h)
            exact hf hfiller
          · exact hne h
        rw [some_tracks_iff hcheck, hreset, and_iff_left hfine]

/-- An ICP cell leaves a link with its own M, IFSN and offset exactly when its M fits in an
unsigned char and the repair of an offset that is one ahead does not fail. -/
theorem tracks_iff (link : QLink) (icp : Nat → UInt8) :
    (∃ link', checkImaLink link icp = some link' ∧ Tracks link' icp) ↔
      icpFrameLength icp ≠ 256 ∧ ¬ RepairFails link icp := by
  by_cases ho : link.offset.toNat = (icpOff icp).toNat + 1
  · exact tracks_ahead_iff ho
  have hfine : ¬ RepairFails link icp := fun h => ho h.1
  rw [and_iff_left hfine]
  by_cases hu : link.checked icp = .unusable
  · rw [some_tracks_iff (checkImaLink_apart hu ho), tracks_iff_same]
    exact and_iff_left (reset_same link icp)
  · obtain ⟨hcheck, hsame⟩ := checkImaLink_same hu
    rw [some_tracks_iff hcheck, tracks_iff_same]
    exact and_iff_left hsame

/-- A usable link of frame length 32, a cell ahead, behind a filler. -/
def aheadLink : QLink where
  status := .usable
  m := 32
  icp := 1
  ifsn := 5
  offset := 9
  channel := 0
  queue := [⟨.filler, 5, 8, ⟨53, 0, fun _ => 0⟩⟩]
  stale := false

/-- An ICP cell of frame length 64. -/
def longerFrame (i : Nat) : UInt8 :=
  [0, 0, 0, 0x0b, 0x64, 0x01, 0x80, 7, 8, 0, 0, 0, 1].getD i 0

theorem repair_keeps_frame :
    ¬ ∃ link', checkImaLink aheadLink longerFrame = some link' ∧ Tracks link' longerFrame := by
  rintro ⟨link', h, ht⟩
  obtain rfl := Option.some.inj h
  exact absurd ht.ifsn (by decide)

end OiAmc.SwimaTrack

namespace OiAmc.SwimaFrames

open PartialMachine SwimaLinks SwimaQueue SwimaAlign SwimaTrack

variable {link link' : QLink} {pkt : Pkt} {ima ima' : QProcess} {a : UInt8}

/-- What happens to a link: a cell is written to it, or it is aligned or read. -/
inductive LinkCall
  | write (pkt : Pkt)
  | rest (status : Status) (queue : List QCell) (stale : Bool)

/-- An ICP cell that follows another one in the same frame: it is dropped. -/
def Stuffed (link : QLink) (pkt : Pkt) : Prop := cellType pkt.data = .icp ∧ 1 < link.icp + 1

instance (link : QLink) (pkt : Pkt) : Decidable (Stuffed link pkt) :=
  inferInstanceAs (Decidable (_ ∧ _))

def counted (link : QLink) : QLink := { link with icp := link.icp + 1 }

/-- The outputs are the positions that are given to the cells. -/
def linkStep (link : QLink) : LinkCall → Option (QLink × Option (Nat × Nat))
  | .write pkt => (writeCell link pkt).map fun link' =>
      (link', if Stuffed link pkt then none else link'.queue.getLast?.map QCell.pos)
  | .rest status queue stale =>
      some ({ link with status := status, queue := queue, stale := stale }, none)

def NoResync (link : QLink) : LinkCall → Prop
  | .write pkt => cellType pkt.data = .icp → ¬ Stuffed link pkt →
      checkImaLink (counted link) pkt.data = some (counted link)
  | .rest _ _ _ => True

/-- The position of the k-th cell after one with a given position. -/
def framePos (m ifsn offset k : Nat) : Nat × Nat :=
  ((ifsn + (offset + k) / m) % 256, (offset + k) % m)

def linkPos (link : QLink) : Nat × Nat := (link.ifsn.toNat, link.offset.toNat)

/-- The cells written to a link are counted modulo 256 frames of a given length. -/
def CountsFrames (m : Nat) (link : QLink) : Prop :=
  ∀ calls t os, Guarded linkStep NoResync link calls → run linkStep link calls = some (t, os) →
    ∀ k pos, (os.filterMap id)[k]? = some pos →
      pos = framePos m link.ifsn.toNat link.offset.toNat k

theorem written (link : QLink) (pkt : Pkt) :
    (advance (addLinkCell link (cellType pkt.data) pkt)).queue.getLast?.map QCell.pos =
      some (linkPos link) := by
  simp [advance, addLinkCell, QCell.pos, linkPos]

theorem linkStep_write (hsync : NoResync link (.write pkt)) :
    (Stuffed link pkt ∧ linkStep link (.write pkt) = some (counted link, none)) ∨
      ¬ Stuffed link pkt ∧ ∃ icp : UInt8, linkStep link (.write pkt) =
        some (advance (addLinkCell { link with icp := icp } (cellType pkt.data) pkt),
          some (linkPos link)) := by
  by_cases hs : Stuffed link pkt
  · refine Or.inl ⟨hs, ?_⟩
    have hwrite : writeCell link pkt = some (counted link) := by
      rw [writeCell, if_pos hs.1]
      exact if_pos hs.2
    simp only [linkStep, hwrite, Option.map_some, if_pos hs]
  · refine Or.inr ⟨hs, ?_⟩
    by_cases hicp : cellType pkt.data = .icp
    · have hone : ¬ 1 < link.icp + 1 := fun h => hs ⟨hicp, h⟩
      have hcheck := hsync hicp hs
      have hwrite : writeCell link pkt =
          some (advance (addLinkCell (counted link) (cellType pkt.data) pkt)) := by
        rw [writeCell, if_pos hicp]
        simp only [if_neg hone]
        rw [← counted, hcheck]
        rfl
      refine ⟨link.icp + 1, ?_⟩
      simp only [linkStep, hwrite, Option.map_some, if_neg hs, written]
      rfl
    · have hwrite : writeCell link pkt =
          some (advance (addLinkCell link (cellType pkt.data) pkt)) := by
        rw [writeCell, if_neg hicp]
      refine ⟨link.icp, ?_⟩
      simp only [linkStep, hwrite, Option.map_some, if_neg hs, written]

theorem setLinkArg_m (args : LinkArgs) : (setLinkArg args).m = args.m := by
  rw [setLinkArg]
  split <;> rfl

theorem next_ifsn (ifsn : UInt8) :
    (if ifsn < 255 then ifsn + 1 else 0).toNat = (ifsn.toNat + 1) % 256 := by
  have hi := ifsn.toNat_lt
  split
  · rw [UInt8.toNat_add, UInt8.toNat_one]
  · next h =>
      have h := UInt8.le_iff_toNat_le.mp (UInt8.not_lt.mp h)
      simp only [UInt8.reduceToNat] at h ⊢
      omega

theorem setLinkArg_framePos {m ifsn offset n : Nat} {args : LinkArgs}
    (hm : args.m.toNat = m) (hpos : 0 < m)
    (h : (args.ifsn.toNat, args.offset.toNat) = framePos m ifsn offset n) :
    ((setLinkArg args).ifsn.toNat, (setLinkArg args).offset.toNat) =
      framePos m ifsn offset (n + 1) := by
  obtain ⟨hi, ho⟩ := Prod.mk.inj h
  have hlt : args.offset.toNat < m := ho ▸ Nat.mod_lt _ hpos
  have hm' := args.m.toNat_lt
  have hi' := args.ifsn.toNat_lt
  have hadd : (args.offset + 1).toNat = args.offset.toNat + 1 := by
    rw [UInt8.toNat_add, UInt8.toNat_one]
    exact Nat.mod_eq_of_lt (by omega)
  have hdm := Nat.div_add_mod (offset + n) m
  by_cases hwrap : args.m ≤ args.offset + 1
  · have hend : args.offset.toNat + 1 = m := by
      have := UInt8.le_iff_toNat_le.mp hwrap
      omega
    have hsucc : offset + (n + 1) = m * ((offset + n) / m + 1) := by
      rw [Nat.mul_add_one]
      omega
    have hdiv : (offset + (n + 1)) / m = (offset + n) / m + 1 := by
      rw [hsucc, Nat.mul_div_cancel_left _ hpos]
    have hmod : (offset + (n + 1)) % m = 0 := by rw [hsucc, Nat.mul_mod_right]
    rw [framePos, hdiv, hmod, setLinkArg, if_pos hwrap]
    refine Prod.ext ((next_ifsn _).trans ?_) rfl
    rw [hi, ← Nat.add_assoc]
    exact Nat.mod_add_mod _ _ _
  · have hmid : args.offset.toNat + 1 < m := by
      have := UInt8.lt_iff_toNat_lt.mp (UInt8.not_le.mp hwrap)
      omega
    have hsucc : offset + (n + 1) = m * ((offset + n) / m) + (args.offset.toNat + 1) := by omega
    have hdiv : (offset + (n + 1)) / m = (offset + n) / m := by
      rw [hsucc, Nat.mul_add_div hpos, Nat.div_eq_of_lt hmid, Nat.add_zero]
    have hmod : (offset + (n + 1)) % m = args.offset.toNat + 1 := by
      rw [hsucc, Nat.mul_add_mod, Nat.mod_eq_of_lt hmid]
    rw [framePos, hdiv, hmod, setLinkArg, if_neg hwrap, hi, hadd]

theorem run_positions {m ifsn offset : Nat} (hpos : 0 < m) {calls : List LinkCall} {t : QLink}
    {os : List (Option (Nat × Nat))} {n : Nat} (h : run linkStep link calls = some (t, os))
    (hm : link.m.toNat = m) (hlink : linkPos link = framePos m ifsn offset n)
    (hsync : Guarded linkStep NoResync link calls) (k : Nat) (pos : Nat × Nat)
    (hk : (os.filterMap id)[k]? = some pos) : pos = framePos m ifsn offset (n + k) := by
  induction calls generalizing link n os k with
  | nil =>
      obtain ⟨_, rfl⟩ := Prod.mk.inj (Option.some.inj h)
      simp at hk
  | cons call calls ih =>
      obtain ⟨link', o, os', hstep, hrun, rfl⟩ := run_cons.mp h
      have hrest := hsync.2 _ hstep
      cases call with
      | rest status queue stale =>
          obtain ⟨rfl, rfl⟩ := Prod.mk.inj (Option.some.inj hstep)
          exact ih hrun hm hlink hrest k hk
      | write pkt =>
          obtain ⟨_, hw⟩ | ⟨_, icp, hw⟩ := linkStep_write hsync.1
          · obtain ⟨rfl, rfl⟩ := Prod.mk.inj (Option.some.inj (hstep.symm.trans hw))
            exact ih hrun hm hlink hrest k hk
          · obtain ⟨rfl, rfl⟩ := Prod.mk.inj (Option.some.inj (hstep.symm.trans hw))
            rw [List.filterMap_cons_some (f := id) rfl] at hk
            cases k with
            | zero => exact (Option.some.inj hk).symm.trans hlink
            | succ k =>
                rw [List.getElem?_cons_succ] at hk
                have hnext := ih hrun ((setLinkArg_m _).symm ▸ hm)
                  (setLinkArg_framePos hm hpos hlink) hrest k hk
                rw [hnext, Nat.add_right_comm, Nat.add_assoc]

def atmPkt : Pkt := ⟨53, 0, fun _ => 1⟩

theorem noResync_atm (link : QLink) : NoResync link (.write atmPkt) :=
  fun h => absurd h (by decide)

theorem setLinkArg_zero {args : LinkArgs} (hm : args.m = 0) :
    (setLinkArg args).ifsn.toNat = (args.ifsn.toNat + 1) % 256 ∧ (setLinkArg args).offset = 0 := by
  have hend : args.m ≤ args.offset + 1 := by
    rw [hm, UInt8.le_iff_toNat_le]
    exact Nat.zero_le _
  rw [setLinkArg, if_pos hend]
  exact ⟨next_ifsn _, rfl⟩

theorem linkStep_atm (hm : link.m = 0) :
    ∃ link', linkStep link (.write atmPkt) = some (link', some (linkPos link)) ∧ link'.m = 0 ∧
      linkPos link' = ((link.ifsn.toNat + 1) % 256, 0) := by
  obtain ⟨hs, _⟩ | ⟨_, icp, h⟩ := linkStep_write (noResync_atm link)
  · exact absurd hs.1 (by decide)
  · obtain ⟨hifsn, hoffset⟩ := @setLinkArg_zero { link.toLinkArgs with icp := icp } hm
    exact ⟨_, h, (setLinkArg_m _).trans hm, Prod.ext hifsn (congrArg UInt8.toNat hoffset)⟩

theorem not_countsFrames_longest (hm : link.m = 0) : ¬ CountsFrames 256 link := by
  intro h
  obtain ⟨link1, h1, hm1, hp1⟩ := linkStep_atm hm
  obtain ⟨link2, h2, hm2, hp2⟩ := linkStep_atm hm1
  obtain ⟨link3, h3, _⟩ := linkStep_atm hm2
  have hrun : run linkStep link [.write atmPkt, .write atmPkt, .write atmPkt] =
      some (link3, [some (linkPos link), some (linkPos link1), some (linkPos link2)]) := by
    simp only [run, h1, h2, h3, Option.bind_some, Option.map_some]
  have hsync : Guarded linkStep NoResync link [.write atmPkt, .write atmPkt, .write atmPkt] :=
    ⟨noResync_atm _, fun _ _ => ⟨noResync_atm _, fun _ _ => ⟨noResync_atm _, fun _ _ => trivial⟩⟩⟩
  have hthird := h _ _ _ hsync hrun 2 (linkPos link2) rfl
  obtain ⟨hi1, _⟩ := Prod.mk.inj hp1
  rw [hp2, hi1, framePos] at hthird
  obtain ⟨hifsn, hoffset⟩ := Prod.mk.inj hthird
  have hi := link.ifsn.toNat_lt
  have ho := link.offset.toNat_lt
  omega

/-- The cells of a link are counted modulo 256 frames exactly when its frame length fits in
an unsigned char. -/
theorem countsFrames_iff (link : QLink) (code : UInt8) (hcode : code.toNat < 4)
    (hm : link.m = imaM code) (hoffset : link.offset.toNat < frameLength code) :
    CountsFrames (frameLength code) link ↔ frameLength code ≠ 256 := by
  constructor
  · intro h hlong
    rw [hlong] at h
    refine not_countsFrames_longest ?_ h
    rw [hm, show imaM code = UInt8.ofNat (frameLength code) from rfl, hlong]
    rfl
  · intro hshort calls t os hsync hrun k pos hk
    have hlength := (imaM_toNat_iff hcode).mpr hshort
    rw [← hm] at hlength
    have hstart : linkPos link = framePos (frameLength code) link.ifsn.toNat link.offset.toNat 0 := by
      have hi := link.ifsn.toNat_lt
      rw [framePos, Nat.add_zero, Nat.div_eq_of_lt hoffset, Nat.mod_eq_of_lt hoffset, Nat.add_zero,
        Nat.mod_eq_of_lt hi]
      rfl
    have h := run_positions (Nat.zero_lt_of_lt hoffset) hrun hlength hstart hsync k pos hk
    rwa [Nat.zero_add] at h

def syncedLink (m : UInt8) : QLink := ⟨⟨.usable, m, 1, 250, 30, 0⟩, [], false⟩

theorem countsFrames_iff_shortest :
    CountsFrames (frameLength 0) (syncedLink 32) ↔ frameLength 0 ≠ 256 :=
  countsFrames_iff (syncedLink 32) 0 (by decide) rfl (by decide)

theorem longest_frame_miscounted :
    ¬ ∀ link : QLink, ∀ code : UInt8, code.toNat < 4 → link.m = imaM code →
      link.offset.toNat < frameLength code → CountsFrames (frameLength code) link :=
  fun h => @not_countsFrames_longest (syncedLink 0) rfl
    (h (syncedLink 0) 3 (by decide) rfl (by decide))

def Rested (link link' : QLink) : Prop :=
  ∃ status queue stale, link' = { link with status := status, queue := queue, stale := stale }

theorem Rested.refl (link : QLink) : Rested link link := ⟨_, _, _, rfl⟩

theorem Rested.trans {l1 l2 l3 : QLink} (h : Rested l1 l2) (h' : Rested l2 l3) : Rested l1 l3 := by
  obtain ⟨_, _, _, rfl⟩ := h
  obtain ⟨status, queue, stale, rfl⟩ := h'
  exact ⟨status, queue, stale, rfl⟩

theorem alignGroup_rested (s : QProcess × Nat × Nat) (i : Nat) (a : UInt8) :
    Rested (s.1.link a) ((alignGroup s i).1.link a) := by
  by_cases h : Aligns s.1 i
  · rw [(alignGroup_eq h).2.2, groupAligning_link]
    split
    · exact ⟨_, _, _, rfl⟩
    · exact Rested.refl _
  · rw [alignGroup_skip h]
    exact Rested.refl _

theorem aligning_rested (ima : QProcess) (a : UInt8) :
    Rested (ima.link a) ((aligning ima).link a) := by
  rw [aligning]
  generalize ima.gnum = n
  induction n with
  | zero => exact Rested.refl _
  | succ n ih =>
      rw [alignBefore_succ]
      exact ih.trans (alignGroup_rested _ n a)

theorem readGroupCell_rested (ima : QProcess) (a : UInt8) :
    Rested (ima.link a) ((readGroupCell ima).1.link a) := by
  rw [readGroupCell]
  simp only
  split
  · exact Rested.refl _
  · split
    · exact Rested.refl _
    · rw [setLink_link]
      by_cases ha : a = (ima.group ima.gseq).links (ima.group ima.gseq).lseq.toNat
      · rw [← ha, Function.update_self]
        exact ⟨_, _, _, rfl⟩
      · rw [Function.update_of_ne ha]
        exact Rested.refl _

def LinkCall.cell : LinkCall → Option Pkt
  | .write pkt => some pkt
  | .rest _ _ _ => none

def cellFor (a : UInt8) (call : ProcCall) : Option Pkt :=
  (accepted call).filter fun pkt => pkt.channel.toUInt8 = a

theorem swimaProc_link {call : ProcCall} {out : Option Pkt}
    (h : swimaProc ima call = some (ima', out)) (a : UInt8) :
    ∃ lcalls os, run linkStep (ima.link a) lcalls = some (ima'.link a, os) ∧
      lcalls.filterMap LinkCall.cell = (cellFor a call).toList := by
  obtain ⟨mid, hwrite, hread⟩ := Option.bind_eq_some_iff.mp h
  have hrest : Rested (mid.link a) (ima'.link a) :=
    @readLoop_preserves _ (fun ima => Rested (mid.link a) (ima.link a)) (fun _ h => h)
      (fun _ h => h.trans (readGroupCell_rested _ a)) _ _ _ _ (aligning_rested mid a) hread
  obtain ⟨status, queue, stale, hrest⟩ := hrest
  have hlast : run linkStep (mid.link a) [.rest status queue stale] =
      some (ima'.link a, [none]) := by
    rw [hrest]
    rfl
  have halone (hmid : mid.link a = ima.link a) (hnone : cellFor a call = none) :
      ∃ lcalls os, run linkStep (ima.link a) lcalls = some (ima'.link a, os) ∧
        lcalls.filterMap LinkCall.cell = (cellFor a call).toList :=
    ⟨[.rest status queue stale], [none], hmid ▸ hlast, by rw [hnone]; rfl⟩
  rw [writeLinkCell] at hwrite
  cases hacc : accepted call with
  | none =>
      simp only [hacc] at hwrite
      obtain rfl := Option.some.inj hwrite
      exact halone rfl (by rw [cellFor, hacc]; rfl)
  | some pkt =>
      simp only [hacc] at hwrite
      obtain ⟨link', hcell, rfl⟩ := Option.map_eq_some_iff.mp hwrite
      by_cases ha : pkt.channel.toUInt8 = a
      · subst ha
        rw [setLink_link, Function.update_self] at hlast
        have hstep := congrArg (Option.map fun l =>
          (l, if Stuffed (ima.link pkt.channel.toUInt8) pkt then none
            else l.queue.getLast?.map QCell.pos)) hcell
        refine ⟨[.write pkt, .rest status queue stale], _,
          run_cons.mpr ⟨link', _, _, hstep, hlast, rfl⟩, ?_⟩
        rw [cellFor, hacc, Option.filter, if_pos (decide_eq_true rfl)]
        rfl
      · apply halone
        · rw [setLink_link, Function.update_of_ne (Ne.symm ha)]
        · rw [cellFor, hacc, Option.filter, if_neg (by simpa using ha)]

theorem swimaProc_run_link {calls : List ProcCall} {outs : List (Option Pkt)}
    (h : run swimaProc ima calls = some (ima', outs)) (a : UInt8) :
    ∃ lcalls os, run linkStep (ima.link a) lcalls = some (ima'.link a, os) ∧
      lcalls.filterMap LinkCall.cell = calls.filterMap (cellFor a) := by
  induction calls generalizing ima outs with
  | nil =>
      obtain ⟨rfl, _⟩ := Prod.mk.inj (Option.some.inj h)
      exact ⟨[], [], rfl, rfl⟩
  | cons call calls ih =>
      obtain ⟨mid, o, outs', hstep, hrun, rfl⟩ := run_cons.mp h
      obtain ⟨l1, os1, h1, hc1⟩ := swimaProc_link hstep a
      obtain ⟨l2, os2, h2, hc2⟩ := ih hrun
      refine ⟨l1 ++ l2, os1 ++ os2, run_append h1 h2, ?_⟩
      rw [List.filterMap_append, hc1, hc2, List.filterMap_cons]
      cases cellFor a call <;> rfl

end OiAmc.SwimaFrames

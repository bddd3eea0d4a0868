import OiAmc.PartialLists
import OiAmc.PartialMachine
import OiAmc.Swtc

namespace OiAmc.SwtcBuffer

open PartialLists PartialMachine ByteBuffer GotoLoop Swtc

variable {ch ch' : Channel} {hd : Handle} {buffer : Nat → UInt8} {buf size p data offset n : Nat}
  {descr : Bool}

structure InBuffer (ch : Channel) : Prop where
  data_lt : ch.data < npvImaBuffLen
  len_le : ch.data + ch.len ≤ npvImaBuffLen

def Inside (hd : Handle) : Prop := ∀ k < hd.chnum, InBuffer (hd.ch k)

theorem Inside.setCh (h : Inside hd) (hch : InBuffer ch) (k : Nat) : Inside (hd.setCh k ch) := by
  intro j hj
  rw [Handle.setCh]
  by_cases hk : j = k
  · subst hk
    simpa only [Function.update_self] using hch
  · simpa only [Function.update_of_ne hk] using h j hj

theorem headerErr_total (buffer : Nat → UInt8) (h : p + 5 ≤ npvImaBuffLen) : ∃ err, headerErr buffer p = some err := by
  rw [headerErr, view_of_le h]
  exact ⟨_, rfl⟩

/-- The search for a header stays among the octets it is given, and ends before the
last five of them when it succeeds. -/
theorem swtcHunt_spec (buffer : Nat → UInt8) (h : buf + size ≤ npvImaBuffLen) (offset : Nat) :
    ∃ rc k, swtcHunt buffer buf size offset = some (rc, offset + k) ∧ k ≤ size ∧
      (rc = true → k + 5 ≤ size) := by
  fun_induction swtcHunt buffer buf size offset with
  | case1 buf size offset ih =>
      obtain ⟨err, herr⟩ := headerErr_total buffer (show buf + 5 ≤ _ by omega)
      obtain ⟨rc, k, hk, hle, hrc⟩ := ih (by omega)
      rw [herr]
      by_cases he : 0 ≤ err
      · refine ⟨rc, k + 1, ?_, by omega, fun h => by have := hrc h; omega⟩
        simp only [Option.bind_eq_bind, Option.bind_some, if_pos he, hk]
        rw [Nat.add_right_comm, Nat.add_assoc]
      · exact ⟨true, 0, by simp [he], by omega, fun _ => by omega⟩
  | case2 => exact ⟨false, 0, rfl, by omega, by simp⟩

theorem swtcHuntInCell_spec (buffer : Nat → UInt8) {is : List Nat} (h : ∀ i ∈ is, data + i + 5 ≤ npvImaBuffLen) :
    ∃ r, swtcHuntInCell buffer data is = some r ∧ ∀ i, r = some i → i ∈ is := by
  induction is with
  | nil => exact ⟨none, rfl, by simp⟩
  | cons i is ih =>
      obtain ⟨err, herr⟩ := headerErr_total buffer (h i List.mem_cons_self)
      obtain ⟨r, hr, hmem⟩ := ih fun j hj => h j (List.mem_cons_of_mem i hj)
      rw [swtcHuntInCell, herr]
      by_cases he : 0 ≤ err
      · exact ⟨r, by simp [he, hr], fun j hj => List.mem_cons_of_mem i (hmem j hj)⟩
      · exact ⟨some i, by simp [he], by simp⟩

theorem resyncRound_spec (buffer : Nat → UInt8) (h : data + 163 ≤ npvImaBuffLen) (ho : 1 ≤ offset) :
    Round (resyncRound buffer data) (fun o => 1 ≤ o) (fun r => ∀ o, r = some o → 1 ≤ o ∧ o < 53)
      (fun o => 53 - o) offset := by
  by_cases hlt : offset < 53
  · obtain ⟨r, hr, hmem⟩ := @swtcHuntInCell_spec data buffer
      (List.range' offset (53 - offset)) fun i hi => by
        rw [List.mem_range'_1] at hi
        omega
    cases r with
    | none => exact .inr ⟨none, by simp [resyncRound, hlt, hr], by simp⟩
    | some o =>
        obtain ⟨hle, ho53⟩ := List.mem_range'_1.mp (hmem o rfl)
        obtain ⟨e1, h1⟩ := headerErr_total buffer (show data + o + 53 + 5 ≤ _ by omega)
        obtain ⟨e2, h2⟩ := headerErr_total buffer (show data + o + 53 + 53 + 5 ≤ _ by omega)
        by_cases hbad : 0 ≤ e1 ∨ 0 ≤ e2
        · refine .inl ⟨o + 1, ?_, by omega, show 53 - (o + 1) < 53 - offset by omega⟩
          rcases hbad with hb | hb
          · simp [resyncRound, hlt, hr, h1, hb]
          · simp [resyncRound, hlt, hr, h1, h2, hb]
        · push Not at hbad
          refine .inr ⟨some o, ?_, fun o' ho' => ?_⟩
          · simp [resyncRound, hlt, hr, h1, h2, not_le.mpr hbad.1, not_le.mpr hbad.2]
          · cases ho'
            omega
  · exact .inr ⟨none, by simp [resyncRound, hlt], by simp⟩

theorem descramble_spec (h : ch.data + 53 ≤ npvImaBuffLen) :
    ∃ ch', descramble ch = some ch' ∧ ch'.data = ch.data ∧ ch'.len = ch.len := by
  refine foldlM_sim (g := fun (_ : Unit) _ => ()) (t := ())
    (R := fun (ch' : Channel) _ => ch'.data = ch.data ∧ ch'.len = ch.len) (List.range 12) ?_ ⟨rfl, rfl⟩
  rintro ch' _ i hi ⟨hdata, hlen⟩
  have hi12 := List.mem_range.mp hi
  have hp : ch'.data + 5 + 4 * i + 4 ≤ npvImaBuffLen := by omega
  simp only [descrambleAt, view_of_le hp, store_of_le hp, Option.map_some, Option.bind_eq_bind,
    Option.bind_some, Option.pure_def]
  exact ⟨_, rfl, hdata, hlen⟩

theorem swtcReturnCell_spec (descr alloc : Bool) (h : ch.data + 53 ≤ npvImaBuffLen) :
    ∃ ch' ph, swtcReturnCell descr alloc ch = some (ch', ph) ∧ ch'.data = ch.data + 53 ∧
      ch'.len = ch.len - 53 := by
  rw [swtcReturnCell]
  by_cases hf : ch.firsttime ≠ 0
  · simp only [if_pos hf, view_of_le h, Option.bind_eq_bind, Option.bind_some, Option.pure_def]
    exact ⟨_, _, rfl, rfl, rfl⟩
  · cases descr with
    | false =>
        simp only [if_neg hf, Bool.false_eq_true, if_false, view_of_le h, Option.bind_eq_bind,
          Option.bind_some, Option.pure_def]
        exact ⟨_, _, rfl, rfl, rfl⟩
    | true =>
        obtain ⟨ch', hch, hdata, hlen⟩ := descramble_spec h
        rw [← hdata] at h
        simp only [if_neg hf, if_true, hch, view_of_le h, Option.bind_eq_bind, Option.bind_some,
          Option.pure_def]
        exact ⟨_, _, rfl, by rw [Channel.skip, hdata], by rw [Channel.skip, hlen]⟩

theorem npvImaBuffLen_pos : 0 < npvImaBuffLen := by decide

theorem rebase_spec (h : ch.data + ch.len ≤ npvImaBuffLen) :
    ∃ ch', ch.rebase = some ch' ∧ InBuffer ch' := by
  have h0 : 0 + ch.len ≤ npvImaBuffLen := by omega
  rw [Channel.rebase]
  split
  · simp only [view_of_le h, store_of_le h0, Option.bind_eq_bind, Option.bind_some, Option.pure_def]
    exact ⟨_, rfl, npvImaBuffLen_pos, h0⟩
  · exact ⟨_, rfl, npvImaBuffLen_pos, h0⟩

theorem InBuffer.skip (h : InBuffer ch) (hn : n < ch.len) : InBuffer (ch.skip n) := by
  have hlen := h.len_le
  constructor
  · show ch.data + n < npvImaBuffLen
    omega
  · show ch.data + n + (ch.len - n) ≤ npvImaBuffLen
    omega

theorem InBuffer.refuse (h : InBuffer ch) : InBuffer ch.refuse := ⟨h.data_lt, h.len_le⟩

section blocks

variable {alloc : Nat → Bool} {rcc rcn : Int}

theorem procHunt_pass (hs : ch.stat ≠ .hunt) :
    procStep descr alloc (.hunt, ch) = some (.inl (.popCell, ch)) := by
  rw [procStep, procHunt, if_neg hs]

theorem procHunt_found (hs : ch.stat = .hunt)
    (hk : swtcHunt ch.buffer ch.data ch.len 0 = some (true, n)) :
    procStep descr alloc (.hunt, ch) = some (.inl (.popCell, ch.synced n)) := by
  rw [procStep, procHunt, if_pos hs, hk]
  rfl

theorem procHunt_error (hs : ch.stat = .hunt) (he : ch.errStat = errorState)
    (hk : swtcHunt ch.buffer ch.data ch.len 0 = some (false, n)) :
    procStep descr alloc (.hunt, ch) = some (.inr (ch, none)) := by
  rw [procStep, procHunt, if_pos hs, hk]
  simp only [Option.bind_eq_bind, Option.bind_some, Bool.false_eq_true, if_false, if_pos he, Option.pure_def]

theorem procHunt_lost (hs : ch.stat = .hunt) (he : ch.errStat ≠ errorState)
    (hk : swtcHunt ch.buffer ch.data ch.len 0 = some (false, n)) :
    procStep descr alloc (.hunt, ch) =
      (ch.skip n).rebase.map fun ch => .inr (ch.stillSyncing, none) := by
  rw [procStep, procHunt, if_pos hs, hk]
  simp only [Option.bind_eq_bind, Option.bind_some, Bool.false_eq_true, if_false, if_neg he]

theorem procPopCell_rest (h163 : ¬ 163 < ch.len) :
    procStep descr alloc (.popCell, ch) = ch.rebase.map fun ch => .inr (ch, none) := by
  rw [procStep, procPopCell, if_neg h163]

variable (h163 : 163 < ch.len) (hrcc : headerErr ch.buffer ch.data = some rcc)
  (hrcn : headerErr ch.buffer (ch.data + 53) = some rcn)

include h163 hrcc hrcn

theorem procPopCell_unsync (hc : 0 ≤ rcc) :
    procStep descr alloc (.popCell, ch) =
      some (.inl (.hunt, { ch.skip 1 with stat := .hunt })) := by
  rw [procStep, procPopCell, if_pos h163, hrcc, hrcn]
  simp only [Option.bind_eq_bind, Option.bind_some, if_pos hc, Option.pure_def]

theorem procPopCell_return (hc : ¬ 0 ≤ rcc) (hn : ¬ 0 ≤ rcn) :
    procStep descr alloc (.popCell, ch) = procReturn descr alloc ch := by
  rw [procStep, procPopCell, if_pos h163, hrcc, hrcn]
  simp only [Option.bind_eq_bind, Option.bind_some, if_neg hc, if_neg hn]

theorem procPopCell_resync {r : Option Nat} (hc : ¬ 0 ≤ rcc) (hn : 0 ≤ rcn)
    (hr : loop (resyncRound ch.buffer ch.data) 53 1 = some r) :
    procStep descr alloc (.popCell, ch) =
      r.elim (procReturn descr alloc ch) fun offset => some (.inl (.popCell, ch.skip offset)) := by
  rw [procStep, procPopCell, if_pos h163, hrcc, hrcn]
  simp only [Option.bind_eq_bind, Option.bind_some, if_neg hc, if_pos hn, hr]
  cases r with
  | none => rfl
  | some offset => rfl

end blocks

theorem resync_total (buffer : Nat → UInt8) (h : data + 163 ≤ npvImaBuffLen) :
    ∃ r, loop (resyncRound buffer data) 53 1 = some r ∧ ∀ o, r = some o → 1 ≤ o ∧ o < 53 :=
  loop_total (fun _ ho => resyncRound_spec buffer h ho) (le_refl 1) (by decide)

/-- One block of swtc_proc stays in the buffer, and uses octets up before it jumps
back. -/
def GoodJump (descr : Bool) (alloc : Nat → Bool) : Label × Channel → Prop :=
  Round (procStep descr alloc) (fun s => InBuffer s.2) (fun r => InBuffer r.1) jumpsLeft

theorem procHunt_good (alloc : Nat → Bool) (h : InBuffer ch) : GoodJump descr alloc (.hunt, ch) := by
  have hlen := h.len_le
  by_cases hs : ch.stat = .hunt
  · obtain ⟨rc, k, hk, hle, hrc⟩ := swtcHunt_spec ch.buffer hlen 0
    rw [Nat.zero_add] at hk
    cases rc with
    | true =>
        have h5 := hrc rfl
        have hskip := h.skip (show k < ch.len by omega)
        refine .inl ⟨(.popCell, ch.synced k), procHunt_found hs hk, ⟨hskip.data_lt, hskip.len_le⟩, ?_⟩
        show 2 * (ch.len - k) < 2 * ch.len + 1
        omega
    | false =>
        by_cases he : ch.errStat = errorState
        · exact .inr ⟨(ch, none), procHunt_error hs he hk, h⟩
        · obtain ⟨ch', hch, hin⟩ := @rebase_spec (ch.skip k)
            (show ch.data + k + (ch.len - k) ≤ npvImaBuffLen by omega)
          refine .inr ⟨(ch'.stillSyncing, none), ?_, ⟨hin.data_lt, hin.len_le⟩⟩
          rw [procHunt_lost hs he hk, hch]
          rfl
  · exact .inl ⟨(.popCell, ch), procHunt_pass hs, h, Nat.lt_succ_self _⟩

theorem procReturn_good (alloc : Nat → Bool) (h : InBuffer ch) (h163 : 163 < ch.len)
    (hstep : procStep descr alloc (.popCell, ch) = procReturn descr alloc ch) :
    GoodJump descr alloc (.popCell, ch) := by
  have hlen := h.len_le
  obtain ⟨ch', ph, hret, hdata', hlen'⟩ := swtcReturnCell_spec descr (alloc ch.len)
    (show ch.data + 53 ≤ npvImaBuffLen by omega)
  have hin : InBuffer ch' := ⟨by omega, by omega⟩
  rw [procReturn, hret] at hstep
  cases ph with
  | none => exact .inl ⟨(.popCell, ch'), hstep, hin, show 2 * ch'.len < 2 * ch.len by omega⟩
  | some ph => exact .inr ⟨(ch', some ph), hstep, hin⟩

theorem procPopCell_good (alloc : Nat → Bool) (h : InBuffer ch) :
    GoodJump descr alloc (.popCell, ch) := by
  have hlen := h.len_le
  by_cases h163 : 163 < ch.len
  · obtain ⟨rcc, hrcc⟩ := headerErr_total ch.buffer (show ch.data + 5 ≤ _ by omega)
    obtain ⟨rcn, hrcn⟩ := headerErr_total ch.buffer (show ch.data + 53 + 5 ≤ _ by omega)
    by_cases hc : 0 ≤ rcc
    · have hskip := h.skip (show 1 < ch.len by omega)
      refine .inl ⟨_, procPopCell_unsync h163 hrcc hrcn hc, ⟨hskip.data_lt, hskip.len_le⟩, ?_⟩
      show 2 * (ch.len - 1) + 1 < 2 * ch.len
      omega
    · by_cases hn : 0 ≤ rcn
      · obtain ⟨r, hr, ho⟩ := resync_total ch.buffer (show ch.data + 163 ≤ npvImaBuffLen by omega)
        have hstep : procStep descr alloc (.popCell, ch) = _ :=
          procPopCell_resync h163 hrcc hrcn hc hn hr
        cases r with
        | none => exact procReturn_good alloc h h163 hstep
        | some o =>
            obtain ⟨h1, h53⟩ := ho o rfl
            refine .inl ⟨(.popCell, ch.skip o), hstep, h.skip (by omega), ?_⟩
            show 2 * (ch.len - o) < 2 * ch.len
            omega
      · exact procReturn_good alloc h h163 (procPopCell_return h163 hrcc hrcn hc hn)
  · obtain ⟨ch', hch, hin⟩ := rebase_spec hlen
    refine .inr ⟨(ch', none), ?_, hin⟩
    rw [procPopCell_rest h163, hch]
    rfl

theorem swtcProc_spec {k : Nat} (alloc : Nat → Bool) (h : Inside hd) (hk : hd.lastch = some k) :
    ∃ hd' ph, swtcProc hd alloc = some (hd', ph) ∧ Inside hd' := by
  have hin : InBuffer (hd.ch k) := h k (hd.lastch_lt k hk)
  have hround (s : Label × Channel) (hs : InBuffer s.2) : GoodJump hd.descramble alloc s := by
    obtain ⟨l, ch⟩ := s
    cases l with
    | hunt => exact procHunt_good alloc hs
    | popCell => exact procPopCell_good alloc hs
  obtain ⟨⟨ch', ph⟩, hl, hin'⟩ := loop_total hround (s := (.hunt, hd.ch k)) hin (Nat.lt_succ_self _)
  refine ⟨hd.setCh k ch', ph, ?_, h.setCh hin' k⟩
  simp only [swtcProc, hk, Option.bind_eq_bind, Option.bind_some, hl, Option.pure_def]

/-- What safety asks of a call: all it touches is in the buffers, and so are the unread
octets afterwards. -/
def Sound (hd : Handle) (c : Call) : Prop := ∃ hd' o, step hd c = some (hd', o) ∧ Inside hd'

def Accepts (hd : Handle) (ph : PktHdr) : Prop :=
  ph.channel.toNat < hd.chnum ∧ (hd.ch ph.channel.toNat).errStat ≠ errorState ∧
    (hd.ch ph.channel.toNat).len + pkthdrGetDlen ph ≤ npvImaBuffLen

/-- The room that a packet needs starts at the read position. -/
def Fits (hd : Handle) : Call → Prop
  | .push ph _ => Accepts hd ph → 0 ≤ pkthdrGetDlen ph ∧
      (hd.ch ph.channel.toNat).data + (hd.ch ph.channel.toNat).len + pkthdrGetDlen ph ≤ npvImaBuffLen
  | .proc _ => hd.lastch ≠ none
  | .setDescramble => True

/-- A packet that is refused costs a channel in the error state one error, and changes
nothing else. -/
theorem push_of_not_accepts {ph : PktHdr} (h : Inside hd) (hn : ¬ Accepts hd ph) (data : Nat → UInt8) :
    ∃ hd', swtcPush hd ph data = some (hd', -1) ∧ Inside hd' := by
  rw [swtcPush]
  by_cases hlt : ph.channel.toNat < hd.chnum
  · have hin := h _ hlt
    by_cases he : (hd.ch ph.channel.toNat).errStat = errorState
    · simp only [dif_pos hlt, if_pos he]
      exact ⟨_, rfl, h.setCh hin.refuse _⟩
    · have hlen := not_le.mp fun hle => hn ⟨hlt, he, hle⟩
      simp only [dif_pos hlt, if_neg he, if_pos hlen]
      exact ⟨hd, rfl, h⟩
  · simp only [dif_neg hlt]
    exact ⟨hd, rfl, h⟩

theorem memcpy_eq_some {b : Nat → UInt8} {dlen : Int} {src : Nat → UInt8} :
    memcpy buffer p src dlen = some b ↔
      0 ≤ dlen ∧ p + dlen ≤ npvImaBuffLen ∧ b = overlay buffer p dlen.toNat src := by
  rw [memcpy]
  split
  · next hneg => simp [hneg]
  · next hpos =>
      have hdlen : (dlen.toNat : Int) = dlen := Int.toNat_of_nonneg (not_lt.mp hpos)
      rw [store_eq_some, and_iff_right (not_lt.mp hpos)]
      apply and_congr_left'
      omega

theorem take_iff {ph : PktHdr} (h : InBuffer ch) (data : Nat → UInt8) :
    (∃ ch', ch.take ph data = some ch' ∧ InBuffer ch') ↔
      0 ≤ pkthdrGetDlen ph ∧ ch.data + ch.len + pkthdrGetDlen ph ≤ npvImaBuffLen := by
  constructor
  · rintro ⟨ch', ht, _⟩
    obtain ⟨b, hb, _⟩ := Option.bind_eq_some_iff.mp ht
    obtain ⟨h0, hroom, _⟩ := memcpy_eq_some.mp hb
    exact ⟨h0, by push_cast at hroom; exact hroom⟩
  · rintro ⟨h0, hroom⟩
    have hb : memcpy ch.buffer (ch.data + ch.len) data (pkthdrGetDlen ph) = some _ :=
      memcpy_eq_some.mpr ⟨h0, by push_cast; exact hroom, rfl⟩
    simp only [Channel.take, hb, Option.bind_eq_bind, Option.bind_some, Option.pure_def]
    refine ⟨_, rfl, h.data_lt, ?_⟩
    show ch.data + (ch.len + (pkthdrGetDlen ph).toNat) ≤ npvImaBuffLen
    omega

theorem push_of_accepts {ph : PktHdr} (h : Inside hd) (ha : Accepts hd ph) (data : Nat → UInt8) :
    Sound hd (.push ph data) ↔
      ∃ ch', (hd.ch ph.channel.toNat).take ph data = some ch' ∧ InBuffer ch' := by
  obtain ⟨hlt, he, hle⟩ := ha
  rw [Sound, step, swtcPush]
  simp only [dif_pos hlt, if_neg he, if_neg (not_lt.mpr hle)]
  constructor
  · rintro ⟨hd', o, hp, hin⟩
    obtain ⟨r, hr, hrd⟩ := Option.map_eq_some_iff.mp hp
    obtain ⟨ch', ht, rfl⟩ := Option.map_eq_some_iff.mp hr
    obtain ⟨rfl, _⟩ := Prod.mk.inj hrd
    have := hin _ hlt
    simp only [Handle.setLastch, Handle.setCh, Function.update_self] at this
    exact ⟨ch', ht, this⟩
  · rintro ⟨ch', ht, hin⟩
    rw [ht]
    exact ⟨_, _, rfl, h.setCh hin _⟩

theorem sound_iff_fits (h : Inside hd) (c : Call) : Sound hd c ↔ Fits hd c := by
  cases c with
  | push ph data =>
      by_cases ha : Accepts hd ph
      · rw [push_of_accepts h ha data, take_iff (h _ ha.1) data, Fits, imp_iff_right ha]
      · obtain ⟨hd', hp, hin⟩ := push_of_not_accepts h ha data
        exact iff_of_true ⟨hd', .rc (-1), by rw [step, hp]; rfl, hin⟩ fun ha' => absurd ha' ha
  | proc alloc =>
      cases hk : hd.lastch with
      | none => simp [Sound, Fits, step, swtcProc, hk]
      | some k =>
          obtain ⟨hd', ph, hp, hin⟩ := swtcProc_spec alloc h hk
          exact iff_of_true ⟨hd', .cell ph, by rw [step, hp]; rfl, hin⟩ (by simp [Fits, hk])
  | setDescramble => exact iff_of_true ⟨_, _, rfl, h⟩ trivial

theorem open_inside {maxChannel : Int} (h : swtcOpen maxChannel = some hd) : Inside hd := by
  obtain ⟨_, h⟩ := Option.ite_none_left_eq_some.mp h
  cases h
  exact fun k _ => ⟨npvImaBuffLen_pos, Nat.zero_le _⟩

/-- Over any calls, the channels of a handle stay in their buffers exactly as long as
each packet that is taken has room behind the unread octets, and a channel has had a
packet before swtc_proc is called. -/
theorem swtc_inBuffer {maxChannel : Int} (h : swtcOpen maxChannel = some hd) (calls : List Call) :
    Guarded step Sound hd calls ↔ Guarded step Fits hd calls := by
  apply guarded_sim (R := fun hd hd' => hd = hd' ∧ Inside hd) _ _ ⟨rfl, open_inside h⟩
  · rintro hd _ c ⟨rfl, hin⟩
    exact sound_iff_fits hin c
  · rintro hd _ c ⟨rfl, _⟩ ⟨hd', o, hs, hin⟩
    exact ⟨hd', o, hd', o, hs, hs, rfl, hin⟩

def oneChannel : Handle := ⟨1, openChannel, none, by simp, false⟩

def cells (dlen : Nat) : Call :=
  .push ⟨UInt16.ofNat ((dlen + 23) / 4), UInt8.ofNat (3 - (dlen + 23) % 4), 0, 0, 0⟩ fun i =>
    if i % 53 = 4 then 0x55 else 0

theorem swtc_inBuffer_oneChannel :
    Guarded step Sound oneChannel [cells 265, .proc fun _ => true] ↔
      Guarded step Fits oneChannel [cells 265, .proc fun _ => true] :=
  swtc_inBuffer (show swtcOpen 1 = some oneChannel from rfl) _

theorem second_packet_overruns :
    swtcOpen 1 = some oneChannel ∧
      ((run step oneChannel [cells 265, .proc fun _ => true]).map Prod.snd).isSome ∧
      ¬ Guarded step Sound oneChannel [cells 265, .proc fun _ => true, cells 3937] := by
  refine ⟨rfl, by decide, fun h => ?_⟩
  obtain ⟨t, os, hrun, _⟩ := guarded_run (I := fun _ => True) (fun _ _ _ ⟨hd', o, hs, _⟩ =>
    ⟨hd', o, hs, trivial⟩) trivial h
  have hnone : (run step oneChannel [cells 265, .proc fun _ => true, cells 3937]).isNone = true := by
    decide
  rw [hrun] at hnone
  exact absurd hnone (by simp)

end OiAmc.SwtcBuffer

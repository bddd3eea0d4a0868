import OiAmc.SwtcBuffer
import OiAmc.SwtcLine

namespace OiAmc.SwtcStream

open PartialMachine ByteBuffer GotoLoop SwtcHeader Swtc SwtcBuffer SwtcLine StreamWindows

variable {ch ch' : Channel} {hd : Handle} {buffer : Nat → UInt8} {buf size n : Nat}

def line (ch : Channel) : Line := ⟨ch.stat, ch.firsttime, ch.ph, entries ch.buffer ch.data ch.len⟩

@[simp] theorem length_line (ch : Channel) : (line ch).unread.length = ch.len := length_entries _ _ _

theorem line_skip (ch : Channel) (n : Nat) : line (ch.skip n) = (line ch).skip n := by
  rw [Line.skip, line, line, drop_entries]
  rfl

theorem headerErr_entries (h : buf + 5 ≤ npvImaBuffLen) (h5 : 5 ≤ size) :
    headerErr buffer buf = some (headerOf (entries buffer buf size)) := by
  rw [headerErr, view_of_le h, Option.map_some]
  apply congrArg some
  apply getHeaderErr_congr
  intro i hi
  have hlt : i < (entries buffer buf size).length := by
    rw [length_entries]
    omega
  rw [List.getD_eq_getElem?_getD, List.getElem?_eq_getElem hlt, Option.getD_some, getElem_entries]

theorem headerErr_line (h : ch.data + ch.len ≤ npvImaBuffLen) (hn : n + 5 ≤ ch.len) :
    headerErr ch.buffer (ch.data + n) = some (headerOf ((line ch).unread.drop n)) := by
  rw [line, drop_entries]
  exact headerErr_entries (by omega) (by omega)

def Found (buffer : Nat → UInt8) (buf size n : Nat) : Prop :=
  n + 5 ≤ size ∧ (∀ j < n, ¬ ValidHeader (entries buffer (buf + j) (size - j))) ∧
    ValidHeader (entries buffer (buf + n) (size - n))

def NoneFound (buffer : Nat → UInt8) (buf size : Nat) : Prop :=
  ∀ j, j + 5 ≤ size → ¬ ValidHeader (entries buffer (buf + j) (size - j))

theorem entries_shift (buffer : Nat → UInt8) (buf size j : Nat) :
    entries buffer (buf + 1 + j) (size + 4 - j) = entries buffer (buf + (j + 1)) (size + 5 - (j + 1)) := by
  rw [Nat.add_assoc, Nat.add_comm 1 j, Nat.succ_sub_succ]

theorem Found.succ (hbad : ¬ ValidHeader (entries buffer buf (size + 5)))
    (h : Found buffer (buf + 1) (size + 4) n) : Found buffer buf (size + 5) (n + 1) := by
  obtain ⟨hn, hbefore, hv⟩ := h
  refine ⟨by omega, fun j hj => ?_, ?_⟩
  · cases j with
    | zero => exact hbad
    | succ j =>
        rw [← entries_shift]
        exact hbefore j (by omega)
  · rw [← entries_shift]
    exact hv

theorem NoneFound.succ (hbad : ¬ ValidHeader (entries buffer buf (size + 5)))
    (h : NoneFound buffer (buf + 1) (size + 4)) : NoneFound buffer buf (size + 5) := by
  intro j hj
  cases j with
  | zero => exact hbad
  | succ j =>
      rw [← entries_shift]
      exact h j (by omega)

/-- The search ends at the first valid header, or four octets before the end. -/
theorem swtcHunt_finds (h : buf + size ≤ npvImaBuffLen) (offset : Nat) :
    (∃ n, swtcHunt buffer buf size offset = some (true, offset + n) ∧ Found buffer buf size n) ∨
      (swtcHunt buffer buf size offset = some (false, offset + (size - 4)) ∧
        NoneFound buffer buf size) := by
  fun_induction swtcHunt buffer buf size offset with
  | case1 buf size offset ih =>
      have herr := @headerErr_entries buffer buf (size + 5) (by omega) (by omega)
      rw [herr]
      by_cases hv : ValidHeader (entries buffer buf (size + 5))
      · refine .inl ⟨0, ?_, by omega, fun j hj => absurd hj (Nat.not_lt_zero j), hv⟩
        simp only [Option.bind_eq_bind, Option.bind_some, if_neg (not_le.mpr hv)]
        rfl
      · simp only [Option.bind_eq_bind, Option.bind_some, if_pos (not_lt.mp hv)]
        obtain ⟨n, hn, hfound⟩ | ⟨hn, hnone⟩ := ih (by omega)
        · refine .inl ⟨n + 1, ?_, hfound.succ hv⟩
          rw [hn, Nat.add_assoc, Nat.add_comm 1 n]
        · refine .inr ⟨?_, hnone.succ hv⟩
          rw [hn]
          simp only [Option.some.injEq, Prod.mk.injEq, true_and]
          omega
  | case2 size buf offset hlt =>
      have h5 : size < 5 := by
        by_contra hge
        exact hlt (size - 5) (by omega)
      refine .inr ⟨?_, fun j hj => by omega⟩
      rw [show size - 4 = 0 by omega, Nat.add_zero]

/-- A channel that swtc_proc is at work on. -/
structure Busy (ch : Channel) : Prop where
  inBuffer : InBuffer ch
  errStat : ch.errStat ≠ errorState

/-- A channel that waits for a packet: what is unread is at the start of the buffer. -/
structure Idle (ch : Channel) : Prop where
  data : ch.data = 0
  len : ch.len ≤ npvImaBuffLen

theorem Busy.skip (h : Busy ch) (hn : n < ch.len) : Busy (ch.skip n) := ⟨h.inBuffer.skip hn, h.errStat⟩

theorem rebase_line (h : ch.data + ch.len ≤ npvImaBuffLen) :
    ∃ ch', ch.rebase = some ch' ∧ line ch' = line ch ∧ Idle ch' := by
  have hlen : ch.len ≤ npvImaBuffLen := by omega
  rw [Channel.rebase]
  split
  · simp only [view_of_le h, store_of_le (show 0 + ch.len ≤ npvImaBuffLen by omega), Option.bind_eq_bind,
      Option.bind_some, Option.pure_def]
    refine ⟨_, rfl, ?_, rfl, hlen⟩
    rw [line, entries_overlay]
    rfl
  · next h0 =>
      refine ⟨_, rfl, ?_, rfl, hlen⟩
      rw [line, line, Nat.eq_zero_of_not_pos h0]
      rfl

/-- What swtc_proc comes to from one of its labels. -/
def Leaves (s : Label × Channel) (r : Channel × Option Cell) : Prop :=
  Proc (s.1, line s.2) (line r.1, r.2) ∧ (r.2 = none → Idle r.1) ∧
    (r.2 ≠ none → Busy r.1 ∧ r.1.len < s.2.len)

theorem Leaves.jump {s t : Label × Channel} {r : Channel × Option Cell}
    (hm : Move (s.1, line s.2) (.inl (t.1, line t.2))) (hlen : t.2.len ≤ s.2.len)
    (h : Leaves t r) : Leaves s r := by
  obtain ⟨hp, hnone, hsome⟩ := h
  exact ⟨.jump hm hp, hnone, fun hne => ⟨(hsome hne).1, (hsome hne).2.trans_le hlen⟩⟩

/-- Every block of swtc_proc makes one of the moves. -/
def Moves (s : Label × Channel) : Prop :=
  (∃ t, procStep false (fun _ => true) s = some (.inl t) ∧ Busy t.2 ∧ jumpsLeft t < jumpsLeft s ∧
    ∀ r, Leaves t r → Leaves s r) ∨
  ∃ r, procStep false (fun _ => true) s = some (.inr r) ∧ Leaves s r

theorem procHunt_moves (h : Busy ch) : Moves (.hunt, ch) := by
  have hlen := h.inBuffer.len_le
  cases hs : ch.stat with
  | synced =>
      refine .inl ⟨(.popCell, ch), procHunt_pass (by simp [hs]), h, Nat.lt_succ_self _, fun r => ?_⟩
      exact Leaves.jump (.pass hs) le_rfl
  | hunt =>
      obtain ⟨n, hn, h5, hbefore, hv⟩ | ⟨hn, hnone⟩ := @swtcHunt_finds ch.buffer ch.data ch.len hlen 0
      · rw [Nat.zero_add] at hn
        have hskip := h.skip (show n < ch.len by omega)
        refine .inl ⟨(.popCell, ch.synced n), procHunt_found hs hn,
          ⟨⟨hskip.inBuffer.data_lt, hskip.inBuffer.len_le⟩, h.errStat⟩, ?_, fun r => ?_⟩
        · show 2 * (ch.len - n) < 2 * ch.len + 1
          omega
        · have hline : line (ch.synced n) = ((line ch).skip n).synced := by
            rw [← line_skip]
            rfl
          apply Leaves.jump _ (Nat.sub_le _ _)
          rw [hline]
          apply Move.found n hs
          · rw [length_line]
            exact h5
          · intro j hj
            rw [line, drop_entries]
            exact hbefore j hj
          · rw [line, drop_entries]
            exact hv
      · rw [Nat.zero_add] at hn
        obtain ⟨ch', hch, hline, hidle⟩ := @rebase_line (ch.skip (ch.len - 4))
          (show ch.data + (ch.len - 4) + (ch.len - (ch.len - 4)) ≤ npvImaBuffLen by omega)
        refine .inr ⟨(ch'.stillSyncing, none), ?_, ?_, fun _ => ⟨hidle.data, hidle.len⟩, by simp⟩
        · rw [procHunt_lost hs h.errStat hn, hch]
          rfl
        · have hline' : line ch'.stillSyncing = (line ch).skip ((line ch).unread.length - 4) := by
            rw [length_line, ← line_skip, ← hline]
            rfl
          apply Proc.leave
          rw [hline']
          apply Move.lost hs
          intro j hj
          rw [length_line] at hj
          rw [line, drop_entries]
          exact hnone j hj

theorem procReturn_moves (h : Busy ch) (h163 : 163 < ch.len) (hv : ValidHeader (line ch).unread)
    (hstep : procStep false (fun _ => true) (.popCell, ch) = procReturn false (fun _ => true) ch) :
    Moves (.popCell, ch) := by
  have hlen := h.inBuffer.len_le
  have hskip := h.skip (show 53 < ch.len by omega)
  have hview : view npvImaBuffLen ch.buffer ch.data 53 = some fun i => ch.buffer (ch.data + i) :=
    view_of_le (by omega)
  have h163' : 163 < (line ch).unread.length := by rwa [length_line]
  by_cases hf : ch.firsttime ≠ 0
  · simp only [procReturn, swtcReturnCell, if_pos hf, hview, Option.bind_eq_bind, Option.bind_some,
      Option.pure_def] at hstep
    refine .inl ⟨_, hstep, ⟨⟨hskip.inBuffer.data_lt, hskip.inBuffer.len_le⟩, h.errStat⟩, ?_, fun r => ?_⟩
    · show 2 * (ch.len - 53) < 2 * ch.len
      omega
    · apply Leaves.jump _ (Nat.sub_le _ _)
      rw [line_skip]
      exact .seed h163' hv hf
  · simp only [procReturn, swtcReturnCell, if_neg hf, hview, Option.bind_eq_bind, Option.bind_some,
      Option.pure_def, Bool.false_eq_true, if_false, if_true] at hstep
    refine .inr ⟨_, hstep, ?_, (fun hnone => by cases hnone), fun _ => ⟨hskip, ?_⟩⟩
    · have hcell : (⟨ch.ph, (List.range 53).map fun i => ch.buffer (ch.data + i)⟩ : Cell) =
          (line ch).cell := by
        rw [Line.cell, line, take_entries _ _ (by omega)]
        rfl
      apply Proc.leave
      rw [line_skip, hcell]
      exact .cell h163' hv (not_not.mp hf)
    · show ch.len - 53 < ch.len
      omega

theorem procPopCell_moves (h : Busy ch) : Moves (.popCell, ch) := by
  have hlen := h.inBuffer.len_le
  by_cases h163 : 163 < ch.len
  · have hrcc := headerErr_line hlen (show 0 + 5 ≤ ch.len by omega)
    have hrcn := headerErr_line hlen (show 53 + 5 ≤ ch.len by omega)
    have h163' : 163 < (line ch).unread.length := by rwa [length_line]
    rw [Nat.add_zero, List.drop_zero] at hrcc
    by_cases hv : ValidHeader (line ch).unread
    · have hc := not_le.mpr hv
      by_cases hn : ValidHeader ((line ch).unread.drop 53)
      · exact procReturn_moves h h163 hv (procPopCell_return h163 hrcc hrcn hc (not_le.mpr hn))
      · obtain ⟨r, hr, ho⟩ := resync_total ch.buffer (show ch.data + 163 ≤ npvImaBuffLen by omega)
        have hstep : procStep false (fun _ => true) (.popCell, ch) = _ :=
          procPopCell_resync h163 hrcc hrcn hc (not_lt.mp hn) hr
        cases r with
        | none => exact procReturn_moves h h163 hv hstep
        | some o =>
            obtain ⟨h1, h53⟩ := ho o rfl
            refine .inl ⟨(.popCell, ch.skip o), hstep, h.skip (by omega), ?_, fun r => ?_⟩
            · show 2 * (ch.len - o) < 2 * ch.len
              omega
            · apply Leaves.jump _ (Nat.sub_le _ _)
              rw [line_skip]
              exact .resync o h163' hv hn h53
    · have hskip := h.skip (show 1 < ch.len by omega)
      refine .inl ⟨_, procPopCell_unsync h163 hrcc hrcn (not_lt.mp hv),
        ⟨⟨hskip.inBuffer.data_lt, hskip.inBuffer.len_le⟩, h.errStat⟩, ?_, fun r => ?_⟩
      · show 2 * (ch.len - 1) + 1 < 2 * ch.len
        omega
      · have hline : line { ch.skip 1 with stat := .hunt } = ((line ch).skip 1).unsynced := by
          rw [← line_skip]
          rfl
        apply Leaves.jump _ (Nat.sub_le _ _)
        rw [hline]
        exact .unsync h163' hv
  · obtain ⟨ch', hch, hline, hidle⟩ := rebase_line hlen
    refine .inr ⟨(ch', none), ?_, ?_, fun _ => hidle, by simp⟩
    · rw [procPopCell_rest h163, hch]
      rfl
    · apply Proc.leave
      rw [hline]
      exact .rest ((length_line ch).trans_le (not_lt.mp h163))

end OiAmc.SwtcStream

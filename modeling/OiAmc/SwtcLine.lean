import OiAmc.StreamFrames
import OiAmc.Swtc

namespace OiAmc.SwtcLine

open StreamWindows Swtc SwtcHeader

/-- A channel without its buffer: what it is about to read is a list of octets. -/
structure Line where
  stat : ChannelState
  firsttime : Nat
  ph : CellHdr
  unread : List UInt8

def Line.skip (d : Line) (n : Nat) : Line := { d with unread := d.unread.drop n }

def Line.synced (d : Line) : Line :=
  { d with
    stat := .synced
    firsttime := if d.firsttime = firsttimeDefault then 1 else d.firsttime }

def Line.unsynced (d : Line) : Line := { d with stat := .hunt }

def Line.seeded (d : Line) : Line := { d with firsttime := 0 }

def Line.cell (d : Line) : Cell := ⟨d.ph, d.unread.take 53⟩

def headerOf (u : List UInt8) : Int := getHeaderErr fun i => u.getD i 0

def ValidHeader (u : List UInt8) : Prop := headerOf u < 0

/-- What one block of swtc_proc does to a line: it jumps to a label, or it leaves. -/
inductive Move : Label × Line → (Label × Line) ⊕ (Line × Option Cell) → Prop
  | found {d : Line} (n : Nat) (hs : d.stat = .hunt) (hn : n + 5 ≤ d.unread.length)
      (hbefore : ∀ j < n, ¬ ValidHeader (d.unread.drop j)) (hv : ValidHeader (d.unread.drop n)) :
      Move (.hunt, d) (.inl (.popCell, (d.skip n).synced))
  | lost {d : Line} (hs : d.stat = .hunt)
      (hnone : ∀ j, j + 5 ≤ d.unread.length → ¬ ValidHeader (d.unread.drop j)) :
      Move (.hunt, d) (.inr (d.skip (d.unread.length - 4), none))
  | pass {d : Line} (hs : d.stat = .synced) : Move (.hunt, d) (.inl (.popCell, d))
  | unsync {d : Line} (hlen : 163 < d.unread.length) (hv : ¬ ValidHeader d.unread) :
      Move (.popCell, d) (.inl (.hunt, (d.skip 1).unsynced))
  | resync {d : Line} (o : Nat) (hlen : 163 < d.unread.length) (hv : ValidHeader d.unread)
      (hnext : ¬ ValidHeader (d.unread.drop 53)) (ho : o < 53) :
      Move (.popCell, d) (.inl (.popCell, d.skip o))
  | seed {d : Line} (hlen : 163 < d.unread.length) (hv : ValidHeader d.unread)
      (hf : d.firsttime ≠ 0) : Move (.popCell, d) (.inl (.popCell, (d.skip 53).seeded))
  | cell {d : Line} (hlen : 163 < d.unread.length) (hv : ValidHeader d.unread)
      (hf : d.firsttime = 0) : Move (.popCell, d) (.inr (d.skip 53, some d.cell))
  | rest {d : Line} (hlen : d.unread.length ≤ 163) : Move (.popCell, d) (.inr (d, none))

/-- A whole call of swtc_proc. -/
inductive Proc : Label × Line → Line × Option Cell → Prop
  | leave {s : Label × Line} {r : Line × Option Cell} (h : Move s (.inr r)) : Proc s r
  | jump {s t : Label × Line} {r : Line × Option Cell} (h : Move s (.inl t)) (ht : Proc t r) :
      Proc s r

/-- Calls of swtc_proc until one gives no cell. -/
inductive Drain : Line → List Cell → Line → Prop
  | stop {d e : Line} (h : Proc (.hunt, d) (e, none)) : Drain d [] e
  | cell {d d' e : Line} {c : Cell} {cs : List Cell} (h : Proc (.hunt, d) (d', some c))
      (ht : Drain d' cs e) : Drain d (c :: cs) e

variable {d e : Line} {l : Label} {s t : Label × Line} {r : Line × Option Cell} {cs : List Cell}
  {S b : List UInt8} {R : List (List UInt8)} {m : Nat}

theorem getHeaderErr_congr {p q : Nat → UInt8} (h : ∀ i < 5, p i = q i) :
    getHeaderErr p = getHeaderErr q := by
  have h4 : (List.range 4).foldl (fun z i => syndromeTable.getD (z ^^^ p i).toNat 0) 0 =
      (List.range 4).foldl (fun z i => syndromeTable.getD (z ^^^ q i).toNat 0) 0 := by
    apply List.foldl_ext
    intro z i hi
    rw [h i (by have := List.mem_range.mp hi; omega)]
  rw [getHeaderErr, getHeaderErr, h4, h 4 (by decide)]

theorem headerOf_take {n : Nat} (u : List UInt8) (h : 5 ≤ n) : headerOf (u.take n) = headerOf u := by
  apply getHeaderErr_congr
  intro i hi
  simp only [List.getD_eq_getElem?_getD, List.getElem?_take, if_pos (show i < n by omega)]

theorem headerOf_append (u t : List UInt8) (h : 5 ≤ u.length) : headerOf (u ++ t) = headerOf u := by
  apply getHeaderErr_congr
  intro i hi
  simp only [List.getD_eq_getElem?_getD, List.getElem?_append_left (show i < u.length by omega)]

/-- From the octets of a line some are passed over, and the cells are taken. -/
def ReadsTo (d : Line) (cs : List Cell) (e : Line) : Prop :=
  Reads 53 ValidHeader d.unread (cs.map Cell.data) e.unread ∧ e.ph = d.ph ∧ ∀ c ∈ cs, c.ph = d.ph

theorem ReadsTo.skip {n : Nat} (hn : n ≤ d.unread.length) : ReadsTo d [] (d.skip n) :=
  ⟨.drop hn, rfl, by simp⟩

theorem ReadsTo.trans {d' : Line} {cs' : List Cell} (h : ReadsTo d cs d') (h' : ReadsTo d' cs' e) :
    ReadsTo d (cs ++ cs') e := by
  obtain ⟨hr, hph, hcs⟩ := h
  obtain ⟨hr', hph', hcs'⟩ := h'
  refine ⟨?_, hph'.trans hph, ?_⟩
  · rw [List.map_append]
    exact hr.trans hr'
  · intro c hc
    rcases List.mem_append.mp hc with hc | hc
    · exact hcs c hc
    · exact (hcs' c hc).trans hph

theorem Move.reads_jump (h : Move (l, d) (.inl t)) : ReadsTo d [] t.2 := by
  cases h with
  | found n hs hn => exact ReadsTo.skip (by omega)
  | pass => exact ⟨.stop _, rfl, by simp⟩
  | unsync hlen => exact ReadsTo.skip (by omega)
  | resync o hlen hv hnext ho => exact ReadsTo.skip (by omega)
  | seed hlen => exact ReadsTo.skip (by omega)

theorem Move.reads_leave (h : Move (l, d) (.inr r)) : ReadsTo d r.2.toList r.1 := by
  cases h with
  | lost => exact ReadsTo.skip (Nat.sub_le _ _)
  | cell hlen hv =>
      refine ⟨.one (by omega) ?_, rfl, by simp [Line.cell]⟩
      rw [ValidHeader, headerOf_take _ (by decide)]
      exact hv
  | rest => exact ⟨.stop _, rfl, by simp⟩

theorem Proc.reads (h : Proc s r) : ReadsTo s.2 r.2.toList r.1 := by
  induction h with
  | leave h => exact h.reads_leave
  | jump h _ ih => exact h.reads_jump.trans ih

theorem Drain.reads (h : Drain d cs e) : ReadsTo d cs e := by
  induction h with
  | stop h => exact h.reads
  | cell h _ ih => exact h.reads.trans ih

/-- There is a header at every multiple of 53. -/
def Aligned (S : List UInt8) : Prop := ∀ i, 53 * i + 5 ≤ S.length → ValidHeader (S.drop (53 * i))

theorem Aligned.of_append (h : Aligned (S ++ b)) : Aligned S := by
  intro i hi
  have hv := h i (by rw [List.length_append]; omega)
  rw [List.drop_append_of_le_length (by omega), ValidHeader, headerOf_append] at hv
  · exact hv
  · rw [List.length_drop]
    omega

theorem Aligned.flatten {cells : List (List UInt8)}
    (h : ∀ c ∈ cells, c.length = 53 ∧ ValidHeader c) : Aligned cells.flatten := by
  have h53 (c : List UInt8) (hc : c ∈ cells) : c.length = 53 := (h c hc).1
  intro i hi
  rw [length_flatten h53] at hi
  have hlt : i < cells.length := by omega
  have hv := (h _ (List.getElem_mem hlt)).2
  rw [← window_flatten h53 hlt, window, ValidHeader, headerOf_take _ (by decide)] at hv
  exact hv

/-- The cells of an aligned stream that are out when m are used up: the first one is
only a seed. -/
def emitted (S : List UInt8) (m : Nat) : List (List UInt8) :=
  (List.range' 1 (m - 1)).map fun i => window 53 S (53 * i)

theorem emitted_succ (S : List UInt8) (h : m ≠ 0) :
    emitted S (m + 1) = emitted S m ++ [window 53 S (53 * m)] := by
  obtain ⟨k, rfl⟩ := Nat.exists_eq_succ_of_ne_zero h
  rw [emitted, emitted, Nat.add_sub_cancel, Nat.succ_sub_one, List.range'_concat, List.map_append,
    List.map_singleton, Nat.one_mul, Nat.add_comm 1 k]

theorem emitted_append (b : List UInt8) (h : 53 * m ≤ S.length) :
    emitted (S ++ b) m = emitted S m := by
  apply List.map_congr_left
  intro i hi
  obtain ⟨h1, h2⟩ := List.mem_range'_1.mp hi
  rw [window, window, List.drop_append_of_le_length (by omega), List.take_append_of_le_length]
  rw [List.length_drop]
  omega

theorem emitted_flatten {cells : List (List UInt8)} (h : ∀ c ∈ cells, c.length = 53)
    (hm : m ≤ cells.length) : emitted cells.flatten m = (cells.take m).drop 1 := by
  apply List.ext_getElem
  · simp only [emitted, List.length_map, List.length_range', List.length_drop, List.length_take,
      Nat.min_eq_left hm]
  · intro i hi hi'
    simp only [emitted, List.length_map, List.length_range'] at hi
    simp only [emitted, List.getElem_map, List.getElem_range', List.getElem_drop, List.getElem_take]
    rw [Nat.one_mul]
    exact window_flatten h (by omega)

structure Tracks (S : List UInt8) (m : Nat) (d : Line) : Prop where
  unread : d.unread = S.drop (53 * m)
  used : ∀ i < m, 163 + 53 * i < S.length
  phase : d.stat = .hunt ∧ d.firsttime = firsttimeDefault ∧ m = 0 ∨
    d.stat = .synced ∧ d.firsttime = if m = 0 then 1 else 0

def Drained (S : List UInt8) (m : Nat) : Prop := ∀ i, 163 + 53 * i < S.length → i < m

theorem Tracks.le (h : Tracks S m d) : 53 * m ≤ S.length := by
  cases m with
  | zero => exact Nat.zero_le _
  | succ k =>
      have hk := h.used k (Nat.lt_succ_self k)
      omega

theorem Tracks.length (h : Tracks S m d) : d.unread.length = S.length - 53 * m := by
  rw [h.unread, List.length_drop]

theorem Tracks.valid (ha : Aligned S) (h : Tracks S m d) (i : Nat)
    (hi : 53 * i + 5 ≤ d.unread.length) : ValidHeader (d.unread.drop (53 * i)) := by
  have hlen := h.length
  rw [h.unread, List.drop_drop, ← Nat.mul_add]
  apply ha
  omega

theorem Tracks.next (h : Tracks S m d) (hlen : 163 < d.unread.length) :
    d.unread.drop 53 = S.drop (53 * (m + 1)) ∧ ∀ i < m + 1, 163 + 53 * i < S.length := by
  have hl := h.length
  constructor
  · rw [h.unread, List.drop_drop, Nat.mul_succ]
  · intro i hi
    omega

theorem Tracks.jump (ha : Aligned S) (h : Tracks S m d) (hl : l = .popCell → d.stat = .synced)
    (hm : Move (l, d) (.inl t)) :
    ∃ m', Tracks S m' t.2 ∧ (t.1 = .popCell → t.2.stat = .synced) ∧ emitted S m' = emitted S m := by
  cases hm with
  | found n hs hn hbefore =>
      have hn0 : n = 0 := by
        by_contra hne
        exact hbefore 0 (Nat.pos_of_ne_zero hne) (h.valid ha 0 (by omega))
      subst hn0
      rcases h.phase with ⟨_, hf, hm0⟩ | ⟨hs', _⟩
      · refine ⟨m, ⟨h.unread, h.used, .inr ⟨rfl, ?_⟩⟩, fun _ => rfl, rfl⟩
        rw [if_pos hm0]
        exact if_pos hf
      · rw [hs] at hs'
        cases hs'
  | pass hs => exact ⟨m, h, fun _ => hs, rfl⟩
  | unsync hlen hv => exact absurd (h.valid ha 0 (by omega)) hv
  | resync o hlen hv hnext => exact absurd (h.valid ha 1 (by omega)) hnext
  | seed hlen hv hf =>
      have hs := hl rfl
      rcases h.phase with ⟨hs', _⟩ | ⟨_, hf'⟩
      · rw [hs] at hs'
        cases hs'
      · have hm0 : m = 0 := by
          by_contra hne
          exact hf (hf'.trans (if_neg hne))
        subst hm0
        obtain ⟨hu, hused⟩ := h.next hlen
        exact ⟨1, ⟨hu, hused, .inr ⟨hs, rfl⟩⟩, fun _ => hs, rfl⟩

theorem Tracks.leave (ha : Aligned S) (h : Tracks S m d) (hm : Move (l, d) (.inr r)) :
    ∃ m', Tracks S m' r.1 ∧ emitted S m' = emitted S m ++ r.2.toList.map Cell.data ∧
      (r.2 = none → Drained S m') := by
  have hlength := h.length
  cases hm with
  | lost hs hnone =>
      have h5 : d.unread.length < 5 := by
        by_contra hge
        exact hnone 0 (by omega) (h.valid ha 0 (by omega))
      have h0 : d.unread.length - 4 = 0 := by omega
      rcases h.phase with ⟨_, _, hm0⟩ | ⟨hs', _⟩
      · refine ⟨m, ?_, (List.append_nil _).symm, fun _ i hi => by omega⟩
        rw [h0]
        exact ⟨h.unread, h.used, h.phase⟩
      · rw [hs] at hs'
        cases hs'
  | cell hlen hv hf =>
      rcases h.phase with ⟨_, hf', _⟩ | ⟨hs, hf'⟩
      · rw [hf] at hf'
        cases hf'
      · have hm0 : m ≠ 0 := by
          rintro rfl
          rw [hf] at hf'
          cases hf'
        obtain ⟨hu, hused⟩ := h.next hlen
        refine ⟨m + 1, ⟨hu, hused, .inr ⟨hs, ?_⟩⟩, ?_, fun hnone => by cases hnone⟩
        · rw [if_neg (Nat.succ_ne_zero m)]
          exact hf
        · rw [emitted_succ S hm0, window, ← h.unread]
          rfl
  | rest hlen => exact ⟨m, h, (List.append_nil _).symm, fun _ i hi => by omega⟩

theorem Proc.tracks (ha : Aligned S) (h : Proc s r) (ht : Tracks S m s.2)
    (hl : s.1 = .popCell → s.2.stat = .synced) :
    ∃ m', Tracks S m' r.1 ∧ emitted S m' = emitted S m ++ r.2.toList.map Cell.data ∧
      (r.2 = none → Drained S m') := by
  induction h generalizing m with
  | leave h => exact ht.leave ha h
  | jump h _ ih =>
      obtain ⟨m₁, ht₁, hl₁, he₁⟩ := ht.jump ha hl h
      rw [← he₁]
      exact ih ht₁ hl₁

theorem Drain.tracks (ha : Aligned S) (h : Drain d cs e) (ht : Tracks S m d) :
    ∃ m', Tracks S m' e ∧ emitted S m' = emitted S m ++ cs.map Cell.data ∧ Drained S m' := by
  induction h generalizing m with
  | stop h =>
      obtain ⟨m', ht', he', hd'⟩ := h.tracks ha ht (by simp)
      exact ⟨m', ht', he', hd' rfl⟩
  | cell h _ ih =>
      obtain ⟨m₁, ht₁, he₁, _⟩ := h.tracks ha ht (by simp)
      obtain ⟨m', ht', he', hd'⟩ := ih ht₁
      refine ⟨m', ht', ?_, hd'⟩
      rw [he', he₁, List.append_assoc]
      rfl

/-- What is known between two packets of the accepted stream and the cells that are
out. -/
structure Delivered (S : List UInt8) (R : List (List UInt8)) (d : Line) : Prop where
  reads : Reads 53 ValidHeader S R d.unread
  tracks : Aligned S → ∃ m, Tracks S m d ∧ Drained S m ∧ R = emitted S m

def Line.receive (d : Line) (ph : CellHdr) (b : List UInt8) : Line :=
  { d with ph := ph, unread := d.unread ++ b }

theorem Tracks.receive (h : Tracks S m d) (ph : CellHdr) (b : List UInt8) :
    Tracks (S ++ b) m (d.receive ph b) := by
  refine ⟨?_, fun i hi => ?_, h.phase⟩
  · rw [List.drop_append_of_le_length h.le, ← h.unread]
    rfl
  · rw [List.length_append]
    exact Nat.lt_add_right _ (h.used i hi)

theorem Delivered.drain {ph : CellHdr} (h : Delivered S R d)
    (hd : Drain (d.receive ph b) cs e) : Delivered (S ++ b) (R ++ cs.map Cell.data) e := by
  constructor
  · exact (h.reads.append b).trans hd.reads.1
  · intro ha
    obtain ⟨m, ht, _, rfl⟩ := h.tracks ha.of_append
    obtain ⟨m', ht', he', hd'⟩ := hd.tracks ha (ht.receive ph b)
    refine ⟨m', ht', hd', ?_⟩
    rw [he', emitted_append b ht.le]

/-- The cells of a stream that are out are all but the first of those behind which more
than 163 octets are left. -/
theorem Delivered.flatten {cells : List (List UInt8)}
    (h : Delivered cells.flatten R d) (hc : ∀ c ∈ cells, c.length = 53 ∧ ValidHeader c) :
    ∃ m, (∀ i, i < m ↔ 163 + 53 * i < cells.flatten.length) ∧ R = (cells.take m).drop 1 := by
  have h53 (c : List UInt8) (hm : c ∈ cells) : c.length = 53 := (hc c hm).1
  obtain ⟨m, ht, hd, rfl⟩ := h.tracks (Aligned.flatten hc)
  refine ⟨m, fun i => ⟨ht.used i, hd i⟩, emitted_flatten h53 ?_⟩
  have hle := ht.le
  rw [length_flatten h53] at hle
  exact Nat.le_of_mul_le_mul_left hle (by decide)

end OiAmc.SwtcLine

import Mathlib.Data.List.Basic

namespace OiAmc.StreamFrames

variable {α : Type}

/-- What can be read from the front of a stream: some of it is passed over, and a frame, of
any length, is taken as a whole. -/
inductive Reads (good : List α → Prop) : List α → List (List α) → List α → Prop
  | stop (u : List α) : Reads good u [] u
  | skip {u v : List α} {cs : List (List α)} (n : Nat) (hn : n ≤ u.length)
      (h : Reads good (u.drop n) cs v) : Reads good u cs v
  | take {u v : List α} {cs : List (List α)} (n : Nat) (hn : n ≤ u.length) (hg : good (u.take n))
      (h : Reads good (u.drop n) cs v) : Reads good u (u.take n :: cs) v

def window (u : List α) (p : Nat × Nat) : List α := (u.drop p.1).take p.2

def Windows (good : List α → Prop) (u : List α) (cs : List (List α)) : Prop :=
  ∃ ps : List (Nat × Nat), ps.Pairwise (fun p q => p.1 + p.2 ≤ q.1) ∧ cs = ps.map (window u) ∧
    ∀ p ∈ ps, p.1 + p.2 ≤ u.length ∧ good (window u p)

variable {good : List α → Prop} {u v x : List α} {cs cs' : List (List α)}

theorem Reads.trans (h : Reads good u cs v) (h' : Reads good v cs' x) :
    Reads good u (cs ++ cs') x := by
  induction h with
  | stop => exact h'
  | skip n hn _ ih => exact .skip n hn (ih h')
  | take n hn hg _ ih => exact .take n hn hg (ih h')

theorem Reads.append (h : Reads good u cs v) (t : List α) : Reads good (u ++ t) cs (v ++ t) := by
  induction h with
  | stop u => exact .stop _
  | @skip u _ _ n hn _ ih =>
      rw [← List.drop_append_of_le_length hn] at ih
      refine .skip n ?_ ih
      rw [List.length_append]
      exact Nat.le_add_right_of_le hn
  | @take u _ _ n hn hg _ ih =>
      rw [← List.drop_append_of_le_length hn] at ih
      have htake : (u ++ t).take n = u.take n := List.take_append_of_le_length hn
      rw [← htake] at hg ⊢
      refine .take n ?_ hg ih
      rw [List.length_append]
      exact Nat.le_add_right_of_le hn

theorem window_drop (u : List α) (n : Nat) (p : Nat × Nat) :
    window (u.drop n) p = window u (n + p.1, p.2) := by
  rw [window, window, List.drop_drop]

theorem Windows.of_drop {n : Nat} (hn : n ≤ u.length) (h : Windows good (u.drop n) cs) :
    ∃ ps : List (Nat × Nat), ps.Pairwise (fun p q => p.1 + p.2 ≤ q.1) ∧ cs = ps.map (window u) ∧
      ∀ p ∈ ps, n ≤ p.1 ∧ p.1 + p.2 ≤ u.length ∧ good (window u p) := by
  obtain ⟨ps, hps, rfl, hin⟩ := h
  refine ⟨ps.map fun p => (n + p.1, p.2), ?_, ?_, ?_⟩
  · apply hps.map
    intro p q hpq
    omega
  · rw [List.map_map]
    exact List.map_congr_left fun p _ => window_drop u n p
  · intro p hp
    obtain ⟨q, hq, rfl⟩ := List.mem_map.mp hp
    obtain ⟨hle, hg⟩ := hin q hq
    rw [List.length_drop] at hle
    rw [window_drop] at hg
    exact ⟨Nat.le_add_right n q.1, by omega, hg⟩

theorem Reads.windows (h : Reads good u cs v) : Windows good u cs := by
  induction h with
  | stop => exact ⟨[], .nil, rfl, by simp⟩
  | skip n hn _ ih =>
      obtain ⟨ps, hps, hcs, hin⟩ := ih.of_drop hn
      exact ⟨ps, hps, hcs, fun p hp => (hin p hp).2⟩
  | @take u _ _ n hn hg _ ih =>
      obtain ⟨ps, hps, rfl, hin⟩ := ih.of_drop hn
      refine ⟨(0, n) :: ps, ?_, ?_, ?_⟩
      · refine .cons (fun p hp => ?_) hps
        rw [Nat.zero_add]
        exact (hin p hp).1
      · rw [List.map_cons, window, List.drop_zero]
      · intro p hp
        rcases List.mem_cons.mp hp with rfl | hp
        · rw [window, List.drop_zero, Nat.zero_add]
          exact ⟨hn, hg⟩
        · exact (hin p hp).2

theorem Windows.filter (h : Windows good u cs) (keep : List α → Bool) :
    Windows good u (cs.filter keep) := by
  obtain ⟨ps, hps, rfl, hin⟩ := h
  refine ⟨ps.filter (keep ∘ window u), hps.filter _, List.filter_map, ?_⟩
  intro p hp
  exact hin p (List.mem_filter.mp hp).1

/-- The frames that are whole within the first n entries of their concatenation, and what
there is of the next one. -/
def arrived : List (List α) → Nat → List (List α) × List α
  | [], _ => ([], [])
  | p :: ps, n =>
      if p.length ≤ n then (p :: (arrived ps (n - p.length)).1, (arrived ps (n - p.length)).2)
      else ([], p.take n)

theorem arrived_flatten (ps : List (List α)) (n : Nat) :
    (arrived ps n).1.flatten ++ (arrived ps n).2 = ps.flatten.take n := by
  induction ps generalizing n with
  | nil => rw [arrived, List.flatten_nil, List.take_nil]; rfl
  | cons p ps ih =>
      rw [arrived, List.flatten_cons]
      split
      · rename_i h
        rw [List.flatten_cons, List.append_assoc, ih, List.take_append, List.take_of_length_le h]
      · rename_i h
        rw [List.flatten_nil, List.nil_append, List.take_append_of_le_length (by omega)]

theorem arrived_subset {ps : List (List α)} {n : Nat} {p : List α} (h : p ∈ (arrived ps n).1) : p ∈ ps := by
  induction ps generalizing n with
  | nil => exact h
  | cons q ps ih =>
      rw [arrived] at h
      split at h
      · rcases List.mem_cons.mp h with rfl | h
        · exact List.mem_cons_self
        · exact List.mem_cons_of_mem q (ih h)
      · cases h

theorem arrived_rest (ps : List (List α)) (n : Nat) : (arrived ps n).2 = [] ∨
    ∃ p ∈ ps, ∃ m, m < p.length ∧ (arrived ps n).2 = p.take m := by
  induction ps generalizing n with
  | nil => exact .inl rfl
  | cons p ps ih =>
      rw [arrived]
      split
      · obtain h | ⟨q, hq, m, hm, h⟩ := ih (n - p.length)
        · exact .inl h
        · exact .inr ⟨q, List.mem_cons_of_mem p hq, m, hm, h⟩
      · rename_i h
        exact .inr ⟨p, List.mem_cons_self, n, by omega, rfl⟩

theorem arrived_mono (ps : List (List α)) {n n' : Nat} (h : n ≤ n') :
    (arrived ps n).1 <+: (arrived ps n').1 := by
  induction ps generalizing n n' with
  | nil => exact List.prefix_rfl
  | cons p ps ih =>
      rw [arrived, arrived]
      split
      · rename_i hp
        rw [if_pos (by omega)]
        exact List.cons_prefix_cons.mpr ⟨rfl, ih (by omega)⟩
      · exact List.nil_prefix

/-- The rest of the frames before, with what comes next, is the frames that are whole by then
and their rest. -/
theorem arrived_add (ps : List (List α)) (n m : Nat) :
    ∃ ws, (arrived ps (n + m)).1 = (arrived ps n).1 ++ ws ∧
      (arrived ps n).2 ++ (ps.flatten.drop n).take m = ws.flatten ++ (arrived ps (n + m)).2 := by
  obtain ⟨ws, hws⟩ := arrived_mono ps (Nat.le_add_right n m)
  refine ⟨ws, hws.symm, ?_⟩
  apply (List.append_cancel_left_eq (arrived ps n).1.flatten _ _).mp
  calc (arrived ps n).1.flatten ++ ((arrived ps n).2 ++ (ps.flatten.drop n).take m)
      = ps.flatten.take (n + m) := by rw [← List.append_assoc, arrived_flatten, List.take_add]
    _ = (arrived ps n).1.flatten ++ (ws.flatten ++ (arrived ps (n + m)).2) := by
        rw [← arrived_flatten, ← hws, List.flatten_append, List.append_assoc]

end OiAmc.StreamFrames

namespace OiAmc.StreamWindows

variable {α : Type}

/-- What can be read from the front of a stream: some of it is passed over, and a good
window is taken as a whole. -/
inductive Reads (w : Nat) (good : List α → Prop) : List α → List (List α) → List α → Prop
  | stop (u : List α) : Reads w good u [] u
  | skip {u v : List α} {cs : List (List α)} (n : Nat) (hn : n ≤ u.length) (h : Reads w good (u.drop n) cs v) :
      Reads w good u cs v
  | take {u v : List α} {cs : List (List α)} (hw : w ≤ u.length) (hg : good (u.take w)) (h : Reads w good (u.drop w) cs v) :
      Reads w good u (u.take w :: cs) v

variable {w : Nat} {good : List α → Prop} {u v x : List α} {cs cs' : List (List α)}

def window (w : Nat) (u : List α) (p : Nat) : List α := (u.drop p).take w

def Windows (w : Nat) (good : List α → Prop) (u : List α) (cs : List (List α)) : Prop :=
  ∃ ps : List Nat, ps.Pairwise (fun p q => p + w ≤ q) ∧ cs = ps.map (window w u) ∧
    ∀ p ∈ ps, p + w ≤ u.length ∧ good (window w u p)

theorem Reads.trans (h : Reads w good u cs v) (h' : Reads w good v cs' x) :
    Reads w good u (cs ++ cs') x := by
  induction h with
  | stop => exact h'
  | skip n hn _ ih => exact .skip n hn (ih h')
  | take hw hg _ ih => exact .take hw hg (ih h')

theorem Reads.drop {n : Nat} (hn : n ≤ u.length) : Reads w good u [] (u.drop n) :=
  .skip n hn (.stop _)

theorem Reads.one (hw : w ≤ u.length) (hg : good (u.take w)) :
    Reads w good u [u.take w] (u.drop w) := .take hw hg (.stop _)

theorem Reads.append (h : Reads w good u cs v) (t : List α) :
    Reads w good (u ++ t) cs (v ++ t) := by
  induction h with
  | stop u => exact .stop _
  | @skip u _ _ n hn _ ih =>
      rw [← List.drop_append_of_le_length hn] at ih
      refine .skip n ?_ ih
      rw [List.length_append]
      exact Nat.le_add_right_of_le hn
  | @take u _ _ hw hg _ ih =>
      rw [← List.drop_append_of_le_length hw] at ih
      have htake : (u ++ t).take w = u.take w := List.take_append_of_le_length hw
      rw [← htake] at hg ⊢
      refine .take ?_ hg ih
      rw [List.length_append]
      exact Nat.le_add_right_of_le hw

theorem Reads.frames (h : Reads w good u cs v) :
    StreamFrames.Reads (fun c => c.length = w ∧ good c) u cs v := by
  induction h with
  | stop u => exact .stop u
  | skip n hn _ ih => exact .skip n hn ih
  | take hw hg _ ih => exact .take w hw ⟨List.length_take_of_le hw, hg⟩ ih

theorem Reads.windows (h : Reads w good u cs v) : Windows w good u cs := by
  obtain ⟨ps, hps, hcs, hin⟩ := h.frames.windows
  have hwidth : ∀ p ∈ ps, p.2 = w := by
    intro p hp
    obtain ⟨hle, hlen, _⟩ := hin p hp
    rw [StreamFrames.window, List.length_take, List.length_drop] at hlen
    omega
  have hsame : ∀ p ∈ ps, StreamFrames.window u p = window w u p.1 := fun p hp => by
    rw [StreamFrames.window, hwidth p hp, window]
  refine ⟨ps.map Prod.fst, ?_, ?_, ?_⟩
  · refine List.pairwise_map.mpr (hps.imp_of_mem fun hp _ hpq => ?_)
    rwa [hwidth _ hp] at hpq
  · rw [hcs, List.map_map]
    exact List.map_congr_left hsame
  · intro i hi
    obtain ⟨p, hp, rfl⟩ := List.mem_map.mp hi
    obtain ⟨hle, _, hg⟩ := hin p hp
    rw [hwidth p hp] at hle
    rw [hsame p hp] at hg
    exact ⟨hle, hg⟩

theorem drop_flatten (h : ∀ c ∈ cs, c.length = w) (i : Nat) :
    cs.flatten.drop (w * i) = (cs.drop i).flatten := by
  induction i generalizing cs with
  | zero => rw [Nat.mul_zero, List.drop_zero, List.drop_zero]
  | succ i ih =>
      cases cs with
      | nil => rw [List.flatten_nil, List.drop_nil, List.drop_nil, List.flatten_nil]
      | cons c cs =>
          have hc : c.length = w := h c List.mem_cons_self
          rw [List.flatten_cons, Nat.mul_succ, Nat.add_comm, ← List.drop_drop, ← hc,
            List.drop_left, hc, ih fun c' hc' => h c' (List.mem_cons_of_mem c hc'), List.drop_succ_cons]

theorem length_flatten (h : ∀ c ∈ cs, c.length = w) : cs.flatten.length = w * cs.length := by
  induction cs with
  | nil => rfl
  | cons c cs ih =>
      rw [List.flatten_cons, List.length_append, h c List.mem_cons_self,
        ih fun c' hc' => h c' (List.mem_cons_of_mem c hc'), List.length_cons, Nat.mul_succ, Nat.add_comm]

theorem window_flatten (h : ∀ c ∈ cs, c.length = w) {i : Nat} (hi : i < cs.length) :
    window w cs.flatten (w * i) = cs[i] := by
  rw [window, drop_flatten h, List.drop_eq_getElem_cons hi, List.flatten_cons]
  have hc : cs[i].length = w := h _ (List.getElem_mem hi)
  rw [← hc, List.take_left]

end OiAmc.StreamWindows

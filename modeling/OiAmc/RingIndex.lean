import Mathlib.Data.Nat.ModEq

namespace OiAmc.RingIndex

variable {a d m r w : Nat}

/-- The number of places of a ring of size m from r on up to w. -/
def span (m r w : Nat) : Nat := if r ≤ w then w - r else m - r + w

def next (m r d : Nat) : Nat := (r + d) % m

theorem next_eq (hr : r < m) (hd : d ≤ m) : next m r d = if r + d < m then r + d else r + d - m := by
  rw [next]
  split
  · exact Nat.mod_eq_of_lt ‹_›
  · rw [Nat.mod_eq_sub_mod (by omega), Nat.mod_eq_of_lt (by omega)]

theorem next_lt (hm : 0 < m) : next m r d < m := Nat.mod_lt _ hm

theorem next_dvd (hm : a ∣ m) (hr : a ∣ r) (hd : a ∣ d) : a ∣ next m r d :=
  (Nat.dvd_mod_iff hm).mpr (Nat.dvd_add hr hd)

theorem span_lt (hr : r < m) (hw : w < m) : span m r w < m := by
  unfold span
  split <;> omega

theorem span_dvd (hm : a ∣ m) (hr : a ∣ r) (hw : a ∣ w) : a ∣ span m r w := by
  unfold span
  split
  · exact Nat.dvd_sub hw hr
  · exact Nat.dvd_add (Nat.dvd_sub hm hr) hw

theorem span_next_end (hr : r < m) (hw : w < m) (hd : span m r w + d < m) :
    span m r (next m w d) = span m r w + d := by
  rw [next_eq hw (by omega)]
  unfold span at hd ⊢
  split at hd <;> split <;> split <;> omega

theorem span_next_start (hr : r < m) (hw : w < m) (hd : d ≤ span m r w) :
    span m (next m r d) w = span m r w - d := by
  have hlt := span_lt hr hw
  rw [next_eq hr (by omega)]
  unfold span at hd hlt ⊢
  split at hd <;> split <;> split <;> omega

theorem next_span (hr : r < m) (hw : w < m) : next m r (span m r w) = w := by
  rw [next_eq hr (span_lt hr hw).le]
  unfold span
  split <;> split <;> omega

theorem next_ne_end (hr : r < m) (hw : w < m) (hd : d < span m r w) : next m r d ≠ w := by
  have hlt := span_lt hr hw
  rw [next_eq hr (by omega)]
  unfold span at hd hlt
  split at hd <;> split <;> omega

theorem next_next (m r a d : Nat) : next m (next m r a) d = next m r (a + d) := by
  rw [next, next, next, Nat.mod_add_mod, Nat.add_assoc]

theorem next_zero (hr : r < m) : next m r 0 = r := Nat.mod_eq_of_lt hr

theorem next_end_eq_iff (hr : r < m) (hw : w < m) : next m w 1 = r ↔ span m r w + 1 = m := by
  rw [next_eq hw (by omega)]
  unfold span
  split <;> split <;> omega

theorem span_eq_zero_iff (hr : r < m) : span m r w = 0 ↔ r = w := by
  unfold span
  split <;> omega

theorem next_eq_zero (hr : r < m) : next m r m = r := by rw [next, Nat.add_mod_right, Nat.mod_eq_of_lt hr]

theorem next_around (hr : r < m) (hw : w < m) (d : Nat) :
    next m w (m - span m r w + d) = next m r d := by
  have hlt := span_lt hr hw
  have hsum : span m r w + (m - span m r w + d) = m + d := by omega
  calc next m w (m - span m r w + d)
      = next m (next m r (span m r w)) (m - span m r w + d) := by rw [next_span hr hw]
    _ = next m (next m r m) d := by rw [next_next, hsum, next_next]
    _ = next m r d := by rw [next_eq_zero hr]

end OiAmc.RingIndex

import Mathlib.Data.List.Basic
import Mathlib.Data.List.Sort

namespace OiAmc.ListRanges

variable {α : Type} {xs ys : List α} {a b n m p : Nat} {x : α}

def range (xs : List α) (a n : Nat) : List α := (xs.drop a).take n

def splice (xs : List α) (a : Nat) (ys : List α) : List α :=
  xs.take a ++ ys ++ xs.drop (a + ys.length)

theorem range_length (h : a + n ≤ xs.length) : (range xs a n).length = n := by
  rw [range, List.length_take, List.length_drop]
  omega

theorem range_getElem? (xs : List α) (a n p : Nat) :
    (range xs a n)[p]? = if p < n then xs[a + p]? else none := by
  rw [range, List.getElem?_take, List.getElem?_drop]

theorem mem_range_iff : x ∈ range xs a n ↔ ∃ p, a ≤ p ∧ p < a + n ∧ xs[p]? = some x := by
  rw [List.mem_iff_getElem?]
  constructor
  · rintro ⟨p, hp⟩
    rw [range_getElem?] at hp
    split at hp
    · exact ⟨a + p, by omega, by omega, hp⟩
    · cases hp
  · rintro ⟨p, h1, h2, hp⟩
    refine ⟨p - a, ?_⟩
    rw [range_getElem?, if_pos (by omega), Nat.add_sub_cancel' h1, hp]

theorem range_subset (h1 : b ≤ a) (h2 : a + n ≤ b + m) : range xs a n ⊆ range xs b m := by
  intro x hx
  obtain ⟨p, hp1, hp2, hp⟩ := mem_range_iff.mp hx
  exact mem_range_iff.mpr ⟨p, by omega, by omega, hp⟩

theorem range_take (h : m ≤ n) : range xs a m = (range xs a n).take m := by
  rw [range, range, List.take_take, Nat.min_eq_left h]

theorem range_drop (xs : List α) (a n m : Nat) : range xs (a + m) (n - m) = (range xs a n).drop m := by
  rw [range, range, List.drop_take, List.drop_drop]

theorem range_append (xs : List α) (a n m : Nat) :
    range xs a (n + m) = range xs a n ++ range xs (a + n) m := by
  rw [range, range, range, ← List.drop_drop, List.take_add]

theorem splice_length (h : a + ys.length ≤ xs.length) : (splice xs a ys).length = xs.length := by
  simp only [splice, List.length_append, List.length_take, List.length_drop]
  omega

theorem splice_getElem? (h : a + ys.length ≤ xs.length) (p : Nat) : (splice xs a ys)[p]? =
    if a ≤ p ∧ p < a + ys.length then ys[p - a]? else xs[p]? := by
  have hta : (xs.take a).length = a := by
    rw [List.length_take]
    omega
  rw [splice, List.append_assoc]
  by_cases hp : p < a
  · rw [List.getElem?_append_left (by omega), List.getElem?_take, if_pos hp, if_neg (by omega)]
  · rw [List.getElem?_append_right (by omega), hta]
    by_cases hq : p < a + ys.length
    · rw [List.getElem?_append_left (by omega), if_pos ⟨by omega, hq⟩]
    · rw [List.getElem?_append_right (by omega), List.getElem?_drop, if_neg (by omega)]
      congr 1
      omega

theorem range_splice_self (h : a + ys.length ≤ xs.length) : range (splice xs a ys) a ys.length = ys := by
  apply List.ext_getElem?
  intro p
  rw [range_getElem?]
  split
  · rw [splice_getElem? h, if_pos (by omega), Nat.add_sub_cancel_left]
  · rw [List.getElem?_eq_none (by omega)]

theorem range_splice_apart (h : a + ys.length ≤ xs.length) (hab : b + m ≤ a ∨ a + ys.length ≤ b) :
    range (splice xs a ys) b m = range xs b m := by
  apply List.ext_getElem?
  intro p
  rw [range_getElem?, range_getElem?]
  split
  · rw [splice_getElem? h, if_neg (by omega)]
  · rfl

theorem range_splice_perm (h : a + n ≤ xs.length) (hy : ys.Perm (range xs a n)) (hb : b ≤ a)
    (hm : a + n ≤ b + m) : (range (splice xs a ys) b m).Perm (range xs b m) := by
  have hlen : ys.length = n := by rw [hy.length_eq, range_length h]
  obtain ⟨k, rfl⟩ := Nat.exists_eq_add_of_le hb
  obtain ⟨l, rfl⟩ : ∃ l, m = k + (n + l) := ⟨m - k - n, by omega⟩
  have hsplit (zs : List α) : range zs b (k + (n + l)) =
      range zs b k ++ (range zs (b + k) n ++ range zs (b + k + n) l) := by
    rw [range_append, range_append]
  have hself := @range_splice_self α xs ys (b + k) (by omega)
  rw [hlen] at hself
  rw [hsplit, hsplit, hself, range_splice_apart (by omega) (by omega),
    range_splice_apart (by omega) (by omega)]
  exact List.Perm.append_left _ (List.Perm.append_right _ hy)

end OiAmc.ListRanges

namespace OiAmc.CompareSort

/-- A comparison that orders: what is not less than one another is alike. -/
structure Ordered {α : Type} (cmp : α → α → Int) : Prop where
  asymm : ∀ x y, cmp x y < 0 → ¬ cmp y x < 0
  trans : ∀ x y z, ¬ cmp y x < 0 → ¬ cmp z y < 0 → ¬ cmp z x < 0

/-- What qsort promises: the same elements, and in order when the comparison is
one. The order of elements that compare alike is left open. -/
structure Qsort where
  sort : {α : Type} → (α → α → Int) → List α → List α
  perm : ∀ {α : Type} (cmp : α → α → Int) (xs : List α), (sort cmp xs).Perm xs
  sorted : ∀ {α : Type} (cmp : α → α → Int) (xs : List α), Ordered cmp →
    (sort cmp xs).Pairwise fun x y => ¬ cmp y x < 0

variable {α : Type}

theorem ordered_sub (val : α → Nat) : Ordered fun x y => (val x : Int) - val y where
  asymm x y h := by omega
  trans x y z h h' := by omega

def insertionQsort : Qsort where
  sort cmp xs := xs.insertionSort fun x y => ¬ cmp y x < 0
  perm cmp xs := List.perm_insertionSort _ xs
  sorted cmp xs h := by
    have htotal : Std.Total fun x y => ¬ cmp y x < 0 := ⟨fun x y => by
      by_cases hxy : cmp x y < 0
      · exact Or.inl (h.asymm x y hxy)
      · exact Or.inr hxy⟩
    have htrans : IsTrans _ fun x y => ¬ cmp y x < 0 := ⟨h.trans⟩
    exact List.pairwise_insertionSort _ xs

end OiAmc.CompareSort

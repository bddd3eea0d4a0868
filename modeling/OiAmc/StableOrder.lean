import Mathlib.Data.List.Nodup
import Mathlib.Data.List.Sort

namespace OiAmc.StableOrder

variable {α κ : Type} [LinearOrder κ] {key : α → κ} {x : α} {xs live : List α}

/-- A new element, behind those that do not come after it. -/
def place (key : α → κ) (x : α) (xs : List α) : List α :=
  xs.filter (fun y => decide (key y ≤ key x)) ++ x :: xs.filter fun y => decide (key x < key y)

/-- xs holds the elements of a list in the order of their keys, and those with one key in
the order that they have there. -/
structure Agrees (key : α → κ) (xs live : List α) : Prop where
  sorted : xs.Pairwise fun x y => key x ≤ key y
  same : ∀ e, xs.filter (fun x => decide (key x = e)) = live.filter fun x => decide (key x = e)

/-- The first of the elements with the least key. -/
def earliest (key : α → κ) (live : List α) : Option α :=
  live.find? fun x => live.all fun y => decide (key x ≤ key y)

theorem Agrees.nil : Agrees key ([] : List α) [] := ⟨List.Pairwise.nil, fun _ => rfl⟩

theorem Agrees.mem_iff (h : Agrees key xs live) : x ∈ xs ↔ x ∈ live := by
  have hx : x ∈ xs.filter (fun y => decide (key y = key x)) ↔
      x ∈ live.filter fun y => decide (key y = key x) := by rw [h.same]
  simpa only [List.mem_filter, decide_true, and_true] using hx

theorem Agrees.perm (h : Agrees key xs live) : xs.Perm live := by
  classical
  refine List.perm_iff_count.mpr fun x => ?_
  have hcount (ys : List α) :
      (ys.filter fun y => decide (key y = key x)).count x = ys.count x :=
    List.count_filter (decide_eq_true rfl)
  rw [← hcount xs, ← hcount live, h.same]

theorem place_perm (x : α) (xs : List α) : (place key x xs).Perm (x :: xs) := by
  have hlate : (xs.filter fun y => decide (key x < key y)) =
      xs.filter fun y => !decide (key y ≤ key x) := List.filter_congr fun y _ => by
    rw [← decide_not, decide_eq_decide, not_le]
  rw [place, hlate]
  exact List.perm_middle.trans ((List.filter_append_perm _ xs).cons x)

theorem sorted_place (h : xs.Pairwise fun x y => key x ≤ key y) :
    (place key x xs).Pairwise fun x y => key x ≤ key y := by
  refine List.pairwise_append.mpr ⟨h.filter _, List.pairwise_cons.mpr ⟨fun y hy => ?_, h.filter _⟩,
    fun a ha b hb => ?_⟩
  · exact (of_decide_eq_true (List.mem_filter.mp hy).2).le
  · have hax := of_decide_eq_true (List.mem_filter.mp ha).2
    rcases List.mem_cons.mp hb with rfl | hb
    · exact hax
    · exact hax.trans (of_decide_eq_true (List.mem_filter.mp hb).2).le

theorem place_filter_ne (h : xs.Pairwise fun x y => key x ≤ key y) {p : α → Bool} (hx : p x = false) :
    (place key x xs).filter p = xs.filter p := by
  have hsplit : (xs.filter fun y => decide (key y ≤ key x)) ++
      (xs.filter fun y => decide (key x < key y)) = xs := by
    induction xs with
    | nil => rfl
    | cons y ys ih =>
        obtain ⟨hy, hys⟩ := List.pairwise_cons.mp h
        by_cases hle : key y ≤ key x
        · rw [List.filter_cons, List.filter_cons, if_pos (decide_eq_true hle),
            if_neg (by simpa using hle), List.cons_append, ih hys]
        · have hlt := not_le.mp hle
          have hnone : (ys.filter fun z => decide (key z ≤ key x)) = [] :=
            List.filter_eq_nil_iff.mpr fun z hz => by simpa using hlt.trans_le (hy z hz)
          have hall : (ys.filter fun z => decide (key x < key z)) = ys :=
            List.filter_eq_self.mpr fun z hz => decide_eq_true (hlt.trans_le (hy z hz))
          rw [List.filter_cons, List.filter_cons, if_neg (by simpa using hle), hnone,
            if_pos (decide_eq_true hlt), hall, List.nil_append]
  rw [place, List.filter_append, List.filter_cons, hx, if_neg Bool.false_ne_true,
    ← List.filter_append, hsplit]

theorem Agrees.place (h : Agrees key xs live) :
    Agrees key (StableOrder.place key x xs) (live ++ [x]) := by
  refine ⟨sorted_place h.sorted, fun e => ?_⟩
  rw [List.filter_append, ← h.same, StableOrder.place, List.filter_append, List.filter_cons,
    List.filter_filter, List.filter_filter]
  by_cases he : e ≤ key x
  · have hlow : (xs.filter fun y => decide (key y = e) && decide (key y ≤ key x)) =
        xs.filter fun y => decide (key y = e) := List.filter_congr fun y _ => by
      rw [← Bool.decide_and, decide_eq_decide, and_iff_left_iff_imp]
      rintro rfl
      exact he
    have hhigh : (xs.filter fun y => decide (key y = e) && decide (key x < key y)) = [] :=
      List.filter_eq_nil_iff.mpr fun y _ => by
        rw [← Bool.decide_and, decide_eq_true_eq]
        rintro ⟨rfl, hlt⟩
        exact absurd he (not_le.mpr hlt)
    rw [hlow, hhigh, List.filter_singleton, cond_eq_ite]
  · have hlow : (xs.filter fun y => decide (key y = e) && decide (key y ≤ key x)) = [] :=
      List.filter_eq_nil_iff.mpr fun y _ => by
        rw [← Bool.decide_and, decide_eq_true_eq]
        rintro ⟨rfl, hle⟩
        exact he hle
    have hhigh : (xs.filter fun y => decide (key y = e) && decide (key x < key y)) =
        xs.filter fun y => decide (key y = e) := List.filter_congr fun y _ => by
      rw [← Bool.decide_and, decide_eq_decide, and_iff_left_iff_imp]
      rintro rfl
      exact not_le.mp he
    have hx : decide (key x = e) = false := decide_eq_false fun h' => he h'.ge
    rw [hlow, hhigh, List.filter_singleton, hx]
    simp

theorem Agrees.filter (h : Agrees key xs live) (p : α → Bool) :
    Agrees key (xs.filter p) (live.filter p) := by
  refine ⟨h.sorted.filter _, fun e => ?_⟩
  rw [List.filter_filter, List.filter_filter]
  have hcomm (ys : List α) : (ys.filter fun y => decide (key y = e) && p y) =
      (ys.filter fun y => decide (key y = e)).filter p := by
    rw [List.filter_filter]
    exact List.filter_congr fun y _ => Bool.and_comm _ _
  rw [hcomm, hcomm, h.same]

theorem place_map {β : Type} {f : α → β} {key' : β → κ} (hx : key' (f x) = key x)
    (hf : ∀ y ∈ xs, key' (f y) = key y) :
    (StableOrder.place key x xs).map f = StableOrder.place key' (f x) (xs.map f) := by
  have hlow : (xs.filter fun y => decide (key y ≤ key x)) =
      xs.filter fun y => decide (key' (f y) ≤ key' (f x)) :=
    List.filter_congr fun y hy => by rw [hf y hy, hx]
  have hhigh : (xs.filter fun y => decide (key x < key y)) =
      xs.filter fun y => decide (key' (f x) < key' (f y)) :=
    List.filter_congr fun y hy => by rw [hf y hy, hx]
  rw [StableOrder.place, hlow, hhigh, StableOrder.place, List.map_append, List.map_cons, List.filter_map,
    List.filter_map]
  rfl

theorem place_append {ys : List α} (h : ∀ y ∈ xs, key y ≤ key x) :
    StableOrder.place key x (xs ++ ys) = xs ++ StableOrder.place key x ys := by
  have hall : (xs.filter fun y => decide (key y ≤ key x)) = xs :=
    List.filter_eq_self.mpr fun y hy => decide_eq_true (h y hy)
  have hnone : (xs.filter fun y => decide (key x < key y)) = [] :=
    List.filter_eq_nil_iff.mpr fun y hy => by simpa using h y hy
  rw [StableOrder.place, List.filter_append, List.filter_append, hall, hnone, List.nil_append,
    List.append_assoc, StableOrder.place]

theorem Agrees.earliest (h : Agrees key (x :: xs) live) :
    StableOrder.earliest key live = some x := by
  obtain ⟨hx, _⟩ := List.pairwise_cons.mp h.sorted
  have hmin : ∀ y ∈ live, key x ≤ key y := by
    intro y hy
    rcases List.mem_cons.mp (h.mem_iff.mpr hy) with rfl | hy
    · exact le_refl _
    · exact hx y hy
  have hmem : x ∈ live := h.mem_iff.mp List.mem_cons_self
  have hall : ∀ y ∈ live, (live.all fun z => decide (key y ≤ key z)) = decide (key y = key x) := by
    intro y hy
    rw [Bool.eq_iff_iff, List.all_eq_true, decide_eq_true_eq]
    constructor
    · intro hle
      exact le_antisymm (of_decide_eq_true (hle x hmem)) (hmin y hy)
    · intro heq z hz
      exact decide_eq_true (heq ▸ hmin z hz)
  have hself : decide (key x = key x) = true := decide_eq_true rfl
  rw [StableOrder.earliest, ← List.head?_filter, List.filter_congr hall, ← h.same,
    List.filter_cons, if_pos hself]
  rfl

theorem Agrees.earliest_nil (h : Agrees key [] live) : StableOrder.earliest key live = none := by
  have hnil : live = [] := h.perm.symm.eq_nil
  rw [hnil]
  rfl

end OiAmc.StableOrder

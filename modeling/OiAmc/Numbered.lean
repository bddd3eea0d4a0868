import Mathlib.Data.List.Basic

namespace OiAmc.Numbered

variable {α : Type} (same : α → α → Bool)

def numberFrom : List α → List α → List (α × Nat)
  | _, [] => []
  | seen, x :: xs => (x, 1 + seen.countP (same x)) :: numberFrom (x :: seen) xs

def number (xs : List α) : List (α × Nat) := numberFrom same [] xs

variable {same} {p : α → Bool} {xs : List α}

def Class (same : α → α → Bool) (p : α → Bool) : Prop := ∀ x y, p x → same x y = p y

theorem countP_class (hp : Class same p) {x : α} (hx : p x) (xs : List α) :
    xs.countP (same x) = xs.countP p :=
  List.countP_congr fun y _ => by rw [hp x y hx]

theorem find_numberFrom (hp : Class same p) (seen xs : List α) (k : Nat) :
    (numberFrom same seen xs).find? (fun e => p e.1 && e.2 == seen.countP p + k + 1) =
      (xs.filter p)[k]?.map fun x => (x, seen.countP p + k + 1) := by
  induction xs generalizing seen k with
  | nil => rfl
  | cons x xs ih =>
      rw [numberFrom]
      by_cases hx : p x
      · rw [countP_class hp hx, List.filter_cons_of_pos hx]
        cases k with
        | zero =>
            rw [List.find?_cons_of_pos (by simp [hx, Nat.add_comm])]
            simp [Nat.add_comm]
        | succ k =>
            rw [List.find?_cons_of_neg (by simp; omega), List.getElem?_cons_succ, ← Nat.add_assoc]
            have h := ih (x :: seen) k
            rwa [List.countP_cons_of_pos hx, Nat.add_right_comm _ 1 k] at h
      · rw [List.filter_cons_of_neg hx, List.find?_cons_of_neg (by simp [hx])]
        have h := ih (x :: seen) k
        rwa [List.countP_cons_of_neg hx] at h

theorem find_number (hp : Class same p) (xs : List α) (k : Nat) :
    (number same xs).find? (fun e => p e.1 && e.2 == k + 1) =
      (xs.filter p)[k]?.map fun x => (x, k + 1) := by
  have h := find_numberFrom hp [] xs k
  rwa [List.countP_nil, Nat.zero_add] at h

theorem last_numberFrom (hp : Class same p) (seen xs : List α) :
    (numberFrom same seen xs).foldl (fun n e => if p e.1 then e.2 else n) (seen.countP p) =
      seen.countP p + xs.countP p := by
  induction xs generalizing seen with
  | nil => rfl
  | cons x xs ih =>
      rw [numberFrom, List.foldl_cons]
      have h := ih (x :: seen)
      by_cases hx : p x
      · rw [if_pos hx, countP_class hp hx, List.countP_cons_of_pos hx]
        rw [List.countP_cons_of_pos hx, Nat.add_comm] at h
        rw [h]
        omega
      · rw [if_neg hx, List.countP_cons_of_neg hx]
        rwa [List.countP_cons_of_neg hx] at h

theorem last_number (hp : Class same p) (xs : List α) :
    (number same xs).foldl (fun n e => if p e.1 then e.2 else n) 0 = xs.countP p := by
  have h := last_numberFrom hp [] xs
  rwa [List.countP_nil, Nat.zero_add] at h

theorem length_numberFrom (seen xs : List α) : (numberFrom same seen xs).length = xs.length := by
  induction xs generalizing seen with
  | nil => rfl
  | cons x xs ih => rw [numberFrom, List.length_cons, List.length_cons, ih]

theorem getElem_numberFrom (seen xs : List α) {j : Nat} (hj : j < xs.length) :
    getElem (numberFrom same seen xs) j (by rwa [length_numberFrom]) =
      (xs[j], 1 + (seen.countP (same xs[j]) + (xs.take j).countP (same xs[j]))) := by
  induction xs generalizing seen j with
  | nil => cases hj
  | cons x xs ih =>
      cases j with
      | zero => rfl
      | succ j =>
          have hrest := ih (x :: seen) (Nat.lt_of_succ_lt_succ hj)
          simp only [numberFrom, List.getElem_cons_succ, List.take_succ_cons, hrest, List.countP_cons]
          congr 2
          omega

theorem number_lt (hp : Class same p) {i j : Nat} (hij : i < j) (hj : j < xs.length) (hi : p (getElem xs i (by omega)))
    (hpj : p xs[j]) : (getElem (number same xs) i (by rw [number, length_numberFrom]; omega)).2 <
      (getElem (number same xs) j (by rwa [number, length_numberFrom])).2 := by
  simp only [number, getElem_numberFrom [] xs hj, getElem_numberFrom [] xs (show i < xs.length by omega)]
  rw [countP_class hp hi, countP_class hp hpj, countP_class hp hi, countP_class hp hpj]
  have hsplit : xs.take j = xs.take i ++ xs[i] :: (xs.drop (i + 1)).take (j - i - 1) := by
    calc xs.take j = (xs.take i ++ xs.drop i).take j := by rw [List.take_append_drop]
      _ = xs.take i ++ (xs.drop i).take (j - i) := by
          rw [List.take_append, List.length_take, Nat.min_eq_left (by omega), List.take_take,
            Nat.min_eq_right (by omega)]
      _ = _ := by
          rw [List.drop_eq_getElem_cons (by omega), show j - i = j - i - 1 + 1 by omega, List.take_succ_cons]
          rfl
  rw [hsplit, List.countP_append, List.countP_cons_of_pos hi]
  omega

theorem numberFrom_congr {same' : α → α → Bool} {seen : List α}
    (h : ∀ x ∈ xs, ∀ y ∈ seen ++ xs, same x y = same' x y) : numberFrom same seen xs = numberFrom same' seen xs := by
  induction xs generalizing seen with
  | nil => rfl
  | cons x xs ih =>
      rw [numberFrom, numberFrom, ih]
      · congr 2
        exact congrArg _ (List.countP_congr fun y hy => by
          rw [h x List.mem_cons_self y (List.mem_append_left _ hy)])
      · intro y hy z hz
        apply h y (List.mem_cons_of_mem _ hy) z
        rcases List.mem_append.mp hz with hz | hz
        · rcases List.mem_cons.mp hz with rfl | hz
          · exact List.mem_append_right _ List.mem_cons_self
          · exact List.mem_append_left _ hz
        · exact List.mem_append_right _ (List.mem_cons_of_mem _ hz)

theorem number_congr {same' : α → α → Bool} (h : ∀ x ∈ xs, ∀ y ∈ xs, same x y = same' x y) :
    number same xs = number same' xs :=
  numberFrom_congr h

end OiAmc.Numbered

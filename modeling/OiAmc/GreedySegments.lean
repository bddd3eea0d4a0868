import Mathlib.Algebra.GroupWithZero.Nat
import Mathlib.Data.List.Basic

namespace OiAmc.GreedySegments

variable {α : Type} {size : α → Nat} {cap : Nat}

/-- How many entries from the front fit into cap, when a part of it is used. -/
def fit (size : α → Nat) (cap : Nat) : Nat → List α → Nat
  | _, [] => 0
  | used, x :: xs => if used + size x ≤ cap then fit size cap (used + size x) xs + 1 else 0

/-- A list cut into segments, each as long as fits. -/
def cut (size : α → Nat) (cap : Nat) : Nat → List α → List (List α)
  | 0, _ => []
  | _, [] => []
  | n + 1, x :: xs =>
      let k := fit size cap 0 (x :: xs)
      (x :: xs).take k :: cut size cap n ((x :: xs).drop k)

def segments (size : α → Nat) (cap : Nat) (xs : List α) : List (List α) := cut size cap xs.length xs

theorem fit_le (size : α → Nat) (cap used : Nat) (xs : List α) : fit size cap used xs ≤ xs.length := by
  induction xs generalizing used with
  | nil => exact Nat.le_refl 0
  | cons x xs ih =>
      rw [fit]
      split
      · exact Nat.succ_le_succ (ih _)
      · exact Nat.zero_le _

theorem fit_append (used : Nat) (xs : List α) {ys : List α} (h : ∀ y, ys.head? = some y → cap < size y) :
    fit size cap used (xs ++ ys) = fit size cap used xs := by
  induction xs generalizing used with
  | nil =>
      cases ys with
      | nil => rfl
      | cons y ys =>
          have hy := h y rfl
          change (if used + size y ≤ cap then _ else 0) = 0
          exact if_neg (by omega)
  | cons x xs ih => rw [List.cons_append, fit, fit, ih]

theorem fit_pos {x : α} {xs : List α} (h : size x ≤ cap) : 0 < fit size cap 0 (x :: xs) := by
  rw [fit, if_pos (by omega)]
  exact Nat.succ_pos _

theorem fit_total (size : α → Nat) {used : Nat} (hused : used ≤ cap) (xs : List α) :
    used + ((xs.take (fit size cap used xs)).map size).sum ≤ cap := by
  induction xs generalizing used with
  | nil => exact hused
  | cons x xs ih =>
      rw [fit]
      split
      · next h =>
          rw [List.take_succ_cons, List.map_cons, List.sum_cons]
          have := ih h
          omega
      · exact hused

theorem cut_eq {n : Nat} {xs : List α} (hpos : ∀ x ∈ xs, size x ≤ cap) (hn : xs.length ≤ n) :
    cut size cap n xs = segments size cap xs := by
  induction n using Nat.strongRecOn generalizing xs with
  | ind n ih =>
      cases xs with
      | nil => cases n <;> rfl
      | cons x xs =>
          cases n with
          | zero => exact absurd hn (Nat.not_succ_le_zero _)
          | succ n =>
              have hfit := @fit_pos _ size cap x xs (hpos x List.mem_cons_self)
              have hdrop : ∀ y ∈ (x :: xs).drop (fit size cap 0 (x :: xs)), size y ≤ cap :=
                fun y hy => hpos y (List.mem_of_mem_drop hy)
              have hlen : ((x :: xs).drop (fit size cap 0 (x :: xs))).length ≤ xs.length := by
                rw [List.length_drop, List.length_cons]
                omega
              have hlen' : xs.length ≤ n := Nat.le_of_succ_le_succ hn
              rw [segments, List.length_cons, cut, cut, ih n (Nat.lt_succ_self n) hdrop (Nat.le_trans hlen hlen')]
              by_cases he : xs.length = n
              · rw [he, ih n (Nat.lt_succ_self n) hdrop (Nat.le_trans hlen hlen')]
              · rw [ih xs.length (by omega) hdrop hlen]

theorem segments_nil : segments size cap [] = [] := rfl

theorem segments_cons {x : α} {xs : List α} (hpos : ∀ y ∈ x :: xs, size y ≤ cap) :
    segments size cap (x :: xs) = (x :: xs).take (fit size cap 0 (x :: xs)) ::
      segments size cap ((x :: xs).drop (fit size cap 0 (x :: xs))) := by
  have hfit := @fit_pos _ size cap x xs (hpos x List.mem_cons_self)
  rw [segments, List.length_cons, cut,
    cut_eq (fun y hy => hpos y (List.mem_of_mem_drop hy))
      (by rw [List.length_drop, List.length_cons]; omega)]

theorem segments_spec {xs : List α} (hpos : ∀ x ∈ xs, size x ≤ cap) :
    (segments size cap xs).flatten = xs ∧
      ∀ seg ∈ segments size cap xs, seg ≠ [] ∧ (seg.map size).sum ≤ cap := by
  induction hn : xs.length using Nat.strongRecOn generalizing xs with
  | ind n ih =>
      cases xs with
      | nil => exact ⟨rfl, List.forall_mem_nil _⟩
      | cons x xs =>
          have hfit := @fit_pos _ size cap x xs (hpos x List.mem_cons_self)
          rw [List.length_cons] at hn
          obtain ⟨hflat, hall⟩ := ih ((x :: xs).drop (fit size cap 0 (x :: xs))).length
            (by rw [List.length_drop, List.length_cons]; omega)
            (fun y hy => hpos y (List.mem_of_mem_drop hy)) rfl
          rw [segments_cons hpos]
          refine ⟨?_, List.forall_mem_cons.mpr ⟨⟨?_, ?_⟩, hall⟩⟩
          · rw [List.flatten_cons, hflat, List.take_append_drop]
          · intro hnil
            have hlen := congrArg List.length hnil
            rw [List.length_take_of_le (fit_le size cap 0 _), List.length_nil] at hlen
            omega
          · have htotal := fit_total size (Nat.zero_le cap) (x :: xs)
            omega

theorem segments_length {xs : List α} (hpos : ∀ x ∈ xs, size x ≤ cap) :
    (segments size cap xs).length ≤ xs.length := by
  obtain ⟨hflat, hall⟩ := segments_spec hpos
  have hlen : ∀ segs : List (List α), (∀ seg ∈ segs, seg ≠ []) → segs.length ≤ segs.flatten.length := by
    intro segs hne
    induction segs with
    | nil => exact Nat.le_refl 0
    | cons seg segs ih =>
        have hseg := List.length_pos_of_ne_nil (hne seg List.mem_cons_self)
        have := ih fun seg hs => hne seg (List.mem_cons_of_mem _ hs)
        rw [List.flatten_cons, List.length_append, List.length_cons]
        omega
  have hle := hlen _ fun seg hs => (hall seg hs).1
  rw [hflat] at hle
  exact hle

end OiAmc.GreedySegments

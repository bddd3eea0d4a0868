import Mathlib.Logic.Function.Basic
import Mathlib.Data.List.Basic

namespace OiAmc.BoundedFill

variable {α κ : Type}

/-- Store at the end of an array with room for `cap` entries. A store past
the room has no outcome. -/
def put (cap : Nat) (xs : List α) (x : α) : Option (List α) :=
  if xs.length < cap then some (xs ++ [x]) else none

theorem put_eq_some {cap : Nat} {xs ys : List α} {x : α} :
    put cap xs x = some ys ↔ xs.length < cap ∧ ys = xs ++ [x] := by
  rw [put]
  split
  · next h => simp [h, eq_comm]
  · next h => simp [h]

theorem foldlM_put (cap : Nat) (ys xs : List α) :
    ys.foldlM (put cap) xs =
      if xs.length + ys.length ≤ cap ∨ ys = [] then some (xs ++ ys) else none := by
  induction ys generalizing xs with
  | nil => simp
  | cons y ys ih =>
      rw [List.foldlM_cons]
      by_cases hy : xs.length < cap
      · have hp : put cap xs y = some (xs ++ [y]) := put_eq_some.mpr ⟨hy, rfl⟩
        have hc : ((xs ++ [y]).length + ys.length ≤ cap ∨ ys = []) ↔
            (xs.length + (y :: ys).length ≤ cap ∨ y :: ys = []) := by
          rcases ys with _ | ⟨z, zs⟩
          · simp; omega
          · simp; omega
        simp only [hp, Option.bind_eq_bind, Option.bind_some, ih, List.append_assoc, hc,
          List.singleton_append]
      · have hn : put cap xs y = none := by simp [put, hy]
        have hc : ¬ (xs.length + (y :: ys).length ≤ cap ∨ y :: ys = []) := by simp; omega
        simp only [hn, Option.bind_eq_bind, Option.bind_none, if_neg hc]

theorem foldlM_put_self (xs : List α) : xs.foldlM (put xs.length) [] = some xs := by
  simp [foldlM_put]

variable [DecidableEq κ]

def tally (key : α → κ) (xs : List α) : κ → Nat :=
  xs.foldl (fun c x => Function.update c (key x) (c (key x) + 1)) (fun _ => 0)

def fileBy (key : α → κ) (cap : κ → Nat) (t : κ → List α) (x : α) : Option (κ → List α) :=
  (put (cap (key x)) (t (key x)) x).map (Function.update t (key x))

theorem tally_eq (key : α → κ) (xs : List α) (k : κ) :
    tally key xs k = (xs.filter (fun x => key x = k)).length := by
  have h (c : κ → Nat) : (xs.foldl (fun c x => Function.update c (key x) (c (key x) + 1)) c) k =
      c k + (xs.filter (fun x => key x = k)).length := by
    induction xs generalizing c with
    | nil => simp
    | cons x xs ih =>
        rw [List.foldl_cons, ih]
        by_cases hk : key x = k
        · subst hk; simp; omega
        · simp [hk, Function.update_of_ne (Ne.symm hk)]
  simpa [tally] using h (fun _ => 0)

theorem foldlM_fileBy (key : α → κ) (cap : κ → Nat) (t : κ → List α) (xs : List α)
    (h : ∀ k, (t k).length + (xs.filter (fun x => key x = k)).length ≤ cap k) :
    xs.foldlM (fileBy key cap) t = some (fun k => t k ++ xs.filter (fun x => key x = k)) := by
  induction xs generalizing t with
  | nil => simp
  | cons x xs ih =>
      have hx := h (key x)
      simp only [List.filter_cons, decide_true, if_true, List.length_cons] at hx
      have hp : put (cap (key x)) (t (key x)) x = some (t (key x) ++ [x]) :=
        put_eq_some.mpr ⟨by omega, rfl⟩
      rw [List.foldlM_cons, fileBy, hp]
      simp only [Option.map_some, Option.bind_eq_bind, Option.bind_some]
      rw [ih]
      · congr 1
        funext k
        by_cases hk : key x = k
        · subst hk; simp
        · simp [hk, Function.update_of_ne (Ne.symm hk)]
      · intro k
        have hk := h k
        by_cases he : key x = k
        · subst he
          simp only [List.filter_cons, decide_true, if_true, List.length_cons] at hk
          simp only [Function.update_self, List.length_append, List.length_singleton]
          omega
        · rw [Function.update_of_ne (Ne.symm he)]
          simpa [he] using hk

/-- Counting the keys first and filing the same entries afterwards never runs
out of room, and files each entry once, in its original order. -/
theorem tally_then_file (key : α → κ) (xs : List α) :
    xs.foldlM (fileBy key (tally key xs)) (fun _ => []) =
      some (fun k => xs.filter (fun x => key x = k)) := by
  rw [foldlM_fileBy key (tally key xs) (fun _ => []) xs]
  · simp
  · intro k; simp [tally_eq]

end OiAmc.BoundedFill

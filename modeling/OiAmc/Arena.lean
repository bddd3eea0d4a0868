import Mathlib.Logic.Function.Basic
import Mathlib.Data.List.Basic

namespace OiAmc.Arena

/-- Memory of blocks of one kind. An address is handed out once: a block that is
freed stays empty, and a use of it has no outcome. -/
structure Pool (α : Type) where
  get : Nat → Option α
  next : Nat
  bounded : ∀ p, next ≤ p → get p = none

variable {α : Type} {m m' : Pool α} {p q : Nat} {x : α}

def Pool.empty : Pool α := ⟨fun _ => none, 0, fun _ _ => rfl⟩

def Pool.alloc (m : Pool α) (x : α) : Pool α where
  get := Function.update m.get m.next (some x)
  next := m.next + 1
  bounded p hp := by
    rw [Function.update_of_ne (by omega)]
    exact m.bounded p (by omega)

def Pool.put (m : Pool α) (p : Nat) (x : Option α) (hp : m.get p ≠ none) : Pool α where
  get := Function.update m.get p x
  next := m.next
  bounded q hq := by
    have hne : q ≠ p := fun h => hp (h ▸ m.bounded q hq)
    rw [Function.update_of_ne hne]
    exact m.bounded q hq

def Pool.write (m : Pool α) (p : Nat) (x : α) : Option (Pool α) :=
  match h : m.get p with
  | some _ => some (m.put p (some x) (by simp [h]))
  | none => none

def Pool.free (m : Pool α) (p : Nat) : Option (Pool α) :=
  match h : m.get p with
  | some _ => some (m.put p none (by simp [h]))
  | none => none

@[simp] theorem alloc_next : (m.alloc x).next = m.next + 1 := rfl

@[simp] theorem alloc_get : (m.alloc x).get = Function.update m.get m.next (some x) := rfl

theorem lt_next (h : m.get p ≠ none) : p < m.next := by
  by_contra hp
  exact h (m.bounded p (by omega))

theorem write_eq_some : m.write p x = some m' ↔
    m.get p ≠ none ∧ m'.get = Function.update m.get p (some x) ∧ m'.next = m.next := by
  obtain ⟨get', next', bounded'⟩ := m'
  rw [Pool.write]
  split
  · next y h =>
      simp only [Pool.put, Option.some.injEq, Pool.mk.injEq]
      constructor
      · intro he
        exact ⟨by simp [h], he.1.symm, he.2.symm⟩
      · intro he
        exact ⟨he.2.1.symm, he.2.2.symm⟩
  · next h =>
      constructor
      · intro he; cases he
      · intro he; exact absurd h he.1

theorem free_eq_some : m.free p = some m' ↔
    m.get p ≠ none ∧ m'.get = Function.update m.get p none ∧ m'.next = m.next := by
  obtain ⟨get', next', bounded'⟩ := m'
  rw [Pool.free]
  split
  · next y h =>
      simp only [Pool.put, Option.some.injEq, Pool.mk.injEq]
      constructor
      · intro he
        exact ⟨by simp [h], he.1.symm, he.2.symm⟩
      · intro he
        exact ⟨he.2.1.symm, he.2.2.symm⟩
  · next h =>
      constructor
      · intro he; cases he
      · intro he; exact absurd h he.1

theorem write_some (h : m.get p ≠ none) : ∃ m', m.write p x = some m' ∧
    m'.get = Function.update m.get p (some x) ∧ m'.next = m.next :=
  ⟨m.put p (some x) h, write_eq_some.mpr ⟨h, rfl, rfl⟩, rfl, rfl⟩

theorem free_some (h : m.get p ≠ none) : ∃ m', m.free p = some m' ∧
    m'.get = Function.update m.get p none ∧ m'.next = m.next :=
  ⟨m.put p none h, free_eq_some.mpr ⟨h, rfl, rfl⟩, rfl, rfl⟩

/-- A block that is freed at once leaves nothing behind. -/
theorem free_alloc (m : Pool α) (x : α) : ∃ m', (m.alloc x).free m.next = some m' ∧ m'.get = m.get := by
  have hlive : (m.alloc x).get m.next ≠ none := by
    rw [alloc_get, Function.update_self]
    exact Option.some_ne_none x
  obtain ⟨m', hfree, hget, -⟩ := free_some hlive
  refine ⟨m', hfree, ?_⟩
  rw [hget, alloc_get, Function.update_idem, ← m.bounded m.next (Nat.le_refl _), Function.update_eq_self]

theorem write_alloc (m : Pool α) (x y : α) : ∃ m', (m.alloc x).write m.next y = some m' ∧
    m'.get = Function.update m.get m.next (some y) := by
  have hlive : (m.alloc x).get m.next ≠ none := by
    rw [alloc_get, Function.update_self]
    exact Option.some_ne_none x
  obtain ⟨m', hwrite, hget, -⟩ := @write_some _ _ _ y hlive
  refine ⟨m', hwrite, ?_⟩
  rw [hget, alloc_get, Function.update_idem]

end OiAmc.Arena

namespace OiAmc.CellChain

open Arena

structure Node (β : Type) where
  val : β
  next : Option Nat
  prev : Option Nat

variable {β : Type} {get get' : Nat → Option (Node β)} {prev : Option Nat} {xs ys : List (Nat × β)}
  {p q : Nat} {v : β}

def first (xs : List (Nat × β)) : Option Nat := xs.head?.map Prod.fst

def last (xs : List (Nat × β)) : Option Nat := xs.getLast?.map Prod.fst

/-- The nodes at these addresses hold these values, follow each other along next,
and point back along prev. -/
def Chain (get : Nat → Option (Node β)) : Option Nat → List (Nat × β) → Prop
  | _, [] => True
  | prev, (p, v) :: xs => get p = some ⟨v, first xs, prev⟩ ∧ Chain get (some p) xs

@[simp] theorem first_nil : first ([] : List (Nat × β)) = none := rfl

@[simp] theorem first_cons : first ((p, v) :: xs) = some p := rfl

@[simp] theorem last_nil : last ([] : List (Nat × β)) = none := rfl

@[simp] theorem last_snoc : last (xs ++ [(p, v)]) = some p := by
  simp [last]

theorem first_append (h : xs ≠ []) : first (xs ++ ys) = first xs := by
  cases xs with
  | nil => exact absurd rfl h
  | cons x xs => rfl

/-- A chain depends on its own nodes only. -/
theorem chain_congr (hget : ∀ x ∈ xs, get' x.1 = get x.1) (h : Chain get prev xs) :
    Chain get' prev xs := by
  induction xs generalizing prev with
  | nil => trivial
  | cons x xs ih =>
      obtain ⟨hx, hxs⟩ := h
      refine ⟨(hget x List.mem_cons_self).trans hx, ?_⟩
      exact ih (fun y hy => hget y (List.mem_cons_of_mem x hy)) hxs

theorem chain_live (h : Chain get prev xs) : ∀ x ∈ xs, get x.1 ≠ none := by
  induction xs generalizing prev with
  | nil => simp
  | cons x xs ih =>
      intro y hy
      obtain ⟨hx, hxs⟩ := h
      rcases List.mem_cons.mp hy with rfl | hy
      · simp [hx]
      · exact ih hxs y hy

theorem chain_end : Chain get prev (xs ++ [(p, v)]) →
    get p = some ⟨v, none, (last xs).or prev⟩ := by
  induction xs generalizing prev with
  | nil => intro h; exact h.1
  | cons x xs ih =>
      intro h
      rw [ih h.2]
      cases xs with
      | nil => rfl
      | cons y ys => simp [last, List.getLast?_cons]

theorem chain_tail (h : Chain get prev ((p, v) :: xs))
    (hother : ∀ x ∈ xs, some x.1 ≠ first xs → get' x.1 = get x.1)
    (hhead : ∀ q c, first xs = some q → get q = some c → get' q = some { c with prev := none })
    (hn : (xs.map Prod.fst).Nodup) : Chain get' none xs := by
  obtain ⟨-, hxs⟩ := h
  cases xs with
  | nil => trivial
  | cons x xs =>
      obtain ⟨hx, hxs⟩ := hxs
      obtain ⟨hxn, -⟩ := List.nodup_cons.mp hn
      refine ⟨hhead x.1 _ rfl hx, chain_congr (fun y hy => ?_) hxs⟩
      apply hother y (List.mem_cons_of_mem x hy)
      intro he
      exact hxn (Option.some.inj he ▸ List.mem_map_of_mem hy)

theorem chain_append (h : Chain get prev xs) (hn : (xs.map Prod.fst).Nodup)
    (hother : ∀ x ∈ xs, some x.1 ≠ last xs → get' x.1 = get x.1)
    (hlast : ∀ q c, last xs = some q → get q = some c → get' q = some { c with next := some p })
    (hnew : get' p = some ⟨v, none, (last xs).or prev⟩) : Chain get' prev (xs ++ [(p, v)]) := by
  induction xs generalizing prev with
  | nil => exact ⟨hnew, trivial⟩
  | cons x xs ih =>
      obtain ⟨hx, hxs⟩ := h
      obtain ⟨hxn, hn⟩ := List.nodup_cons.mp hn
      cases xs with
      | nil => exact ⟨hlast x.1 _ rfl hx, hnew, trivial⟩
      | cons y ys =>
          have hl : last (x :: y :: ys) = last (y :: ys) := by simp [last, List.getLast?_cons]
          rw [hl] at hother hlast hnew
          refine ⟨?_, ih hxs hn (fun z hz => hother z (List.mem_cons_of_mem x hz)) hlast ?_⟩
          · change get' x.1 = some ⟨x.2, some y.1, prev⟩
            apply (hother x List.mem_cons_self ?_).trans hx
            intro he
            obtain ⟨z, hz, hez⟩ := Option.map_eq_some_iff.mp he.symm
            have hmem := List.mem_of_getLast? hz
            exact hxn (hez ▸ List.mem_map_of_mem hmem)
          · rw [hnew]
            simp [last, List.getLast?_cons]

theorem chain_dropLast (h : Chain get prev (xs ++ [(p, v)])) (hn : (xs.map Prod.fst).Nodup)
    (hother : ∀ x ∈ xs, some x.1 ≠ last xs → get' x.1 = get x.1)
    (hlast : ∀ q c, last xs = some q → get q = some c → get' q = some { c with next := none }) :
    Chain get' prev xs := by
  induction xs generalizing prev with
  | nil => trivial
  | cons x xs ih =>
      obtain ⟨hx, hxs⟩ := h
      obtain ⟨hxn, hn⟩ := List.nodup_cons.mp hn
      cases xs with
      | nil => exact ⟨hlast x.1 _ rfl hx, trivial⟩
      | cons y ys =>
          have hl : last (x :: y :: ys) = last (y :: ys) := by simp [last, List.getLast?_cons]
          rw [hl] at hother hlast
          refine ⟨?_, ih hxs hn (fun z hz => hother z (List.mem_cons_of_mem x hz)) hlast⟩
          apply (hother x List.mem_cons_self ?_).trans hx
          intro he
          obtain ⟨z, hz, hez⟩ := Option.map_eq_some_iff.mp he.symm
          exact hxn (hez ▸ List.mem_map_of_mem (List.mem_of_getLast? hz))

end OiAmc.CellChain

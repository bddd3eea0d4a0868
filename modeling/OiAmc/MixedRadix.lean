import Mathlib.Algebra.BigOperators.Ring.List
import Mathlib.Data.List.Forall2
import Mathlib.Data.List.Nodup

namespace OiAmc.MixedRadix

variable {α : Type} {lists : List (List α)}

def size (lists : List (List α)) : Nat := (lists.map List.length).prod

/-- The choice that a number stands for: its digits to the lengths of the lists, the lowest
first, each an index into its list. -/
def choice : List (List α) → Nat → List α
  | [], _ => []
  | ls :: rest, g => ls[g % ls.length]?.toList ++ choice rest (g / ls.length)

def choices (lists : List (List α)) : List (List α) := (List.range (size lists)).map (choice lists)

@[simp] theorem size_cons (ls : List α) (rest : List (List α)) :
    size (ls :: rest) = ls.length * size rest := by
  simp [size]

@[simp] theorem length_choices : (choices lists).length = size lists := by
  simp [choices]

theorem choice_cons {ls : List α} (rest : List (List α)) (g : Nat) (h : g % ls.length < ls.length) :
    choice (ls :: rest) g = ls[g % ls.length] :: choice rest (g / ls.length) := by
  rw [choice, List.getElem?_eq_getElem h]
  rfl

/-- A number below the size has its lowest digit in the first list, and what is left is below
the size of the rest. -/
theorem digit_lt {ls : List α} {rest : List (List α)} {g : Nat} (h : g < size (ls :: rest)) :
    g % ls.length < ls.length ∧ g / ls.length < size rest := by
  rw [size_cons] at h
  have hpos : 0 < ls.length := Nat.pos_of_ne_zero fun h0 => by
    rw [h0, Nat.zero_mul] at h
    omega
  refine ⟨Nat.mod_lt _ hpos, ?_⟩
  rw [Nat.div_lt_iff_lt_mul hpos, Nat.mul_comm]
  exact h

theorem choice_forall₂ {g : Nat} (h : g < size lists) :
    List.Forall₂ (· ∈ ·) (choice lists g) lists := by
  induction lists generalizing g with
  | nil => exact .nil
  | cons ls rest ih =>
      obtain ⟨hdigit, hrest⟩ := digit_lt h
      rw [choice_cons rest g hdigit]
      exact .cons (List.getElem_mem hdigit) (ih hrest)

theorem exists_choice {c : List α} (h : List.Forall₂ (· ∈ ·) c lists) :
    ∃ g < size lists, choice lists g = c := by
  induction h with
  | nil => exact ⟨0, Nat.one_pos, rfl⟩
  | @cons a ls c rest ha _ ih =>
      obtain ⟨g, hg, rfl⟩ := ih
      obtain ⟨k, hk, rfl⟩ := List.getElem_of_mem ha
      have hdigit : (k + ls.length * g) % ls.length = k := by
        rw [Nat.add_mul_mod_self_left, Nat.mod_eq_of_lt hk]
      have hrest : (k + ls.length * g) / ls.length = g := by
        rw [Nat.add_mul_div_left k g (by omega), Nat.div_eq_of_lt hk, Nat.zero_add]
      refine ⟨k + ls.length * g, ?_, ?_⟩
      · rw [size_cons]
        calc k + ls.length * g < ls.length + ls.length * g := Nat.add_lt_add_right hk _
          _ = ls.length * (g + 1) := by rw [Nat.mul_add, Nat.mul_one, Nat.add_comm]
          _ ≤ ls.length * size rest := Nat.mul_le_mul_left _ hg
      · rw [choice_cons rest _ (hdigit.symm ▸ hk), hrest]
        simp only [hdigit]

theorem mem_choices {c : List α} : c ∈ choices lists ↔ List.Forall₂ (· ∈ ·) c lists := by
  rw [choices, List.mem_map]
  constructor
  · rintro ⟨g, hg, rfl⟩
    exact choice_forall₂ (List.mem_range.mp hg)
  · intro h
    obtain ⟨g, hg, rfl⟩ := exists_choice h
    exact ⟨g, List.mem_range.mpr hg, rfl⟩

theorem choice_inj (hn : ∀ ls ∈ lists, ls.Nodup) {g g' : Nat} (hg : g < size lists)
    (hg' : g' < size lists) (h : choice lists g = choice lists g') : g = g' := by
  induction lists generalizing g g' with
  | nil =>
      have hone : size ([] : List (List α)) = 1 := rfl
      omega
  | cons ls rest ih =>
      obtain ⟨hd, hr⟩ := digit_lt hg
      obtain ⟨hd', hr'⟩ := digit_lt hg'
      rw [choice_cons rest g hd, choice_cons rest g' hd'] at h
      obtain ⟨hhead, htail⟩ := List.cons.inj h
      have hmod : g % ls.length = g' % ls.length := (hn ls (by simp)).getElem_inj_iff.mp hhead
      have hdiv := ih (fun l hl => hn l (by simp [hl])) hr hr' htail
      rw [← Nat.div_add_mod g ls.length, ← Nat.div_add_mod g' ls.length, hmod, hdiv]

theorem nodup_choices (hn : ∀ ls ∈ lists, ls.Nodup) : (choices lists).Nodup := by
  refine List.Nodup.map_on (fun g hg g' hg' h => ?_) List.nodup_range
  exact choice_inj hn (List.mem_range.mp hg) (List.mem_range.mp hg') h

end OiAmc.MixedRadix

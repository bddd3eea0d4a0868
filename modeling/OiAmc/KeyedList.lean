import Mathlib.Data.List.Nodup

/-! Lists whose entries have keys of their own. -/

namespace OiAmc.KeyedList

variable {α β κ : Type} [DecidableEq κ] {key : α → κ} {xs ys : List α} {x y : α} {k : κ}

/-- The first entry with a key. -/
def lookup (key : α → κ) (k : κ) (xs : List α) : Option α :=
  xs.find? fun x => decide (key x = k)

/-- Another value for the entry with a key. -/
def alter (key : α → κ) (k : κ) (f : α → α) (xs : List α) : List α :=
  xs.map fun x => if key x = k then f x else x

def without (key : α → κ) (k : κ) (xs : List α) : List α :=
  xs.eraseP fun x => decide (key x = k)

theorem lookup_some (h : lookup key k xs = some x) : x ∈ xs ∧ key x = k :=
  ⟨List.mem_of_find?_eq_some h,
    of_decide_eq_true (List.find?_some (p := fun x => decide (key x = k)) h)⟩

theorem lookup_none_iff : lookup key k xs = none ↔ k ∉ xs.map key := by
  rw [lookup, List.find?_eq_none, List.mem_map]
  constructor
  · rintro h ⟨x, hx, rfl⟩
    exact h x hx (decide_eq_true rfl)
  · rintro h x hx hk
    exact h ⟨x, hx, of_decide_eq_true hk⟩

theorem lookup_isSome_iff : (lookup key k xs).isSome ↔ k ∈ xs.map key := by
  rw [Option.isSome_iff_ne_none, ne_eq, lookup_none_iff, not_not]

theorem lookup_eq (h : (xs.map key).Nodup) (hx : x ∈ xs) : lookup key (key x) xs = some x := by
  obtain ⟨y, hy⟩ := Option.isSome_iff_exists.mp
    (lookup_isSome_iff.mpr (List.mem_map_of_mem (f := key) hx))
  obtain ⟨hmem, hkey⟩ := lookup_some hy
  rw [hy, List.inj_on_of_nodup_map h hmem hx hkey]

theorem lookup_cons : lookup key k (x :: xs) = if key x = k then some x else lookup key k xs := by
  rw [lookup, List.find?_cons]
  by_cases hk : key x = k
  · rw [if_pos hk, decide_eq_true hk]
  · rw [if_neg hk, decide_eq_false hk]
    rfl

theorem without_cons : without key k (x :: xs) = if key x = k then xs else x :: without key k xs := by
  rw [without, List.eraseP_cons]
  by_cases hk : key x = k
  · rw [if_pos hk, decide_eq_true hk]
    rfl
  · rw [if_neg hk, decide_eq_false hk]
    rfl

theorem without_eq (h : (xs.map key).Nodup) :
    without key k xs = xs.filter fun x => decide (key x ≠ k) := by
  induction xs with
  | nil => rfl
  | cons x xs ih =>
      obtain ⟨hx, hxs⟩ := List.nodup_cons.mp h
      rw [without_cons]
      by_cases hk : key x = k
      · have hall : (xs.filter fun y => decide (key y ≠ k)) = xs :=
          List.filter_eq_self.mpr fun y hy => decide_eq_true fun hy' =>
            hx (hk.trans hy'.symm ▸ List.mem_map_of_mem hy)
        rw [if_pos hk, List.filter_cons, if_neg (by simp [hk]), hall]
      · rw [if_neg hk, List.filter_cons, if_pos (decide_eq_true hk), ih hxs]

theorem mem_without (h : (xs.map key).Nodup) : x ∈ without key k xs ↔ x ∈ xs ∧ key x ≠ k := by
  rw [without_eq h, List.mem_filter, decide_eq_true_iff]

theorem map_without : (without key k xs).map key = (xs.map key).erase k := by
  induction xs with
  | nil => rfl
  | cons x xs ih =>
      rw [without_cons, List.map_cons, List.erase_cons]
      by_cases hk : key x = k
      · rw [if_pos hk, if_pos (beq_iff_eq.mpr hk)]
      · rw [if_neg hk, if_neg (by simpa using hk), List.map_cons, ih]

theorem perm_without (h : lookup key k xs = some x) : xs.Perm (x :: without key k xs) := by
  induction xs with
  | nil => cases h
  | cons y xs ih =>
      rw [lookup_cons] at h
      rw [without_cons]
      by_cases hk : key y = k
      · rw [if_pos hk] at h ⊢
        obtain rfl := Option.some.inj h
        exact List.Perm.refl _
      · rw [if_neg hk] at h ⊢
        exact ((ih h).cons y).trans (List.Perm.swap x y _)

theorem without_middle {pre post : List α} (h : ((pre ++ x :: post).map key).Nodup) :
    without key (key x) (pre ++ x :: post) = pre ++ post := by
  induction pre with
  | nil => rw [List.nil_append, without_cons, if_pos rfl, List.nil_append]
  | cons y pre ih =>
      obtain ⟨hy, hrest⟩ := List.nodup_cons.mp h
      have hne : key y ≠ key x := fun he =>
        hy (he ▸ List.mem_map_of_mem (List.mem_append_right pre List.mem_cons_self))
      rw [List.cons_append, without_cons, if_neg hne, ih hrest, List.cons_append]

section

variable {f : α → α}

theorem map_alter (hf : ∀ x ∈ xs, key x = k → key (f x) = k) :
    (alter key k f xs).map key = xs.map key := by
  rw [alter, List.map_map]
  refine List.map_congr_left fun x hx => ?_
  by_cases hk : key x = k
  · rw [Function.comp_apply, if_pos hk, hf x hx hk, hk]
  · rw [Function.comp_apply, if_neg hk]

theorem mem_alter : y ∈ alter key k f xs ↔
    (y ∈ xs ∧ key y ≠ k) ∨ ∃ x ∈ xs, key x = k ∧ f x = y := by
  rw [alter, List.mem_map]
  constructor
  · rintro ⟨x, hx, rfl⟩
    by_cases hk : key x = k
    · rw [if_pos hk]
      exact Or.inr ⟨x, hx, hk, rfl⟩
    · rw [if_neg hk]
      exact Or.inl ⟨hx, hk⟩
  · rintro (⟨hy, hk⟩ | ⟨x, hx, hk, rfl⟩)
    · exact ⟨y, hy, if_neg hk⟩
    · exact ⟨x, hx, if_pos hk⟩

theorem alter_same (h : ∀ x ∈ xs, key x = k → f x = x) : alter key k f xs = xs := by
  have hsame : alter key k f xs = xs.map id := List.map_congr_left fun x hx => by
    by_cases hk : key x = k
    · rw [if_pos hk, h x hx hk, id]
    · rw [if_neg hk, id]
  rw [hsame, List.map_id]

theorem alter_absent (h : k ∉ xs.map key) : alter key k f xs = xs :=
  alter_same fun _ hx hk => absurd (hk ▸ List.mem_map_of_mem hx) h

theorem alter_perm (hn : (xs.map key).Nodup) (h : lookup key k xs = some x) :
    (alter key k f xs).Perm (f x :: without key k xs) := by
  induction xs with
  | nil => cases h
  | cons y xs ih =>
      obtain ⟨hy, hxs⟩ := List.nodup_cons.mp hn
      rw [lookup_cons] at h
      rw [alter, List.map_cons, ← alter, without_cons]
      by_cases hk : key y = k
      · rw [if_pos hk] at h ⊢
        obtain rfl := Option.some.inj h
        rw [if_pos hk, alter_absent (hk ▸ hy)]
      · rw [if_neg hk] at h ⊢
        rw [if_neg hk]
        exact ((ih hxs h).cons y).trans (List.Perm.swap (f x) y _)

theorem length_alter : (alter key k f xs).length = xs.length := List.length_map ..

end

end OiAmc.KeyedList

import Mathlib.Data.List.Forall2

namespace OiAmc.PartialLists

variable {α β σ : Type}

theorem mapM_eq_some {f : α → Option β} {xs : List α} {ys : List β} :
    xs.mapM f = some ys ↔ List.Forall₂ (fun x y => f x = some y) xs ys := by
  induction xs generalizing ys with
  | nil => simp [eq_comm]
  | cons x xs ih =>
      simp only [List.mapM_cons, Option.bind_eq_bind, Option.bind_eq_some_iff, ih,
        Option.pure_def, Option.some.injEq]
      constructor
      · rintro ⟨y, hy, ys', hys, rfl⟩; exact .cons hy hys
      · intro h
        cases h with
        | cons hy hys => exact ⟨_, hy, _, hys, rfl⟩

theorem mapM_total {f : α → Option β} {g : α → β} {xs : List α} (h : ∀ x ∈ xs, f x = some (g x)) :
    xs.mapM f = some (xs.map g) := by
  rw [mapM_eq_some]
  induction xs with
  | nil => exact .nil
  | cons x xs ih => exact .cons (h x (by simp)) (ih fun y hy => h y (by simp [hy]))

theorem mapM_isSome {f : α → Option β} {xs : List α} (h : ∀ x ∈ xs, ∃ y, f x = some y) :
    ∃ ys, xs.mapM f = some ys := by
  induction xs with
  | nil => exact ⟨[], rfl⟩
  | cons x xs ih =>
      obtain ⟨y, hy⟩ := h x (by simp)
      obtain ⟨ys, hys⟩ := ih fun z hz => h z (by simp [hz])
      exact ⟨y :: ys, by simp [hy, hys]⟩

theorem foldlM_preserves {f : σ → α → Option σ} {I : σ → Prop} {xs : List α}
    (hstep : ∀ s, ∀ x ∈ xs, ∀ s', I s → f s x = some s' → I s') {s t : σ} (hs : I s)
    (h : xs.foldlM f s = some t) : I t := by
  induction xs generalizing s with
  | nil => cases h; exact hs
  | cons x xs ih =>
      rw [List.foldlM_cons] at h
      obtain ⟨s1, h1, h2⟩ := Option.bind_eq_some_iff.mp h
      exact ih (fun s y hy => hstep s y (by simp [hy])) (hstep s x (by simp) s1 hs h1) h2

theorem foldlM_sim {τ : Type} {f : σ → α → Option σ} {g : τ → α → τ} {R : σ → τ → Prop}
    (xs : List α) (hstep : ∀ s t, ∀ x ∈ xs, R s t → ∃ s', f s x = some s' ∧ R s' (g t x)) {s : σ} {t : τ}
    (hR : R s t) : ∃ s', xs.foldlM f s = some s' ∧ R s' (xs.foldl g t) := by
  induction xs generalizing s t with
  | nil => exact ⟨s, rfl, hR⟩
  | cons x xs ih =>
      obtain ⟨s1, h1, hR1⟩ := hstep s t x List.mem_cons_self hR
      obtain ⟨s', h2, hR'⟩ := ih (fun s t y hy => hstep s t y (List.mem_cons_of_mem x hy)) hR1
      refine ⟨s', ?_, hR'⟩
      rw [List.foldlM_cons, h1]
      exact h2

theorem foldlM_budget {f : σ → α → Option σ} {I : Nat → σ → Prop} (xs : List α)
    (hstep : ∀ n s, ∀ x ∈ xs, I (n + 1) s → ∃ s', f s x = some s' ∧ I n s') {s : σ}
    (hs : I xs.length s) : ∃ t, xs.foldlM f s = some t ∧ I 0 t := by
  induction xs generalizing s with
  | nil => exact ⟨s, rfl, hs⟩
  | cons x xs ih =>
      obtain ⟨s1, h1, hI⟩ := hstep xs.length s x List.mem_cons_self hs
      obtain ⟨t, ht, hI'⟩ := ih (fun n s y hy => hstep n s y (List.mem_cons_of_mem x hy)) hI
      refine ⟨t, ?_, hI'⟩
      rw [List.foldlM_cons, h1]
      exact ht

theorem foldlM_mem {f : σ → α → Option σ} {xs : List α} {s t : σ} (h : xs.foldlM f s = some t) {x : α}
    (hx : x ∈ xs) : ∃ u v, f u x = some v := by
  induction xs generalizing s with
  | nil => cases hx
  | cons y ys ih =>
      rw [List.foldlM_cons] at h
      obtain ⟨s1, h1, h2⟩ := Option.bind_eq_some_iff.mp h
      rcases List.mem_cons.mp hx with rfl | hx
      · exact ⟨s, s1, h1⟩
      · exact ih h2 hx

theorem foldlM_range_succ {f : σ → Nat → Option σ} {n : Nat} {s : σ} :
    (List.range (n + 1)).foldlM f s = ((List.range n).foldlM f s).bind fun t => f t n := by
  rw [List.range_succ, List.foldlM_append]
  refine congrArg _ (funext fun t => ?_)
  rw [List.foldlM_cons]
  cases f t n <;> rfl

theorem forall₂_mem_right {R : α → β → Prop} {xs : List α} {ys : List β}
    (h : List.Forall₂ R xs ys) {y : β} (hy : y ∈ ys) : ∃ x ∈ xs, R x y := by
  obtain ⟨i, hi, rfl⟩ := List.getElem_of_mem hy
  have hi' : i < xs.length := h.length_eq ▸ hi
  exact ⟨xs[i], List.getElem_mem hi', h.get hi' hi⟩

theorem forall₂_mem_left {R : α → β → Prop} {xs : List α} {ys : List β}
    (h : List.Forall₂ R xs ys) {x : α} (hx : x ∈ xs) : ∃ y ∈ ys, R x y := by
  obtain ⟨i, hi, rfl⟩ := List.getElem_of_mem hx
  have hi' : i < ys.length := h.length_eq ▸ hi
  exact ⟨ys[i], List.getElem_mem hi', h.get hi hi'⟩

theorem forall₂_getElem?_left {R : α → β → Prop} {xs : List α} {ys : List β} (h : List.Forall₂ R xs ys)
    {i : Nat} {x : α} (hx : xs[i]? = some x) : ∃ y, ys[i]? = some y ∧ R x y := by
  obtain ⟨hi, rfl⟩ := List.getElem?_eq_some_iff.mp hx
  have hi' : i < ys.length := h.length_eq ▸ hi
  exact ⟨ys[i], List.getElem?_eq_getElem hi', h.get hi hi'⟩

theorem forall₂_getElem?_right {R : α → β → Prop} {xs : List α} {ys : List β} (h : List.Forall₂ R xs ys)
    {i : Nat} {y : β} (hy : ys[i]? = some y) : ∃ x, xs[i]? = some x ∧ R x y := by
  obtain ⟨hi, rfl⟩ := List.getElem?_eq_some_iff.mp hy
  have hi' : i < xs.length := h.length_eq ▸ hi
  exact ⟨xs[i], List.getElem?_eq_getElem hi', h.get hi' hi⟩

theorem forall₂_snoc_left {R : α → β → Prop} {xs : List α} {x : α} {zs : List β}
    (h : List.Forall₂ R (xs ++ [x]) zs) :
    ∃ ys y, zs = ys ++ [y] ∧ List.Forall₂ R xs ys ∧ R x y := by
  induction xs generalizing zs with
  | nil =>
      obtain ⟨y, _, hy, hn, rfl⟩ := List.forall₂_cons_left_iff.mp h
      cases hn
      exact ⟨[], y, rfl, .nil, hy⟩
  | cons z xs ih =>
      obtain ⟨w, ws, hw, hws, rfl⟩ := List.forall₂_cons_left_iff.mp h
      obtain ⟨ys, y, rfl, hys, hy⟩ := ih hws
      exact ⟨w :: ys, y, rfl, .cons hw hys, hy⟩

theorem map_eq_of_forall₂ {γ : Type} {f : α → γ} {g : β → γ} {xs : List α} {ys : List β}
    (h : List.Forall₂ (fun x y => g y = f x) xs ys) : ys.map g = xs.map f := by
  induction h with
  | nil => rfl
  | cons h _ ih => rw [List.map_cons, List.map_cons, h, ih]

end OiAmc.PartialLists

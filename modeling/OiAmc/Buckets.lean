import Mathlib.Data.List.Basic
import Mathlib.Data.List.Perm.Basic
import Mathlib.Data.List.Flatten

namespace OiAmc.Buckets

variable {α : Type} {h : α → Nat} {p : α → Bool} {l : List α} {b c n : Nat}

def bucket (h : α → Nat) (l : List α) (b : Nat) : List α := l.filter fun x => h x = b

theorem mem_bucket {x : α} : x ∈ bucket h l b ↔ x ∈ l ∧ h x = b := by
  simp only [bucket, List.mem_filter, decide_eq_true_eq]

@[simp] theorem bucket_nil : bucket h [] b = [] := rfl

theorem bucket_append (l' : List α) : bucket h (l ++ l') b = bucket h l b ++ bucket h l' b :=
  List.filter_append l l'

theorem bucket_filter : bucket h (l.filter p) b = (bucket h l b).filter p := by
  rw [bucket, bucket, List.filter_filter, List.filter_filter]
  exact List.filter_congr fun x _ => Bool.and_comm _ _

theorem filter_bucket (hp : ∀ x, p x → h x = b) : (bucket h l b).filter p = l.filter p := by
  rw [bucket, List.filter_filter]
  apply List.filter_congr
  intro x _
  cases hx : p x with
  | false => rfl
  | true => simp only [Bool.true_and, hp x hx, decide_true]

theorem bucket_eraseP (hp : ∀ x, p x → h x = b) :
    bucket h (l.eraseP p) b = (bucket h l b).eraseP p := by
  induction l with
  | nil => rfl
  | cons x l ih =>
      by_cases hx : p x
      · rw [List.eraseP_cons_of_pos hx, bucket, bucket, List.filter_cons_of_pos (by simp [hp x hx]),
          List.eraseP_cons_of_pos hx]
      · rw [List.eraseP_cons_of_neg hx]
        by_cases hb : h x = b
        · rw [bucket, List.filter_cons_of_pos (by simp [hb]), bucket,
            List.filter_cons_of_pos (by simp [hb]), List.eraseP_cons_of_neg hx]
          exact congrArg (x :: ·) ih
        · rw [bucket, List.filter_cons_of_neg (by simp [hb]), bucket,
            List.filter_cons_of_neg (by simp [hb])]
          exact ih

theorem bucket_eraseP_of_ne (hp : ∀ x, p x → h x = b) (hc : c ≠ b) :
    bucket h (l.eraseP p) c = bucket h l c := by
  induction l with
  | nil => rfl
  | cons x l ih =>
      by_cases hx : p x
      · rw [List.eraseP_cons_of_pos hx, bucket, bucket, List.filter_cons_of_neg]
        simp only [hp x hx, decide_eq_true_eq]
        exact fun h => hc h.symm
      · rw [List.eraseP_cons_of_neg hx, bucket, bucket, List.filter_cons, List.filter_cons]
        simp only [bucket] at ih
        rw [ih]

theorem flatMap_bucket_perm (l : List α) (n : Nat) :
    ((List.range n).flatMap (bucket h l)).Perm (l.filter fun x => h x < n) := by
  induction n with
  | zero => simp
  | succ n ih =>
      have hsplit := List.filter_append_perm (fun x => h x < n) (l.filter fun x => h x < n + 1)
      rw [List.filter_filter, List.filter_filter] at hsplit
      have hlow : (l.filter fun x => decide (h x < n) && decide (h x < n + 1)) =
          l.filter fun x => h x < n := by
        apply List.filter_congr
        intro x _
        rw [← Bool.decide_and, decide_eq_decide]
        omega
      have hhigh : (l.filter fun x => !decide (h x < n) && decide (h x < n + 1)) = bucket h l n := by
        apply List.filter_congr
        intro x _
        rw [← decide_not, ← Bool.decide_and, decide_eq_decide]
        omega
      rw [hlow, hhigh] at hsplit
      rw [List.range_succ, List.flatMap_append, List.flatMap_singleton]
      exact (ih.append_right _).trans hsplit

theorem flatMap_bucket_perm_self (hl : ∀ x ∈ l, h x < n) :
    ((List.range n).flatMap (bucket h l)).Perm l := by
  have hperm := flatMap_bucket_perm (h := h) l n
  rwa [List.filter_eq_self.mpr fun x hx => decide_eq_true (hl x hx)] at hperm

theorem bucket_flatMap {f : Nat → List α} (hf : ∀ c < n, ∀ x ∈ f c, h x = c) (hb : b < n) :
    bucket h ((List.range n).flatMap f) b = f b := by
  induction n with
  | zero => omega
  | succ n ih =>
      rw [List.range_succ, List.flatMap_append, List.flatMap_singleton, bucket_append]
      rcases Nat.lt_or_eq_of_le (Nat.lt_succ_iff.mp hb) with hb | rfl
      · have hlast : bucket h (f n) b = [] := by
          rw [bucket, List.filter_eq_nil_iff]
          intro x hx
          simp only [hf n (by omega) x hx, decide_eq_true_eq]
          omega
        rw [ih (fun c hc => hf c (by omega)) hb, hlast, List.append_nil]
      · have hrest : bucket h ((List.range b).flatMap f) b = [] := by
          rw [bucket, List.filter_eq_nil_iff]
          intro x hx
          obtain ⟨c, hc, hx⟩ := List.mem_flatMap.mp hx
          have hlt := List.mem_range.mp hc
          simp only [hf c (by omega) x hx, decide_eq_true_eq]
          omega
        rw [hrest, List.nil_append, bucket, List.filter_eq_self]
        intro x hx
        simp only [hf b (by omega) x hx, decide_true]

theorem first_cases (p : α → Bool) (l : List α) :
    ((l.filter p).head? = none ∧ ∀ x ∈ l, ¬ p x) ∨ ∃ x l₁ l₂, l = l₁ ++ x :: l₂ ∧ p x ∧
      (∀ y ∈ l₁, ¬ p y) ∧ (l.filter p).head? = some x ∧ l.eraseP p = l₁ ++ l₂ := by
  by_cases hall : ∀ x ∈ l, ¬ p x
  · exact .inl ⟨by rw [List.filter_eq_nil_iff.mpr hall]; rfl, hall⟩
  · obtain ⟨x, hx, hp⟩ := not_forall₂.mp hall
    obtain ⟨y, l₁, l₂, hbefore, hy, hl, herase⟩ := List.exists_of_eraseP hx (not_not.mp hp)
    refine .inr ⟨y, l₁, l₂, hl, hy, hbefore, ?_, herase⟩
    rw [hl, List.filter_append, List.filter_eq_nil_iff.mpr hbefore, List.nil_append,
      List.filter_cons_of_pos hy, List.head?_cons]

end OiAmc.Buckets

import Mathlib.Data.Sum.Basic

namespace OiAmc.GotoLoop

variable {σ ρ : Type} {step : σ → Option (σ ⊕ ρ)} {I : σ → Prop} {P : ρ → Prop} {μ : σ → Nat}

/-- Run a step that goes on from a state, leaves with a result or has no outcome,
a given number of times at most. -/
def loop (step : σ → Option (σ ⊕ ρ)) : Nat → σ → Option ρ
  | 0, _ => none
  | n + 1, s => (step s).bind fun r => r.elim (loop step n) some

/-- What one round has to keep: a round that goes on keeps the invariant and comes
closer to the end, a round that leaves does so with a good result. -/
def Round (step : σ → Option (σ ⊕ ρ)) (I : σ → Prop) (P : ρ → Prop) (μ : σ → Nat) (s : σ) :
    Prop :=
  (∃ t, step s = some (.inl t) ∧ I t ∧ μ t < μ s) ∨ ∃ x, step s = some (.inr x) ∧ P x

/-- What holds between the start of a loop and what it leaves with: it is so of the
rounds that leave, and goes back from a round to the one before it. -/
theorem loop_total_rel {Q : σ → ρ → Prop}
    (hround : ∀ s, I s → (∃ t, step s = some (.inl t) ∧ I t ∧ μ t < μ s ∧ ∀ x, Q t x → Q s x) ∨
      ∃ x, step s = some (.inr x) ∧ Q s x) {n : Nat} {s : σ} (hs : I s) (hn : μ s < n) :
    ∃ x, loop step n s = some x ∧ Q s x := by
  induction n generalizing s with
  | zero => omega
  | succ n ih =>
      obtain ⟨t, ht, hI, hμ, hQ⟩ | ⟨x, hx, hQ⟩ := hround s hs
      · obtain ⟨x, hx, hQt⟩ := ih hI (by omega)
        exact ⟨x, by rw [loop, ht]; exact hx, hQ x hQt⟩
      · exact ⟨x, by rw [loop, hx]; rfl, hQ⟩

/-- A loop whose rounds are good leaves with a good result, when it may take as many
rounds as the measure says. -/
theorem loop_total (hround : ∀ s, I s → Round step I P μ s) {n : Nat} {s : σ} (hs : I s)
    (hn : μ s < n) : ∃ x, loop step n s = some x ∧ P x := by
  apply loop_total_rel (Q := fun _ x => P x) _ hs hn
  intro s hs
  obtain ⟨t, ht, hI, hμ⟩ | hleave := hround s hs
  · exact .inl ⟨t, ht, hI, hμ, fun _ hP => hP⟩
  · exact .inr hleave

/-- What holds of the rounds that leave, and goes back from a round to the one before it,
holds from the start. -/
theorem loop_induction {Q : σ → ρ → Prop} (hleave : ∀ s x, step s = some (.inr x) → Q s x)
    (hgo : ∀ s t x, step s = some (.inl t) → Q t x → Q s x) {n : Nat} {s : σ} {x : ρ}
    (h : loop step n s = some x) : Q s x := by
  induction n generalizing s with
  | zero => cases h
  | succ n ih =>
      obtain ⟨r, hr, h⟩ := Option.bind_eq_some_iff.mp h
      cases r with
      | inl t => exact hgo s t x hr (ih h)
      | inr y =>
          obtain rfl := Option.some.inj h
          exact hleave s y hr

theorem loop_rel {σ' ρ' : Type} {step' : σ' → Option (σ' ⊕ ρ')} {R : σ → σ' → Prop}
    {T : ρ → ρ' → Prop} (hround : ∀ s s', R s s' → Option.Rel (Sum.LiftRel R T) (step s) (step' s'))
    (n : Nat) {s : σ} {s' : σ'} (hs : R s s') : Option.Rel T (loop step n s) (loop step' n s') := by
  induction n generalizing s s' with
  | zero => exact .none
  | succ n ih =>
      rw [loop, loop]
      have h := hround s s' hs
      revert h
      rcases step s with - | r <;> rcases step' s' with - | r' <;> intro h
      · exact .none
      · cases h
      · cases h
      · obtain ⟨h⟩ := h
        cases h with
        | inl ht => exact ih ht
        | inr hx => exact .some hx

/-- The state after some rounds, or what the loop left with before. -/
def rounds (step : σ → Option (σ ⊕ ρ)) : Nat → σ → Option (σ ⊕ ρ)
  | 0, s => some (.inl s)
  | n + 1, s => (step s).bind fun r => r.elim (rounds step n) fun x => some (.inr x)

theorem loop_eq_rounds (step : σ → Option (σ ⊕ ρ)) (n : Nat) (s : σ) :
    loop step n s = (rounds step n s).bind fun r => r.elim (fun _ => none) some := by
  induction n generalizing s with
  | zero => rfl
  | succ n ih =>
      rw [loop, rounds]
      rcases step s with - | t | x
      · rfl
      · exact ih t
      · rfl

theorem rounds_add (step : σ → Option (σ ⊕ ρ)) (m n : Nat) (s : σ) : rounds step (m + n) s =
    (rounds step m s).bind fun r => r.elim (rounds step n) fun x => some (.inr x) := by
  induction m generalizing s with
  | zero => rw [Nat.zero_add, rounds, Option.bind_some, Sum.elim_inl]
  | succ m ih =>
      rw [Nat.add_right_comm, rounds, rounds]
      rcases step s with - | t | x
      · rfl
      · exact ih t
      · rfl

theorem rounds_succ (step : σ → Option (σ ⊕ ρ)) (n : Nat) (s : σ) : rounds step (n + 1) s =
    (rounds step n s).bind fun r => r.elim step fun x => some (.inr x) := by
  have hone (t : σ) : rounds step 1 t = step t := by
    rw [rounds]
    rcases step t with - | t | x
    · rfl
    · rfl
    · rfl
  rw [rounds_add]
  refine congrArg _ (funext fun r => ?_)
  cases r with
  | inl t => exact hone t
  | inr x => rfl

theorem rounds_induction {s : σ} (hs : I s)
    (hround : ∀ n t, rounds step n s = some (.inl t) → I t → ∀ r, step t = some r → r.elim I P) {n : Nat} {r : σ ⊕ ρ}
    (h : rounds step n s = some r) : r.elim I P := by
  induction n generalizing r with
  | zero =>
      obtain rfl := Option.some.inj h
      exact hs
  | succ n ih =>
      rw [rounds_succ] at h
      obtain ⟨t, ht, h⟩ := Option.bind_eq_some_iff.mp h
      cases t with
      | inl t => exact hround n t ht (ih ht) r h
      | inr x =>
          obtain rfl := Option.some.inj h
          exact ih ht

end OiAmc.GotoLoop

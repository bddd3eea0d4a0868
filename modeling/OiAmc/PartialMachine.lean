import Mathlib.Data.List.Basic

namespace OiAmc.PartialMachine

variable {σ ι ο : Type}

/-- Feed a list of inputs to a step that may have no defined outcome. The
outputs come back in the order of the calls. -/
def run (step : σ → ι → Option (σ × ο)) : σ → List ι → Option (σ × List ο)
  | s, [] => some (s, [])
  | s, i :: is => (step s i).bind fun p => (run step p.1 is).map fun q => (q.1, p.2 :: q.2)

/-- Every step of the run meets a condition on the state it starts from and
on its input. -/
def Guarded (step : σ → ι → Option (σ × ο)) (ok : σ → ι → Prop) : σ → List ι → Prop
  | _, [] => True
  | s, i :: is => ok s i ∧ ∀ p, step s i = some p → Guarded step ok p.1 is

/-- A run is followed as far as it goes. -/
instance guardedDecidable (step : σ → ι → Option (σ × ο)) (ok : σ → ι → Prop)
    [∀ s i, Decidable (ok s i)] : ∀ s is, Decidable (Guarded step ok s is)
  | _, [] => isTrue trivial
  | s, i :: is =>
      match hs : step s i with
      | none => decidable_of_iff (ok s i) <| by
          simp only [Guarded, hs, reduceCtorEq, false_implies, implies_true, and_true]
      | some p =>
          have := guardedDecidable step ok p.1 is
          decidable_of_iff (ok s i ∧ Guarded step ok p.1 is) <| by
            simp only [Guarded, hs, Option.some.injEq, forall_eq']

variable {step : σ → ι → Option (σ × ο)} {ok : σ → ι → Prop} {I : σ → Prop}

@[simp] theorem run_nil (s : σ) : run step s [] = some (s, []) := rfl

theorem run_cons {s t : σ} {i : ι} {is : List ι} {os : List ο} :
    run step s (i :: is) = some (t, os) ↔
      ∃ s' o os', step s i = some (s', o) ∧ run step s' is = some (t, os') ∧ os = o :: os' := by
  constructor
  · intro h
    obtain ⟨⟨s', o⟩, hs, h⟩ := Option.bind_eq_some_iff.mp h
    obtain ⟨⟨t', os'⟩, hr, he⟩ := Option.map_eq_some_iff.mp h
    obtain ⟨rfl, rfl⟩ := Prod.mk.inj he
    exact ⟨s', o, os', hs, hr, rfl⟩
  · rintro ⟨s', o, os', hs, hr, rfl⟩
    simp only [run, hs, Option.bind_some, hr, Option.map_some]

theorem run_append {s t u : σ} {is js : List ι} {os os' : List ο}
    (h : run step s is = some (t, os)) (h' : run step t js = some (u, os')) :
    run step s (is ++ js) = some (u, os ++ os') := by
  induction is generalizing s os with
  | nil =>
      obtain ⟨rfl, rfl⟩ := Prod.mk.inj (Option.some.inj h)
      exact h'
  | cons i is ih =>
      obtain ⟨s', o, os'', h1, h2, rfl⟩ := run_cons.mp h
      exact run_cons.mpr ⟨s', o, os'' ++ os', h1, ih h2, rfl⟩

theorem output_snoc {es as bs : List ο} {e x : ο} (h : es ++ [e] = as ++ x :: bs) :
    (as = es ∧ x = e) ∨ ∃ bs', es = as ++ x :: bs' := by
  rcases List.eq_nil_or_concat' bs with rfl | ⟨bs', b, rfl⟩
  · obtain ⟨hes, hlast⟩ := List.append_inj' h rfl
    exact Or.inl ⟨hes.symm, (List.singleton_inj.mp hlast).symm⟩
  · rw [← List.cons_append, ← List.append_assoc] at h
    exact Or.inr ⟨bs', (List.append_inj' h rfl).1⟩

theorem run_preserves (hstep : ∀ s i s' o, I s → step s i = some (s', o) → I s')
    {s t : σ} {is : List ι} {os : List ο} (hs : I s) (h : run step s is = some (t, os)) : I t := by
  induction is generalizing s os with
  | nil =>
      obtain ⟨rfl, _⟩ := Prod.mk.inj (Option.some.inj h)
      exact hs
  | cons i is ih =>
      obtain ⟨s', o, os', h1, h2, _⟩ := run_cons.mp h
      exact ih (hstep s i s' o hs h1) h2

theorem run_outputs {P : ο → Prop}
    (hstep : ∀ s i s' o, I s → step s i = some (s', o) → I s' ∧ P o)
    {s t : σ} {is : List ι} {os : List ο} (hs : I s) (h : run step s is = some (t, os)) :
    ∀ o ∈ os, P o := by
  induction is generalizing s os with
  | nil =>
      obtain ⟨_, rfl⟩ := Prod.mk.inj (Option.some.inj h)
      simp
  | cons i is ih =>
      obtain ⟨s', o, os', h1, h2, rfl⟩ := run_cons.mp h
      obtain ⟨hs', ho⟩ := hstep s i s' o hs h1
      intro x hx
      rcases List.mem_cons.mp hx with rfl | hx
      · exact ho
      · exact ih hs' h2 x hx

/-- When guarded steps are defined and keep the invariant, a guarded run is
defined to its end and keeps it too. -/
theorem guarded_run
    (hstep : ∀ s i, I s → ok s i → ∃ s' o, step s i = some (s', o) ∧ I s')
    {s : σ} {is : List ι} (hs : I s) (hg : Guarded step ok s is) :
    ∃ t os, run step s is = some (t, os) ∧ I t := by
  induction is generalizing s with
  | nil => exact ⟨s, [], rfl, hs⟩
  | cons i is ih =>
      obtain ⟨s', o, h1, hs'⟩ := hstep s i hs hg.1
      obtain ⟨t, os, h2, ht⟩ := ih hs' (hg.2 _ h1)
      exact ⟨t, o :: os, run_cons.mpr ⟨s', o, os, h1, h2, rfl⟩, ht⟩

/-- When the condition says just which steps are defined and keep the invariant, it says so of
the runs: those that meet it all along are those that never lose it. -/
theorem guarded_iff (hstep : ∀ s i, I s → (ok s i ↔ ∃ s' o, step s i = some (s', o) ∧ I s'))
    {s : σ} (hs : I s) (is : List ι) :
    Guarded step ok s is ↔ ∀ js, js <+: is → ∃ t os, run step s js = some (t, os) ∧ I t := by
  induction is generalizing s with
  | nil =>
      refine ⟨fun _ js hjs => ?_, fun _ => trivial⟩
      obtain rfl := List.prefix_nil.mp hjs
      exact ⟨s, [], rfl, hs⟩
  | cons i is ih =>
      constructor
      · rintro ⟨hok, hnext⟩ js hjs
        rcases js with - | ⟨j, js⟩
        · exact ⟨s, [], rfl, hs⟩
        · obtain ⟨rfl, hrest⟩ := List.cons_prefix_cons.mp hjs
          obtain ⟨s', o, h1, hs'⟩ := (hstep s j hs).mp hok
          obtain ⟨t, os, h2, ht⟩ := (ih hs').mp (hnext _ h1) js hrest
          exact ⟨t, o :: os, run_cons.mpr ⟨s', o, os, h1, h2, rfl⟩, ht⟩
      · intro h
        obtain ⟨t, os, hr, ht⟩ := h [i] (List.cons_prefix_cons.mpr ⟨rfl, List.nil_prefix⟩)
        obtain ⟨s', o, os', h1, h2, -⟩ := run_cons.mp hr
        obtain ⟨rfl, -⟩ := Prod.mk.inj (Option.some.inj h2)
        refine ⟨(hstep s i hs).mpr ⟨s', o, h1, ht⟩, fun p hp => ?_⟩
        obtain rfl := Option.some.inj (h1.symm.trans hp)
        refine (ih ht).mpr fun js hjs => ?_
        obtain ⟨t, os, hr, hIt⟩ := h (i :: js) (List.cons_prefix_cons.mpr ⟨rfl, hjs⟩)
        obtain ⟨s1, o1, os1, h3, h4, -⟩ := run_cons.mp hr
        obtain ⟨rfl, -⟩ := Prod.mk.inj (Option.some.inj (h1.symm.trans h3))
        exact ⟨t, os1, h4, hIt⟩

theorem guarded_cons {s : σ} {i : ι} {is : List ι} {p : σ × ο} (hok : ok s i)
    (hs : step s i = some p) (h : Guarded step ok p.1 is) : Guarded step ok s (i :: is) := by
  refine ⟨hok, fun q hq => ?_⟩
  obtain rfl := Option.some.inj (hs.symm.trans hq)
  exact h

/-- When what holds after a step shows that the step met the condition, the runs after which it
holds all along are guarded. -/
theorem guarded_of_prefixes {P : σ → Prop}
    (hstep : ∀ s i s' o, I s → step s i = some (s', o) → P s' → ok s i ∧ I s') {s : σ} {is : List ι}
    (hs : I s) (h : ∀ js, js <+: is → ∃ t os, run step s js = some (t, os) ∧ P t) :
    Guarded step ok s is := by
  induction is generalizing s with
  | nil => trivial
  | cons i is ih =>
      obtain ⟨t, os, hr, hP⟩ := h [i] (List.cons_prefix_cons.mpr ⟨rfl, List.nil_prefix⟩)
      obtain ⟨s', o, os', h1, h2, -⟩ := run_cons.mp hr
      obtain ⟨rfl, -⟩ := Prod.mk.inj (Option.some.inj h2)
      obtain ⟨hok, ht⟩ := hstep s i s' o hs h1 hP
      refine guarded_cons hok h1 (ih ht fun js hjs => ?_)
      obtain ⟨u, os1, hr', hP'⟩ := h (i :: js) (List.cons_prefix_cons.mpr ⟨rfl, hjs⟩)
      obtain ⟨s1, o1, os2, h3, h4, -⟩ := run_cons.mp hr'
      obtain ⟨rfl, -⟩ := Prod.mk.inj (Option.some.inj (h1.symm.trans h3))
      exact ⟨u, os2, h4, hP'⟩

theorem guarded_at {s t : σ} {is js : List ι} {os : List ο} {i : ι} (h : Guarded step ok s is)
    (hjs : js ++ [i] <+: is) (hr : run step s js = some (t, os)) : ok t i := by
  induction js generalizing s is os with
  | nil =>
      obtain ⟨rfl, -⟩ := Prod.mk.inj (Option.some.inj hr)
      obtain ⟨rest, rfl⟩ := hjs
      exact h.1
  | cons j js ih =>
      obtain ⟨rest, rfl⟩ := hjs
      obtain ⟨s', o, os', h1, h2, -⟩ := run_cons.mp hr
      exact ih (h.2 _ h1) (List.prefix_append _ rest) h2

theorem guarded_congr {ok' : σ → ι → Prop} (h : ∀ s i, ok s i ↔ ok' s i) (s : σ) (is : List ι) :
    Guarded step ok s is ↔ Guarded step ok' s is := by
  induction is generalizing s with
  | nil => exact Iff.rfl
  | cons i is ih =>
      apply and_congr (h s i)
      exact forall_congr' fun p => imp_congr_right fun _ => ih p.1

/-- Two machines whose steps from related states have an outcome alike, with one output,
have runs alike. -/
theorem run_rel {σ' : Type} {step' : σ' → ι → Option (σ' × ο)} {R : σ → σ' → Prop}
    (hstep : ∀ s s' i, R s s' →
      Option.Rel (fun p q => R p.1 q.1 ∧ p.2 = q.2) (step s i) (step' s' i))
    {s : σ} {s' : σ'} (hs : R s s') (is : List ι) :
    Option.Rel (fun p q => R p.1 q.1 ∧ p.2 = q.2) (run step s is) (run step' s' is) := by
  induction is generalizing s s' with
  | nil => exact .some ⟨hs, rfl⟩
  | cons i is ih =>
      rw [run, run]
      have h := hstep s s' i hs
      revert h
      rcases step s i with - | p <;> rcases step' s' i with - | p' <;> intro h
      · exact .none
      · cases h
      · cases h
      · obtain ⟨hR, hout⟩ : R p.1 p'.1 ∧ p.2 = p'.2 := by cases h; assumption
        have hrest := ih hR
        simp only [Option.bind_some, hout]
        revert hrest
        rcases run step p.1 is with - | q <;> rcases run step' p'.1 is with - | q' <;> intro hrest
        · exact .none
        · cases hrest
        · cases hrest
        · obtain ⟨hR', hout'⟩ : R q.1 q'.1 ∧ q.2 = q'.2 := by cases hrest; assumption
          exact .some ⟨hR', congrArg (p'.2 :: ·) hout'⟩

/-- When every step that meets a condition meets another one too, and keeps the invariant
that this rests on, so does every run. -/
theorem guarded_imp {ok' : σ → ι → Prop}
    (hstep : ∀ s i, I s → ok s i → ok' s i ∧ ∀ p, step s i = some p → I p.1)
    {s : σ} {is : List ι} (hs : I s) (h : Guarded step ok s is) : Guarded step ok' s is := by
  induction is generalizing s with
  | nil => trivial
  | cons i is ih =>
      obtain ⟨hok, hnext⟩ := hstep s i hs h.1
      exact ⟨hok, fun p hp => ih (hnext p hp) (h.2 p hp)⟩

theorem guarded_true (s : σ) (is : List ι) : Guarded step (fun _ _ => True) s is := by
  induction is generalizing s with
  | nil => trivial
  | cons i is ih => exact ⟨trivial, fun p _ => ih p.1⟩

/-- When related states meet two conditions alike, and the steps that meet them
lead to related states, the guarded runs of two machines are the same. -/
theorem guarded_sim {σ' ο' : Type} {step' : σ' → ι → Option (σ' × ο')} {ok' : σ' → ι → Prop}
    {R : σ → σ' → Prop} (hok : ∀ s s' i, R s s' → (ok s i ↔ ok' s' i))
    (hstep : ∀ s s' i, R s s' → ok s i → ∃ t o t' o', step s i = some (t, o) ∧
      step' s' i = some (t', o') ∧ R t t') {s : σ} {s' : σ'} (hR : R s s') (is : List ι) :
    Guarded step ok s is ↔ Guarded step' ok' s' is := by
  induction is generalizing s s' with
  | nil => exact Iff.rfl
  | cons i is ih =>
      rw [Guarded, Guarded, hok s s' i hR]
      apply and_congr_right
      intro hi
      obtain ⟨t, o, t', o', h1, h2, hR'⟩ := hstep s s' i hR ((hok s s' i hR).mpr hi)
      simp only [h1, h2, Option.some.injEq, forall_eq']
      exact ih hR'

/-- Outputs that use something up, which stays used up, never use the same thing
twice. -/
theorem run_nodup {κ : Type} {key : ο → Option κ} {Spent : σ → κ → Prop}
    (hstep : ∀ s i s' o, step s i = some (s', o) →
      (∀ k, Spent s k → Spent s' k) ∧ ∀ k, key o = some k → ¬ Spent s k ∧ Spent s' k)
    {s t : σ} {is : List ι} {os : List ο} (h : run step s is = some (t, os)) :
    (os.filterMap key).Nodup ∧ ∀ k ∈ os.filterMap key, ¬ Spent s k := by
  induction is generalizing s os with
  | nil =>
      obtain ⟨_, rfl⟩ := Prod.mk.inj (Option.some.inj h)
      simp
  | cons i is ih =>
      obtain ⟨s', o, os', h1, h2, rfl⟩ := run_cons.mp h
      obtain ⟨hmono, hkey⟩ := hstep s i s' o h1
      obtain ⟨hn, hout⟩ := ih h2
      have hrest : ∀ k ∈ os'.filterMap key, ¬ Spent s k := fun k hk hs => hout k hk (hmono k hs)
      cases hk : key o with
      | none =>
          rw [List.filterMap_cons_none hk]
          exact ⟨hn, hrest⟩
      | some k =>
          obtain ⟨hfresh, hspent⟩ := hkey k hk
          rw [List.filterMap_cons_some hk]
          constructor
          · exact List.nodup_cons.mpr ⟨fun hmem => hout k hmem hspent, hn⟩
          · intro x hx
            rcases List.mem_cons.mp hx with rfl | hx
            · exact hfresh
            · exact hrest x hx

/-- The runs of a specification, which says of every step what it may do. -/
inductive Runs {α : Type} (spec : α → ι → ο → α → Prop) : α → List ι → List ο → α → Prop
  | nil (a : α) : Runs spec a [] [] a
  | cons {a b c : α} {i : ι} {o : ο} {is : List ι} {os : List ο} (h : spec a i o b)
      (hs : Runs spec b is os c) : Runs spec a (i :: is) (o :: os) c

theorem guarded_meets {α : Type} {spec : α → ι → ο → α → Prop} {R : σ → α → Prop}
    (hstep : ∀ s a i, R s a → ok s i → ∃ s' o b, step s i = some (s', o) ∧ spec a i o b ∧ R s' b)
    {s : σ} {a : α} {is : List ι} (h : R s a) (hg : Guarded step ok s is) :
    ∃ t os b, run step s is = some (t, os) ∧ Runs spec a is os b ∧ R t b := by
  induction is generalizing s a with
  | nil => exact ⟨s, [], a, rfl, .nil a, h⟩
  | cons i is ih =>
      obtain ⟨s', o, b, hs, hspec, hb⟩ := hstep s a i h hg.1
      obtain ⟨t, os, c, hr, hruns, hc⟩ := ih hb (hg.2 _ hs)
      exact ⟨t, o :: os, c, run_cons.mpr ⟨s', o, os, hs, hr, rfl⟩, .cons hspec hruns, hc⟩

def logged (step : σ → ι → Option (σ × ο)) (p : σ × List ο) (i : ι) :
    Option ((σ × List ο) × ο) :=
  (step p.1 i).map fun q => ((q.1, p.2 ++ [q.2]), q.2)

theorem guarded_logged {R : σ → List ο → Prop} {ok : σ × List ο → ι → Prop}
    (hstep : ∀ s os i, R s os → ok (s, os) i →
      ∃ s' o, step s i = some (s', o) ∧ R s' (os ++ [o]))
    {s : σ} {os : List ο} {is : List ι} (h : R s os) (hg : Guarded (logged step) ok (s, os) is) :
    ∃ t os', run step s is = some (t, os') ∧ R t (os ++ os') := by
  induction is generalizing s os with
  | nil => exact ⟨s, [], rfl, by rwa [List.append_nil]⟩
  | cons i is ih =>
      obtain ⟨s', o, h1, hs'⟩ := hstep s os i h hg.1
      have hnext : logged step (s, os) i = some ((s', os ++ [o]), o) := by
        rw [logged, h1, Option.map_some]
      obtain ⟨t, os', h2, ht⟩ := ih hs' (hg.2 _ hnext)
      refine ⟨t, o :: os', run_cons.mpr ⟨s', o, os', h1, h2, rfl⟩, ?_⟩
      rwa [List.append_assoc, List.singleton_append] at ht

/-- What holds of a state and of all outputs that led to it holds after a guarded run, when
every guarded step keeps it. -/
theorem guarded_log {R : σ → List ο → Prop}
    (hstep : ∀ s os i, R s os → ok s i → ∃ s' o, step s i = some (s', o) ∧ R s' (os ++ [o]))
    {s : σ} {os : List ο} {is : List ι} (h : R s os) (hg : Guarded step ok s is) :
    ∃ t os', run step s is = some (t, os') ∧ R t (os ++ os') := by
  induction is generalizing s os with
  | nil => exact ⟨s, [], rfl, by rwa [List.append_nil]⟩
  | cons i is ih =>
      obtain ⟨s', o, h1, hs'⟩ := hstep s os i h hg.1
      obtain ⟨t, os', h2, ht⟩ := ih hs' (hg.2 _ h1)
      rw [List.append_assoc] at ht
      exact ⟨t, o :: os', run_cons.mpr ⟨s', o, os', h1, h2, rfl⟩, ht⟩

theorem run_meets {α : Type} {spec : α → ι → ο → α → Prop} {R : σ → α → Prop}
    (hstep : ∀ s a i, R s a → ∃ s' o b, step s i = some (s', o) ∧ spec a i o b ∧ R s' b)
    {s : σ} {a : α} (h : R s a) (is : List ι) :
    ∃ t os b, run step s is = some (t, os) ∧ Runs spec a is os b ∧ R t b :=
  guarded_meets (fun s a i h _ => hstep s a i h) h (guarded_true s is)

theorem guarded_and {ok' : σ → ι → Prop} {s : σ} {is : List ι} (h : Guarded step ok s is)
    (h' : Guarded step ok' s is) : Guarded step (fun s i => ok s i ∧ ok' s i) s is := by
  induction is generalizing s with
  | nil => trivial
  | cons i is ih => exact ⟨⟨h.1, h'.1⟩, fun p hp => ih (h.2 p hp) (h'.2 p hp)⟩

theorem guarded_mono {ok' : σ → ι → Prop} (h : ∀ s i, ok s i → ok' s i) {s : σ} {is : List ι}
    (hg : Guarded step ok s is) : Guarded step ok' s is :=
  guarded_imp (I := fun _ => True) (fun s i _ hi => ⟨h s i hi, fun _ _ => trivial⟩) trivial hg

theorem guarded_drop {s t : σ} {is js : List ι} {os : List ο} (hg : Guarded step ok s (is ++ js))
    (h : run step s is = some (t, os)) : Guarded step ok t js := by
  induction is generalizing s os with
  | nil =>
      obtain ⟨rfl, _⟩ := Prod.mk.inj (Option.some.inj h)
      exact hg
  | cons i is ih =>
      obtain ⟨s', o, os', h1, h2, _⟩ := run_cons.mp h
      exact ih (hg.2 _ h1) h2

theorem guarded_of_run (hstep : ∀ s i p, step s i = some p → ok s i) {s t : σ} {is : List ι}
    {os : List ο} (h : run step s is = some (t, os)) : Guarded step ok s is := by
  induction is generalizing s os with
  | nil => trivial
  | cons i is ih =>
      obtain ⟨s', o, os', h1, h2, _⟩ := run_cons.mp h
      refine ⟨hstep s i _ h1, fun p hp => ?_⟩
      cases h1.symm.trans hp
      exact ih h2

theorem guarded_of_forall {s : σ} {is : List ι} (h : ∀ s, ∀ i ∈ is, ok s i) :
    Guarded step ok s is := by
  induction is generalizing s with
  | nil => trivial
  | cons i is ih =>
      exact ⟨h s i List.mem_cons_self, fun p _ => ih fun s j hj => h s j (List.mem_cons_of_mem _ hj)⟩

section Counted

variable {counts : σ → ι → Bool}

def counted (step : σ → ι → Option (σ × ο)) (counts : σ → ι → Bool) : σ → List ι → Nat
  | _, [] => 0
  | s, i :: is =>
      (if counts s i then 1 else 0) +
        match step s i with
        | some p => counted step counts p.1 is
        | none => 0

/-- What holds with a number, and after a step that counts with the next, holds with as many
more as steps of a run counted. -/
theorem run_counted {I : Nat → σ → Prop}
    (hstep : ∀ k s i s' o, I k s → ok s i → step s i = some (s', o) →
      I (k + if counts s i then 1 else 0) s')
    {k : Nat} {s t : σ} {is : List ι} {os : List ο} (hs : I k s) (hok : Guarded step ok s is)
    (h : run step s is = some (t, os)) : I (k + counted step counts s is) t := by
  induction is generalizing k s os with
  | nil =>
      obtain ⟨rfl, _⟩ := Prod.mk.inj (Option.some.inj h)
      exact hs
  | cons i is ih =>
      obtain ⟨s', o, os', h1, h2, _⟩ := run_cons.mp h
      have hrest := ih (hstep k s i s' o hs hok.1 h1) (hok.2 _ h1) h2
      rw [counted, h1]
      rwa [Nat.add_assoc] at hrest

end Counted

end OiAmc.PartialMachine

import Mathlib.Data.List.Basic

namespace OiAmc

/-- A program that asks its surroundings something and goes on with the answer. -/
inductive Script (Q : Type) (A : Q → Type) (R : Type)
  | done (r : R)
  | ask (q : Q) (next : A q → Script Q A R)

namespace Script

variable {Q ι σ τ R S : Type} {A : Q → Type}

abbrev Event (Q : Type) (A : Q → Type) := (q : Q) × A q

def bind : Script Q A R → (R → Script Q A S) → Script Q A S
  | done r, f => f r
  | ask q next, f => ask q fun a => (next a).bind f

def query (q : Q) (f : A q → R) : Script Q A R := ask q fun a => done (f a)

/-- A loop over a list. A round goes on with a state or leaves with a result. -/
def each (round : ι → σ → Script Q A (σ ⊕ R)) : List ι → σ → Script Q A (σ ⊕ R)
  | [], s => done (.inl s)
  | i :: is, s => (round i s).bind (Sum.elim (each round is) fun r => done (.inr r))

/-- What is asked when the n-th question gets the n-th answer, and the result. -/
def play : Script Q A R → (Nat → (q : Q) → A q) → List (Event Q A) × R
  | done r, _ => ([], r)
  | ask q next, answers =>
      let rest := play (next (answers 0 q)) fun n => answers (n + 1)
      (⟨q, answers 0 q⟩ :: rest.1, rest.2)

def log (p : Script Q A R) (answers : Nat → (q : Q) → A q) : List (Event Q A) :=
  (p.play answers).1

@[simp] theorem log_done (r : R) (answers : Nat → (q : Q) → A q) :
    (done r : Script Q A R).log answers = [] := rfl

@[simp] theorem log_ask (q : Q) (next : A q → Script Q A R) (answers : Nat → (q : Q) → A q) :
    (ask q next).log answers =
      ⟨q, answers 0 q⟩ :: (next (answers 0 q)).log fun n => answers (n + 1) := rfl

theorem bind_assoc {T : Type} (p : Script Q A R) (f : R → Script Q A S) (g : S → Script Q A T) :
    (p.bind f).bind g = p.bind fun r => (f r).bind g := by
  induction p with
  | done r => rfl
  | ask q next ih => exact congrArg (ask q) (funext ih)

theorem log_query_bind (q : Q) (f : A q → R) (g : R → Script Q A S)
    (answers : Nat → (q : Q) → A q) : ((query q f).bind g).log answers =
      ⟨q, answers 0 q⟩ :: (g (f (answers 0 q))).log fun n => answers (n + 1) := rfl

theorem each_cons_bind (round : ι → σ → Script Q A (σ ⊕ R)) (i : ι) (is : List ι) (s : σ)
    (f : σ ⊕ R → Script Q A S) : (each round (i :: is) s).bind f =
      (round i s).bind (Sum.elim (fun s => (each round is s).bind f) fun r => f (.inr r)) := by
  rw [each, bind_assoc]
  congr 1
  funext x
  cases x with
  | inl s => rfl
  | inr r => rfl

section Monitor

variable {step : τ → Event Q A → Option τ} {b : τ} {post : τ → R → Prop}

/-- A monitor that watches the events never stops, whatever the answers are, and what
it ends with is as wanted. -/
def Safe (step : τ → Event Q A → Option τ) : τ → Script Q A R → (τ → R → Prop) → Prop
  | b, done r, post => post b r
  | b, ask q next, post => ∀ a, ∃ b', step b ⟨q, a⟩ = some b' ∧ Safe step b' (next a) post

theorem Safe.mono {p : Script Q A R} {post' : τ → R → Prop} (h : Safe step b p post)
    (hpost : ∀ b r, post b r → post' b r) : Safe step b p post' := by
  induction p generalizing b with
  | done r => exact hpost b r h
  | ask q next ih =>
      intro a
      obtain ⟨b', hb, h⟩ := h a
      exact ⟨b', hb, ih a h⟩

theorem Safe.query {q : Q} {f : A q → R}
    (h : ∀ a, ∃ b', step b ⟨q, a⟩ = some b' ∧ post b' (f a)) : Safe step b (query q f) post := h

theorem Safe.bind {p : Script Q A R} {f : R → Script Q A S} {post : τ → S → Prop}
    (h : Safe step b p fun b r => Safe step b (f r) post) : Safe step b (p.bind f) post := by
  induction p generalizing b with
  | done r => exact h
  | ask q next ih =>
      intro a
      obtain ⟨b', hb, h⟩ := h a
      exact ⟨b', hb, ih a h⟩

theorem Safe.each {round : ι → σ → Script Q A (σ ⊕ R)} {I : τ → σ → Prop} {is : List ι}
    (hround : ∀ i ∈ is, ∀ b s, I b s → Safe step b (round i s) fun b => Sum.elim (I b) (post b))
    {s : σ} (h : I b s) : Safe step b (Script.each round is s) fun b => Sum.elim (I b) (post b) := by
  induction is generalizing b s with
  | nil => exact h
  | cons i is ih =>
      refine Safe.bind ((hround i (.head _) b s h).mono ?_)
      intro b x hx
      cases x with
      | inl s => exact ih (fun i hi => hround i (.tail _ hi)) hx
      | inr r => exact hx

theorem Safe.log {p : Script Q A R} (h : Safe step b p post) (answers : Nat → (q : Q) → A q) :
    ∃ b', (p.log answers).foldlM step b = some b' ∧ post b' (p.play answers).2 := by
  induction p generalizing b answers with
  | done r => exact ⟨b, rfl, h⟩
  | ask q next ih =>
      obtain ⟨b', hb, h⟩ := h (answers 0 q)
      obtain ⟨c, hc, hpost⟩ := ih _ h fun n => answers (n + 1)
      refine ⟨c, ?_, hpost⟩
      rw [log_ask, List.foldlM_cons, hb]
      exact hc

end Monitor

end Script

inductive Bracket
  | opens
  | closes
  | passes
  deriving DecidableEq

namespace Bracket

variable {E : Type} (kind : E → Bracket)

def count (k : Bracket) (log : List E) : Nat := log.countP fun e => kind e = k

theorem count_cons (k : Bracket) (e : E) (log : List E) :
    count kind k (e :: log) = count kind k log + if kind e = k then 1 else 0 := by
  simp only [count, List.countP_cons, decide_eq_true_eq]

/-- Openings and closings alternate, from an opening to a closing: nothing is closed
that is not open, nothing is opened twice, and nothing is left open. -/
def Balanced (log : List E) : Prop :=
  (∀ l, l <+: log → count kind closes l ≤ count kind opens l ∧
    count kind opens l ≤ count kind closes l + 1) ∧
  count kind opens log = count kind closes log

/-- The monitor remembers whether the session is open. -/
def watch (isOpen : Bool) (e : E) : Option Bool :=
  match kind e, isOpen with
  | opens, false => some true
  | closes, true => some false
  | passes, b => some b
  | _, _ => none

/-- `Balanced` of what is left of a log, with the session open or not. -/
def BalancedFrom (isOpen : Bool) (log : List E) : Prop :=
  (∀ l, l <+: log → count kind closes l ≤ count kind opens l + isOpen.toNat ∧
    count kind opens l + isOpen.toNat ≤ count kind closes l + 1) ∧
  count kind opens log + isOpen.toNat = count kind closes log

theorem balancedFrom_nil (isOpen : Bool) : BalancedFrom kind isOpen [] ↔ isOpen = false := by
  cases isOpen <;> simp [BalancedFrom, count]

theorem forall_prefix_cons {P : List E → Prop} (e : E) (log : List E) :
    (∀ l, l <+: e :: log → P l) ↔ P [] ∧ ∀ l, l <+: log → P (e :: l) := by
  constructor
  · intro h
    exact ⟨h [] List.nil_prefix, fun l hl => h _ (List.cons_prefix_cons.mpr ⟨rfl, hl⟩)⟩
  · rintro ⟨hnil, hcons⟩ l hl
    cases l with
    | nil => exact hnil
    | cons x l =>
        obtain ⟨rfl, hl'⟩ := List.cons_prefix_cons.mp hl
        exact hcons l hl'

theorem balancedFrom_cons (isOpen : Bool) (e : E) (log : List E) :
    BalancedFrom kind isOpen (e :: log) ↔
      ∃ b, watch kind isOpen e = some b ∧ BalancedFrom kind b log := by
  have hhead : BalancedFrom kind isOpen (e :: log) →
      count kind closes [e] ≤ count kind opens [e] + isOpen.toNat ∧
      count kind opens [e] + isOpen.toNat ≤ count kind closes [e] + 1 := by
    intro h
    exact h.1 [e] (List.cons_prefix_cons.mpr ⟨rfl, List.nil_prefix⟩)
  have hnil (k : Bracket) : count kind k [] = 0 := rfl
  cases hk : kind e <;> cases isOpen
  case opens.true | closes.false =>
    simp [count_cons, hk, hnil] at hhead
    simpa [watch, hk] using hhead
  all_goals
    simp only [watch, hk, BalancedFrom, forall_prefix_cons, count_cons, hnil, reduceCtorEq, if_true,
      if_false, Option.some.injEq, exists_eq_left', Bool.toNat_true, Bool.toNat_false, Nat.add_zero,
      Nat.zero_add, Nat.le_refl, Nat.zero_le, true_and, and_true,
      Nat.add_le_add_iff_right, Nat.add_right_cancel_iff]

theorem balanced_iff (log : List E) :
    Balanced kind log ↔ log.foldlM (watch kind) false = some false := by
  have hfrom : ∀ b, BalancedFrom kind b log ↔ log.foldlM (watch kind) b = some false := by
    induction log with
    | nil =>
        intro b
        rw [balancedFrom_nil, List.foldlM_nil]
        exact Option.some_inj.symm
    | cons e log ih =>
        intro b
        rw [balancedFrom_cons, List.foldlM_cons]
        constructor
        · rintro ⟨c, hc, h⟩
          rw [hc]
          exact (ih c).mp h
        · intro h
          obtain ⟨c, hc, h⟩ := Option.bind_eq_some_iff.mp h
          exact ⟨c, hc, (ih c).mpr h⟩
  exact hfrom false

def trace (log : List E) : List Bracket := (log.map kind).filter fun k => k ≠ passes

theorem trace_append (l l' : List E) : trace kind (l ++ l') = trace kind l ++ trace kind l' := by
  rw [trace, List.map_append, List.filter_append]
  rfl

theorem trace_cons_passes {e : E} (he : kind e = passes) (l : List E) :
    trace kind (e :: l) = trace kind l := by
  rw [trace, List.map_cons, he]
  rfl

theorem trace_cons {e : E} (he : kind e ≠ passes) (l : List E) :
    trace kind (e :: l) = kind e :: trace kind l := by
  rw [trace, List.map_cons]
  exact List.filter_cons_of_pos (decide_eq_true he)

theorem trace_eq_nil {l : List E} (h : ∀ e ∈ l, kind e = passes) : trace kind l = [] := by
  rw [trace, List.filter_eq_nil_iff]
  intro k hk
  obtain ⟨e, he, rfl⟩ := List.mem_map.mp hk
  simp [h e he]

theorem balanced_iff_trace (log : List E) :
    Balanced kind log ↔ (trace kind log).foldlM (watch id) false = some false := by
  have hfold : ∀ b, log.foldlM (watch kind) b = (trace kind log).foldlM (watch id) b := by
    induction log with
    | nil => intro b; rfl
    | cons e log ih =>
        intro b
        by_cases he : kind e = passes
        · rw [trace_cons_passes kind he, List.foldlM_cons, ← ih]
          simp [watch, he]
        · rw [trace_cons kind he, List.foldlM_cons, List.foldlM_cons]
          exact congrArg _ (funext ih)
  rw [balanced_iff, hfold]

theorem balanced_append {l l' : List E} (h : Balanced kind l) (h' : Balanced kind l') :
    Balanced kind (l ++ l') := by
  rw [balanced_iff] at *
  rw [List.foldlM_append, h]
  exact h'

theorem balanced_of_trace {log : List E} (h : trace kind log = [] ∨ trace kind log = [opens, closes]) :
    Balanced kind log := by
  rw [balanced_iff_trace]
  rcases h with h | h
  · rw [h]
    rfl
  · rw [h]
    rfl

end Bracket

end OiAmc

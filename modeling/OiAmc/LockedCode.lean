import OiAmc.PartialMachine
import Mathlib.Order.Lattice

namespace OiAmc.LockedCode

open Function

variable {κ σ : Type}

/-- The code of a function that works on a memory and takes locks. A check that fails leaves by
an exit of its own. What is required must hold, or the program ends there. -/
inductive Code (κ σ : Type)
  | ret (rc : Int)
  | lock (k : κ) (next : Code κ σ)
  | unlock (k : κ) (next : Code κ σ)
  | step (f : σ → σ) (next : σ → Code κ σ)
  | check (ok : Bool) (exit next : Code κ σ)
  | require (ok : Bool) (next : Code κ σ)
  | call (body : Code κ σ) (next : Int → Code κ σ)

/-- The locks that are taken, and the memory. -/
structure State (κ σ : Type) where
  held : κ → Bool
  mem : σ

def State.map (s : State κ σ) (f : σ → σ) : State κ σ := { s with mem := f s.mem }

def State.hold [DecidableEq κ] (s : State κ σ) (k : κ) (b : Bool) : State κ σ :=
  { s with held := update s.held k b }

namespace Code

variable [DecidableEq κ]

/-- A thread that asks for a lock that is taken waits forever when it is its own. -/
def run : Code κ σ → State κ σ → Option (Int × State κ σ)
  | ret rc, s => some (rc, s)
  | lock k next, s => if s.held k then none else next.run (s.hold k true)
  | unlock k next, s => next.run (s.hold k false)
  | step f next, s => (next (f s.mem)).run (s.map f)
  | check ok exit next, s => if ok then next.run s else exit.run s
  | require ok next, s => if ok then next.run s else none
  | call body next, s => (body.run s).bind fun r => (next r.1).run r.2

/-- It ends, with the locks that were taken before. -/
def Balanced (c : Code κ σ) (s : State κ σ) : Prop :=
  ∃ rc s', c.run s = some (rc, s') ∧ s'.held = s.held

/-- No lock is taken or released, nothing is required. -/
def Plain : Code κ σ → Prop
  | ret _ => True
  | lock _ _ => False
  | unlock _ _ => False
  | step _ next => ∀ m, (next m).Plain
  | check _ exit next => exit.Plain ∧ next.Plain
  | require _ _ => False
  | call _ _ => False

/-- How a function that was entered with some locks taken goes on with others: where no check
fails it takes what is free, releases what it took, and returns with the locks of the entry. -/
def Disciplined : (κ → Bool) → (κ → Bool) → Code κ σ → Prop
  | entry, held, ret _ => held = entry
  | entry, held, lock k next => held k = false ∧ Disciplined entry (update held k true) next
  | entry, held, unlock k next =>
      held k = true ∧ entry k = false ∧ Disciplined entry (update held k false) next
  | entry, held, step _ next => ∀ m, Disciplined entry held (next m)
  | entry, held, check _ exit next => exit.Plain ∧ Disciplined entry held next
  | entry, held, require ok next => ok = true → Disciplined entry held next
  | entry, held, call body next => Disciplined held held body ∧ ∀ rc, Disciplined entry held (next rc)

def Passes : (κ → Bool) → Code κ σ → State κ σ → Prop
  | _, ret _, _ => True
  | entry, lock k next, s => Passes entry next (s.hold k true)
  | entry, unlock k next, s => Passes entry next (s.hold k false)
  | entry, step f next, s => Passes entry (next (f s.mem)) (s.map f)
  | entry, check ok _ next, s => if ok then Passes entry next s else s.held = entry
  | entry, require ok next, s => ok = true ∧ Passes entry next s
  | entry, call body next, s =>
      Passes s.held body s ∧ ∀ rc s', body.run s = some (rc, s') → Passes entry (next rc) s'

def Returns (P : Int → Prop) : Code κ σ → Prop
  | ret rc => P rc
  | lock _ next => next.Returns P
  | unlock _ next => next.Returns P
  | step _ next => ∀ m, (next m).Returns P
  | check _ exit next => exit.Returns P ∧ next.Returns P
  | require ok next => ok = true → next.Returns P
  | call _ next => ∀ rc, (next rc).Returns P

variable {c : Code κ σ} {s s' : State κ σ} {entry held : κ → Bool} {rc : Int} {k : κ}

@[simp] theorem disciplined_ret : (ret rc : Code κ σ).Disciplined entry entry := rfl

theorem disciplined_lock (hk : entry k = false) :
    (lock k c).Disciplined entry entry ↔ c.Disciplined entry (update entry k true) := and_iff_right hk

theorem disciplined_unlock (hk : entry k = false) :
    (unlock k c).Disciplined entry (update entry k true) ↔ c.Disciplined entry entry := by
  rw [Disciplined, update_self, update_idem, ← hk, update_eq_self, hk]
  simp only [true_and]

theorem plain_run (h : c.Plain) (s : State κ σ) : ∃ rc s', c.run s = some (rc, s') ∧ s'.held = s.held := by
  induction c generalizing s with
  | ret rc => exact ⟨rc, s, rfl, rfl⟩
  | lock k next ih | unlock k next ih | require ok next ih | call body next ihb ihn => exact h.elim
  | step f next ih => exact ih (f s.mem) (h (f s.mem)) (s.map f)
  | check ok exit next ihe ihn =>
      cases ok with
      | true => exact ihn h.2 s
      | false => exact ihe h.1 s

theorem plain_held (h : c.Plain) (hr : c.run s = some (rc, s')) : s'.held = s.held := by
  obtain ⟨rc1, s1, hr1, hs1⟩ := plain_run h s
  rw [hr] at hr1
  obtain ⟨rfl, rfl⟩ := Prod.mk.inj (Option.some.inj hr1)
  exact hs1

theorem run_passes (h : c.Disciplined entry s.held) (hp : c.Passes entry s) :
    ∃ rc s', c.run s = some (rc, s') ∧ s'.held = entry := by
  induction c generalizing entry s with
  | ret rc => exact ⟨rc, s, rfl, h⟩
  | lock k next ih =>
      rw [run, if_neg (by rw [h.1]; exact Bool.false_ne_true)]
      exact ih h.2 hp
  | unlock k next ih => exact ih h.2.2 hp
  | step f next ih => exact ih (f s.mem) (h (f s.mem)) hp
  | check ok exit next ihe ihn =>
      cases ok with
      | true => exact ihn h.2 hp
      | false =>
          obtain ⟨rc, s', hr, hs'⟩ := plain_run h.1 s
          exact ⟨rc, s', hr, hs'.trans hp⟩
  | require ok next ih =>
      rw [run, if_pos hp.1]
      exact ih (h hp.1) hp.2
  | call body next ihb ihn =>
      obtain ⟨rc, s1, hr, hs1⟩ := ihb h.1 hp.1
      rw [run, hr]
      exact ihn rc (by rw [hs1]; exact h.2 rc) (hp.2 rc s1 hr)

theorem update_lt_update {f g : κ → Bool} (h : f < g) (hk : f k = g k) (b : Bool) :
    update f k b < update g k b := by
  obtain ⟨hle, i, hi⟩ := Pi.lt_def.mp h
  have hik : i ≠ k := fun he => hi.ne (by rw [he, hk])
  refine Pi.lt_def.mpr ⟨update_le_update_iff.mpr ⟨le_rfl, fun j _ => hle j⟩, i, ?_⟩
  rwa [update_of_ne hik, update_of_ne hik]

theorem le_update_true {f g : κ → Bool} (h : f ≤ g) (k : κ) : f ≤ update g k true :=
  le_update_iff.mpr ⟨Bool.le_true _, fun j _ => h j⟩

theorem le_update_false {f g : κ → Bool} (h : f ≤ g) (hk : f k = false) : f ≤ update g k false :=
  le_update_iff.mpr ⟨hk.le, fun j _ => h j⟩

theorem run_above (h : c.Disciplined entry held) (hle : entry ≤ held) (hlt : held < s.held)
    (hr : c.run s = some (rc, s')) : entry < s'.held := by
  induction c generalizing entry held s rc s' with
  | ret rc =>
      obtain ⟨-, rfl⟩ := Prod.mk.inj (Option.some.inj hr)
      exact hle.trans_lt hlt
  | lock k next ih =>
      rw [run] at hr
      split at hr
      · cases hr
      · rename_i hk
        exact ih h.2 (le_update_true hle k)
          (update_lt_update hlt (h.1.trans (Bool.eq_false_of_not_eq_true hk).symm) true) hr
  | unlock k next ih =>
      have hk : s.held k = true := Bool.eq_true_of_true_le (h.1 ▸ hlt.le k)
      exact ih h.2.2 (le_update_false hle h.2.1) (update_lt_update hlt (h.1.trans hk.symm) false) hr
  | step f next ih => exact ih (f s.mem) (s := s.map f) (h (f s.mem)) hle hlt hr
  | check ok exit next ihe ihn =>
      cases ok with
      | true => exact ihn h.2 hle hlt hr
      | false =>
          rw [plain_held h.1 hr]
          exact hle.trans_lt hlt
  | require ok next ih =>
      cases ok with
      | true => exact ih (h rfl) hle hlt hr
      | false => cases hr
  | call body next ihb ihn =>
      obtain ⟨r, hr1, hr2⟩ := Option.bind_eq_some_iff.mp hr
      exact ihn r.1 (h.2 r.1) hle (ihb h.1 le_rfl hlt hr1) hr2

theorem run_not_passes (h : c.Disciplined entry s.held) (hle : entry ≤ s.held)
    (hp : ¬c.Passes entry s) (hr : c.run s = some (rc, s')) : entry < s'.held := by
  induction c generalizing entry s rc s' with
  | ret rc => exact absurd trivial hp
  | lock k next ih =>
      rw [run, if_neg (by rw [h.1]; exact Bool.false_ne_true)] at hr
      exact ih h.2 (le_update_true hle k) hp hr
  | unlock k next ih => exact ih h.2.2 (le_update_false hle h.2.1) hp hr
  | step f next ih => exact ih (f s.mem) (s := s.map f) (h (f s.mem)) hle hp hr
  | check ok exit next ihe ihn =>
      cases ok with
      | true => exact ihn h.2 hle hp hr
      | false =>
          rw [plain_held h.1 hr]
          exact lt_of_le_of_ne hle (Ne.symm hp)
  | require ok next ih =>
      cases ok with
      | true => exact ih (h rfl) hle (fun hn => hp ⟨rfl, hn⟩) hr
      | false => cases hr
  | call body next ihb ihn =>
      obtain ⟨⟨rc1, s1⟩, hr1, hr2⟩ := Option.bind_eq_some_iff.mp hr
      by_cases hb : body.Passes s.held s
      · obtain ⟨rc2, s2, hr3, hs2⟩ := run_passes h.1 hb
        rw [hr1] at hr3
        obtain ⟨rfl, rfl⟩ := Prod.mk.inj (Option.some.inj hr3)
        refine ihn rc1 (by rw [hs2]; exact h.2 rc1) (hle.trans hs2.ge) (fun hn => hp ⟨hb, ?_⟩) hr2
        intro rc' s' hr'
        rw [hr1] at hr'
        obtain ⟨rfl, rfl⟩ := Prod.mk.inj (Option.some.inj hr')
        exact hn
      · exact run_above (h.2 rc1) hle (ihb h.1 le_rfl hb hr1) hr2

theorem returns_run {P : Int → Prop} (h : c.Returns P) (hr : c.run s = some (rc, s')) : P rc := by
  induction c generalizing s rc s' with
  | ret rc =>
      obtain ⟨rfl, -⟩ := Prod.mk.inj (Option.some.inj hr)
      exact h
  | lock k next ih =>
      rw [run] at hr
      split at hr
      · cases hr
      · exact ih h hr
  | unlock k next ih => exact ih h hr
  | step f next ih => exact ih (f s.mem) (h (f s.mem)) hr
  | check ok exit next ihe ihn =>
      cases ok with
      | true => exact ihn h.2 hr
      | false => exact ihe h.1 hr
  | require ok next ih =>
      cases ok with
      | true => exact ih (h rfl) hr
      | false => cases hr
  | call body next ihb ihn =>
      obtain ⟨r, -, hr2⟩ := Option.bind_eq_some_iff.mp hr
      exact ihn r.1 (h r.1) hr2

theorem balanced_iff (h : c.Disciplined s.held s.held) : c.Balanced s ↔ c.Passes s.held s := by
  refine ⟨fun ⟨rc, s', hr, hs'⟩ => ?_, run_passes h⟩
  by_contra hp
  exact (run_not_passes h le_rfl hp hr).ne hs'.symm

end Code

end OiAmc.LockedCode

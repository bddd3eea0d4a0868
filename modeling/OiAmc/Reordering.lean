import OiAmc.FifoTrace
import OiAmc.StableOrder

namespace OiAmc.Reordering

open PartialMachine FifoTrace StableOrder

variable {α κ ι ο : Type} [LinearOrder κ] {key : α → κ} {x y : α} {ins outs q ys : List α} {n : Nat}

/-- A queue that is kept in the order of the keys goes from one content to another. -/
inductive Moves (key : α → κ) : List α → Event α → List α → Prop
  | put (q : List α) (x : α) : Moves key q (.put x) (place key x q)
  | got (x : α) (q : List α) : Moves key (x :: q) (.got x) q
  | idle (q : List α) : Moves key q .idle q

/-- Elements come in one after the other, each of them allowed behind those before it. -/
def Arrive (allowed : List α → α → Prop) : List α → List α → Prop
  | _, [] => True
  | ins, y :: ys => allowed ins y ∧ Arrive allowed (ins ++ [y]) ys

/-- When an element is safe to go out, it stays so, and belongs before all that is allowed in. -/
structure Rule (key : α → κ) (allowed safe : List α → α → Prop) : Prop where
  keep : ∀ ins x y, safe ins x → safe (ins ++ [y]) x
  le : ∀ ins x y, safe ins x → allowed ins y → key x ≤ key y

/-- A queue that lets out only what is safe puts what comes in in order: what went out and what
is still there, one behind the other, is the stable order of what came in. -/
theorem runs_agree {allowed safe : List α → α → Prop} {spec : List α → ι → ο → List α → Prop}
    {event : ο → Event α} {q' : List α} {is : List ι} {os : List ο} (hrule : Rule key allowed safe)
    (hspec : ∀ q i o q', spec q i o q' → Moves key q (event o) q')
    (hsafe : ∀ ins outs q i o q' x, spec (x :: q) i o q' → event o = .got x →
      Agrees key (outs ++ x :: q) ins → safe ins x)
    (h : Runs spec q is os q') (hag : Agrees key (outs ++ q) ins) (houts : ∀ x ∈ outs, safe ins x)
    (harr : Arrive allowed ins (puts (os.map event))) :
    Agrees key (outs ++ (gets (os.map event) ++ q')) (ins ++ puts (os.map event)) := by
  induction h generalizing ins outs with
  | nil q => simpa only [List.map_nil, puts, gets, List.filterMap_nil, List.nil_append,
      List.append_nil] using hag
  | @cons a b c i o is os hs _ ih =>
      rw [List.map_cons, puts_cons] at harr
      rw [List.map_cons, puts_cons, gets_cons]
      have hmove := hspec _ _ _ _ hs
      generalize he : event o = e at hmove harr
      cases hmove with
      | put _ x =>
          obtain ⟨hallowed, harr⟩ := harr
          have hag' : Agrees key (outs ++ place key x a) (ins ++ [x]) := by
            rw [← place_append fun y hy => hrule.le ins y x (houts y hy) hallowed]
            exact hag.place
          have hih := ih hag' (fun y hy => hrule.keep ins y x (houts y hy)) harr
          rwa [List.append_assoc] at hih
      | got x =>
          have hx := hsafe ins outs b i o b x hs he hag
          have hag' : Agrees key (outs ++ [x] ++ b) ins := by rwa [List.append_assoc]
          have hall : ∀ y ∈ outs ++ [x], safe ins y := by
            intro y hy
            rcases List.mem_append.mp hy with hy | hy
            · exact houts y hy
            · rwa [List.mem_singleton.mp hy]
          have hih := ih hag' hall harr
          rwa [List.append_assoc] at hih
      | idle => exact ih hag houts harr

-- An element is at most a number of places late.

/-- Of two elements that are more than n places apart the one behind does not belong before the
other. -/
def WithinPlaces (key : α → κ) (n : Nat) (xs : List α) : Prop :=
  ∀ i j x y, xs[i]? = some x → xs[j]? = some y → i + n < j → key x ≤ key y

def Near (key : α → κ) (n : Nat) (ins : List α) (y : α) : Prop :=
  ∀ z ∈ ins.take (ins.length - n), key z ≤ key y

/-- An element belongs before one that has n others behind it. -/
def Deep (key : α → κ) (n : Nat) (ins : List α) (x : α) : Prop :=
  ∃ z ∈ ins.take (ins.length - n), key x ≤ key z

theorem rule_places (key : α → κ) (n : Nat) : Rule key (Near key n) (Deep key n) := by
  constructor
  · rintro ins x y ⟨z, hz, hle⟩
    refine ⟨z, ?_, hle⟩
    obtain ⟨i, hi, rfl⟩ := List.mem_take_iff_getElem.mp hz
    refine List.mem_take_iff_getElem.mpr ⟨i, ?_, List.getElem_append_left _⟩
    rw [List.length_append]
    omega
  · rintro ins x y ⟨z, hz, hle⟩ hy
    exact hle.trans (hy z hz)

theorem arrive_places (h : WithinPlaces key n (ins ++ ys)) : Arrive (Near key n) ins ys := by
  induction ys generalizing ins with
  | nil => trivial
  | cons y ys ih =>
      refine ⟨fun z hz => ?_, ih (by rwa [List.append_assoc])⟩
      obtain ⟨i, hi, rfl⟩ := List.mem_take_iff_getElem.mp hz
      refine h i ins.length _ y ?_ ?_ (by omega)
      · rw [List.getElem?_append_left (by omega), List.getElem?_eq_getElem]
      · rw [List.getElem?_append_right (Nat.le_refl _), Nat.sub_self]
        rfl

/-- With more than n elements in the queue, n have come in behind one of them or one that has
gone. -/
theorem deep_of_length (hag : Agrees key (outs ++ x :: q) ins) (hn : n < (x :: q).length) :
    Deep key n ins x := by
  by_contra hnot
  have hfront : (ins.take (ins.length - n)).countP (fun z => decide (key x ≤ key z)) = 0 :=
    List.countP_eq_zero.mpr fun z hz hle => hnot ⟨z, hz, of_decide_eq_true hle⟩
  have hqueue : (x :: q).countP (fun z => decide (key x ≤ key z)) = (x :: q).length := by
    refine List.countP_eq_length.mpr fun z hz => decide_eq_true ?_
    rcases List.mem_cons.mp hz with rfl | hz
    · exact le_refl _
    · exact (List.pairwise_cons.mp (List.pairwise_append.mp hag.sorted).2.1).1 z hz
  have hcount := hag.perm.countP_eq fun z => decide (key x ≤ key z)
  rw [List.countP_append, hqueue, ← List.take_append_drop (ins.length - n) ins, List.countP_append,
    hfront] at hcount
  have hdrop := @List.countP_le_length _ (fun z => decide (key x ≤ key z)) (ins.drop (ins.length - n))
  rw [List.length_drop] at hdrop
  omega

-- An element is late by some time at most.

variable {time : α → Int} {d : Int}

/-- An element comes late by a time d at most behind an earlier one, and belongs behind it if its
time does. -/
def Timely (key : α → κ) (time : α → Int) (d : Int) (p y : α) : Prop :=
  time p ≤ time y + d ∧ (time p < time y → key p ≤ key y)

/-- Something has come in whose time is more than d later. -/
def Due (time : α → Int) (d : Int) (ins : List α) (x : α) : Prop :=
  x ∈ ins ∧ ∃ p ∈ ins, time x + d < time p

theorem rule_time (key : α → κ) (time : α → Int) (d : Int) :
    Rule key (fun ins y => ∀ p ∈ ins, Timely key time d p y) (Due time d) := by
  constructor
  · rintro ins x y ⟨hx, p, hp, hlt⟩
    exact ⟨List.mem_append_left _ hx, p, List.mem_append_left _ hp, hlt⟩
  · rintro ins x y ⟨hx, p, hp, hlt⟩ hy
    have hle := (hy p hp).1
    exact (hy x hx).2 (by omega)

theorem arrive_pairwise {R : α → α → Prop} (h : (ins ++ ys).Pairwise R) :
    Arrive (fun ins y => ∀ p ∈ ins, R p y) ins ys := by
  induction ys generalizing ins with
  | nil => trivial
  | cons y ys ih =>
      refine ⟨fun p hp => ?_, ih (by rwa [List.append_assoc])⟩
      exact (List.pairwise_append.mp h).2.2 p hp y List.mem_cons_self

theorem due_of_mem {p : α} (hag : Agrees key (outs ++ x :: q) ins) (hp : p ∈ x :: q)
    (hlt : time x + d < time p) : Due time d ins x :=
  ⟨hag.mem_iff.mp (List.mem_append_right _ List.mem_cons_self), p,
    hag.mem_iff.mp (List.mem_append_right _ hp), hlt⟩

end OiAmc.Reordering

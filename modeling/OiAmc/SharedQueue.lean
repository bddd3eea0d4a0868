import OiAmc.PartialMachine

/-! A bounded queue between two parties, of whom one may throw away what it saw at once and
both may count. -/

namespace OiAmc.SharedQueue

open PartialMachine

variable {α ι : Type}

inductive Side
  | producer
  | consumer
  deriving DecidableEq

inductive Event (α : Type)
  | accepted (x : α)
  | refused
  | popped (x : Option α)
  | empty
  | cleared
  | counted (n : Nat)
  | silent
  deriving DecidableEq

def Event.accepted? : Event α → Option α
  | .accepted x => some x
  | _ => none

def Event.popped? : Event α → Option (Option α)
  | .popped x => some x
  | _ => none

inductive Gone (α : Type)
  | popped (x : α)
  | dropped (x : α)

def Gone.val : Gone α → α
  | .popped x => x
  | .dropped x => x

def Gone.popped? : Gone α → Option α
  | .popped x => some x
  | .dropped _ => none

structure Queue (α : Type) where
  /-- What has left, the first first. -/
  gone : List (Gone α)
  unread : List α
  /-- How many elements a clear under way has seen. -/
  marked : Nat
  /-- The numbers of unread elements at the moments since a side has begun to count. -/
  seen : Side → List Nat

def Queue.start : Queue α := ⟨[], [], 0, fun _ => []⟩

/-- A queue with other unread elements: whoever counts may have seen their number. -/
def Queue.become (q : Queue α) (gone : List (Gone α)) (unread : List α) : Queue α :=
  { q with gone, unread, seen := fun side => q.seen side ++ [unread.length] }

def Queue.begin (q : Queue α) (side : Side) : Queue α :=
  { q with seen := fun s => if s = side then [q.unread.length] else q.seen s }

/-- The steps of a queue with room for a number of elements. -/
inductive Moves (room : Nat) : Queue α → Side → Event α → Queue α → Prop
  | silent (q) (side) : Moves room q side .silent q
  | accept (q : Queue α) (x : α) (hroom : q.unread.length < room) :
      Moves room q .producer (.accepted x) (q.become q.gone (q.unread ++ [x]))
  | refuse (q : Queue α) (hfull : q.unread.length = room) : Moves room q .producer .refused q
  | pop (q : Queue α) (x : α) (us : List α) (hq : q.unread = x :: us) :
      Moves room q .consumer (.popped (some x)) (q.become (q.gone ++ [.popped x]) us)
  | empty (q : Queue α) (hq : q.unread = []) : Moves room q .consumer .empty q
  | mark (q : Queue α) :
      Moves room q .consumer .silent { q with marked := q.unread.length }
  | clear (q : Queue α) (xs us : List α) (hq : q.unread = xs ++ us) (hxs : xs.length = q.marked) :
      Moves room q .consumer .cleared (q.become (q.gone ++ xs.map .dropped) us)
  | begin (q : Queue α) (side : Side) : Moves room q side .silent (q.begin side)
  | count (q : Queue α) (side : Side) (n : Nat) (hn : n ∈ q.seen side) (hroom : n ≤ room) :
      Moves room q side (.counted n) q

section

variable {room : Nat} {q q' : Queue α} {side : Side} {e : Event α} {es : List (Event α)}

/-- What was accepted either has left or is unread, in this order, and what was popped is what
has left but for what was dropped. -/
theorem Moves.conserves (h : Moves room q side e q') :
    q.gone.map Gone.val ++ q.unread ++ [e].filterMap Event.accepted? =
        q'.gone.map Gone.val ++ q'.unread ∧
      (q.gone.filterMap Gone.popped?).map some ++ [e].filterMap Event.popped? =
        (q'.gone.filterMap Gone.popped?).map some := by
  cases h with
  | silent | refuse | empty | mark | begin | count => simp [Event.accepted?, Event.popped?, Queue.begin]
  | accept x => simp [Event.accepted?, Event.popped?, Queue.become]
  | pop x us hq => simp [Event.accepted?, Event.popped?, Queue.become, hq, Gone.val, Gone.popped?]
  | clear xs us hq =>
      have hmap : (xs.map Gone.dropped).map Gone.val = xs := by
        rw [List.map_map]
        exact List.map_id _
      have hnone : (xs.map Gone.dropped).filterMap Gone.popped? = [] := by
        rw [List.filterMap_map]
        exact List.filterMap_eq_nil_iff.mpr fun x _ => rfl
      simp [Event.accepted?, Event.popped?, Queue.become, hq, hmap, hnone]

theorem runs_conserves {sideOf : ι → Side} {is : List ι}
    (h : Runs (fun q i e q' => Moves room q (sideOf i) e q') q is es q') :
    q.gone.map Gone.val ++ q.unread ++ es.filterMap Event.accepted? =
        q'.gone.map Gone.val ++ q'.unread ∧
      (q.gone.filterMap Gone.popped?).map some ++ es.filterMap Event.popped? =
        (q'.gone.filterMap Gone.popped?).map some := by
  induction h with
  | nil q => exact ⟨List.append_nil _, List.append_nil _⟩
  | @cons a b c i e is es hm _ ih =>
      obtain ⟨hval, hpop⟩ := hm.conserves
      have haccepted : (e :: es).filterMap Event.accepted? =
          [e].filterMap Event.accepted? ++ es.filterMap Event.accepted? :=
        List.filterMap_append (l := [e])
      have hpopped : (e :: es).filterMap Event.popped? =
          [e].filterMap Event.popped? ++ es.filterMap Event.popped? :=
        List.filterMap_append (l := [e])
      constructor
      · rw [haccepted, ← List.append_assoc, hval, ih.1]
      · rw [hpopped, ← List.append_assoc, hpop, ih.2]

end

end OiAmc.SharedQueue

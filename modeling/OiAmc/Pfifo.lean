import OiAmc.Arena
import OiAmc.FifoTrace
import OiAmc.RingIndex

namespace OiAmc.Pfifo

open Arena FifoTrace Function

variable {β : Type}

/-- A FIFO and the memory of its buffers. -/
structure Ctrl (β : Type) where
  size : Nat
  avpsize : Int
  elements : Nat → Nat
  r : Nat
  w : Nat
  heap : Pool β

def wrap (size i : Nat) : Nat := if i = size then 0 else i

/-- The buffers that the loop of pfifo_open has allocated, with x what mallocp leaves in one. -/
def allocated (heap : Pool β) (x : β) : Nat → Pool β × (Nat → Nat)
  | 0 => (heap, fun _ => 0)
  | i + 1 =>
      let s := allocated heap x i
      (s.1.alloc x, update s.2 i s.1.next)

def pfifoOpen (heap : Pool β) (size : Nat) (avpsize : Int) (x : β) : Option (Ctrl β) :=
  if 1 < size then
    some ⟨size, avpsize, (allocated heap x size).2, 0, 0, (allocated heap x size).1⟩
  else none

/-- A slot, or NULL. mem is what mallocp finds: no memory, or a buffer and what is in it. -/
def pfifoWrite (ctrl : Ctrl β) (psize : Int) (mem : Option β) : Option (Ctrl β × Option Nat) :=
  if wrap ctrl.size (ctrl.w + 1) = ctrl.r then some (ctrl, none)
  else if psize ≤ ctrl.avpsize then some (ctrl, some (ctrl.elements ctrl.w))
  else
    match mem with
    | none => some (ctrl, none)
    | some x => do
        let p := ctrl.heap.next
        let heap ← (ctrl.heap.alloc x).free (ctrl.elements ctrl.w)
        return ({ ctrl with heap := heap, elements := update ctrl.elements ctrl.w p }, some p)

def pfifoWriteCommit (ctrl : Ctrl β) : Ctrl β := { ctrl with w := wrap ctrl.size (ctrl.w + 1) }

def pfifoRead (ctrl : Ctrl β) : Option Nat :=
  if ctrl.r ≠ ctrl.w then some (ctrl.elements ctrl.r) else none

def pfifoReadCommit (ctrl : Ctrl β) : Ctrl β := { ctrl with r := wrap ctrl.size (ctrl.r + 1) }

def pfifoGetCnt (ctrl : Ctrl β) : Nat :=
  if ctrl.r ≤ ctrl.w then ctrl.w - ctrl.r else ctrl.size - (ctrl.r - ctrl.w)

/-- Where the producer is: inside pfifo_write it may have a new buffer that is to replace that of
the slot, before or behind the call of freep; behind it, it fills a buffer. -/
inductive Producer
  | idle
  | replacing (p : Nat)
  | freed (p : Nat)
  | filling (p : Nat)

/-- Where the consumer is: inside pfifo_read it may have seen that there is something to read;
behind it, it has a buffer, of which it has read what is in it or not. -/
inductive Consumer (β : Type)
  | idle
  | nonempty
  | reading (p : Nat)
  | used (p : Nat) (x : β)

structure State (β : Type) where
  ctrl : Ctrl β
  prod : Producer
  cons : Consumer β

/-- The steps of the two parties, each with one access to what they share. -/
inductive Act (β : Type)
  | write (psize : Int) (mem : Option β)
  | free
  | install
  | fill (x : β)
  | writeCommit
  | read
  | fetch
  | use
  | readCommit

/-- A call of pfifo_write up to where it has looked at the index of the consumer. -/
def writeStep (s : State β) (psize : Int) (mem : Option β) : State β × Event β :=
  if wrap s.ctrl.size (s.ctrl.w + 1) = s.ctrl.r then ({ s with prod := .idle }, .idle)
  else if psize ≤ s.ctrl.avpsize then
    ({ s with prod := .filling (s.ctrl.elements s.ctrl.w) }, .idle)
  else
    match mem with
    | none => ({ s with prod := .idle }, .idle)
    | some x =>
        ({ s with ctrl := { s.ctrl with heap := s.ctrl.heap.alloc x },
                  prod := .replacing s.ctrl.heap.next }, .idle)

/-- A step that a party does not come to where it is leaves everything as it is. -/
def step (s : State β) : Act β → Option (State β × Event β)
  | .write psize mem =>
      match s.prod with
      | .idle => some (writeStep s psize mem)
      | .filling _ => some (writeStep s psize mem)
      | _ => some (s, .idle)
  | .free =>
      match s.prod with
      | .replacing p =>
          (s.ctrl.heap.free (s.ctrl.elements s.ctrl.w)).map fun heap =>
            ({ s with ctrl := { s.ctrl with heap := heap }, prod := .freed p }, .idle)
      | _ => some (s, .idle)
  | .install =>
      match s.prod with
      | .freed p =>
          some ({ s with ctrl := { s.ctrl with elements := update s.ctrl.elements s.ctrl.w p },
                         prod := .filling p }, .idle)
      | _ => some (s, .idle)
  | .fill x =>
      match s.prod with
      | .filling p =>
          (s.ctrl.heap.write p x).map fun heap =>
            ({ s with ctrl := { s.ctrl with heap := heap } }, .idle)
      | _ => some (s, .idle)
  | .writeCommit =>
      match s.prod with
      | .filling p =>
          (s.ctrl.heap.get p).map fun x =>
            ({ s with ctrl := pfifoWriteCommit s.ctrl, prod := .idle }, .put x)
      | _ => some (s, .idle)
  | .read =>
      if s.ctrl.r ≠ s.ctrl.w then some ({ s with cons := .nonempty }, .idle)
      else some ({ s with cons := .idle }, .idle)
  | .fetch =>
      match s.cons with
      | .nonempty => some ({ s with cons := .reading (s.ctrl.elements s.ctrl.r) }, .idle)
      | _ => some (s, .idle)
  | .use =>
      match s.cons with
      | .reading p => (s.ctrl.heap.get p).map fun x => ({ s with cons := .used p x }, .idle)
      | .used p _ => (s.ctrl.heap.get p).map fun x => ({ s with cons := .used p x }, .idle)
      | _ => some (s, .idle)
  | .readCommit =>
      match s.cons with
      | .used _ x => some ({ s with ctrl := pfifoReadCommit s.ctrl, cons := .idle }, .got x)
      | _ => some (s, .idle)

end OiAmc.Pfifo

import OiAmc.TimerLog
import OiAmc.TimerMgr

namespace OiAmc.Utimer

open RbTree TimerLog TimerMgr

structure UtimerEntry where
  addr : Nat
  expireS : UInt32
  expireNs : UInt32
  data : Nat
  deriving DecidableEq, Repr

/-- A timer list. Timers get their addresses in turn. -/
structure UtimerHd where
  type : UInt32
  rbtree : RbRoot UtimerEntry
  first : Option Nat
  lastS : UInt32
  lastNs : UInt32
  count : UInt32
  fresh : Nat

abbrev UtimerOps := RbOps UtimerEntry Nat UtimerEntry.addr

def utimerInternalTimesource : UInt32 := 0x01

def utimerOpen (type : UInt32) : UtimerHd := ⟨type, .leaf, none, 0, 0, 0, 0⟩

variable (ops : UtimerOps)

def utimerAdd (ut : UtimerHd) (alloc : Bool) (expireS expireNs : UInt32) (data : Nat) :
    UtimerHd × Option UtimerEntry :=
  if alloc then
    let entry := ⟨ut.fresh, expireS, expireNs, data⟩
    let p := ut.rbtree.link
      (fun current => timeDiff current.expireS current.expireNs expireS expireNs < 0) entry
    ({ ut with
        count := ut.count + 1
        first := if p.2 then some entry.addr else ut.first
        rbtree := ops.insertColor p.1 entry.addr
        fresh := ut.fresh + 1 }, some entry)
  else (ut, none)

def utimerAddByOffset (ut : UtimerHd) (alloc : Bool) (expireS expireNs : UInt32) (data : Nat) :
    UtimerHd × Option UtimerEntry :=
  let (s, ns) := carryNs 4 (ut.lastS + expireS) (ut.lastNs + expireNs)
  utimerAdd ops ut alloc s ns data

def entryAt (ut : UtimerHd) (addr : Nat) : Option UtimerEntry :=
  ut.rbtree.inorder.find? fun entry => entry.addr = addr

def utimerDelete (ut : UtimerHd) (timer : Nat) : UtimerHd :=
  { ut with
    first := if ut.first = some timer then ops.next ut.rbtree timer else ut.first
    rbtree := ops.erase ut.rbtree timer
    count := ut.count - 1 }

def runTime (ut : UtimerHd) (clock : Clock) (s ns : UInt32) : Clock :=
  if ut.type &&& utimerInternalTimesource = utimerInternalTimesource then clock else ⟨s, ns⟩

/-- Where utimer_run is: not under way, at the head of its loop, or in the callback of a timer
that it has taken from the list. -/
inductive Control
  | idle
  | looping (now : Clock)
  | calling (now : Clock) (entry : UtimerEntry)

structure State where
  ut : UtimerHd
  control : Control

abbrev Log := List (Event UtimerEntry Clock)

/-- utimer_run up to its loop. -/
def utimerRun (ut : UtimerHd) (clock : Clock) (s ns : UInt32) :
    State × Event UtimerEntry Clock :=
  let now := runTime ut clock s ns
  if now.ns = ut.lastNs ∧ now.s = ut.lastS then (⟨ut, .idle⟩, .skipped now)
  else (⟨{ ut with lastS := now.s, lastNs := now.ns }, .looping now⟩, .started now)

def runRound (ut : UtimerHd) (now : Clock) : Option (State × Event UtimerEntry Clock) :=
  match ut.first with
  | none => some (⟨ut, .idle⟩, .ended)
  | some node => (entryAt ut node).map fun entry =>
      if 0 < timeDiff now.s now.ns entry.expireS entry.expireNs then (⟨ut, .idle⟩, .ended)
      else
        (⟨{ ut with first := ops.next ut.rbtree node, rbtree := ops.erase ut.rbtree node },
          .calling now entry⟩, .fired entry)

def callbackReturns (ut : UtimerHd) (now : Clock) (entry : UtimerEntry) :
    State × Event UtimerEntry Clock :=
  (⟨{ ut with count := ut.count - 1 }, .looping now⟩, .returned entry)

inductive Act
  | add (alloc : Bool) (expireS expireNs : UInt32) (data : Nat)
  | addByOffset (alloc : Bool) (expireS expireNs : UInt32) (data : Nat)
  | delete (timer : Nat)
  | run (clock : Clock) (s ns : UInt32)
  | round
  | callbackReturns

def addedEvent (asked : Asked Clock) : Option UtimerEntry → Event UtimerEntry Clock
  | some entry => .added entry asked
  | none => .refused

def step (st : State) : Act → Option (State × Event UtimerEntry Clock)
  | .add alloc expireS expireNs data =>
      let r := utimerAdd ops st.ut alloc expireS expireNs data
      some (⟨r.1, st.control⟩, addedEvent (.at ⟨expireS, expireNs⟩) r.2)
  | .addByOffset alloc expireS expireNs data =>
      let r := utimerAddByOffset ops st.ut alloc expireS expireNs data
      some (⟨r.1, st.control⟩, addedEvent (.offset ⟨expireS, expireNs⟩) r.2)
  | .delete timer => (entryAt st.ut timer).map fun entry =>
      (⟨utimerDelete ops st.ut timer, st.control⟩, .deleted entry)
  | .run clock s ns => some (utimerRun st.ut clock s ns)
  | .round =>
      match st.control with
      | .looping now => runRound ops st.ut now
      | _ => none
  | .callbackReturns =>
      match st.control with
      | .calling now entry => some (callbackReturns st.ut now entry)
      | _ => none

/-- Outside of a callback nothing is called while a run is under way. -/
def Control.accepts : Control → Bool
  | .looping _ => false
  | .idle | .calling _ _ => true

def Proper (st : State) : Act → Bool
  | .add .. | .addByOffset .. => st.control.accepts
  | .delete timer => st.control.accepts && (entryAt st.ut timer).isSome
  | .run .. => match st.control with
    | .idle => true
    | _ => false
  | .round => match st.control with
    | .looping _ => true
    | _ => false
  | .callbackReturns => match st.control with
    | .calling _ _ => true
    | _ => false

end OiAmc.Utimer

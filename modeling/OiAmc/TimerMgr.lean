import OiAmc.GotoLoop
import OiAmc.RbTree

namespace OiAmc.TimerMgr

open GotoLoop RbTree

structure Timer where
  addr : Nat
  interval : UInt32
  expireS : UInt32
  expireNs : UInt32
  data : Nat
  deriving DecidableEq, Repr

inductive TimeSource
  | localTime
  | external
  deriving DecidableEq, Repr

structure TimerList where
  timesource : TimeSource
  lastS : UInt32
  lastNs : UInt32
  count : UInt32
  rbtree : RbRoot Timer
  first : Option Nat
  fresh : Nat

abbrev TimerOps := RbOps Timer Nat Timer.addr

/-- A time as seconds and nanoseconds, as gettimeofday gives it. -/
structure Clock where
  s : UInt32
  ns : UInt32

def createTimerlist (timesource : TimeSource) (clock : Clock) : TimerList where
  timesource := timesource
  lastS := if timesource = .localTime then clock.s else 0
  lastNs := if timesource = .localTime then clock.ns else 0
  count := 0
  rbtree := .leaf
  first := none
  fresh := 0

def timeDiff (aS aNs bS bNs : UInt32) : Int :=
  (bS.toNat * 1000000000 + bNs.toNat) - (aS.toNat * 1000000000 + aNs.toNat)

variable (ops : TimerOps)

def timerMgrInsertTimer (tl : TimerList) (entry : Timer) : TimerList :=
  let p := tl.rbtree.link
    (fun current => timeDiff current.expireS current.expireNs entry.expireS entry.expireNs < 0) entry
  { tl with
    first := if p.2 then some entry.addr else tl.first
    rbtree := ops.insertColor p.1 entry.addr
    count := tl.count + 1 }

/-- The end of the functions that add a timer. It may find no memory. -/
def addAllocated (tl : TimerList) (alloc : Bool) (interval expireS expireNs : UInt32) (data : Nat) :
    TimerList × Option Nat :=
  if alloc then
    (timerMgrInsertTimer ops { tl with fresh := tl.fresh + 1 }
      ⟨tl.fresh, interval, expireS, expireNs, data⟩, some tl.fresh)
  else (tl, none)

def timerMgrAddTimerPeriodic (tl : TimerList) (alloc : Bool) (interval : UInt32) (data : Nat) :
    TimerList × Option Nat :=
  if interval < 1 then (tl, none)
  else addAllocated ops tl alloc interval (tl.lastS / interval * interval + interval) 0 data

def timerMgrAddTimer (tl : TimerList) (alloc : Bool) (expireS expireNs : UInt32) (data : Nat) :
    TimerList × Option Nat :=
  addAllocated ops tl alloc 0 expireS expireNs data

/-- Whole seconds are carried over. An unsigned int holds four of them at most. -/
def carryNs : Nat → UInt32 → UInt32 → UInt32 × UInt32
  | 0, s, ns => (s, ns)
  | n + 1, s, ns => if 1000000000 ≤ ns then carryNs n (s + 1) (ns - 1000000000) else (s, ns)

def timerMgrAddTimerByOffset (tl : TimerList) (alloc : Bool) (offsetS offsetNs : UInt32)
    (data : Nat) : TimerList × Option Nat :=
  let (s, ns) := carryNs 4 (tl.lastS + offsetS) (tl.lastNs + offsetNs)
  addAllocated ops tl alloc 0 s ns data

def entryAt (tl : TimerList) (addr : Nat) : Option Timer :=
  tl.rbtree.inorder.find? fun entry => entry.addr = addr

def timerMgrDeleteTimer (tl : TimerList) (timer : Nat) : TimerList :=
  { tl with
    first := if tl.first = some timer then ops.next tl.rbtree timer else tl.first
    rbtree := ops.erase tl.rbtree timer
    count := tl.count - 1 }

def timerMgrUpdateTimer (tl : TimerList) (timer : Nat) (expireS expireNs : UInt32) :
    Option TimerList :=
  (entryAt tl timer).map fun entry =>
    timerMgrInsertTimer ops (timerMgrDeleteTimer ops tl timer)
      { entry with expireS := expireS, expireNs := expireNs }

def now (tl : TimerList) (clock : Clock) (s ns : UInt32) : Clock :=
  if tl.timesource = .localTime then clock else ⟨s, ns⟩

structure Call where
  s : UInt32
  ns : UInt32
  data : Nat
  deriving DecidableEq, Repr

/-- A timer that was taken from the list, and what the callback was called with. -/
structure Popped where
  entry : Timer
  call : Option Call
  deriving DecidableEq, Repr

def popFirst (tl : TimerList) (node : Nat) : TimerList :=
  { tl with
    first := ops.next tl.rbtree node
    rbtree := ops.erase tl.rbtree node
    count := tl.count - 1 }

/-- A periodic timer whose expiry is not over its interval has not run before: it is set to a
multiple of the interval. -/
def rearm (s : UInt32) (entry : Timer) : Timer :=
  { entry with
    expireS := if entry.interval < entry.expireS then entry.expireS + entry.interval
      else (s + entry.interval - 1) / entry.interval * entry.interval }

def callOf (now : Clock) (entry : Timer) : Option Call :=
  if entry.interval = 0 ∨ entry.interval < entry.expireS then some ⟨now.s, now.ns, entry.data⟩
  else none

/-- The body of the loop, for the first timer, with the timers that were taken before it. -/
def runEntry (now : Clock) (tl : TimerList) (popped : List Popped) (node : Nat) (entry : Timer) :
    (TimerList × List Popped) ⊕ (TimerList × List Popped) :=
  if 0 < timeDiff now.s now.ns entry.expireS entry.expireNs then .inr (tl, popped)
  else
    let tl := popFirst ops tl node
    let popped := popped ++ [⟨entry, callOf now entry⟩]
    if 0 < entry.interval then .inl (timerMgrInsertTimer ops tl (rearm now.s entry), popped)
    else .inl (tl, popped)

def runRound (now : Clock) : TimerList × List Popped →
    Option ((TimerList × List Popped) ⊕ (TimerList × List Popped))
  | (tl, popped) =>
    match tl.first with
    | none => some (.inr (tl, popped))
    | some node => (entryAt tl node).map (runEntry ops now tl popped node)

def runLoop (now : Clock) (rounds : Nat) (tl : TimerList) : Option (TimerList × List Popped) :=
  loop (runRound ops now) rounds (tl, [])

def timerMgrRunTimerlist (clock : Clock) (rounds : Nat) (tl : TimerList) (s ns : UInt32) :
    Option (TimerList × List Popped) :=
  let now := now tl clock s ns
  if now.ns = tl.lastNs ∧ now.s = tl.lastS then some (tl, [])
  else runLoop ops now rounds { tl with lastS := now.s, lastNs := now.ns }

def timerMgrForceTimeout (clock : Clock) (tl : TimerList) (s ns : UInt32) :
    Option (TimerList × List Popped) :=
  let now := now tl clock s ns
  match tl.first with
  | none => some (tl, [])
  | some node => (entryAt tl node).map fun entry =>
      (popFirst ops tl node, [⟨entry, some ⟨now.s, now.ns, entry.data⟩⟩])

/-- A run is one whose loop ends within a number of rounds. -/
inductive Op
  | addTimer (alloc : Bool) (expireS expireNs : UInt32) (data : Nat)
  | addTimerByOffset (alloc : Bool) (offsetS offsetNs : UInt32) (data : Nat)
  | addTimerPeriodic (alloc : Bool) (interval : UInt32) (data : Nat)
  | updateTimer (timer : Nat) (expireS expireNs : UInt32)
  | deleteTimer (timer : Nat)
  | runTimerlist (clock : Clock) (rounds : Nat) (s ns : UInt32)
  | forceTimeout (clock : Clock) (s ns : UInt32)

inductive Output
  | timer (timer : Option Nat)
  | popped (popped : List Popped)
  deriving DecidableEq, Repr

def step (tl : TimerList) : Op → Option (TimerList × Output)
  | .addTimer alloc expireS expireNs data =>
      let r := timerMgrAddTimer ops tl alloc expireS expireNs data
      some (r.1, .timer r.2)
  | .addTimerByOffset alloc offsetS offsetNs data =>
      let r := timerMgrAddTimerByOffset ops tl alloc offsetS offsetNs data
      some (r.1, .timer r.2)
  | .addTimerPeriodic alloc interval data =>
      let r := timerMgrAddTimerPeriodic ops tl alloc interval data
      some (r.1, .timer r.2)
  | .updateTimer timer expireS expireNs =>
      (timerMgrUpdateTimer ops tl timer expireS expireNs).map fun tl => (tl, .timer (some timer))
  | .deleteTimer timer =>
      (entryAt tl timer).map fun _ => (timerMgrDeleteTimer ops tl timer, .timer none)
  | .runTimerlist clock rounds s ns =>
      (timerMgrRunTimerlist ops clock rounds tl s ns).map fun r => (r.1, .popped r.2)
  | .forceTimeout clock s ns =>
      (timerMgrForceTimeout ops clock tl s ns).map fun r => (r.1, .popped r.2)

end OiAmc.TimerMgr

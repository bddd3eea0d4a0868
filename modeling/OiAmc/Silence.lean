import OiAmc.Arena
import OiAmc.Utimer

namespace OiAmc.Silence

open Arena Utimer
open TimerMgr (Clock)

/-- Two channels that are watched, and their timer. -/
structure SilenceLink where
  link : UInt8
  ts : UInt8
  link1 : UInt8
  ts1 : UInt8
  timer : Option Nat
  deriving DecidableEq, Repr

structure Probe where
  phylink : UInt8
  channel : UInt8
  phylink1 : UInt8
  channel1 : UInt8
  deriving DecidableEq, Repr

def silenceChMax : Nat := 8192

def index (link ts : UInt8) : UInt16 := link.toUInt16 <<< 5 ||| ts.toUInt16

def SilenceLink.index (slink : SilenceLink) : UInt16 := Silence.index slink.link slink.ts

structure State where
  utimerSilence : Utimer.State
  sch : List (Option Nat)
  heap : Pool SilenceLink
  startCount : UInt64
  stopCount : UInt64
  toutCount : UInt64
  runningTimer : UInt32

/-- psagent_silence_init before its first run. -/
def psagentSilenceInit : State :=
  ⟨⟨utimerOpen utimerInternalTimesource, .idle⟩, List.replicate silenceChMax none, .empty, 0, 0, 0, 0⟩

/-- What a call does, or a run next: a record is started or stopped for a message, a start finds
the slot in use or fails, a stop finds nothing, or a record whose timer fired waits again, gives
no result, or sends one. -/
inductive Event
  | started (slink : Nat) (msg : Probe)
  | restart
  | startFailed
  | stopped (slink : Nat) (msg : Probe)
  | absent
  | timers (event : TimerLog.Event UtimerEntry Clock)
  | waiting
  | noResult
  | result (data : List UInt8)

abbrev Log := List Event

/-- The record of a message, with the lower link first. -/
def silenceLink (msg : Probe) : SilenceLink :=
  if msg.phylink < msg.phylink1 then
    ⟨msg.phylink, msg.channel, msg.phylink1, msg.channel1, none⟩
  else ⟨msg.phylink1, msg.channel1, msg.phylink, msg.channel, none⟩

def stopIndex (msg : Probe) : UInt16 :=
  if msg.phylink < msg.phylink1 then index msg.phylink msg.channel
  else index msg.phylink1 msg.channel1

variable (ops : UtimerOps)

/-- The timer of a record, a second from the last run on. -/
def addTimer (st : State) (alloc : Bool) (slink : Nat) : State × Option UtimerEntry :=
  let r := utimerAddByOffset ops st.utimerSilence.ut alloc 1 0 slink
  ({ st with utimerSilence := { st.utimerSilence with ut := r.1 } }, r.2)

def State.freeLink (st : State) (slink : Nat) : Option State :=
  (st.heap.free slink).map fun heap => { st with heap := heap }

def State.writeLink (st : State) (addr : Nat) (slink : SilenceLink) : Option State :=
  (st.heap.write addr slink).map fun heap => { st with heap := heap }

def psagentSilenceStartProc (st : State) (msg : Probe) (alloc timerAlloc : Bool) :
    Option (State × Event) :=
  if !alloc then some (st, .startFailed)
  else
    let slink := silenceLink msg
    let addr := st.heap.next
    let st := { st with heap := st.heap.alloc slink }
    let i := slink.index.toNat
    if silenceChMax ≤ i then (st.freeLink addr).map fun st => (st, .startFailed)
    else match st.sch[i]? with
      | none => none
      | some (some _) => (st.freeLink addr).map fun st => (st, .restart)
      | some none =>
          match addTimer ops { st with sch := st.sch.set i (some addr) } timerAlloc addr with
          | (st, none) => (st.freeLink addr).map fun st => (st, .startFailed)
          | (st, some entry) =>
              (st.writeLink addr { slink with timer := some entry.addr }).map fun st =>
                ({ st with
                  startCount := st.startCount + 1
                  runningTimer := st.runningTimer + 1 }, .started addr msg)

def deleteTimer (st : State) : Option Nat → Option State
  | none => some st
  | some timer => (entryAt st.utimerSilence.ut timer).map fun _ =>
      { st with utimerSilence :=
        { st.utimerSilence with ut := utimerDelete ops st.utimerSilence.ut timer } }

def psagentSilenceStopProc (st : State) (msg : Probe) : Option (State × Event) :=
  let i := (stopIndex msg).toNat
  if silenceChMax ≤ i then some (st, .absent)
  else match st.sch[i]? with
    | none => none
    | some none => some (st, .absent)
    | some (some addr) => do
        let slink ← st.heap.get addr
        let st ← deleteTimer ops st slink.timer
        let st ← st.freeLink addr
        some ({ st with
          sch := st.sch.set i none
          stopCount := st.stopCount + 1
          runningTimer := st.runningTimer - 1 }, .stopped addr msg)

def silenceResult (slink : SilenceLink) : List UInt8 :=
  [0, 2, slink.link, slink.ts, slink.link1, slink.ts1]

/-- The callback of a timer. What get_silence_result says of the record is rc. -/
def psagentSilenceTimercb (st : State) (data : Nat) (rc : Int) (alloc : Bool) :
    Option (State × Event) := do
  let slink ← st.heap.get data
  if rc = 1 then
    match addTimer ops st alloc data with
    | (st, some entry) =>
        (st.writeLink data { slink with timer := some entry.addr }).map fun st => (st, .waiting)
    | (st, none) => (st.freeLink data).map fun st => (st, .waiting)
  else if rc < 0 then some (st, .noResult)
  else if slink.index.toNat < st.sch.length then
    (st.freeLink data).map fun st =>
      ({ st with
        sch := st.sch.set slink.index.toNat none
        toutCount := st.toutCount + 1
        runningTimer := st.runningTimer - 1 }, .result (silenceResult slink))
  else none

/-- A call, or the next thing that a run does: a round of its loop up to the callback, or the
callback and the end of its round. -/
inductive Act
  | start (msg : Probe) (alloc timerAlloc : Bool)
  | stop (msg : Probe)
  | run (clock : Clock)
  | round
  | timercb (rc : Int) (alloc : Bool)

def withTimers (st : State) (p : Utimer.State × TimerLog.Event UtimerEntry Clock) : State × Event :=
  ({ st with utimerSilence := p.1 }, .timers p.2)

def step (st : State) : Act → Option (State × Event)
  | .start msg alloc timerAlloc => psagentSilenceStartProc ops st msg alloc timerAlloc
  | .stop msg => psagentSilenceStopProc ops st msg
  | .run clock => some (withTimers st (utimerRun st.utimerSilence.ut clock 0 0))
  | .round =>
      match st.utimerSilence.control with
      | .looping now => (runRound ops st.utimerSilence.ut now).map (withTimers st)
      | _ => none
  | .timercb rc alloc =>
      match st.utimerSilence.control with
      | .calling now entry =>
          (psagentSilenceTimercb ops st entry.data rc alloc).map fun p =>
            ({ p.1 with utimerSilence := (callbackReturns p.1.utimerSilence.ut now entry).1 }, p.2)
      | _ => none

/-- Messages are handled, and runs begun, while no run is under way. -/
def Proper (st : State) : Act → Bool
  | .start .. | .stop _ | .run _ => match st.utimerSilence.control with
    | .idle => true
    | _ => false
  | .round => match st.utimerSilence.control with
    | .looping _ => true
    | _ => false
  | .timercb .. => match st.utimerSilence.control with
    | .calling _ _ => true
    | _ => false

end OiAmc.Silence

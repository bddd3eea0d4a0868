import OiAmc.ByteBuffer
import OiAmc.GotoLoop
import Mathlib.Data.Nat.Basic

namespace OiAmc.Rbuf

open ByteBuffer GotoLoop

def rbufAlignment : Nat := 8

/-- The size of rbuf_hdr. -/
def rbufHdrSize : Nat := 32

def intMax : Nat := 2147483647

/-- A ring buffer: the indices of its header, the error count and the payload area of ps
octets behind it. -/
structure Handle where
  r : Nat
  w : Nat
  ps : Nat
  err : UInt32
  p : Nat → UInt8

/-- What a callback says of the octets from a place of the payload area on, of which a given
number is data. It may say something else at every call. -/
abbrev Verify := (Nat → UInt8) → Nat → Nat → Int

/-- n & ~(RBUF_ALIGNMENT - 1). -/
def alignDown (n : Int) : Int := n / rbufAlignment * rbufAlignment

def roundUp (len : Nat) : Nat := (len + rbufAlignment - 1) / rbufAlignment * rbufAlignment

/-- The part up to the end of the payload area and the part from its start. -/
def rbufDataLens (rb : Handle) : Nat × Nat :=
  if rb.r = rb.w then (0, 0)
  else if rb.r < rb.w then (rb.w - rb.r, 0)
  else (rb.ps - rb.r, rb.w)

def rbufDataLen (rb : Handle) : Nat := (rbufDataLens rb).1 + (rbufDataLens rb).2

def rbufFreeLens (rb : Handle) : Nat × Nat :=
  if rb.w < rb.r then (rb.r - rb.w - rbufAlignment, 0)
  else if rb.r = 0 then (rb.ps - rb.w - rbufAlignment, 0)
  else (rb.ps - rb.w, rb.r - rbufAlignment)

def rbufFreeLen (rb : Handle) : Nat := (rbufFreeLens rb).1 + (rbufFreeLens rb).2

def rbufPktAhead (verify : Verify) (rb : Handle) : Int :=
  if rbufDataLen rb = 0 then 0 else verify rb.p rb.r (rbufDataLen rb)

/-- An index len octets further on, when the sums do not overflow. -/
def bump (ps i len : Nat) : Option Nat :=
  if len + rbufAlignment - 1 ≤ intMax ∧ i + roundUp len ≤ intMax then some ((i + roundUp len) % ps)
  else none

def rbufStored (rb : Handle) (data : Nat → UInt8) (len l1 : Nat) : Option (Nat → UInt8) :=
  if len ≤ l1 then store rb.ps rb.p rb.w len data
  else do
    let p ← store rb.ps rb.p rb.w l1 data
    store rb.ps p 0 (len - l1) fun i => data (l1 + i)

def rbufCopyFromUser (rb : Handle) (data : Nat → UInt8) (len l1 : Nat) : Option Handle := do
  let p ← rbufStored rb data len l1
  let w ← bump rb.ps rb.w len
  return { rb with p := p, w := w }

/-- The octets copied out, without the update of the index. -/
def rbufCopied (rb : Handle) (len l1 : Nat) : Option (List UInt8) :=
  if len ≤ l1 then (view rb.ps rb.p rb.r len).map (List.range len).map
  else do
    let front ← view rb.ps rb.p rb.r l1
    let back ← view rb.ps rb.p 0 (len - l1)
    return (List.range l1).map front ++ (List.range (len - l1)).map back

def rbufCopyToUser (rb : Handle) (len l1 : Nat) : Option (Handle × List UInt8) := do
  let buf ← rbufCopied rb len l1
  let r ← bump rb.ps rb.r len
  return ({ rb with r := r }, buf)

def rbufPopStreamByCount (rb : Handle) (count : Nat) : Option Handle :=
  if count % rbufAlignment ≠ 0 then some rb
  else if rbufDataLen rb < count then some rb
  else if intMax < rb.r + count then none
  else some { rb with r := (rb.r + count) % rb.ps }

/-- The return code and the octets that were copied to the caller. -/
abbrev Result := Int × List UInt8

def rbufPrefetchStream (rb : Handle) (bufsize : Int) : Option Result :=
  let bufsize := alignDown bufsize
  if bufsize ≤ 0 then some (0, [])
  else if rbufDataLen rb = 0 then some (0, [])
  else
    let len := min (rbufDataLen rb) bufsize.toNat
    (rbufCopied rb len (rbufDataLens rb).1).map fun buf => ((len : Int), buf)

/-- A handle on a buffer of a given size, of which the octets behind the header and the error
count are left as they were. A negative size goes through the first check, that is one of
unsigned numbers. -/
def rbufInit (size : Int) (err : UInt32) (p : Nat → UInt8) : Option Handle :=
  let size := alignDown size
  if 0 ≤ size ∧ size < rbufHdrSize then none
  else if size - rbufHdrSize ≤ 0 then none
  else some ⟨0, 0, (size - rbufHdrSize).toNat, err, p⟩

def rbufPush (rb : Handle) (data : Option (Nat → UInt8)) (len : Int) : Option (Handle × Int) :=
  match data with
  | none => some (rb, -1)
  | some data =>
      if len ≤ 0 then some (rb, -1)
      else if rbufFreeLen rb < len then some (rb, 0)
      else (rbufCopyFromUser rb data len.toNat (rbufFreeLens rb).1).map fun rb => (rb, len)

def recoverRound (verify : Verify) (rb : Handle) : Option (Handle ⊕ Handle) :=
  let rb := { rb with r := (rb.r + rbufAlignment) % rb.ps }
  if rbufPktAhead verify rb < 0 then some (.inl rb) else some (.inr rb)

def rbufRecover (verify : Verify) (rb : Handle) : Option Handle :=
  loop (recoverRound verify) (rb.ps + 1) rb

/-- A packet that does not fit in the caller's buffer, or has none, is discarded. -/
def rbufPop (rb : Handle) (buf : Bool) (bufsize : Int) (verify : Verify) : Option (Handle × Result) :=
  if rbufDataLen rb = 0 then some (rb, 0, [])
  else
    let len := verify rb.p rb.r (rbufDataLen rb)
    if 0 < len then
      if bufsize < len ∨ buf = false then
        if intMax < len + rbufAlignment - 1 then none
        else (rbufPopStreamByCount rb (roundUp len.toNat)).map fun rb => (rb, 0, [])
      else (rbufCopyToUser { rb with err := 0 } len.toNat (rbufDataLens rb).1).map
        fun r => (r.1, len, r.2)
    else if len = 0 then
      if rb.err + 1 = 2000 then (rbufRecover verify { rb with err := 0 }).map fun rb => (rb, 0, [])
      else some ({ rb with err := rb.err + 1 }, 0, [])
    else (rbufRecover verify rb).map fun rb => (rb, 0, [])

def rbufPopStream (rb : Handle) (bufsize : Int) : Option (Handle × Result) := do
  let (rc, buf) ← rbufPrefetchStream rb bufsize
  if 0 < rc then
    let rb ← rbufPopStreamByCount rb rc.toNat
    return (rb, rc, buf)
  return (rb, rc, buf)

def rbufReset (rb : Handle) : Handle := { rb with r := 0, w := 0 }

inductive Op
  | push (data : Option (Nat → UInt8)) (len : Int)
  | pop (buf : Bool) (bufsize : Int) (verify : Verify)
  | popStream (bufsize : Int)
  | prefetchStream (bufsize : Int)
  | popStreamByCount (count : Nat)
  | recover (verify : Verify)
  | reset

def step (rb : Handle) : Op → Option (Handle × Result)
  | .push data len => (rbufPush rb data len).map fun r => (r.1, r.2, [])
  | .pop buf bufsize verify => rbufPop rb buf bufsize verify
  | .popStream bufsize => rbufPopStream rb bufsize
  | .prefetchStream bufsize => (rbufPrefetchStream rb bufsize).map fun r => (rb, r)
  | .popStreamByCount count => (rbufPopStreamByCount rb count).map fun rb => (rb, 0, [])
  | .recover verify => (rbufRecover verify rb).map fun rb => (rb, 0, [])
  | .reset => some (rbufReset rb, 0, [])

end OiAmc.Rbuf

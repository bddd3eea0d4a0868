import OiAmc.ByteBuffer
import OiAmc.GotoLoop
import OiAmc.SwtcHeader

namespace OiAmc.Swtc

open ByteBuffer GotoLoop SwtcHeader

def npvImaBuffLen : Nat := 4 * 1024

def errorState : Nat := 1

def errorMaxCount : Int := 25

def firsttimeDefault : Nat := 128

inductive ChannelState
  | hunt
  | synced
  deriving DecidableEq, Repr

structure PktHdr where
  len : UInt16
  sc : UInt8
  channel : UInt16
  tsS : UInt32
  tsNs : UInt32

def pkthdrGetPlen (ph : PktHdr) : Int := ph.len.toNat * 4 - (ph.sc &&& 0x03).toNat

def pkthdrGetDlen (ph : PktHdr) : Int := pkthdrGetPlen ph - 20

structure CellHdr where
  channel : UInt16
  tsS : UInt32
  tsNs : UInt32
  deriving DecidableEq, Repr

structure Cell where
  ph : CellHdr
  data : List UInt8
  deriving DecidableEq, Repr

structure Channel where
  stat : ChannelState
  statCount : Nat
  errStat : Nat
  errCount : Int
  buffer : Nat → UInt8
  data : Nat
  len : Nat
  ph : CellHdr
  n1 : UInt32
  n2 : UInt32
  firsttime : Nat
  id : UInt16

def Channel.skip (ch : Channel) (n : Nat) : Channel :=
  { ch with data := ch.data + n, len := ch.len - n }

/-- The unread octets are moved to the start of the buffer, as memmove does it: the
source calls memcpy also where the two ranges overlap. -/
def Channel.rebase (ch : Channel) : Option Channel :=
  if 0 < ch.len then do
    let rest ← view npvImaBuffLen ch.buffer ch.data ch.len
    let buffer ← store npvImaBuffLen ch.buffer 0 ch.len rest
    return { ch with buffer := buffer, data := 0 }
  else some { ch with data := 0 }

structure Handle where
  chnum : Nat
  ch : Nat → Channel
  lastch : Option Nat
  lastch_lt : ∀ k ∈ lastch, k < chnum
  descramble : Bool

def Handle.setCh (hd : Handle) (k : Nat) (ch : Channel) : Handle :=
  { hd with ch := Function.update hd.ch k ch }

def Handle.setLastch (hd : Handle) (k : Nat) (h : k < hd.chnum) : Handle :=
  { hd with lastch := some k, lastch_lt := by simp [h] }

def openChannel (i : Nat) : Channel where
  stat := .hunt
  statCount := 0
  errStat := 0
  errCount := 0
  buffer := fun _ => 0
  data := 0
  len := 0
  ph := ⟨UInt16.ofNat i, 0, 0⟩
  n1 := 0
  n2 := 0
  firsttime := firsttimeDefault
  id := UInt16.ofNat i

def swtcOpen (maxChannel : Int) : Option Handle :=
  if maxChannel ≤ 0 ∨ 256 < maxChannel then none
  else some ⟨maxChannel.toNat, openChannel, none, by simp, false⟩

def swtcSetDescramble (hd : Handle) : Handle := { hd with descramble := true }

def memcpy (buffer : Nat → UInt8) (p : Nat) (data : Nat → UInt8) (dlen : Int) :
    Option (Nat → UInt8) :=
  if dlen < 0 then none else store npvImaBuffLen buffer p dlen.toNat data

def Channel.refuse (ch : Channel) : Channel :=
  { ch with
    errCount := ch.errCount - 1
    errStat := if ch.errCount - 1 ≤ 0 then 0 else ch.errStat }

def Channel.take (ch : Channel) (ph : PktHdr) (data : Nat → UInt8) : Option Channel := do
  let dlen := pkthdrGetDlen ph
  let buffer ← memcpy ch.buffer (ch.data + ch.len) data dlen
  return { ch with
    buffer := buffer
    len := ch.len + dlen.toNat
    ph := { ch.ph with tsS := ph.tsS, tsNs := ph.tsNs } }

def swtcPush (hd : Handle) (ph : PktHdr) (data : Nat → UInt8) : Option (Handle × Int) :=
  let channel := ph.channel.toNat
  if h : channel < hd.chnum then
    let ch := hd.ch channel
    if ch.errStat = errorState then some (hd.setCh channel ch.refuse, -1)
    else if npvImaBuffLen < ch.len + pkthdrGetDlen ph then some (hd, -1)
    else (ch.take ph data).map fun ch => ((hd.setCh channel ch).setLastch channel h, 0)
  else some (hd, -1)

def headerErr (buffer : Nat → UInt8) (p : Nat) : Option Int :=
  (view npvImaBuffLen buffer p 5).map getHeaderErr

/-- The number of octets before the first header without an error, and whether there
is one. -/
def swtcHunt (buffer : Nat → UInt8) (buf : Nat) : (size offset : Nat) → Option (Bool × Nat)
  | size + 5, offset => do
      let err ← headerErr buffer buf
      if 0 ≤ err then swtcHunt buffer (buf + 1) (size + 4) (offset + 1) else return (true, offset)
  | _, offset => some (false, offset)

def descrambleWord (n1 n2 r : UInt32) : UInt32 :=
  r ^^^ (((n1 <<< 21) &&& (0xFFE00000 : UInt32)) ||| ((n2 >>> 11) &&& (0x1FFFFF : UInt32)))

def word (p : Nat → UInt8) : UInt32 :=
  (p 0).toUInt32 <<< 24 ||| (p 1).toUInt32 <<< 16 ||| (p 2).toUInt32 <<< 8 ||| (p 3).toUInt32

def seedWord (p : Nat → UInt8) : UInt32 :=
  ((p 0).toUInt32 <<< 24) + ((p 1).toUInt32 <<< 16) + ((p 2).toUInt32 <<< 8) + (p 3).toUInt32

def octet (r : UInt32) (i : Nat) : UInt8 := (r >>> UInt32.ofNat (24 - 8 * i)).toUInt8

def descrambleAt (ch : Channel) (i : Nat) : Option Channel := do
  let p := ch.data + 5 + 4 * i
  let r ← (view npvImaBuffLen ch.buffer p 4).map word
  let buffer ← store npvImaBuffLen ch.buffer p 4 (octet (descrambleWord ch.n1 ch.n2 r))
  return { ch with buffer := buffer, n1 := ch.n2, n2 := r }

def descramble (ch : Channel) : Option Channel := (List.range 12).foldlM descrambleAt ch

/-- The cell at the read position is used up. Its first one only seeds the
descrambler; when there is no memory it is lost. -/
def swtcReturnCell (descr alloc : Bool) (ch : Channel) : Option (Channel × Option Cell) := do
  let (ch, ph) ← if ch.firsttime ≠ 0 then do
      let cell ← view npvImaBuffLen ch.buffer ch.data 53
      let n1 := seedWord fun i => cell (45 + i)
      let n2 := seedWord fun i => cell (49 + i)
      pure ({ ch with n1 := n1, n2 := n2, firsttime := 0 }, none)
    else do
      let ch ← if descr then descramble ch else pure ch
      let cell ← view npvImaBuffLen ch.buffer ch.data 53
      pure (ch, if alloc then some ⟨ch.ph, (List.range 53).map cell⟩ else none)
  return (ch.skip 53, ph)

def swtcHuntInCell (buffer : Nat → UInt8) (data : Nat) : List Nat → Option (Option Nat)
  | [] => some none
  | i :: is => do
      let err ← headerErr buffer (data + i)
      if 0 ≤ err then swtcHuntInCell buffer data is else return some i

/-- One round of the search for a start of a cell that the next two confirm. -/
def resyncRound (buffer : Nat → UInt8) (data offset : Nat) : Option (Nat ⊕ Option Nat) :=
  if offset < 53 then do
    match ← swtcHuntInCell buffer data (List.range' offset (53 - offset)) with
    | none => return .inr none
    | some offset =>
        let rcg ← headerErr buffer (data + offset + 53)
        if 0 ≤ rcg then return .inl (offset + 1)
        else
          let rcg ← headerErr buffer (data + offset + 53 + 53)
          if 0 ≤ rcg then return .inl (offset + 1) else return .inr (some offset)
  else some (.inr none)

inductive Label
  | hunt
  | popCell
  deriving DecidableEq, Repr

abbrev Jump := (Label × Channel) ⊕ (Channel × Option Cell)

def Channel.synced (ch : Channel) (offset : Nat) : Channel :=
  { ch.skip offset with
    stat := .synced
    statCount := 0
    firsttime := if ch.firsttime = firsttimeDefault then 1 else ch.firsttime }

def Channel.stillSyncing (ch : Channel) : Channel :=
  { ch with
    errCount := ch.errCount + 5
    errStat := if errorMaxCount ≤ ch.errCount + 5 then errorState else ch.errStat }

/-- The code from hunt to pop_cell. -/
def procHunt (ch : Channel) : Option Jump :=
  if ch.stat = .hunt then do
    let (rc, offset) ← swtcHunt ch.buffer ch.data ch.len 0
    if rc then return .inl (.popCell, ch.synced offset)
    else if ch.errStat = errorState then return .inr (ch, none)
    else (ch.skip offset).rebase.map fun ch => .inr (ch.stillSyncing, none)
  else some (.inl (.popCell, ch))

def procReturn (descr : Bool) (alloc : Nat → Bool) (ch : Channel) : Option Jump := do
  let (ch', ph) ← swtcReturnCell descr (alloc ch.len) ch
  match ph with
  | none => return .inl (.popCell, ch')
  | some ph => return .inr (ch', some ph)

/-- The code from pop_cell on. -/
def procPopCell (descr : Bool) (alloc : Nat → Bool) (ch : Channel) : Option Jump :=
  if 53 + 52 + 53 + 5 < ch.len then do
    let rcc ← headerErr ch.buffer ch.data
    let rcn ← headerErr ch.buffer (ch.data + 53)
    if 0 ≤ rcc then return .inl (.hunt, { ch.skip 1 with stat := .hunt })
    else if 0 ≤ rcn then
      match ← loop (resyncRound ch.buffer ch.data) 53 1 with
      | some offset => return .inl (.popCell, ch.skip offset)
      | none => procReturn descr alloc ch
    else procReturn descr alloc ch
  else ch.rebase.map fun ch => .inr (ch, none)

def procStep (descr : Bool) (alloc : Nat → Bool) : Label × Channel → Option Jump
  | (.hunt, ch) => procHunt ch
  | (.popCell, ch) => procPopCell descr alloc ch

/-- Every jump back to a label leaves fewer octets, or is the one from hunt on to
pop_cell. -/
def jumpsLeft : Label × Channel → Nat
  | (.hunt, ch) => 2 * ch.len + 1
  | (.popCell, ch) => 2 * ch.len

/-- What alloc says of a number is whether there is memory for a cell that is taken
while that many octets are left. -/
def swtcProc (hd : Handle) (alloc : Nat → Bool) : Option (Handle × Option Cell) := do
  let k ← hd.lastch
  let start := (Label.hunt, hd.ch k)
  let (ch, ph) ← loop (procStep hd.descramble alloc) (jumpsLeft start + 1) start
  return (hd.setCh k ch, ph)

inductive Call
  | push (ph : PktHdr) (data : Nat → UInt8)
  | proc (alloc : Nat → Bool)
  | setDescramble

inductive Output
  | rc (rc : Int)
  | cell (ph : Option Cell)
  | done
  deriving DecidableEq, Repr

def step (hd : Handle) : Call → Option (Handle × Output)
  | .push ph data => (swtcPush hd ph data).map fun r => (r.1, .rc r.2)
  | .proc alloc => (swtcProc hd alloc).map fun r => (r.1, .cell r.2)
  | .setDescramble => some (swtcSetDescramble hd, .done)

end OiAmc.Swtc

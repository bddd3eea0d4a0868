import OiAmc.FifoTrace
import OiAmc.Pkt
import OiAmc.TimerMgr

namespace OiAmc.PktQueue

open ByteOrder FifoTrace GotoLoop Pkt RbTree
open TimerMgr (timeDiff)

def PKTQUEUE_MALLOC_BUFFER : UInt32 := 1

def PKTQUEUE_BUFFER_SORTED : UInt32 := 2

/-- sizeof(struct pktq_list_entry). -/
def entrySize : Int := 64

/-- A queued packet, and the address that names it. -/
structure Entry where
  addr : Nat
  ph : Octets
  len : Int
  s : UInt32
  ns : UInt32

/-- A struct pktq_handle. Entries get their addresses in turn. -/
structure Handle where
  type : UInt32
  list : List Entry
  cnt : UInt32
  size : UInt32
  sizelimit : UInt32
  sortlen : UInt32
  duration : Int
  rbtree : RbRoot Entry
  first : Option Nat
  last : Option Nat
  fresh : Nat

abbrev EntryOps := RbOps Entry Nat Entry.addr

def pktQueueOpen (type : UInt32) : Handle where
  type := type
  list := []
  cnt := 0
  size := 0
  sizelimit := 0x40000000
  sortlen := 0
  duration := 0
  rbtree := .leaf
  first := none
  last := none
  fresh := 0

def Handle.isSorted (h : Handle) : Prop := h.type &&& PKTQUEUE_BUFFER_SORTED ≠ 0

def Handle.isMalloc (h : Handle) : Prop := h.type &&& PKTQUEUE_MALLOC_BUFFER ≠ 0

instance (h : Handle) : Decidable h.isSorted := inferInstanceAs (Decidable (_ ≠ _))

instance (h : Handle) : Decidable h.isMalloc := inferInstanceAs (Decidable (_ ≠ _))

def pktQueueSetSizelimit (h : Handle) (sizelimit : UInt32) : Handle := { h with sizelimit := sizelimit }

def pktQueueSetSortlen (h : Handle) (sortlen : Int) : Handle :=
  if h.isSorted then { h with sortlen := UInt32.ofInt sortlen } else h

def pktQueueSetDuration (h : Handle) (duration : Int) : Handle :=
  if h.isSorted then { h with duration := duration * 1000000 } else h

def goesLeft (entry current : Entry) : Bool :=
  decide (entry.s < current.s) || (entry.s == current.s && decide (entry.ns < current.ns))

def entryAt (h : Handle) (node : Nat) : Option Entry :=
  h.rbtree.inorder.find? fun entry => entry.addr = node

variable (host : Endian) (ops : EntryOps)

/-- An entry of a sorted queue gets the time of its packet. -/
def stamped (entry : Entry) : Entry :=
  { entry with
    s := pkthdrGetTsS host entry.ph
    ns := pkthdrGetTsNs host entry.ph }

def pktPushSorted (h : Handle) (entry : Entry) : Handle :=
  let entry := stamped host entry
  let p := h.rbtree.link (goesLeft entry) entry
  { h with
    first := if p.2 then some entry.addr else h.first
    last := if h.rbtree.rightmost (goesLeft entry) then some entry.addr else h.last
    rbtree := ops.insertColor p.1 entry.addr }

/-- The helper that pkt_push and pkt_push_nohdr share. -/
def pktPushEntry (h : Handle) (entry : Entry) (sz : UInt32) : Handle :=
  let h := if h.isSorted then pktPushSorted host ops h entry else { h with list := h.list ++ [entry] }
  { h with
    cnt := h.cnt + 1
    size := h.size + sz }

structure Mem where
  entry : Bool
  copy : Bool

/-- The new entry is queued, with the result of the call. A copy has the octets of the packet. -/
def pktPush (h : Handle) (ph : Octets) (len : Int) (mem : Mem) : Handle × Int × Option Entry :=
  let sz := UInt32.ofInt (entrySize + len)
  if h.sizelimit < h.size + sz then (h, 0, none)
  else if !mem.entry then (h, -1, none)
  else if h.isMalloc ∧ mem.copy = false then (h, -1, none)
  else
    let entry : Entry := ⟨h.fresh, ph, len, 0, 0⟩
    (pktPushEntry host ops { h with fresh := h.fresh + 1 } entry sz, len, some entry)

def nohdrPacket (ph : Octets) (len : Int) (s ns : UInt32) : Octets :=
  let hdr := pkthdrSetTs host (pkthdrSetDlen host (pkthdrSetSync host fun _ => 0) len) s ns
  fun i => if hdrSize ≤ i ∧ (i : Int) < hdrSize + len then ph (i - 20) else hdr i

def pktPushNohdr (h : Handle) (ph : Octets) (len : Int) (s ns : UInt32) (mem : Mem) :
    Handle × Int × Option Entry :=
  if ¬ h.isMalloc then (h, -1, none)
  else if len < 0 then (h, -1, none)
  else
    let sz := UInt32.ofInt (entrySize + hdrSize + len)
    if h.sizelimit < h.size + sz then (h, 0, none)
    else if !mem.entry then (h, -1, none)
    else if !mem.copy then (h, -1, none)
    else
      let entry : Entry := ⟨h.fresh, nohdrPacket host ph len s ns, (hdrSize + len).bmod 0x100000000, 0, 0⟩
      (pktPushEntry host ops { h with fresh := h.fresh + 1 } entry sz, len, some entry)

def tooNear (h : Handle) : Option Bool :=
  if h.cnt = 1 then some true
  else do
    let first ← h.first.bind (entryAt h)
    let last ← h.last.bind (entryAt h)
    return timeDiff (pkthdrGetTsS host first.ph) (pkthdrGetTsNs host first.ph)
      (pkthdrGetTsS host last.ph) (pkthdrGetTsNs host last.ph) ≤ h.duration

def popNode (h : Handle) : Option (Handle × Option Entry) := do
  let node ← h.first
  let entry ← entryAt h node
  return ({ h with
    first := ops.next h.rbtree node
    rbtree := ops.erase h.rbtree node
    last := if h.last = some node then none else h.last
    cnt := h.cnt - 1
    size := h.size - UInt32.ofInt (entrySize + entry.len) }, some entry)

/-- A null pointer that is followed has no outcome. -/
def doPktPopSorted (h : Handle) (force : Bool) : Option (Handle × Option Entry) :=
  if h.cnt ≤ 0 then some (h, none)
  else if force = false ∧ 0 < h.sortlen ∧ h.cnt ≤ h.sortlen then some (h, none)
  else if force = false ∧ 0 < h.duration then
    (tooNear host h).bind fun near => if near then some (h, none) else popNode ops h
  else popNode ops h

def doPktPopList (h : Handle) : Option (Handle × Option Entry) :=
  if h.cnt ≤ 0 then some (h, none)
  else
    match h.list with
    | [] => none
    | entry :: list => some ({ h with
        list := list
        cnt := h.cnt - 1
        size := h.size - UInt32.ofInt (entrySize + entry.len) }, some entry)

def doPktPop (h : Handle) (force : Bool) : Option (Handle × Option Entry) :=
  if h.isSorted then doPktPopSorted host ops h force else doPktPopList h

def pktPop (h : Handle) : Option (Handle × Option Entry) := doPktPop host ops h false

def pktPopForce (h : Handle) : Option (Handle × Option Entry) := doPktPop host ops h true

/-- A round of the loop that frees the nodes of a tree, with those that are freed. -/
def clearRound (p : Handle × List Entry) : Option ((Handle × List Entry) ⊕ (Handle × List Entry)) :=
  match p.1.first with
  | none => some (.inr p)
  | some node => (entryAt p.1 node).map fun entry =>
      .inl ({ p.1 with
        first := ops.next p.1.rbtree node
        rbtree := ops.erase p.1.rbtree node }, p.2 ++ [entry])

def pktQueueClear (h : Handle) : Option (Handle × List Entry) :=
  let freed :=
    if h.isSorted then loop (clearRound ops) (h.rbtree.inorder.length + 1) (h, [])
    else some ({ h with list := [] }, h.list)
  freed.map fun p => ({ p.1 with
    size := 0
    cnt := 0
    rbtree := .leaf
    first := none
    last := none }, p.2)

inductive Op
  | setSizelimit (sizelimit : UInt32)
  | setSortlen (sortlen : Int)
  | setDuration (duration : Int)
  | push (ph : Octets) (len : Int) (mem : Mem)
  | pushNohdr (ph : Octets) (len : Int) (s ns : UInt32) (mem : Mem)
  | pop
  | popForce
  | clear

inductive Output
  | done
  | pushed (rc : Int) (entry : Option Entry)
  | popped (entry : Option Entry)
  | cleared (freed : List Entry)

def step (h : Handle) : Op → Option (Handle × Output)
  | .setSizelimit sizelimit => some (pktQueueSetSizelimit h sizelimit, .done)
  | .setSortlen sortlen => some (pktQueueSetSortlen h sortlen, .done)
  | .setDuration duration => some (pktQueueSetDuration h duration, .done)
  | .push ph len mem =>
      let r := pktPush host ops h ph len mem
      some (r.1, .pushed r.2.1 r.2.2)
  | .pushNohdr ph len s ns mem =>
      let r := pktPushNohdr host ops h ph len s ns mem
      some (r.1, .pushed r.2.1 r.2.2)
  | .pop => (pktPop host ops h).map fun r => (r.1, .popped r.2)
  | .popForce => (pktPopForce host ops h).map fun r => (r.1, .popped r.2)
  | .clear => (pktQueueClear ops h).map fun r => (r.1, .cleared r.2)

def Output.event : Output → Event Octets
  | .pushed _ (some entry) => .put entry.ph
  | .popped (some entry) => .got entry.ph
  | _ => .idle

end OiAmc.PktQueue

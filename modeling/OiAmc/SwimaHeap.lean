import OiAmc.Arena
import OiAmc.SwimaQueue

namespace OiAmc.SwimaHeap

open Arena CellChain SwimaLinks SwimaQueue

/-- A struct cell without its list pointers; data is the address of the packet
buffer. -/
structure CellVal where
  type : CellType
  ifsn : UInt8
  offset : UInt8
  data : Nat

structure Heap where
  cells : Pool (Node CellVal)
  bufs : Pool Pkt

structure HLink extends LinkArgs where
  head : Option Nat
  endCell : Option Nat

structure Swima where
  heap : Heap
  ima : ImaProcess HLink

def opened (o : Opened) : Swima where
  heap := ⟨Pool.empty, Pool.empty⟩
  ima :=
    { gnum := o.gnum
      gseq := 0
      group := o.group
      link := fun a => ⟨o.link a, none, none⟩ }

def Heap.freeData (h : Heap) (d : Nat) : Option Heap :=
  (h.bufs.free d).map fun bufs => { h with bufs := bufs }

def Heap.freeCell (h : Heap) (p : Nat) : Option Heap :=
  (h.cells.free p).map fun cells => { h with cells := cells }

def Heap.setCell (h : Heap) (p : Nat) (f : Node CellVal → Node CellVal) : Option Heap := do
  let c ← h.cells.get p
  let cells ← h.cells.write p (f c)
  return { h with cells := cells }

/-- The new head of a queue, if there is one, gets no prev. -/
def Heap.clearPrev (h : Heap) : Option Nat → Option Heap
  | some p => h.setCell p fun c => { c with prev := none }
  | none => some h

/-- The loop of reset_allcell. Every round frees a cell, so the number of cells
ever allocated bounds the rounds. -/
def resetLoop : Nat → Heap → Option Nat → Option Heap
  | _, h, none => some h
  | 0, _, some _ => none
  | n + 1, h, some p => do
      let c ← h.cells.get p
      let h ← h.clearPrev c.next
      let h ← h.freeData c.val.data
      let h ← h.freeCell p
      resetLoop n h c.next

def resetAllcell (h : Heap) (link : HLink) : Option (Heap × HLink) :=
  (resetLoop h.cells.next h link.head).map fun h =>
    (h, { link with head := none, endCell := none })

def resync (h : Heap) (link : HLink) (icp : Nat → UInt8) : Option (Heap × HLink) :=
  (resetAllcell h link).map fun r =>
    (r.1, { r.2 with toLinkArgs := link.toLinkArgs.resync icp })

def checkImaLink (h : Heap) (link : HLink) (icp : Nat → UInt8) : Option (Heap × HLink) :=
  if link.checked icp = .unusable then
    if link.offset.toNat = (icpOff icp).toNat + 1 then
      match link.endCell with
      | some q => do
          let qcell ← h.cells.get q
          if qcell.val.type = .filler then
            let (h, link) ← match qcell.prev with
              | some p => (h.setCell p fun c => { c with next := none }).map fun h =>
                  (h, { link with endCell := some p })
              | none => some (h, { link with head := none, endCell := none })
            let h ← h.freeData qcell.val.data
            let h ← h.freeCell q
            return (h, { link with offset := icpOff icp })
          else resync h link icp
      | none => resync h link icp
    else resync h link icp
  else some (h, link)

def addLinkCell (h : Heap) (link : HLink) (p : Nat) : Option (Heap × HLink) :=
  match link.head with
  | none => some (h, { link with head := some p, endCell := some p })
  | some _ => do
      let e ← link.endCell
      let h ← h.setCell p fun c => { c with prev := some e }
      let h ← h.setCell e fun c => { c with next := some p }
      return (h, { link with endCell := some p })

def writeCell (h : Heap) (link : HLink) (p d : Nat) (pkt : Pkt) : Option (Heap × HLink) := do
  let type := cellType pkt.data
  let link := if type = .icp then { link with icp := link.icp + 1 } else link
  if type = .icp ∧ 1 < link.icp then
    let h ← h.freeData d
    let h ← h.freeCell p
    return (h, link)
  let (h, link) ← if type = .icp then checkImaLink h link pkt.data else some (h, link)
  let h ← h.setCell p fun c => { c with val := { c.val with ifsn := link.ifsn, offset := link.offset } }
  let (h, link) ← addLinkCell h link p
  return (h, { link with toLinkArgs := setLinkArg link.toLinkArgs })

/-- The packet buffer enters the heap, and the cell of get_cell. -/
def writeLinkCell (s : Swima) (call : ProcCall) : Option Swima :=
  match call.pdata with
  | none => some s
  | some pkt =>
      let d := s.heap.bufs.next
      let h := { s.heap with bufs := s.heap.bufs.alloc pkt }
      match accepted call with
      | none => (h.freeData d).map fun h => { s with heap := h }
      | some _ =>
          let p := h.cells.next
          let h := { h with cells := h.cells.alloc ⟨⟨cellType pkt.data, 0, 0, d⟩, none, none⟩ }
          let a := pkt.channel.toUInt8
          (writeCell h (s.ima.link a) p d pkt).map fun r => ⟨r.1, s.ima.setLink a r.2⟩

def raiseTo (s : Swima) (target : Nat × Nat) (a : UInt8) : Option (Nat × Nat) :=
  match (s.ima.link a).head with
  | some p => (s.heap.cells.get p).map fun c =>
      raise target (c.val.ifsn.toNat, c.val.offset.toNat)
  | none => some target

def linksAligning (s : Swima) (i : Nat) (target : Nat × Nat) :
    Option (Swima × (Nat × Nat) × Int) :=
  let group := s.ima.group i
  let (ready, status) := linkStates group fun a => (s.ima.link a).status
  let s := { s with ima := s.ima.setGroup i { group with status := status } }
  if ready = false then some (s, target, -1)
  else if status = .active then some (s, target, 0)
  else (group.members.foldlM (raiseTo s) target).map fun target => (s, target, 1)

def discardLoop (target : Nat × Nat) : Nat → Heap → HLink → Option (Heap × HLink)
  | n, h, link =>
      match link.head with
      | none => some (h, link)
      | some p => do
          let c ← h.cells.get p
          if c.val.ifsn.toNat ≤ target.1 then
            if c.val.ifsn.toNat = target.1 ∧ c.val.offset.toNat = target.2 then
              return (h, { link with status := .active })
            match n with
            | 0 => none
            | n + 1 =>
                let h ← h.clearPrev c.next
                let h ← h.freeData c.val.data
                let h ← h.freeCell p
                discardLoop target n h { link with head := c.next, status := .usable }
          else return (h, link)

def alignLink (target : Nat × Nat) (s : Swima) (a : UInt8) : Option Swima :=
  (discardLoop target s.heap.cells.next s.heap (s.ima.link a)).map fun r =>
    ⟨r.1, s.ima.setLink a r.2⟩

def groupAligning (s : Swima) (i : Nat) (target : Nat × Nat) : Option Swima := do
  let group := s.ima.group i
  let s ← group.members.foldlM (alignLink target) s
  if group.members.any fun a => (s.ima.link a).status ≠ .active then return s
  return { s with ima := s.ima.setGroup i { group with status := .active, lseq := 0 } }

def alignGroup (st : Swima × Nat × Nat) (i : Nat) : Option (Swima × Nat × Nat) := do
  let (s, target, rc) ← linksAligning st.1 i st.2
  if rc ≤ 0 then return (s, target)
  let s ← groupAligning s i target
  return (s, target)

def aligning (s : Swima) : Option Swima :=
  ((List.range s.ima.gnum).foldlM alignGroup (s, 0, 0)).map Prod.fst

/-- The buffer of a cell that was read: freed for an ICP or filler cell, and
handed to the caller with the link's channel otherwise. -/
def deliver (h : Heap) (link : HLink) (c : CellVal) : Option (Heap × Option (Nat × Pkt)) := do
  let pkt ← h.bufs.get c.data
  let h ← h.freeData c.data
  if c.type ≠ .atm ∨ isfiller pkt.data then return (h, none)
  return (h, some (c.data, { pkt with channel := link.channel }))

def readGroupCell (s : Swima) : Option (Swima × Option (Nat × Pkt)) :=
  let group := s.ima.group s.ima.gseq
  if group.status ≠ .active then some (s, none)
  else
    let a := group.links group.lseq.toNat
    let link := s.ima.link a
    match link.head with
    | none => some (s, none)
    | some p => do
        let c ← s.heap.cells.get p
        let ima := s.ima.setGroup s.ima.gseq group.turn
        let h ← s.heap.clearPrev c.next
        let link := { link with
          head := c.next, endCell := if c.next = none then none else link.endCell }
        let (h, data) ← deliver h link c.val
        let h ← h.freeCell p
        return (⟨h, ima.setLink a link⟩, data)

def readLoop (gseq : Nat) : Nat → Swima → Option (Swima × Option (Nat × Pkt))
  | 0, _ => none
  | n + 1, s => do
      let (s, data) ← readGroupCell s
      let s := { s with ima := s.ima.turn }
      if s.ima.gseq = gseq ∨ data.isSome then return (s, data)
      readLoop gseq n s

/-- A handle with more groups than the array holds would be read past its end. -/
def swimaProc (s : Swima) (call : ProcCall) : Option (Swima × Option (Nat × Pkt)) := do
  if maxGrpNum < s.ima.gnum then none
  let s ← writeLinkCell s call
  let s ← aligning s
  readLoop s.ima.gseq (s.ima.gnum + 1) s

end OiAmc.SwimaHeap

import Mathlib.Data.UInt
import Mathlib.Data.List.Basic
import Mathlib.Logic.Function.Basic

namespace OiAmc.SwimaLinks

inductive CellType
  | filler
  | icp
  | atm
  deriving DecidableEq, Repr

inductive Status
  | unusable
  | usable
  | active
  deriving DecidableEq, Repr

def maxGrpNum : Nat := 128

def maxLnkNum : Nat := 256

/-- A packet buffer: the header fields that are read, and the bytes after the
header. -/
structure Pkt where
  dlen : Int
  channel : UInt16
  data : Nat → UInt8

def cellType (data : Nat → UInt8) : CellType :=
  if data 0 = 0 ∧ data 1 = 0 ∧ data 2 = 0 ∧ data 3 = 0x0b ∧ data 4 = 0x64 ∧
      (data 5 = 0x01 ∨ data 5 = 0x03) then
    if data 6 &&& 0x80 = 0x00 then .filler
    else if data 6 &&& 0x80 = 0x80 then .icp
    else .atm
  else if data 0 = 0 ∧ data 1 = 0 ∧ data 2 = 0 ∧ data 3 = 0 ∧ data 4 = 0x55 ∧ data 5 = 0x6a then
    .filler
  else .atm

def isfiller (data : Nat → UInt8) : Bool := 40 < (List.range' 5 48).countP fun i => data i = 0x6a

/-- The frame lengths, as they come out of an unsigned char: 256 is 0. -/
def imaM (i : UInt8) : UInt8 := UInt8.ofNat ([32, 64, 128, 256].getD i.toNat 0)

def icpIfsn (data : Nat → UInt8) : UInt8 := data 7

def icpOff (data : Nat → UInt8) : UInt8 := data 8

def icpM (data : Nat → UInt8) : UInt8 := imaM (data 12 &&& 0x03)

structure LinkArgs where
  status : Status
  m : UInt8
  icp : UInt8
  ifsn : UInt8
  offset : UInt8
  channel : UInt16
  deriving DecidableEq, Repr

/-- The tests of check_ima_link that make a link unusable. -/
def LinkArgs.Differs (link : LinkArgs) (icp : Nat → UInt8) : Prop :=
  link.m ≠ icpM icp ∨ link.ifsn ≠ icpIfsn icp ∨ link.offset ≠ icpOff icp

instance (link : LinkArgs) (icp : Nat → UInt8) : Decidable (link.Differs icp) :=
  inferInstanceAs (Decidable (_ ∨ _ ∨ _))

def LinkArgs.checked (link : LinkArgs) (icp : Nat → UInt8) : Status :=
  if link.Differs icp then .unusable else link.status

def LinkArgs.resync (link : LinkArgs) (icp : Nat → UInt8) : LinkArgs :=
  { link with m := icpM icp, ifsn := icpIfsn icp, offset := icpOff icp, status := .usable }

def setLinkArg (link : LinkArgs) : LinkArgs :=
  let offset := link.offset + 1
  if link.m ≤ offset then
    { link with
      status := if link.icp = 0 then .unusable else link.status
      icp := 0
      offset := 0
      ifsn := if link.ifsn < 255 then link.ifsn + 1 else 0 }
  else { link with offset := offset }

structure ImaGroup where
  status : Status
  linknum : UInt8
  lseq : UInt8
  links : Nat → UInt8

def ImaGroup.members (group : ImaGroup) : List UInt8 :=
  (List.range group.linknum.toNat).map group.links

/-- The turn of the next link, in the unsigned char lseq. -/
def ImaGroup.turn (group : ImaGroup) : ImaGroup :=
  let lseq := group.lseq + 1
  { group with lseq := if group.linknum ≤ lseq then 0 else lseq }

structure ImaProcess (L : Type) where
  gnum : Nat
  gseq : Nat
  group : Nat → ImaGroup
  link : UInt8 → L

/-- A handle as swima_open leaves it, when the turn is group 0's and all queues
are empty. -/
structure Opened where
  gnum : Nat
  gnum_le : gnum ≤ maxGrpNum
  group : Nat → ImaGroup
  link : UInt8 → LinkArgs

variable {L : Type}

def ImaProcess.setGroup (ima : ImaProcess L) (i : Nat) (group : ImaGroup) : ImaProcess L :=
  { ima with group := Function.update ima.group i group }

def ImaProcess.setLink (ima : ImaProcess L) (a : UInt8) (link : L) : ImaProcess L :=
  { ima with link := Function.update ima.link a link }

def ImaProcess.turn (ima : ImaProcess L) : ImaProcess L :=
  { ima with gseq := if ima.gnum ≤ ima.gseq + 1 then 0 else ima.gseq + 1 }

@[simp] theorem setGroup_gnum (ima : ImaProcess L) (i : Nat) (group : ImaGroup) :
    (ima.setGroup i group).gnum = ima.gnum := rfl

@[simp] theorem setGroup_gseq (ima : ImaProcess L) (i : Nat) (group : ImaGroup) :
    (ima.setGroup i group).gseq = ima.gseq := rfl

@[simp] theorem setGroup_link (ima : ImaProcess L) (i : Nat) (group : ImaGroup) :
    (ima.setGroup i group).link = ima.link := rfl

@[simp] theorem setGroup_group (ima : ImaProcess L) (i : Nat) (group : ImaGroup) :
    (ima.setGroup i group).group = Function.update ima.group i group := rfl

@[simp] theorem setLink_gnum (ima : ImaProcess L) (a : UInt8) (link : L) :
    (ima.setLink a link).gnum = ima.gnum := rfl

@[simp] theorem setLink_gseq (ima : ImaProcess L) (a : UInt8) (link : L) :
    (ima.setLink a link).gseq = ima.gseq := rfl

@[simp] theorem setLink_group (ima : ImaProcess L) (a : UInt8) (link : L) :
    (ima.setLink a link).group = ima.group := rfl

@[simp] theorem setLink_link (ima : ImaProcess L) (a : UInt8) (link : L) :
    (ima.setLink a link).link = Function.update ima.link a link := rfl

/-- The first two loops of links_aligning: the status the group gets and whether
its links are all usable or active. -/
def linkStates (group : ImaGroup) (status : UInt8 → Status) : Bool × Status :=
  if group.members.any fun a => status a = .unusable then (false, .unusable)
  else if group.members.any fun a => status a = .usable then (true, .unusable)
  else (true, group.status)

def raise (target head : Nat × Nat) : Nat × Nat :=
  if target.1 < head.1 then head
  else if target.1 = head.1 then
    if target.2 < head.2 then (target.1, head.2) else target
  else target

end OiAmc.SwimaLinks

namespace OiAmc.SwimaQueue

open SwimaLinks

structure QCell where
  type : CellType
  ifsn : UInt8
  offset : UInt8
  pkt : Pkt

def QCell.pos (c : QCell) : Nat × Nat := (c.ifsn.toNat, c.offset.toNat)

/-- A link with its cells from head to end. The end pointer of an empty queue
is NULL, or stale: it still points to the cell that was discarded last. -/
structure QLink extends LinkArgs where
  queue : List QCell
  stale : Bool

abbrev QProcess : Type := ImaProcess QLink

def opened (o : Opened) : QProcess where
  gnum := o.gnum
  gseq := 0
  group := o.group
  link := fun a => ⟨o.link a, [], false⟩

def QLink.reset (link : QLink) (icp : Nat → UInt8) : QLink :=
  { toLinkArgs := link.toLinkArgs.resync icp, queue := [], stale := false }

/-- The ICP cell moves the link one cell back when the cell before it is a
filler, and otherwise resynchronises a link that it contradicts; none when a
stale end pointer is followed. -/
def checkImaLink (link : QLink) (icp : Nat → UInt8) : Option QLink :=
  if link.checked icp = .unusable then
    if link.offset.toNat = (icpOff icp).toNat + 1 then
      match link.queue.getLast? with
      | some qcell =>
          if qcell.type = .filler then
            some { link with offset := icpOff icp, queue := link.queue.dropLast, stale := false }
          else some (link.reset icp)
      | none => if link.stale then none else some (link.reset icp)
    else some (link.reset icp)
  else some link

def addLinkCell (link : QLink) (type : CellType) (pkt : Pkt) : QLink :=
  { link with queue := link.queue ++ [⟨type, link.ifsn, link.offset, pkt⟩], stale := false }

def advance (link : QLink) : QLink := { link with toLinkArgs := setLinkArg link.toLinkArgs }

def writeCell (link : QLink) (pkt : Pkt) : Option QLink :=
  let type := cellType pkt.data
  if type = .icp then
    let link := { link with icp := link.icp + 1 }
    if 1 < link.icp then some link
    else (checkImaLink link pkt.data).map fun link => advance (addLinkCell link type pkt)
  else some (advance (addLinkCell link type pkt))

/-- The packet handed to swima_proc, or none for NULL, and whether a cell can
be allocated for it. -/
structure ProcCall where
  pdata : Option Pkt
  alloc : Bool

def accepted (call : ProcCall) : Option Pkt :=
  call.pdata.filter fun pkt => pkt.dlen = 53 ∧ pkt.channel.toNat < maxLnkNum ∧ call.alloc

def writeLinkCell (ima : QProcess) (call : ProcCall) : Option QProcess :=
  match accepted call with
  | none => some ima
  | some pkt =>
      let a := pkt.channel.toUInt8
      (writeCell (ima.link a) pkt).map (ima.setLink a)

def QLink.head? (link : QLink) : Option (Nat × Nat) := link.queue.head?.map QCell.pos

def raiseTo (ima : QProcess) (target : Nat × Nat) (a : UInt8) : Nat × Nat :=
  match (ima.link a).head? with
  | some head => raise target head
  | none => target

def linksAligning (ima : QProcess) (i : Nat) (target : Nat × Nat) :
    QProcess × (Nat × Nat) × Int :=
  let group := ima.group i
  let (ready, status) := linkStates group fun a => (ima.link a).status
  let ima := ima.setGroup i { group with status := status }
  if ready = false then (ima, target, -1)
  else if status = .active then (ima, target, 0)
  else (ima, group.members.foldl (raiseTo ima) target, 1)

/-- The discard loop on one link: what it leaves of the queue, and the link's
status and end pointer. -/
def discardCells (target : Nat × Nat) : List QCell → Status → Bool → List QCell × Status × Bool
  | [], status, stale => ([], status, stale)
  | c :: cs, status, stale =>
      if c.ifsn.toNat ≤ target.1 then
        if c.ifsn.toNat = target.1 ∧ c.offset.toNat = target.2 then (c :: cs, .active, stale)
        else discardCells target cs .usable cs.isEmpty
      else (c :: cs, status, stale)

def alignLink (target : Nat × Nat) (link : QLink) : QLink :=
  let (queue, status, stale) := discardCells target link.queue link.status link.stale
  { link with queue := queue, status := status, stale := stale }

def groupAligning (ima : QProcess) (i : Nat) (target : Nat × Nat) : QProcess :=
  let group := ima.group i
  let ima := group.members.foldl (fun ima a => ima.setLink a (alignLink target (ima.link a))) ima
  if group.members.any fun a => (ima.link a).status ≠ .active then ima
  else ima.setGroup i { group with status := .active, lseq := 0 }

/-- One round of aligning. The target is a local variable of the whole loop. -/
def alignGroup (s : QProcess × Nat × Nat) (i : Nat) : QProcess × Nat × Nat :=
  let (ima, target, rc) := linksAligning s.1 i s.2
  if rc ≤ 0 then (ima, target) else (groupAligning ima i target, target)

def alignBefore (ima : QProcess) (n : Nat) : QProcess × Nat × Nat :=
  (List.range n).foldl alignGroup (ima, 0, 0)

def aligning (ima : QProcess) : QProcess := (alignBefore ima ima.gnum).1

def deliver (link : QLink) (c : QCell) : Option Pkt :=
  if c.type ≠ .atm ∨ isfiller c.pkt.data then none else some { c.pkt with channel := link.channel }

def readGroupCell (ima : QProcess) : QProcess × Option Pkt :=
  let group := ima.group ima.gseq
  if group.status ≠ .active then (ima, none)
  else
    let a := group.links group.lseq.toNat
    let link := ima.link a
    match link.queue with
    | [] => (ima, none)
    | c :: cs =>
        ((ima.setGroup ima.gseq group.turn).setLink a { link with queue := cs, stale := false },
          deliver link c)

def readLoop (gseq : Nat) : Nat → QProcess → Option (QProcess × Option Pkt)
  | 0, _ => none
  | n + 1, ima =>
      let (ima, data) := readGroupCell ima
      let ima := ima.turn
      if ima.gseq = gseq ∨ data ≠ none then some (ima, data) else readLoop gseq n ima

/-- One cell in and at most one out; none when freed memory is used. -/
def swimaProc (ima : QProcess) (call : ProcCall) : Option (QProcess × Option Pkt) :=
  (writeLinkCell ima call).bind fun ima =>
    let ima := aligning ima
    readLoop ima.gseq (ima.gnum + 1) ima

end OiAmc.SwimaQueue

import OiAmc.BoundedFill
import Mathlib.Data.UInt
import Mathlib.Data.List.Basic

namespace OiAmc.GrpsmLinks

structure LinkInfo where
  fiber : UInt8
  fiberRate : UInt8
  channel : UInt16
  channelRate : UInt8
  vcValid : UInt8
  vcOrder : UInt8
  svcType : UInt8
  isLcas : UInt8
  isMember : UInt8
  isLastMember : UInt8
  mfi : UInt16
  sq : UInt8
  preGid : UInt32
  curGid : UInt32
  deriving DecidableEq, Repr

/-- A pointer into the handle's own copy of the link array. The records are
never written after the copy, so the pointer carries the record it reads. -/
structure LinkPtr where
  idx : Nat
  link : LinkInfo
  deriving DecidableEq, Repr

structure GroupChannel where
  fiber : UInt8
  fiberRate : UInt8
  channel : UInt16
  channelRate : UInt8
  deriving DecidableEq, Repr

/-- A group of channels; num_chs is the length of the channel list, and a
NULL channel pointer is the empty list. -/
structure GroupCfg where
  chs : List GroupChannel
  result : UInt8
  deriving DecidableEq, Repr

structure GroupStat where
  link : LinkInfo
  grouped : Bool
  groupid : Nat
  deriving DecidableEq, Repr

inductive SqStatus
  | default
  | got
  | finished
  deriving DecidableEq, Repr

def grpsmSqMax : Nat := 256

/-- A bundle of the links of one fiber that share rate and service type;
numAlloc is the number of entries its links array was allocated for. -/
structure GrpsmSvc where
  channelRate : UInt8
  svcType : UInt8
  numAlloc : Nat
  links : List LinkPtr
  sqlinks : Nat → List LinkPtr
  sqStatus : SqStatus
  sqPre : Nat

structure GrpsmFiber where
  fiber : UInt8
  nlinks : List LinkPtr
  olinks : List LinkPtr
  vcs : List GrpsmSvc
  lcas : List GrpsmSvc

structure GrpsmCtl where
  links : List LinkInfo
  fibers : List GrpsmFiber
  vgroups : List GroupCfg
  lcasGot : Bool
  vcPartial : Bool

def grpsmOpen : GrpsmCtl := ⟨[], [], [], false, false⟩

def linkPtrs (links : List LinkInfo) : List LinkPtr := links.mapIdx LinkPtr.mk

def LinkInfo.member (l : LinkInfo) : UInt8 × UInt16 := (l.fiber, l.channel)

def GroupChannel.member (c : GroupChannel) : UInt8 × UInt16 := (c.fiber, c.channel)

def GroupCfg.members (g : GroupCfg) : List (UInt8 × UInt16) := g.chs.map GroupChannel.member

def isLinkInGroup (link : LinkInfo) (groupcfg : List GroupCfg) : Option Nat :=
  groupcfg.findIdx? fun cfg => cfg.chs.any fun channel =>
    link.fiber == channel.fiber && link.channel == channel.channel

theorem any_channel_iff (link : LinkInfo) (cfg : GroupCfg) :
    (cfg.chs.any fun channel => link.fiber == channel.fiber && link.channel == channel.channel) =
      true ↔ link.member ∈ cfg.members := by
  simp only [List.any_eq_true, Bool.and_eq_true, beq_iff_eq, GroupCfg.members, List.mem_map,
    GroupChannel.member, LinkInfo.member, Prod.mk.injEq]
  constructor
  · rintro ⟨c, hc, hf, hn⟩; exact ⟨c, hc, hf.symm, hn.symm⟩
  · rintro ⟨c, hc, hf, hn⟩; exact ⟨c, hc, hf.symm, hn.symm⟩

theorem isLinkInGroup_eq (link : LinkInfo) (groupcfg : List GroupCfg) :
    isLinkInGroup link groupcfg =
      groupcfg.findIdx? fun cfg => decide (link.member ∈ cfg.members) := by
  rw [isLinkInGroup]
  congr 1
  funext cfg
  rw [Bool.eq_iff_iff, any_channel_iff, decide_eq_true_iff]

theorem isLinkInGroup_isSome (link : LinkInfo) (groupcfg : List GroupCfg) :
    (isLinkInGroup link groupcfg).isSome = true ↔ ∃ cfg ∈ groupcfg, link.member ∈ cfg.members := by
  simp [isLinkInGroup_eq, List.findIdx?_isSome]

@[simp] theorem linkPtrs_map_link (links : List LinkInfo) :
    (linkPtrs links).map LinkPtr.link = links := by
  simp [linkPtrs, List.mapIdx_eq_zipIdx_map, Function.comp_def]

theorem linkPtrs_nodup (links : List LinkInfo) : (linkPtrs links).Nodup := by
  apply List.Nodup.of_map LinkPtr.idx
  have h : (linkPtrs links).map LinkPtr.idx = List.range links.length := by
    simp [linkPtrs, List.mapIdx_eq_zipIdx_map, Function.comp_def, List.range_eq_range']
  rw [h]
  exact List.nodup_range

theorem link_mem_of_mem_linkPtrs {links : List LinkInfo} {p : LinkPtr} (h : p ∈ linkPtrs links) :
    p.link ∈ links := by
  rw [← linkPtrs_map_link links]
  exact List.mem_map_of_mem h

end OiAmc.GrpsmLinks

namespace OiAmc.GrpsmPush

open BoundedFill GrpsmLinks

/-- An entry of the counting pass of grpsm_init_fiber: rate and service type
packed into one byte, and the 16-bit cell that counts their links. -/
structure BundleCell where
  packed : UInt8
  count : UInt16
  deriving DecidableEq, Repr

structure FiberCounts where
  numNlinks : Nat
  numOlinks : Nat
  vcs : List BundleCell
  lcas : List BundleCell

def packRateType (link : LinkInfo) : UInt8 :=
  ((link.channelRate &&& 0xf) <<< 4) ||| (link.svcType &&& 0xf)

def packedRate (p : UInt8) : UInt8 := (p >>> 4) &&& 0xf

def packedType (p : UInt8) : UInt8 := (p >>> 0) &&& 0xf

/-- The unmasked fields of the link are compared with the unpacked nibbles. -/
def bumpBundle (link : LinkInfo) : List BundleCell → Option (List BundleCell)
  | [] => none
  | c :: cs =>
      if link.channelRate = packedRate c.packed ∧ link.svcType = packedType c.packed then
        some ({ c with count := c.count + 1 } :: cs)
      else (bumpBundle link cs).map (c :: ·)

/-- The two counting arrays have 256 entries each. -/
def countBundle (cells : List BundleCell) (link : LinkInfo) : Option (List BundleCell) :=
  match bumpBundle link cells with
  | some cells' => some cells'
  | none => put 256 cells ⟨packRateType link, 1⟩

def countLink (fiber : UInt8) (groupcfg : List GroupCfg) (n : FiberCounts) (p : LinkPtr) :
    Option FiberCounts :=
  if p.link.fiber ≠ fiber then some n
  else if p.link.vcValid = 0 then some { n with numNlinks := n.numNlinks + 1 }
  else if (isLinkInGroup p.link groupcfg).isSome then
    some { n with numOlinks := n.numOlinks + 1 }
  else if p.link.isLcas = 0 then
    (countBundle n.vcs p.link).map fun vcs => { n with vcs := vcs }
  else (countBundle n.lcas p.link).map fun lcas => { n with lcas := lcas }

def newSvc (c : BundleCell) : GrpsmSvc where
  channelRate := packedRate c.packed
  svcType := packedType c.packed
  numAlloc := c.count.toNat
  links := []
  sqlinks := fun _ => []
  sqStatus := .default
  sqPre := 0

/-- File a link in the first bundle of its rate and type. A link that matches
no bundle is passed over. -/
def fileLink (svcs : List GrpsmSvc) (p : LinkPtr) : Option (List GrpsmSvc) :=
  match svcs with
  | [] => some []
  | svc :: svcs =>
      if p.link.channelRate = svc.channelRate ∧ p.link.svcType = svc.svcType then
        (put svc.numAlloc svc.links p).map fun links => { svc with links := links } :: svcs
      else (fileLink svcs p).map (svc :: ·)

def placeLink (groupcfg : List GroupCfg) (n : FiberCounts) (f : GrpsmFiber) (p : LinkPtr) :
    Option GrpsmFiber :=
  if p.link.fiber ≠ f.fiber then some f
  else if p.link.vcValid = 0 then
    (put n.numNlinks f.nlinks p).map fun nlinks => { f with nlinks := nlinks }
  else if (isLinkInGroup p.link groupcfg).isSome then
    (put n.numOlinks f.olinks p).map fun olinks => { f with olinks := olinks }
  else if p.link.isLcas = 0 then (fileLink f.vcs p).map fun vcs => { f with vcs := vcs }
  else (fileLink f.lcas p).map fun lcas => { f with lcas := lcas }

def grpsmInitSvc (svc : GrpsmSvc) : Option GrpsmSvc :=
  let key := fun p : LinkPtr => p.link.sq.toNat
  (svc.links.foldlM (fileBy key (tally key svc.links)) svc.sqlinks).map fun sqlinks =>
    { svc with sqlinks := sqlinks }

def grpsmInitFiber (links : List LinkPtr) (groupcfg : List GroupCfg) (fiber : UInt8) :
    Option GrpsmFiber := do
  let n ← links.foldlM (countLink fiber groupcfg) ⟨0, 0, [], []⟩
  let f ← links.foldlM (placeLink groupcfg n) ⟨fiber, [], [], n.vcs.map newSvc, n.lcas.map newSvc⟩
  let vcs ← f.vcs.mapM grpsmInitSvc
  let lcas ← f.lcas.mapM grpsmInitSvc
  pure { f with vcs := vcs, lcas := lcas }

/-- The distinct fibers of the table, in the order of their first link, kept
in an array of 256 entries. -/
def collectFibers (links : List LinkInfo) : Option (List UInt8) :=
  links.foldlM (fun fibs link => if link.fiber ∈ fibs then some fibs else put 256 fibs link.fiber) []

def grpsmInit (links : List LinkInfo) (groupcfg : List GroupCfg) : Option (List GrpsmFiber) :=
  (collectFibers links).bind (·.mapM (grpsmInitFiber (linkPtrs links) groupcfg))

/-- The return code and the handle after the call; none when an array is
written past its end. Allocations succeed. -/
def grpsmPush (ctl : GrpsmCtl) (linkinfo : List LinkInfo) (groupcfg : List GroupCfg) :
    Option (Int × GrpsmCtl) :=
  if linkinfo = [] then some (-1, ctl)
  else (grpsmInit linkinfo groupcfg).map fun fibers =>
    (0, { links := linkinfo, fibers := fibers, vgroups := [], lcasGot := false,
          vcPartial := ctl.vcPartial })

theorem grpsmInitSvc_eq (svc : GrpsmSvc) (h : svc.sqlinks = fun _ => []) :
    grpsmInitSvc svc = some { svc with
      sqlinks := fun k => svc.links.filter (fun p => p.link.sq.toNat = k) } := by
  rw [grpsmInitSvc]
  simp only [h, tally_then_file, Option.map_some]

theorem grpsmPush_eq_some {ctl ctl' : GrpsmCtl} {links : List LinkInfo} {groupcfg : List GroupCfg} :
    grpsmPush ctl links groupcfg = some (0, ctl') ↔
      links ≠ [] ∧ ∃ fibers, grpsmInit links groupcfg = some fibers ∧
        ctl' = ⟨links, fibers, [], false, ctl.vcPartial⟩ := by
  rw [grpsmPush]
  split
  · next h => simp [h]
  · next h =>
      simp only [Option.map_eq_some_iff, Prod.mk.injEq, true_and, ne_eq, h, not_false_eq_true]
      constructor
      · rintro ⟨fibers, hf, rfl⟩; exact ⟨fibers, hf, rfl⟩
      · rintro ⟨fibers, hf, rfl⟩; exact ⟨fibers, hf, rfl⟩

end OiAmc.GrpsmPush

import Mathlib.Data.UInt
import Mathlib.Data.List.Basic
import Mathlib.Logic.Function.Basic

namespace OiAmc.SgfpGroup

/-- A link as the library, the driver and the learning program pass it on. The counters
that only the result files show are left out. -/
structure SlinkInfo where
  fiber : UInt8
  fiberRate : UInt8
  channel : UInt8
  channelRate : UInt8
  vcValid : UInt8
  isLcas : UInt8
  isMember : UInt8
  isLastMember : UInt8
  mfi : UInt16
  sq : UInt8
  preGid : UInt32
  curGid : UInt32
  svcType : UInt32
  deriving DecidableEq, Repr

def SlinkInfo.zero : SlinkInfo := ⟨0, 0, 0, 0, 0, 0, 0, 0, 0, 0, 0, 0, 0⟩

def SlinkInfo.member (l : SlinkInfo) : UInt8 × UInt8 := (l.fiber, l.channel)

/-- A group; NULL linkarrays are none. -/
structure SgroupInfo where
  groupId : Int
  flag : Int
  isValid : Int
  linkarraysSize : Int
  linkarrays : Option (List SlinkInfo)
  resokpkt : UInt8
  reserrpkt : UInt8
  deriving DecidableEq, Repr

def SgroupInfo.zero : SgroupInfo := ⟨0, 0, 0, 0, none, 0, 0⟩

/-- linkarrays[j]; none outside of the array. -/
def SgroupInfo.link (g : SgroupInfo) (j : Nat) : Option SlinkInfo := g.linkarrays.bind (·[j]?)

structure SgroupAllInfo where
  portGroup : Int
  ginfo : List SgroupInfo
  deriving DecidableEq, Repr

/-- An int in a register of eight bits, and its upper octet of sixteen. -/
def lowOctet (n : Int) : UInt8 := .ofNat (n % 256).toNat

def highOctet (n : Int) : UInt8 := .ofNat (n / 256 % 256).toNat

end OiAmc.SgfpGroup

namespace OiAmc.SetInfo

open Function SgfpGroup

/-- The registers of set_info_t in both builds, and the one of get_info_t that selects what
is shown. -/
inductive Reg
  | cfgOp | cfgMix | ramAddr | ramAddr1 | ramGroup
  | ramData4 | ramData3 | ramData2 | ramData1 | ramData0
  | selectInfo
  deriving DecidableEq

abbrev Regs := Reg → UInt8

abbrev Write := Reg × UInt8

def setTryGroup : Int := 1

def setOkGroup : Int := 2

/-- CHANNEL_RATE_C4 and CHANNEL_RATE_C12. -/
def rateC4 : UInt8 := 1

def rateC12 : UInt8 := 2

def tryGroupMaxnum (x86 : Bool) : Int := if x86 then 512 else 256

def setGroupMaxnum (x86 : Bool) : Int := if x86 then 4096 else 256

def tryLinkMaxnum (x86 : Bool) : Int := if x86 then 512 else 256

def setLinkMaxnum (x86 : Bool) : Int := if x86 then 4096 else 256

/-- The registers that name an entry of a RAM; only IN_X86 builds have the upper one, and
they write it first. -/
def addrWrites (x86 : Bool) (high low : UInt8) : List Write :=
  (if x86 then [(.ramAddr1, high)] else []) ++ [(.ramAddr, low)]

/-- For a group id; a negative one is not above 255. -/
def idWrites (x86 : Bool) (id : Int) : List Write :=
  addrWrites x86 (if id > 255 then highOctet id else 0) (lowOctet id)

/-- The first link and the size of a group, and where its links start, in five registers. -/
def ram1WritesX86 (first : SlinkInfo) (isValid linksize : Int) (addr : UInt32) : List Write :=
  [(.ramData4, ((first.fiberRate &&& 0x0f) <<< 6) ||| ((first.channelRate &&& 0x03) <<< 1) |||
      (lowOctet isValid &&& 0x01)),
    (.ramData3, lowOctet linksize),
    (.ramData2, ((addr &&& 0xff0) >>> 4).toUInt8),
    (.ramData1, ((addr &&& 0x00f) <<< 4).toUInt8 ||| ((first.fiber &&& 0x3c) >>> 2)),
    (.ramData0, ((first.fiber &&& 0x03) <<< 6) ||| ((first.channel &&& 0x3f) <<< 0))]

def ram1Data (first : SlinkInfo) (isValid linksize : Int) (addr : UInt32) : UInt32 :=
  ((first.fiberRate.toUInt32 &&& 0x0f) <<< 27) ||| ((first.channelRate.toUInt32 &&& 0x03) <<< 25) |||
    (UInt32.ofNat (isValid % 4294967296).toNat <<< 24) ||| ((lowOctet linksize).toUInt32 <<< 16) |||
    ((addr &&& 0xff) <<< 8) ||| ((first.fiber.toUInt32 &&& 0x03) <<< 6) |||
    ((first.channel.toUInt32 &&& 0x3f) <<< 0)

def ram1Writes (first : SlinkInfo) (isValid linksize : Int) (addr : UInt32) : List Write :=
  let data := ram1Data first isValid linksize addr
  [(.ramData3, ((data >>> 24) &&& 0xff).toUInt8), (.ramData2, ((data >>> 16) &&& 0xff).toUInt8),
    (.ramData1, ((data >>> 8) &&& 0xff).toUInt8), (.ramData0, ((data >>> 0) &&& 0xff).toUInt8)]

/-- One entry of the link RAM; mif_cfg_mix goes from 4 to 6. -/
def linkWrites (x86 : Bool) (addr : UInt32) (link : SlinkInfo) : List Write :=
  addrWrites x86 (if addr > 255 then ((addr >>> 8) &&& 0xff).toUInt8 else 0) (addr &&& 0xff).toUInt8 ++
  (if x86 then [(.ramData1, (link.fiber &&& 0x3c) >>> 2)] else []) ++
  [(.ramData0, ((link.fiber &&& 0x03) <<< 6) ||| ((link.channel &&& 0x3f) <<< 0)),
    (.cfgMix, 0x04), (.cfgMix, 0x06)]

def allLinkWrites (x86 : Bool) (g : SgroupInfo) (cur : UInt32) : Option (List Write) :=
  ((List.range g.linkarraysSize.toNat).mapM fun j =>
    (g.link j).map (linkWrites x86 (cur + .ofNat j))).map List.flatten

/-- One group: the writes, and the next free entry of the link RAM. none stands for a read
outside of linkarrays. -/
def setGroup (x86 : Bool) (linkMaxnum : Int) (g : SgroupInfo) (next : UInt32) :
    Option (List Write × UInt32) :=
  let head := idWrites x86 g.groupId ++ [(.cfgMix, 0x00)]
  if g.linkarraysSize < 1 ∨ g.linkarraysSize > linkMaxnum then some (head, next)
  else do
    let first ← g.link 0
    let ram1 := (if x86 then ram1WritesX86 else ram1Writes) first g.isValid g.linkarraysSize next
    let links ← allLinkWrites x86 g next
    pure (head ++ ram1 ++ [(.cfgMix, 0x00), (.cfgMix, 0x02), (.cfgMix, 0x04)] ++ links,
      next + .ofNat g.linkarraysSize.toNat)

def setGroups (x86 : Bool) (groupMaxnum linkMaxnum : Int) :
    List SgroupInfo → UInt32 → Option (List Write)
  | [], _ => some []
  | g :: gs, next =>
      if g.groupId ≥ groupMaxnum then setGroups x86 groupMaxnum linkMaxnum gs next
      else do
        let (ws, next') ← setGroup x86 linkMaxnum g next
        let rest ← setGroups x86 groupMaxnum linkMaxnum gs next'
        pure (ws ++ rest)

/-- What mif_cfg_op selects, and the limits on group ids and on the links of a group. -/
def setOp (x86 : Bool) (setType : Int) (rate : UInt8) : Option (UInt8 × Int × Int) :=
  if setType = setTryGroup then
    if rate = rateC4 then some (0x03, tryGroupMaxnum x86, tryLinkMaxnum x86)
    else if rate = rateC12 then some (0x01, tryGroupMaxnum x86, tryLinkMaxnum x86)
    else none
  else if setType = setOkGroup then
    if rate = rateC4 then some (0x04, setGroupMaxnum x86, setLinkMaxnum x86)
    else if rate = rateC12 then some (0x02, setGroupMaxnum x86, setLinkMaxnum x86)
    else none
  else none

/-- The return code and the register writes in their order, for registers that hold what is
written to them. -/
def setInfoRule (x86 : Bool) (sg : List SgroupInfo) (portGroup setType : Int) :
    Option (Int × List Write) := do
  let head := if x86 then [] else [(.ramGroup, lowOctet portGroup)]
  if setType ≠ setTryGroup ∧ setType ≠ setOkGroup then pure (-1, head)
  else do
    let first ← sg.head? >>= fun g => g.link 0
    match setOp x86 setType first.channelRate with
    | none => pure (-1, head)
    | some (op, groupMaxnum, linkMaxnum) =>
        let ws ← setGroups x86 groupMaxnum linkMaxnum sg 0
        pure (0, head ++ [(.cfgOp, op)] ++ ws ++ [(.cfgMix, 0x00), (.cfgMix, 0x01)])

def write (regs : Regs) (w : Write) : Regs := update regs w.1 w.2

def writes (regs : Regs) (ws : List Write) : Regs := ws.foldl write regs

/-- The registers at every write of v to mif_cfg_mix. -/
def strobes (v : UInt8) (regs : Regs) : List Write → List Regs
  | [] => []
  | w :: ws =>
      let regs' := write regs w
      (if w = (.cfgMix, v) then [regs'] else []) ++ strobes v regs' ws

variable {v : UInt8} {regs : Regs}

theorem writes_append (ws ws' : List Write) : writes regs (ws ++ ws') = writes (writes regs ws) ws' :=
  List.foldl_append

theorem strobes_append (ws ws' : List Write) :
    strobes v regs (ws ++ ws') = strobes v regs ws ++ strobes v (writes regs ws) ws' := by
  induction ws generalizing regs with
  | nil => rfl
  | cons w ws ih =>
      simp only [List.cons_append, strobes, ih, List.append_assoc]
      rfl

end OiAmc.SetInfo

import OiAmc.CascadeStudy
import OiAmc.OldGroups

namespace OiAmc.CascadePorts

open GotoLoop SgfpGroup GrpsmLinks CascadeStudy OldGroups

/-- What load_old_group_file finds: no file, a file that it gives up on, or the groups of the
file, each with its id where one is given. -/
inductive AgingFile
  | absent
  | failed
  | loaded (groups : List (Option Int × List SlinkInfo))

/-- What cascade_run meets beside the studies, by port group or fiber: the status calls of
cascade_run and of check_old_group, the links of the device, the rounds of study before the program
is told to stop, the aging files with what g_OldAllGroup held before, and whether the files can be
opened for writing. -/
structure PortWorld extends StudyWorld where
  fiberNum : UInt8
  status : Nat → Option (Nat → PortState)
  recheck : Nat → Option (Nat → PortState)
  linkinfo : UInt8 → UInt8 → SlinkInfo
  running : Nat → Nat
  aging : Nat → AgingFile
  stale : Nat → Nat → SgroupInfo
  agingOpens : Nat → Bool
  resultOpens : Nat → Bool

inductive File
  | learned
  | aged
  | aging
  deriving DecidableEq

/-- What a run does, in order: the decision on a fiber by the status of a port group, the study of
a fiber, the groups that are programmed, and the links of a group in a file of a port group. -/
inductive Event
  | decided (portGroup fiber : Nat)
  | studied (fiber : UInt8)
  | programmed (portGroup : Nat) (groups : List SgroupInfo)
  | printed (file : File) (portGroup : Nat) (links : List SlinkInfo)

/-- The static data and the local variables of cascade_run; inner is there while the loop over the
fibers of a port group runs, with its index and the status. m_objSetGroup is part of study, and
m_objSetGroupC4 stays empty. -/
structure RunState where
  j : Nat
  inner : Option (Nat × (Nat → PortState))
  curfiber : Nat
  study : StudyState
  old : List SgroupInfo
  deal : List SgroupInfo
  dealCount : Nat
  dealSize : Nat
  new : List SgroupInfo
  newCount : Nat
  events : List Event

def RunState.log (s : RunState) (events : List Event) : RunState :=
  { s with events := s.events ++ events }

def RunState.map (s : RunState) : MapState where
  set := s.study.data.set
  setCount := s.study.data.setCount
  old := s.old
  deal := s.deal
  dealCount := s.dealCount
  dealSize := s.dealSize
  new := s.new
  newCount := s.newCount

def RunState.putMap (s : RunState) (m : MapState) : RunState :=
  { s with
    study := { s.study with data := { s.study.data with set := m.set, setCount := m.setCount } }
    old := m.old
    deal := m.deal
    dealCount := m.dealCount
    dealSize := m.dealSize
    new := m.new
    newCount := m.newCount }

def maxChannel : Nat := 64

def grpsmChannelrateC4 : UInt8 := 1

def grpsmChannelrateC12 : UInt8 := 2

/-- m_objSLinkInfo; the driver leaves fiber and channel as they are. -/
def getSlinkinfo (world : PortWorld) (fiber : UInt8) : List SlinkInfo :=
  (List.range maxChannel).map fun i =>
    { world.linkinfo fiber (.ofNat i) with
      fiber := fiber
      channel := .ofNat i }

def convertLink (l : SlinkInfo) : LinkInfo where
  fiber := l.fiber
  fiberRate := l.fiberRate
  channel := l.channel.toUInt16
  channelRate := l.channelRate
  vcValid := l.vcValid
  vcOrder := 0
  svcType := l.svcType.toUInt8
  isLcas := l.isLcas
  isMember := l.isMember
  isLastMember := l.isLastMember
  mfi := l.mfi
  sq := l.sq
  preGid := l.preGid
  curGid := l.curGid

/-- convert_linkinfo from some entry of m_objSLinkInfo on, with the m_nLinkNum links converted before:
the return code and the links. -/
def convertLinkinfo : List SlinkInfo → List LinkInfo → Int × List LinkInfo
  | [], links => (0, links)
  | l :: rest, links =>
      if l.channelRate = grpsmChannelrateC4 ∧ l.vcValid = 0 then (1, links)
      else if l.channelRate = grpsmChannelrateC12 then
        convertLinkinfo rest (if links.length < maxChannel then links ++ [convertLink l] else links)
      else (-1, links)

def studyLoop (world : StudyWorld) (fuel n : Nat) (s : StudyState) : Option StudyState := do
  let r ← rounds (studyRound world fuel) n s
  match r with
  | .inl s => (get world s).map fun r => r.2.1
  | .inr s => pure s

def study (world : PortWorld) (fuel i : Nat) (links : List LinkInfo) (s : RunState) :
    Option RunState := do
  let st ← pushTable s.study links
  let st ← studyLoop world.toStudyWorld fuel (world.running i) st
  pure ({ s with study := st }.log [.studied (.ofNat i)])

/-- The arrays of groups up to their counters lose their links. -/
def freeLinks (n : Nat) (gs : List SgroupInfo) : List SgroupInfo :=
  gs.mapIdx fun i g => if i < n then { g with linkarrays := none } else g

def clearSetinfo (s : RunState) : RunState :=
  s.putMap {
    set := freeLinks s.study.data.setCount s.study.data.set
    setCount := 0
    old := []
    deal := freeLinks s.dealCount s.deal
    dealCount := 0
    dealSize := 0
    new := freeLinks s.newCount s.new
    newCount := 0 }

def printLinks (g : SgroupInfo) : Option (List SlinkInfo) :=
  (List.range (lowOctet g.linkarraysSize).toNat).mapM g.link

/-- The loop over the groups of a file: its index has eight bits, so that it does not end for 256
groups or more. On the right the program stays in it. -/
def printGroups (file : SgroupInfo → File) (gs : List SgroupInfo) (s : RunState) :
    Option (RunState ⊕ RunState) := do
  let rows ← gs.mapM fun g => (printLinks g).map fun links => Event.printed (file g) s.j links
  pure (if gs.length < 256 then .inl (s.log rows) else .inr (s.log rows))

/-- The groups of g_OldAllGroup. -/
def oldGroups (world : PortWorld) (j : Nat) (groups : List (Option Int × List SlinkInfo)) : List SgroupInfo :=
  groups.mapIdx fun i p =>
    { world.stale j i with
      groupId := p.1.getD (world.stale j i).groupId
      flag := 0
      linkarraysSize := p.2.length
      linkarrays := some p.2 }

/-- print_groupfile, with the clear_setinfo where it fails. -/
def printGroupfile (world : PortWorld) (gs : List SgroupInfo) (s : RunState) : Option (RunState ⊕ RunState) :=
  if world.agingOpens s.j then printGroups (fun _ => .aging) gs s else pure (.inl (clearSetinfo s))

/-- The groups of m_objSetGroup. -/
def RunState.collected (s : RunState) : List SgroupInfo := s.study.data.set.take s.study.data.setCount

def putNewGroupFile (world : PortWorld) (s : RunState) : Option (RunState ⊕ RunState) :=
  match world.aging s.j with
  | .absent => printGroupfile world s.collected s
  | .failed => pure (.inl (clearSetinfo s))
  | .loaded groups =>
      if groups.length > OldGroups.maxGroup then none
      else
        let s := { s with old := oldGroups world s.j groups }
        match world.recheck s.j with
        | none => (buildMap s.collected).map fun _ => .inl (clearSetinfo s)
        | some ports => do
            let m ← checkOldGroup (some ports) s.map
            let m ← updateNewMap m
            let s := s.putMap m
            printGroupfile world (s.new.take s.newCount) s

/-- Whether the links of the groups come to more than 255 on the way. -/
def outOfRange : Int → List SgroupInfo → Bool
  | _, [] => false
  | count, g :: gs => count + g.linkarraysSize > 255 || outOfRange (count + g.linkarraysSize) gs

def setGroup (world : PortWorld) (s : RunState) : Option (RunState ⊕ RunState) :=
  if outOfRange 0 s.collected then pure (.inl (clearSetinfo s))
  else
    let s := if s.study.data.setCount > 0 then s.log [.programmed s.j s.collected] else s
    if world.resultOpens s.j then
      printGroups (fun g => if g.isValid = 0 then .aged else .learned) s.collected s
    else pure (.inl s)

def portHead (world : PortWorld) (s : RunState) : RunState ⊕ RunState :=
  if ¬ s.j < world.fiberNum.toNat / 4 then .inr s
  else match world.status s.j with
    | none => .inl { s with j := s.j + 1 }
    | some ports => .inl { s with inner := some (s.curfiber, ports) }

def fiberRound (world : PortWorld) (fuel i : Nat) (ports : Nat → PortState) (s : RunState) :
    Option RunState := do
  let s := s.log [.decided s.j i]
  let next := fun (s : RunState) =>
    { s with
      inner := some (i + 1, ports)
      curfiber := s.curfiber + 1 }
  if (ports (i % 4)).alarm then pure (next s)
  else do
    let (rc, links) := convertLinkinfo (getSlinkinfo world (.ofNat i)) []
    let s ← if rc = 0 then study world fuel i links s else pure s
    pure (next { s with study := clear s.study })

def portTail (world : PortWorld) (s : RunState) : Option (RunState ⊕ RunState) := do
  let r ← putNewGroupFile world s
  match r with
  | .inr s => pure (.inr s)
  | .inl s => do
      let r ← setGroup world s
      match r with
      | .inr s => pure (.inr s)
      | .inl s =>
          let s := clearSetinfo s
          pure (.inl
            { s with
              j := s.j + 1
              inner := none })

/-- One step of cascade_run; on the right it returns, or stays in the loop over a file. -/
def cascadeStep (world : PortWorld) (fuel : Nat) (s : RunState) : Option (RunState ⊕ RunState) :=
  match s.inner with
  | none => some (portHead world s)
  | some (i, ports) =>
      if i < s.j * 4 + 4 then (fiberRound world fuel i ports s).map .inl else portTail world s

end OiAmc.CascadePorts

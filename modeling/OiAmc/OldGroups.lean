import OiAmc.SetInfo
import Mathlib.Logic.Function.Basic

namespace OiAmc.OldGroups

open Function SgfpGroup

def maxGroup : Nat := 256

structure PortState where
  los : UInt8
  stm1Synced : UInt8
  deriving DecidableEq

def PortState.alarm (p : PortState) : Prop := p.stm1Synced = 1 ∨ p.los = 1

instance (p : PortState) : Decidable p.alarm := inferInstanceAs (Decidable (_ ∨ _))

structure ChannelToGroupid where
  groupid : Int
  linksize : Int
  vcValid : UInt8
  svcType : UInt32
  valid : Int
  deriving DecidableEq

/-- setmap, for its 16 ports with 64 channels each. -/
abbrev SetMap := UInt8 × UInt8 → ChannelToGroupid

def InMap (l : SlinkInfo) : Prop := l.fiber < 16 ∧ l.channel < 64

instance (l : SlinkInfo) : Decidable (InMap l) := inferInstanceAs (Decidable (_ ∧ _))

/-- The arrays of groups with their counters: m_objSetGroup, g_OldAllGroup (up to gsize),
g_OldAllGroup_deal, g_NewAllGroup. -/
structure MapState where
  set : List SgroupInfo
  setCount : Nat
  old : List SgroupInfo
  deal : List SgroupInfo
  dealCount : Nat
  dealSize : Nat
  new : List SgroupInfo
  newCount : Nat

/-- The links that memcpy takes; none outside of linkarrays, and when malloc gets a negative
size. -/
def copyLinks (g : SgroupInfo) : Option (List SlinkInfo) :=
  if g.linkarraysSize < 0 then none else (List.range g.linkarraysSize.toNat).mapM g.link

def mapLink (g : SgroupInfo) (m : SetMap) (j : Nat) : Option SetMap := do
  let l ← g.link j
  if InMap l then pure (update m l.member ⟨g.groupId, g.linkarraysSize, l.vcValid, l.svcType, 1⟩)
  else none

def mapGroup (m : SetMap) (g : SgroupInfo) : Option SetMap :=
  (List.range g.linkarraysSize.toNat).foldlM (mapLink g) m

def buildMap (learned : List SgroupInfo) : Option SetMap :=
  learned.foldlM mapGroup fun _ => ⟨0, 0, 0, 0, 0⟩

def Conflict (c : ChannelToGroupid) (g : SgroupInfo) (l : SlinkInfo) : Prop :=
  (c.linksize ≠ g.linkarraysSize ∨ c.groupid ≠ g.groupId ∨ c.vcValid = 0 ∨ c.svcType ≠ l.svcType) ∧
    c.valid = 1

instance (c : ChannelToGroupid) (g : SgroupInfo) (l : SlinkInfo) : Decidable (Conflict c g l) :=
  inferInstanceAs (Decidable (_ ∧ _))

def flagged (ports : Nat → PortState) (m : SetMap) (g : SgroupInfo) : List Nat → Option Bool
  | [] => some false
  | j :: js => do
      let l ← g.link j
      if (ports (l.fiber.toNat % 4)).alarm then pure true
      else if ¬ InMap l then none
      else if Conflict (m l.member) g l then pure true
      else flagged ports m g js

/-- An entry of an array of groups; none outside of it. -/
def putGroup (xs : List SgroupInfo) (i : Nat) (f : SgroupInfo → SgroupInfo) : Option (List SgroupInfo) :=
  if i < xs.length then some (xs.modify i f) else none

def checkGroup (ports : Nat → PortState) (m : SetMap) (st : MapState) (g : SgroupInfo) :
    Option MapState := do
  let flag ← flagged ports m g (List.range g.linkarraysSize.toNat)
  if flag then pure st
  else do
    let links ← copyLinks g
    let deal ← putGroup st.deal st.dealCount fun d =>
      { d with
        groupId := g.groupId
        flag := g.flag
        isValid := 1
        linkarraysSize := g.linkarraysSize
        linkarrays := some links }
    if st.dealCount + 1 > maxGroup then none
    else pure { st with deal := deal, dealCount := st.dealCount + 1 }

/-- check_old_group; none stands for a return of -1 and for an access outside of an array. -/
def checkOldGroup (status : Option (Nat → PortState)) (st : MapState) : Option MapState := do
  let m ← buildMap (st.set.take st.setCount)
  let ports ← status
  let st ← st.old.foldlM (checkGroup ports m) st
  pure { st with dealSize := st.dealCount }

/-- The first of the groups of g_OldAllGroup_deal with an id gets flag 1. -/
def markFirst (id : Int) : Nat → List SgroupInfo → List SgroupInfo
  | n + 1, g :: gs => if g.groupId = id then { g with flag := 1 } :: gs else g :: markFirst id n gs
  | _, gs => gs

def putNew (st : MapState) (g : SgroupInfo) (flag : Int) : Option MapState := do
  let links ← copyLinks g
  let new ← putGroup st.new st.newCount fun d =>
    { d with
      linkarraysSize := g.linkarraysSize
      linkarrays := some links
      groupId := g.groupId
      flag := flag }
  if st.newCount + 1 > maxGroup then none
  else pure { st with new := new, newCount := st.newCount + 1 }

def putSet (st : MapState) (g : SgroupInfo) : Option MapState := do
  let links ← copyLinks g
  let set ← putGroup st.set st.setCount fun d =>
    { d with
      groupId := g.groupId
      isValid := 1
      linkarraysSize := g.linkarraysSize
      linkarrays := some links }
  if st.setCount + 1 > maxGroup then none
  else pure { st with set := set, setCount := st.setCount + 1 }

def learnedRound (st : MapState) (i : Nat) : Option MapState := do
  let g ← st.set[i]?
  putNew { st with deal := markFirst g.groupId st.dealSize st.deal } g 1

/-- A round of the second loop, over the old groups that were kept. -/
def oldRound (st : MapState) (i : Nat) : Option MapState := do
  let g ← st.deal[i]?
  if g.flag = 1 then pure st
  else do
    let st ← putNew st g g.flag
    putSet st g

/-- update_new_map; none as in checkOldGroup. -/
def updateNewMap (st : MapState) : Option MapState := do
  let st ← (List.range st.setCount).foldlM learnedRound st
  (List.range st.dealSize).foldlM oldRound st

end OiAmc.OldGroups

import OiAmc.ListRanges
import OiAmc.SwimaQueue

namespace OiAmc.ImascanSplit

open CompareSort ListRanges
open SwimaLinks (maxGrpNum maxLnkNum)

structure Icp where
  ver : UInt8
  cellLinkId : UInt8
  ifsn : UInt8
  icpOff : UInt8
  statusCtrlInd : UInt8
  imaId : UInt8
  grpStatusCtrl : UInt8
  txTimingInfo : UInt8
  txTestCtrl : UInt8
  txTestPattern : UInt8
  rxTestPattern : UInt8
  linkStatusCtrl : Fin 32 → UInt8
  deriving DecidableEq

structure PhyLink where
  phyNr : UInt8
  rcvNr : UInt8
  pIcp : Option Icp
  deriving DecidableEq

structure ImaGrp where
  index : Nat
  linkNum : Nat
  ok : Nat
  deriving DecidableEq, Repr

structure Scan where
  links : List PhyLink
  grp : Nat → ImaGrp
  grpNum : Nat

def Scan.range (s : Scan) (i : Nat) : List PhyLink :=
  ListRanges.range s.links (s.grp i).index (s.grp i).linkNum

/-- The cell that the link's pointer leads to; none when the link is outside the
table or the pointer is NULL. -/
def icpAt (links : List PhyLink) (i : Nat) : Option Icp := links[i]?.bind PhyLink.pIcp

/-- A field of the link's cell. The comparisons below are not made on a link
without one. -/
def icpVal (field : Icp → UInt8) (link : PhyLink) : Nat :=
  match link.pIcp with
  | some icp => (field icp).toNat
  | none => 0

def sortLinkForImaVer (p1 p2 : PhyLink) : Int :=
  match p1.pIcp, p2.pIcp with
  | none, _ => 1
  | some _, none => -1
  | some icp1, some icp2 => icp1.ver.toNat - icp2.ver.toNat

def sortLinkFor (field : Icp → UInt8) (p1 p2 : PhyLink) : Int := icpVal field p1 - icpVal field p2

def sortLinkForImaId := sortLinkFor Icp.imaId

def sortLinkForStatusCtrlInd := sortLinkFor Icp.statusCtrlInd

def sortLinkForGrpStatusCtrl := sortLinkFor Icp.grpStatusCtrl

def sortLinkForTxTimingInfo := sortLinkFor Icp.txTimingInfo

def sortLinkForTxTestCtrl := sortLinkFor Icp.txTestCtrl

def sortLinkForTxTestPattern := sortLinkFor Icp.txTestPattern

def sortLinkForRxTestPattern := sortLinkFor Icp.rxTestPattern

def sortLinkForIfsn := sortLinkFor Icp.ifsn

def sortLinkForPhylink (p1 p2 : PhyLink) : Int := p1.phyNr.toNat - p2.phyNr.toNat

/-- The first octet in which the two differ decides. -/
def sortLinkForLinkStatusCtrl (p1 p2 : PhyLink) : Int :=
  let tmp := (List.finRange 32).map fun i =>
    (icpVal (·.linkStatusCtrl i) p1 : Int) - icpVal (·.linkStatusCtrl i) p2
  (tmp.find? (· ≠ 0)).getD 0

/-- qsort of the n links from index on; none when they are not all in the table. -/
def qsortLinks (qs : Qsort) (cmp : PhyLink → PhyLink → Int) (links : List PhyLink) (index n : Nat) :
    Option (List PhyLink) :=
  if index + n ≤ links.length then some (splice links index (qs.sort cmp (range links index n)))
  else none

def qsortIcps (qs : Qsort) (cmp : PhyLink → PhyLink → Int) (links : List PhyLink) (index n : Nat) :
    Option (List PhyLink) :=
  if n ≤ 1 ∨ (range links index n).all (·.pIcp.isSome) then qsortLinks qs cmp links index n else none

/-- The first of these links that belongs to a new group. -/
def findNew (differs : Nat → Option Bool) : List Nat → Option (Option Nat)
  | [] => some none
  | j :: js => do
      if ← differs j then return some j
      findNew differs js

/-- The test against the first link of the group, whose value is read first. -/
def fieldDiffers (field : Icp → UInt8) (links : List PhyLink) (tmpIndex : Nat) :
    Option (Nat → Option Bool) := do
  let tmpVal1 ← (icpAt links tmpIndex).map field
  return fun j => (icpAt links j).map fun icp => field icp ≠ tmpVal1

/-- Both octets are read from the first of the two links. -/
def isSameLinkStatusCtrl (links : List PhyLink) (indexI _indexJ : Nat) : Option Bool := do
  let icp1 ← icpAt links indexI
  let icp2 ← icpAt links indexI
  return (List.finRange 32).all fun i => icp1.linkStatusCtrl i = icp2.linkStatusCtrl i

def statusDiffers (links : List PhyLink) (tmpIndex : Nat) : Option (Nat → Option Bool) :=
  some fun j => (isSameLinkStatusCtrl links tmpIndex j).map not

/-- Group i keeps the links up to the first one that differs, and the rest
becomes a new group at the end of the array. -/
def cutGroup (s : Scan) (i j : Nat) : Option Scan :=
  let g := s.grp i
  if s.grpNum < maxGrpNum then
    let grp := Function.update s.grp s.grpNum
      { s.grp s.grpNum with index := j, linkNum := g.linkNum + g.index - j }
    some { s with
      grp := Function.update grp i { grp i with linkNum := j - g.index }
      grpNum := s.grpNum + 1 }
  else none

def splitGroup (sort : List PhyLink → Nat → Nat → Option (List PhyLink))
    (differs : List PhyLink → Nat → Option (Nat → Option Bool)) (s : Scan) (i : Nat) :
    Option Scan := do
  let tmpIndex := (s.grp i).index
  let links ← sort s.links tmpIndex (s.grp i).linkNum
  let test ← differs links tmpIndex
  match ← findNew test (List.range' (tmpIndex + 1) ((s.grp i).linkNum - 1)) with
  | some j => cutGroup { s with links := links } i j
  | none => return { s with links := links }

/-- The loop over the groups, that grow in number while it runs, and the return
code. It stops when they are too many. -/
def splitLoop (sort : List PhyLink → Nat → Nat → Option (List PhyLink))
    (differs : List PhyLink → Nat → Option (Nat → Option Bool)) (limit : Nat) :
    Nat → Nat → Scan → Option (Scan × Int)
  | 0, _, _ => none
  | n + 1, i, s =>
      if i < s.grpNum then do
        let s ← splitGroup sort differs s i
        if limit ≤ s.grpNum then return (s, -1)
        splitLoop sort differs limit n (i + 1) s
      else some (s, 0)

/-- The number of groups is handed back only when the loop came to its end. -/
def splitAll (sort : List PhyLink → Nat → Nat → Option (List PhyLink))
    (differs : List PhyLink → Nat → Option (Nat → Option Bool)) (limit : Nat) (s : Scan) :
    Option (Scan × Int) :=
  (splitLoop sort differs limit (maxGrpNum + 2) 0 s).map fun r =>
    if r.2 < 0 then ({ r.1 with grpNum := s.grpNum }, r.2) else r

/-- The whole table is sorted first, and one group more is let through. -/
def splitForImaVer (qs : Qsort) (s : Scan) : Option (Scan × Int) := do
  let links ← qsortLinks qs sortLinkForImaVer s.links 0 maxLnkNum
  splitAll (qsortLinks qs sortLinkForImaVer) (fieldDiffers Icp.ver) (maxGrpNum + 1)
    { s with links := links }

def splitFor (qs : Qsort) (cmp : PhyLink → PhyLink → Int) (field : Icp → UInt8) (s : Scan) :
    Option (Scan × Int) :=
  splitAll (qsortIcps qs cmp) (fieldDiffers field) maxGrpNum s

def splitForImaId (qs : Qsort) := splitFor qs sortLinkForImaId Icp.imaId

def splitForStatusCtrlInd (qs : Qsort) := splitFor qs sortLinkForStatusCtrlInd Icp.statusCtrlInd

def splitForGrpStatusCtrl (qs : Qsort) := splitFor qs sortLinkForGrpStatusCtrl Icp.grpStatusCtrl

def splitForTxTimingInfo (qs : Qsort) := splitFor qs sortLinkForTxTimingInfo Icp.txTimingInfo

def splitForTxTestCtrl (qs : Qsort) := splitFor qs sortLinkForTxTestCtrl Icp.txTestCtrl

def splitForTxTestPattern (qs : Qsort) := splitFor qs sortLinkForTxTestPattern Icp.txTestPattern

def splitForRxTestPattern (qs : Qsort) := splitFor qs sortLinkForRxTestPattern Icp.rxTestPattern

def splitForLinkStatusCtrl (qs : Qsort) (s : Scan) : Option (Scan × Int) :=
  splitAll (qsortIcps qs sortLinkForLinkStatusCtrl) statusDiffers maxGrpNum s

/-- The nine passes. An error is logged and the next pass goes on. -/
def splitPasses (qs : Qsort) (s : Scan) : Option Scan := do
  let (s, _) ← splitForImaVer qs s
  let (s, _) ← splitForImaId qs s
  let (s, _) ← splitForStatusCtrlInd qs s
  let (s, _) ← splitForGrpStatusCtrl qs s
  let (s, _) ← splitForTxTimingInfo qs s
  let (s, _) ← splitForTxTestCtrl qs s
  let (s, _) ← splitForTxTestPattern qs s
  let (s, _) ← splitForRxTestPattern qs s
  let (s, _) ← splitForLinkStatusCtrl qs s
  return s

def icpLinkNum (links : List PhyLink) : Nat := (links.take maxLnkNum).countP (·.pIcp.isSome)

/-- All links with ICP cells are one group at first. -/
def scanStart (links : List PhyLink) : Scan where
  links := links
  grp := Function.update (fun _ => ⟨0, 0, 0⟩) 0 ⟨0, icpLinkNum links, 0⟩
  grpNum := 1

def scanGroups (qs : Qsort) (links : List PhyLink) : Option Scan := splitPasses qs (scanStart links)

end OiAmc.ImascanSplit

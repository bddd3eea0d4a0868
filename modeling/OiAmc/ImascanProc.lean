import OiAmc.ImascanKeys
import OiAmc.PartialLists
import OiAmc.Pkt
import Mathlib.Data.UInt

namespace OiAmc.ImascanCfg

open CompareSort ListRanges ImascanSplit
open SwimaLinks (maxLnkNum)

def imaMaxLinksOfImaGrp : Nat := 32

structure TxLink where
  lid : UInt8
  icpOffset : UInt8
  phyLink : UInt16
  deriving DecidableEq, Repr

structure GrpCfg where
  clockMd : UInt8
  symmetryMd : UInt8
  imaVersion : UInt8
  imaOamLabel : UInt8
  rxImaIdCfgEn : UInt8
  rxImaIdCfg : UInt8
  txImaId : UInt8
  txVphy : UInt16
  rxVphy : UInt16
  rxM : UInt8
  pRx : UInt8
  txM : UInt8
  pTx : UInt8
  maxDelay : UInt16
  delayGb : UInt16
  delayAddEn : UInt16
  stuffMd : UInt8
  stuffAdvMd : UInt8
  txTrl : UInt16
  numRxLinks : UInt16
  numTxLinks : UInt16
  rxLinks : Nat → UInt16
  txLinks : Nat → TxLink

structure ImaCfg where
  grpNumAll : UInt8
  groupNum : UInt8
  tcNum : UInt8
  grpMode : Nat → UInt8
  grpId : Nat → UInt8
  grpCfg : Nat → GrpCfg

def GrpCfg.zero : GrpCfg :=
  ⟨0, 0, 0, 0, 0, 0, 0, 0, 0, 0, 0, 0, 0, 0, 0, 0, 0, 0, 0, 0, 0, fun _ => 0, fun _ => ⟨0, 0, 0⟩⟩

/-- The configuration that imascan_proc hands over, after memset. -/
def ImaCfg.zero : ImaCfg := ⟨0, 0, 0, fun _ => 0, fun _ => 0, fun _ => GrpCfg.zero⟩

def sortEach (sort : List PhyLink → Nat → Nat → Option (List PhyLink)) (s : Scan) : Option Scan :=
  (List.range s.grpNum).foldlM
    (fun s i => (sort s.links (s.grp i).index (s.grp i).linkNum).map fun links =>
      { s with links := links }) s

/-- The group is ok when its first and its last frame number are not more than
one apart, as unsigned int. -/
def verifyGroup (s : Scan) (i : Nat) : Option Scan := do
  let g := s.grp i
  let tmpVal1 ← icpAt s.links g.index
  let tmpVal2 ← icpAt s.links ((g.index + g.linkNum + 4294967295) % 4294967296)
  if (tmpVal2.ifsn.toNat + 4294967296 - tmpVal1.ifsn.toNat) % 4294967296 ≤ 1 then
    return { s with grp := Function.update s.grp i { g with ok := 1 } }
  return s

def scanResult (qs : Qsort) (links : List PhyLink) : Option Scan := do
  let s ← scanGroups qs links
  let s ← sortEach (qsortIcps qs sortLinkForIfsn) s
  let s ← (List.range s.grpNum).foldlM verifyGroup s
  sortEach (qsortLinks qs sortLinkForPhylink) s

def outPhy (phyNr : UInt8) : Nat := phyNr.toNat + phyNr.toNat / 21 * 7

def outLinkCfg (cfg : GrpCfg) (phyNr : UInt8) (icp : Icp) (j : Nat) : GrpCfg :=
  let phy := UInt16.ofNat (outPhy phyNr)
  { cfg with
    rxLinks := Function.update cfg.rxLinks j phy
    txLinks := Function.update cfg.txLinks j ⟨icp.cellLinkId &&& 0x1F, icp.icpOff, phy⟩ }

/-- One link of the configuration of a group, and the group's IMA ID. The arrays
have room for 32 links. -/
def outLink (s : Scan) (i : Nat) (r : GrpCfg × UInt8) (j : Nat) : Option (GrpCfg × UInt8) := do
  let link ← s.links[(s.grp i).index + j]?
  let icp ← link.pIcp
  if imaMaxLinksOfImaGrp ≤ j then none
  return (outLinkCfg r.1 link.phyNr icp j, icp.imaId)

def outGrpCfg (cfg : GrpCfg) (icp : Icp) (i linkNum : Nat) : GrpCfg :=
  let clockMd := (icp.txTimingInfo &&& 0x20) + 1
  { cfg with
    clockMd := clockMd
    symmetryMd := icp.grpStatusCtrl &&& 0x0C
    imaVersion := if icp.ver = 3 then 0 else 1
    imaOamLabel := icp.ver
    rxImaIdCfgEn := 0
    rxImaIdCfg := 0
    txImaId := UInt8.ofNat (i + 1)
    txVphy := UInt16.ofNat i
    rxVphy := UInt16.ofNat i
    rxM := 0xf
    pRx := 2
    pTx := 2
    txM := icp.grpStatusCtrl &&& 0x03
    maxDelay := 1023
    delayGb := 10
    delayAddEn := UInt16.ofNat i
    stuffMd := clockMd
    stuffAdvMd := 1
    numRxLinks := UInt16.ofNat linkNum
    numTxLinks := UInt16.ofNat linkNum }

/-- A group that is not ok is left out, and its place in the arrays with it. -/
def outGrp (s : Scan) (cfg : ImaCfg) (i : Nat) : Option ImaCfg :=
  if (s.grp i).ok = 0 then some cfg
  else do
    let icp ← icpAt s.links (s.grp i).index
    let grpCfg := outGrpCfg (cfg.grpCfg i) icp i (s.grp i).linkNum
    let (grpCfg, grpId) ← (List.range (s.grp i).linkNum).foldlM (outLink s i) (grpCfg, cfg.grpId i)
    return { cfg with
      grpMode := Function.update cfg.grpMode i 2
      grpId := Function.update cfg.grpId i grpId
      grpCfg := Function.update cfg.grpCfg i { grpCfg with txTrl := (grpCfg.txLinks 0).phyLink }
      grpNumAll := cfg.grpNumAll + 1
      groupNum := cfg.groupNum + 1 }

def imascanOutcfg (s : Scan) (cfg : ImaCfg) : Option ImaCfg :=
  (List.range s.grpNum).foldlM (outGrp s) { cfg with grpNumAll := 0, groupNum := 0, tcNum := 0 }

def imascanResult (qs : Qsort) (links : List PhyLink) (cfg : ImaCfg) :
    Option (List PhyLink × ImaCfg × Int) :=
  if links.length < maxLnkNum then none
  else if icpLinkNum links = 0 then some (links, cfg, -1)
  else do
    let s ← scanResult qs links
    let cfg ← imascanOutcfg s cfg
    return (s.links, cfg, 0)

end OiAmc.ImascanCfg

namespace OiAmc.ImascanProc

open ByteOrder Pkt CompareSort ImascanSplit ImascanCfg
open SwimaLinks (maxLnkNum)

def intMax : Int := 2147483647

/-- An IMA_PROBE. -/
structure Probe where
  icpcount : Int
  maxicp : Int
  imaplink : List PhyLink

/-- A call of imascan_proc, with what malloc has for the cell and for the configuration. -/
structure Call where
  pktcell : Octets
  cellMem : Bool
  cfgMem : Bool

def imascanOpen (maxChannel maxIcpnum : Int) : Option Probe :=
  if maxChannel ≤ 0 ∨ 256 < maxChannel then none
  else some ⟨0, maxIcpnum, (List.range maxChannel.toNat).map fun i => ⟨UInt8.ofNat i, 0, none⟩⟩

/-- The fields of an IMA_ICP that the scan looks at. -/
def icpOfOctets (p : Octets) : Icp where
  ver := p 5
  cellLinkId := p 6
  ifsn := p 7
  icpOff := p 8
  statusCtrlInd := p 10
  imaId := p 11
  grpStatusCtrl := p 12
  txTimingInfo := p 13
  txTestCtrl := p 14
  txTestPattern := p 15
  rxTestPattern := p 16
  linkStatusCtrl i := p (17 + i)

def isIcpCell (pdata : Octets) (mem : Bool) : Option Icp :=
  if pdata 0 = 0 ∧ pdata 1 = 0 ∧ pdata 2 = 0 ∧ pdata 3 = 0x0b ∧ pdata 4 = 0x64 ∧
      (pdata 5 = 0x01 ∨ pdata 5 = 0x03) ∧ pdata 6 &&& 0x80 = 0x80 then
    if mem then some (icpOfOctets pdata) else none
  else none

def isLinkStable (pIcp1 pIcp2 : Option Icp) : Bool :=
  match pIcp1, pIcp2 with
  | some icp1, some icp2 =>
      icp1.cellLinkId == icp2.cellLinkId && icp1.statusCtrlInd == icp2.statusCtrlInd
  | _, _ => false

def Call.phyLink (host : Endian) (c : Call) : Nat := (pkthdrGetChannel host c.pktcell).toNat

def Call.icp (c : Call) : Option Icp := isIcpCell (fun i => c.pktcell (20 + i)) c.cellMem

/-- The table with a cell in place of the one that the link had. -/
def storeIcp (links : List PhyLink) (phyLink : Nat) (link : PhyLink) (icp : Icp) : List PhyLink :=
  links.set phyLink
    { link with
      pIcp := some icp
      phyNr := if link.rcvNr = 0 then UInt8.ofNat phyLink else link.phyNr
      rcvNr := link.rcvNr + 1 }

def rcvIcpFromLink (host : Endian) (c : Call) (links : List PhyLink) : Option (List PhyLink × Int) :=
  let phyLink := c.phyLink host
  if maxLnkNum < phyLink then some (links, -1)
  else
    match c.icp with
    | none => some (links, -1)
    | some icp => do
        let link ← links[phyLink]?
        if link.rcvNr = 0 then return (storeIcp links phyLink link icp, 0)
        if isLinkStable link.pIcp (some icp) then return (storeIcp links phyLink link icp, 0)
        return (links.set phyLink { link with rcvNr := 0 }, -1)

/-- The configuration that is handed over when a scan completes. -/
def imascanProc (host : Endian) (qs : Qsort) (hd : Probe) (c : Call) : Option (Probe × Option ImaCfg) := do
  let (links, rc) ← rcvIcpFromLink host c hd.imaplink
  if rc < 0 then return ({ hd with imaplink := links }, none)
  if intMax ≤ hd.icpcount then none
  let hd := { hd with imaplink := links, icpcount := hd.icpcount + 1 }
  if hd.icpcount < hd.maxicp then return (hd, none)
  if !c.cfgMem then return (hd, none)
  let (links, cfg, rc) ← imascanResult qs hd.imaplink ImaCfg.zero
  if rc < 0 then return ({ hd with imaplink := links, icpcount := 0 }, none)
  return ({ hd with imaplink := links }, some cfg)

end OiAmc.ImascanProc

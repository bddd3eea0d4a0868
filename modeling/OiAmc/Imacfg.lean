import Mathlib.Data.UInt
import Mathlib.Logic.Function.Basic
import OiAmc.Cconfig

/-! Loading the groups of an IMA configuration. -/

namespace OiAmc.Imacfg

open Cconfig Function Numerals

def MAX_LNK_NUM : Nat := 256

def MAX_GRP_NUM : Nat := 128

def IMA_MAX_LINKS_OF_IMA_GRP : Nat := 32

def LINK_NOT_GRP : UInt8 := 255

def LINK_IN_TC : UInt8 := 254

structure CfgImaTxLink where
  lid : UInt8
  icpOffset : UInt8
  phyLink : UInt16
  deriving DecidableEq, Inhabited

structure CfgImaGrp where
  clockMd : UInt8
  symmetryMd : UInt8
  imaVersion : UInt8
  imaOamLabel : UInt8
  rxImaIdCfgEn : UInt8
  rxImaIdCfg : UInt8
  txImaId : UInt8
  txVphy : UInt16
  rxVphy : UInt16
  rxM : UInt8
  pRx : UInt8
  txM : UInt8
  pTx : UInt8
  maxDelay : UInt16
  delayGb : UInt16
  delayAddEn : UInt16
  stuffMd : UInt8
  stuffAdvMd : UInt8
  txTrl : UInt16
  numRxLinks : UInt16
  numTxLinks : UInt16
  rxLinks : Nat → UInt16
  txLinks : Nat → CfgImaTxLink
  deriving Inhabited

@[ext]
structure ImaCfg where
  grpNumAll : UInt8
  groupNum : UInt8
  tcNum : UInt8
  linkInGrp : Nat → UInt8
  grpMode : Nat → UInt8
  grpId : Nat → UInt8
  grpCfg : Nat → CfgImaGrp
  deriving Inhabited

/-- The size of `grpMode`, `grpId` and `grpCfg`. -/
def slotRoom : Nat := MAX_GRP_NUM + MAX_LNK_NUM

/-- A function returns -1, or an array is left: an index outside of it or a value that is too
long for its buffer. -/
inductive Stop
  | failed
  | outside
  deriving DecidableEq

def getMphylink (intrPhylink : Int) : Int := intrPhylink - intrPhylink.tdiv 28 * 7

def getNphylink (myPhylink : Int) : Int := myPhylink + myPhylink.tdiv 21 * 7

section

variable (h : CConfig)

/-- `CfgGetValue` into a buffer. -/
def valueInto (room : Nat) (id : Text) (index sectindex : Nat) : Except Stop (Option Text) :=
  match cfgGetValue h "IMA Group".toList (some id) index sectindex with
  | none => .ok none
  | some value => if value.length < room then .ok (some value) else .error .outside

/-- The int of `CfgGetValueInt`, where -1 stands for a value that is missing. -/
def intOf (defaultValue : Int) : Option Text → Int
  | none => defaultValue
  | some value => if atoi value = -1 then defaultValue else atoi value

def getValue (id : Text) (sectionindex : Nat) (defaultValue : Int) : Except Stop Int := do
  return intOf defaultValue (← valueInto h 256 id 1 (sectionindex + 1))

def clockOf : Option Text → UInt8
  | none => 2
  | some value =>
      if value = "ITC".toList then 1
      else if value = "CTC".toList then 2
      else 2

def getClockValue (sectindex : Nat) : Except Stop UInt8 := do
  return clockOf (← valueInto h 128 "Clock Mode".toList 1 (sectindex + 1))

inductive VersionId
  | version
  | label

def VersionId.default : VersionId → UInt8
  | version => 0
  | label => 3

def versionOf (id : VersionId) : Option Text → UInt8
  | none => id.default
  | some value => if value = "1.0".toList then 1 else id.default

def getVersionValue (id : VersionId) (sectindex : Nat) : Except Stop UInt8 := do
  return versionOf id (← valueInto h 128 "Version".toList 1 (sectindex + 1))

def txMOf : Option Text → UInt8
  | none => 2
  | some value =>
      if atoi value = 32 then 0
      else if atoi value = 64 then 1
      else if atoi value = 128 then 2
      else if atoi value = 256 then 3
      else 2

def getTxMValue (sectindex : Nat) : Except Stop UInt8 := do
  return txMOf (← valueInto h 256 "Tx M value".toList 1 (sectindex + 1))

def enOf : Option Text → UInt16
  | none => 0
  | some value =>
      if value = "no".toList ∨ value = "n".toList then 0
      else if value = "yes".toList ∨ value = "y".toList then 1
      else 0

def getEn (id : Text) (sectindex : Nat) : Except Stop UInt16 := do
  return enOf (← valueInto h 128 id 1 (sectindex + 1))

end

/-- `sscanf(value, "%d[%d]-%d", ..)` with three results. -/
def scanTxLink (value : Text) : Option (Int × Int × Int) := do
  let (lid, s) ← scanInt value
  let (offset, s) ← scanInt (← scanChar '[' s)
  let (phyLink, _) ← scanInt (← scanChar '-' (← scanChar ']' s))
  return (lid, offset, phyLink)

namespace ImaCfg

def setMode (cfg : ImaCfg) (i : Nat) (mode : UInt8) : Except Stop ImaCfg :=
  if i < slotRoom then .ok { cfg with grpMode := update cfg.grpMode i mode } else .error .outside

def setId (cfg : ImaCfg) (i : Nat) (id : UInt8) : Except Stop ImaCfg :=
  if i < slotRoom then .ok { cfg with grpId := update cfg.grpId i id } else .error .outside

def modifyGrp (cfg : ImaCfg) (i : Nat) (f : CfgImaGrp → CfgImaGrp) : Except Stop ImaCfg :=
  if i < slotRoom then .ok { cfg with grpCfg := update cfg.grpCfg i (f (cfg.grpCfg i)) }
  else .error .outside

def setLinkInGrp (cfg : ImaCfg) (phy : Int) (value : UInt8) : Except Stop ImaCfg :=
  if 0 ≤ phy ∧ phy < MAX_LNK_NUM then
    .ok { cfg with linkInGrp := update cfg.linkInGrp phy.toNat value }
  else .error .outside

end ImaCfg

section

variable (h : CConfig)

def loadRxLink (grpindex i : Nat) (cfg : ImaCfg) : Except Stop ImaCfg := do
  match ← valueInto h 128 "RxLink".toList (i + 1) (grpindex + 1) with
  | none => throw .failed
  | some value =>
      let phy := getNphylink (atoi value)
      let cfg ← cfg.modifyGrp grpindex fun g => { g with rxLinks := update g.rxLinks i (.ofInt phy) }
      cfg.setLinkInGrp phy (.ofNat (grpindex + 1))

/-- One transmit link of a group, and whether it could be read. -/
def loadTxLink (grpindex i : Nat) (cfg : ImaCfg) : Except Stop (ImaCfg × Bool) := do
  match ← valueInto h 128 "TxLink".toList (i + 1) (grpindex + 1) with
  | none => throw .failed
  | some value =>
      match scanTxLink value with
      | none => return (cfg, false)
      | some (lid, offset, phyLink) =>
          let phy := getNphylink phyLink
          let link : CfgImaTxLink := ⟨.ofInt lid, .ofInt offset, .ofInt phy⟩
          let cfg ← cfg.modifyGrp grpindex fun g => { g with txLinks := update g.txLinks i link }
          return (← cfg.setLinkInGrp phy (.ofNat (grpindex + 1)), true)

/-- A round of the loop over the links, and whether there is another one. -/
def loadLink (grpindex : Nat) (linkRCount linkTCount : Int) (i : Nat) (cfg : ImaCfg) :
    Except Stop (ImaCfg × Bool) := do
  let cfg ← (if i < linkRCount then loadRxLink h grpindex i cfg else pure cfg)
  let (cfg, read) ← (if i < linkTCount then loadTxLink h grpindex i cfg else pure (cfg, true))
  return (cfg, read && !(i ≥ linkRCount && i ≥ linkTCount))

def loadLinks (grpindex : Nat) (linkRCount linkTCount : Int) :
    List Nat → ImaCfg → Except Stop ImaCfg
  | [], cfg => return cfg
  | i :: is, cfg => do
      let (cfg, again) ← loadLink h grpindex linkRCount linkTCount i cfg
      if again then loadLinks grpindex linkRCount linkTCount is cfg else return cfg

def loadImaGrpLinksCfg (grpindex : Nat) (cfg : ImaCfg) : Except Stop ImaCfg :=
  let linkRCount := cfgGetCount h "IMA Group".toList (some "RxLink".toList) (grpindex + 1)
  let linkTCount := cfgGetCount h "IMA Group".toList (some "TxLink".toList) (grpindex + 1)
  let g := cfg.grpCfg grpindex
  if g.numRxLinks.toNat ≤ 0 ∨ g.numTxLinks.toNat ≤ 0 ∨ g.numRxLinks.toNat ≠ linkRCount ∨
      g.numTxLinks.toNat ≠ linkTCount then
    .error .failed
  else loadLinks h grpindex linkRCount linkTCount (List.range IMA_MAX_LINKS_OF_IMA_GRP) cfg

def loadGroupFields (i : Nat) (g : CfgImaGrp) : Except Stop CfgImaGrp := do
  let clockMd ← getClockValue h i
  let symmetryMd ← getValue h "Symmetry Mode".toList i 0
  let imaVersion ← getVersionValue h .version i
  let imaOamLabel ← getVersionValue h .label i
  let rxImaIdCfgEn ← getValue h "Rx ImaId Cfg".toList i 0
  let rxImaIdCfg ← getValue h "Rx ImaId".toList i 0
  let txImaId ← getValue h "Tx ImaId".toList i (i + 1)
  let txVphy ← getValue h "Tx Vphy ID".toList i i
  let rxVphy ← getValue h "Rx Vphy ID".toList i i
  let pRx ← getValue h "Min Rx links".toList i 2
  let pTx ← getValue h "Min Tx links".toList i 2
  let txM ← getTxMValue h i
  let maxDelay ← getValue h "Max Delay".toList i 1023
  let delayGb ← getValue h "Delay Guardband".toList i 10
  let delayAddEn ← getEn h "Delay AddLink En".toList i
  let stuffAdvMd ← getValue h "Stuff Advertise Mode".toList i 1
  let txTrl ← getValue h "Tx Trl PHY ID".toList i (g.txLinks 0).phyLink.toNat
  return { g with
    clockMd, symmetryMd := .ofInt symmetryMd, imaVersion, imaOamLabel,
    rxImaIdCfgEn := .ofInt rxImaIdCfgEn, rxImaIdCfg := .ofInt rxImaIdCfg,
    txImaId := .ofInt txImaId, txVphy := .ofInt txVphy, rxVphy := .ofInt rxVphy, rxM := 0xf,
    pRx := .ofInt pRx, pTx := .ofInt pTx, txM, maxDelay := .ofInt maxDelay,
    delayGb := .ofInt delayGb, delayAddEn, stuffMd := clockMd,
    stuffAdvMd := .ofInt stuffAdvMd, txTrl := .ofInt txTrl }

def loadImaGroupCfg (cfg : ImaCfg) (i : Nat) : Except Stop ImaCfg := do
  let numRxLinks ← getValue h "Rx Links Num".toList i 0
  let numTxLinks ← getValue h "Tx Links Num".toList i 0
  let cfg ← cfg.modifyGrp i fun g =>
    { g with numRxLinks := .ofInt numRxLinks, numTxLinks := .ofInt numTxLinks }
  let cfg ← loadImaGrpLinksCfg h i cfg
  let g ← loadGroupFields h i (cfg.grpCfg i)
  cfg.modifyGrp i fun _ => g

def loadTcLink (phy : Int) (slot : Nat) (cfg : ImaCfg) : Except Stop ImaCfg := do
  let cfg ← cfg.modifyGrp slot fun g =>
    { g with
      txVphy := .ofNat slot, rxVphy := .ofNat slot,
      rxLinks := update g.rxLinks 0 (.ofInt phy) }
  let cfg ← cfg.setLinkInGrp phy LINK_IN_TC
  let cfg ← cfg.setMode slot 1
  return { cfg with tcNum := cfg.tcNum + 1 }

/-- The list from `p`, with the number of links that may still come and the next slot. -/
def loadTcLinks : Nat → Text → Nat → ImaCfg → Except Stop (ImaCfg × Nat)
  | 0, _, slot, cfg => return (cfg, slot)
  | _, [], slot, cfg => return (cfg, slot)
  | room + 1, p, slot, cfg =>
      let (n, q) := strtol 0 p
      let phy := toInt n
      if phy ≤ 0 ∨ (q ≠ [] ∧ q.head? ≠ some ',') then .error .failed
      else do
        let cfg ← loadTcLink (getNphylink phy) slot cfg
        loadTcLinks room q.tail (slot + 1) cfg

def loadTcCfg (cfg : ImaCfg) (index i : Nat) : Except Stop (ImaCfg × Nat) := do
  match ← valueInto h 512 "PhyLinkID".toList 1 (index + 1) with
  | none => throw .failed
  | some value =>
      let (cfg, i') ← loadTcLinks MAX_LNK_NUM value i cfg
      let j : Int := i' - i
      return ({ cfg with grpNumAll := cfg.grpNumAll + .ofInt (j - 1) }, i')

/-- 2 for a group, 1 for TC links, -1 for a mode that is missing or unknown. -/
def modeOf : Option Text → Int
  | none => -1
  | some value =>
      if value = "IMA".toList then 2
      else if value = "TC".toList then 1
      else -1

def loadImaModeCfg (index : Nat) : Except Stop Int := do
  return modeOf (← valueInto h 128 "mode".toList 1 (index + 1))

/-- A round of the loop over the sections, with the number of slots that are counted. -/
def loadSection (i : Nat) (s : ImaCfg × Nat) : Except Stop (ImaCfg × Nat) := do
  let (cfg, j) := s
  let mode ← loadImaModeCfg h i
  let cfg ← cfg.setMode i (.ofInt mode)
  if mode = 2 then
    let cfg ← loadImaGroupCfg h cfg i
    let cfg ← cfg.setId i cfg.groupNum
    return ({ cfg with groupNum := cfg.groupNum + 1 }, j + 1)
  else if mode = 1 then loadTcCfg h cfg i j
  else return (cfg, j)

def loadSections (is : List Nat) (s : ImaCfg × Nat) : Except Stop (ImaCfg × Nat) :=
  is.foldlM (fun s i => loadSection h i s) s

end

def mark (room : Nat) (table : Nat → Bool) (x : Nat) : Except Stop (Nat → Bool) :=
  if x < room then if table x then .error .failed else .ok (update table x true)
  else .error .outside

/-- The entries that the links of a slot mark: `link` for each index below `count`, in an
array of 32. -/
def checkLinks (room : Nat) (count : Nat) (link : Nat → Nat) (table : Nat → Bool) :
    Except Stop (Nat → Bool) :=
  (List.range count).foldlM (fun table j =>
    if j < IMA_MAX_LINKS_OF_IMA_GRP then mark room table (link j) else .error .outside) table

def checkRxLinks (cfg : ImaCfg) : Except Stop (Nat → Bool) :=
  (List.range cfg.grpNumAll.toNat).foldlM (fun chRxLinks i =>
    let g := cfg.grpCfg i
    checkLinks MAX_LNK_NUM g.numRxLinks.toNat (fun j => (g.rxLinks j).toNat) chRxLinks)
    fun _ => false

def checkTxvLinks (cfg : ImaCfg) : Except Stop (Nat → Bool) :=
  (List.range cfg.grpNumAll.toNat).foldlM (fun chTxLinks i =>
    let g := cfg.grpCfg i
    if cfg.grpMode i ≠ 2 then return chTxLinks
    else checkLinks IMA_MAX_LINKS_OF_IMA_GRP g.numTxLinks.toNat
      (fun j => (g.txLinks j).lid.toNat) fun _ => false)
    fun _ => false

def checkTxpLinks (cfg : ImaCfg) : Except Stop (Nat → Bool) :=
  (List.range cfg.grpNumAll.toNat).foldlM (fun chTxLinks i =>
    let g := cfg.grpCfg i
    if cfg.grpMode i ≠ 2 then return chTxLinks
    else checkLinks MAX_LNK_NUM g.numTxLinks.toNat
      (fun j => (g.txLinks j).phyLink.toNat) chTxLinks)
    fun _ => false

/-- The checks in the order of `imacfg_load`. -/
def checks (cfg : ImaCfg) : Except Stop Unit := do
  let _ ← checkRxLinks cfg
  let _ ← checkTxpLinks cfg
  let _ ← checkTxvLinks cfg

/-- A configuration before its sections are loaded. -/
def cleared (grpCount : Nat) : ImaCfg :=
  { (default : ImaCfg) with grpNumAll := .ofNat grpCount, linkInGrp := fun _ => LINK_NOT_GRP }

def imacfgLoad (h : CConfig) : Except Stop ImaCfg := do
  let grpCount := (cfgGetCount h "IMA Group".toList none 0).toNat
  let (cfg, _) ← loadSections h (List.range grpCount) (cleared grpCount, 0)
  checks cfg
  return cfg

end OiAmc.Imacfg

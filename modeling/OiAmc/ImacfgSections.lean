import OiAmc.Imacfg

/-! What the sections of a configuration say, and what loading one of them comes to. -/

namespace OiAmc.Imacfg

open Cconfig Function Numerals

section

variable (h : CConfig) (i : Nat)

def tokensOf : List Token := (h.named "IMA Group".toList)[i]?.getD []

def lines (id : String) : List Text := h.values (some id.toList) (tokensOf h i)

def value (id : String) : Option Text := (lines h i id).head?

def Short (room : Nat) (id : String) : Prop := ∀ v ∈ value h i id, v.length < room

/-- Link numbers that have an entry in `linkInGrp`. -/
def Linked (phy : Int) : Prop := 0 ≤ phy ∧ phy < MAX_LNK_NUM

def numRxLinks : UInt16 := .ofInt (intOf 0 (value h i "Rx Links Num"))

def numTxLinks : UInt16 := .ofInt (intOf 0 (value h i "Tx Links Num"))

def CountsShort : Prop := Short h i 256 "Rx Links Num" ∧ Short h i 256 "Tx Links Num"

/-- There are as many links as the section says, and at least one each way. -/
def Counted : Prop :=
  0 < (numRxLinks h i).toNat ∧ 0 < (numTxLinks h i).toNat ∧
    (numRxLinks h i).toNat = (lines h i "RxLink").length ∧
    (numTxLinks h i).toNat = (lines h i "TxLink").length

/-- The number of transmit links in front of the first that cannot be read. -/
def txGood : Nat := (lines h i "TxLink").findIdx fun v => (scanTxLink v).isNone

/-- The rounds in which links are read: a transmit link that cannot be read ends them. -/
def rounds : Nat :=
  if txGood h i < (lines h i "TxLink").length then min (txGood h i + 1) IMA_MAX_LINKS_OF_IMA_GRP
  else IMA_MAX_LINKS_OF_IMA_GRP

def rxRead : List Text := (lines h i "RxLink").take (rounds h i)

def txSeen : List Text := (lines h i "TxLink").take (rounds h i)

def txRead : List Text := (txSeen h i).take (txGood h i)

def rxNumber (v : Text) : Int := getNphylink (atoi v)

def txEntry (v : Text) : Int × Int × Int := (scanTxLink v).getD default

def txNumber (v : Text) : Int := getNphylink (txEntry v).2.2

def txLinkOf (v : Text) : CfgImaTxLink :=
  ⟨.ofInt (txEntry v).1, .ofInt (txEntry v).2.1, .ofInt (txNumber v)⟩

def RxInside (v : Text) : Prop := v.length < 128 ∧ Linked (rxNumber v)

def TxInside (v : Text) : Prop := v.length < 128 ∧ ((scanTxLink v).isSome → Linked (txNumber v))

def LinksInside : Prop := (∀ v ∈ rxRead h i, RxInside v) ∧ ∀ v ∈ txSeen h i, TxInside v

/-- The links of a group that are entered in `linkInGrp`. -/
def groupNumbers : List Int := (rxRead h i).map rxNumber ++ (txRead h i).map txNumber

def FieldsShort : Prop :=
  Short h i 128 "Clock Mode" ∧ Short h i 256 "Symmetry Mode" ∧ Short h i 128 "Version" ∧
    Short h i 256 "Rx ImaId Cfg" ∧ Short h i 256 "Rx ImaId" ∧ Short h i 256 "Tx ImaId" ∧
    Short h i 256 "Tx Vphy ID" ∧ Short h i 256 "Rx Vphy ID" ∧ Short h i 256 "Min Rx links" ∧
    Short h i 256 "Min Tx links" ∧ Short h i 256 "Tx M value" ∧ Short h i 256 "Max Delay" ∧
    Short h i 256 "Delay Guardband" ∧ Short h i 128 "Delay AddLink En" ∧
    Short h i 256 "Stuff Advertise Mode" ∧ Short h i 256 "Tx Trl PHY ID"

/-- An array with its first entries replaced by a list. -/
def filled {α : Type} (xs : List α) (a : Nat → α) : Nat → α := fun j => xs[j]?.getD (a j)

def withLinks (rx tx : List Text) (g : CfgImaGrp) : CfgImaGrp :=
  { g with
    rxLinks := filled (rx.map fun v => .ofInt (rxNumber v)) g.rxLinks
    txLinks := filled (tx.map txLinkOf) g.txLinks }

def withFields (g : CfgImaGrp) : CfgImaGrp :=
  let number (id : String) (defaultValue : Int) : Int := intOf defaultValue (value h i id)
  { g with
    clockMd := clockOf (value h i "Clock Mode")
    symmetryMd := .ofInt (number "Symmetry Mode" 0)
    imaVersion := versionOf .version (value h i "Version")
    imaOamLabel := versionOf .label (value h i "Version")
    rxImaIdCfgEn := .ofInt (number "Rx ImaId Cfg" 0)
    rxImaIdCfg := .ofInt (number "Rx ImaId" 0)
    txImaId := .ofInt (number "Tx ImaId" (i + 1))
    txVphy := .ofInt (number "Tx Vphy ID" i)
    rxVphy := .ofInt (number "Rx Vphy ID" i)
    rxM := 0xf
    pRx := .ofInt (number "Min Rx links" 2)
    pTx := .ofInt (number "Min Tx links" 2)
    txM := txMOf (value h i "Tx M value")
    maxDelay := .ofInt (number "Max Delay" 1023)
    delayGb := .ofInt (number "Delay Guardband" 10)
    delayAddEn := enOf (value h i "Delay AddLink En")
    stuffMd := clockOf (value h i "Clock Mode")
    stuffAdvMd := .ofInt (number "Stuff Advertise Mode" 1)
    txTrl := .ofInt (number "Tx Trl PHY ID" (g.txLinks 0).phyLink.toNat) }

def withCounts (g : CfgImaGrp) : CfgImaGrp :=
  { g with numRxLinks := numRxLinks h i, numTxLinks := numTxLinks h i }

def groupOf (g : CfgImaGrp) : CfgImaGrp :=
  withFields h i (withLinks (rxRead h i) (txRead h i) (withCounts h i g))

/-- Links entered in `linkInGrp`. -/
def filed (numbers : List Int) (v : UInt8) (links : Nat → UInt8) : Nat → UInt8 :=
  fun x => if (x : Int) ∈ numbers then v else links x

def withGroup (cfg : ImaCfg) : ImaCfg :=
  { cfg with
    grpCfg := update cfg.grpCfg i (groupOf h i (cfg.grpCfg i))
    linkInGrp := filed (groupNumbers h i) (.ofNat (i + 1)) cfg.linkInGrp }

/-- The numbers of a list of TC links, up to the first that is not as it should be, and
whether there is none such. -/
def tcRead : Nat → Text → List Int × Bool
  | 0, _ => ([], true)
  | _, [] => ([], true)
  | room + 1, p =>
      let (n, q) := strtol 0 p
      if toInt n ≤ 0 ∨ (q ≠ [] ∧ q.head? ≠ some ',') then ([], false)
      else
        let (numbers, whole) := tcRead room q.tail
        (getNphylink (toInt n) :: numbers, whole)

def tcNumbers : List Int := (tcRead MAX_LNK_NUM ((value h i "PhyLinkID").getD [])).1

def tcWhole : Prop :=
  (value h i "PhyLinkID").isSome ∧ (tcRead MAX_LNK_NUM ((value h i "PhyLinkID").getD [])).2

def tcOf (slot : Nat) (phy : Int) (g : CfgImaGrp) : CfgImaGrp :=
  { g with
    txVphy := .ofNat slot
    rxVphy := .ofNat slot
    rxLinks := update g.rxLinks 0 (.ofInt phy) }

def withTcLinks (slot : Nat) (numbers : List Int) (cfg : ImaCfg) : ImaCfg :=
  { cfg with
    tcNum := cfg.tcNum + .ofNat numbers.length
    linkInGrp := filed numbers LINK_IN_TC cfg.linkInGrp
    grpMode := fun s => if slot ≤ s ∧ s < slot + numbers.length then 1 else cfg.grpMode s
    grpCfg := fun s =>
      if slot ≤ s then
        (numbers[s - slot]?).elim (cfg.grpCfg s) fun phy => tcOf s phy (cfg.grpCfg s)
      else cfg.grpCfg s }

def mode : Int := modeOf (value h i "mode")

def width : Nat :=
  if mode h i = 2 then 1 else if mode h i = 1 then (tcNumbers h i).length else 0

/-- The number of slots that the sections in front of one ask for. -/
def start : Nat → Nat
  | 0 => 0
  | i + 1 => start i + width h i

/-- A section is loaded without an array being left, up to where it is turned down. -/
def Inside : Prop :=
  i < slotRoom ∧ Short h i 128 "mode" ∧
    (mode h i = 2 → CountsShort h i ∧ (Counted h i → LinksInside h i ∧ FieldsShort h i)) ∧
    (mode h i = 1 → Short h i 512 "PhyLinkID" ∧ (∀ phy ∈ tcNumbers h i, Linked phy) ∧
      (tcNumbers h i).length ≤ slotRoom - start h i)

def Refused : Prop := (mode h i = 2 ∧ ¬Counted h i) ∨ (mode h i = 1 ∧ ¬tcWhole h i)

def after (cfg : ImaCfg) : ImaCfg :=
  let cfg := { cfg with grpMode := update cfg.grpMode i (.ofInt (mode h i)) }
  if mode h i = 2 then
    let cfg := withGroup h i cfg
    { cfg with grpId := update cfg.grpId i cfg.groupNum, groupNum := cfg.groupNum + 1 }
  else if mode h i = 1 then
    let cfg := withTcLinks (start h i) (tcNumbers h i) cfg
    { cfg with grpNumAll := cfg.grpNumAll + .ofInt ((tcNumbers h i).length - 1) }
  else cfg

def grpCount : Nat := (h.named "IMA Group".toList).length

end

def fillTo (h : CConfig) : Nat → ImaCfg
  | 0 => cleared (grpCount h)
  | i + 1 => after h i (fillTo h i)

end OiAmc.Imacfg

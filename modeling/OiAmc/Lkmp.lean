import OiAmc.MessageLayout
import OiAmc.Numerals
import OiAmc.Pkt

namespace OiAmc.Lkmp

open ByteOrder Numerals Pkt
open MessageLayout hiding Octets

-- The messages of psp.h.

def pspMsgRegister : UInt16 := 0x2360
def pspMsgRegisterAck : UInt16 := 0x2b60
def pspMsgRegisterUnack : UInt16 := 0x2760
def pspMsgScanClear : UInt16 := 0x2361
def pspMsgScanClearAck : UInt16 := 0x2b61
def pspMsgNotifyAnm : UInt16 := 0x2362
def pspMsgNotifyRel : UInt16 := 0x2363
def pspMsgScanResult : UInt16 := 0x2364
def pspMsgVchannelStart : UInt16 := 0x2367
def pspMsgVchannelStop : UInt16 := 0x2368
def pspMsgTranEnable : UInt16 := 0x2369
def pspMsgStmMapAdd : UInt16 := 0x2372
def pspMsgStmMapDel : UInt16 := 0x2373
def pspMsgStmMapGet : UInt16 := 0x2374
def pspMsgStmMapResult : UInt16 := 0x2375
def pspMsgBlockData : UInt16 := 0x2376
def pspMsgPhyStat : UInt16 := 0x2377
def pspMsgPhyStatAck : UInt16 := 0x2b77
def pspMsgChannelStat : UInt16 := 0x2378
def pspMsgChannelStatAck : UInt16 := 0x2b78
def pspMsgGetStat : UInt16 := 0x2379
def pspMsgClearIndex : UInt16 := 0x2385
def pspMsgClearIndexAck : UInt16 := 0x2b85
def pspMsgClearIndexNack : UInt16 := 0x2785
def pspMsgTrapLinkChange : UInt16 := 0x2386
def pspMsgClearAllIndex : UInt16 := 0x2387
def pspMsgResetPointer : UInt16 := 0x2388
def pspMsgSilenceRange : UInt16 := 0x2381
def pspMsgSilenceResult : UInt16 := 0x2382

/-- The fields of psp_msg that are decoded. -/
inductive PspField
  | regProbetype | regCardtype | regSlot | regSubslot
  | rgSilencetype | rgIndexlimit | rgRevert | rgTranen
  | scanClearMask | scanIndex | scanScanendflag
  | mapInport | mapOutport
  | blockFlag | blockType | blockSize
  | getFlag
  | clearIndex
  | tranChan | tranPort | tranE1 | tranTs
  | tranEnRevert | tranEnEnable
  deriving DecidableEq, Repr

/-- What is decoded of a message, where the message is known. -/
def pspFields (id : UInt16) : Option (List (Get PspField)) :=
  if id = pspMsgRegister then
    some [.num .regProbetype 1, .num .regCardtype 1, .num .regSlot 1, .num .regSubslot 1]
  else if id = pspMsgRegisterAck then
    some [.num .rgSilencetype 1, .num .rgIndexlimit 2, .num .rgRevert 1, .num .rgTranen 1]
  else if id = pspMsgRegisterUnack then some []
  else if id = pspMsgScanClear then some [.num .scanClearMask 1]
  else if id = pspMsgScanClearAck then some []
  else if id = pspMsgNotifyAnm ∨ id = pspMsgNotifyRel then some [.num .scanIndex 2]
  else if id = pspMsgScanResult then some [.num .scanScanendflag 1]
  else if id = pspMsgStmMapAdd ∨ id = pspMsgStmMapDel ∨ id = pspMsgStmMapResult then
    some [.num .mapInport 1, .num .mapOutport 1]
  else if id = pspMsgStmMapGet then some [.num .mapInport 1]
  else if id = pspMsgBlockData then
    some [.num .blockFlag 2, .num .blockType 2, .num .blockSize 4]
  else if id = pspMsgPhyStat ∨ id = pspMsgChannelStat then some []
  else if id = pspMsgGetStat then some [.num .getFlag 4]
  else if id = pspMsgClearIndex then some [.num .clearIndex 2]
  else if id = pspMsgSilenceRange ∨ id = pspMsgSilenceResult then some []
  else if id = pspMsgVchannelStart ∨ id = pspMsgVchannelStop then
    some [.num .tranChan 1, .num .tranPort 1, .num .tranE1 1, .num .tranTs 1]
  else if id = pspMsgTranEnable then some [.num .tranEnRevert 1, .num .tranEnEnable 1]
  else if id = pspMsgClearAllIndex ∨ id = pspMsgResetPointer then some []
  else none

structure PspMsg where
  id : UInt16
  value : Value PspField

def msgId (ph : Octets) : UInt16 :=
  (pkthdrGetType ph).toUInt16 <<< 8 ||| (pkthdrGetSubtype ph).toUInt16

def pspDecodeMsg (host : Endian) (ph : Octets) (before : Value PspField) : Option PspMsg :=
  (pspFields (msgId ph)).bind fun gets =>
    let start : Reader PspField := ⟨0, pkthdrGetDlen host ph, 0, [], before⟩
    let r := read (fun i => ph (20 + i)) (fun _ => true) gets start
    if r.1 then some ⟨msgId ph, r.2.value⟩ else none

inductive Cardtype
  | amc
  | atca
  | oipc
  deriving DecidableEq, Repr

def Cardtype.code : Cardtype → UInt8
  | .amc => 1
  | .atca => 2
  | .oipc => 3

/-- The data of the agent, whose numbers are of the type char. -/
structure PsagentGlb where
  probetype : UInt8
  cardtype : Cardtype
  slot : UInt8
  subslot : UInt8
  checkPhyStatus : UInt8
  checkInterval : UInt8
  psPortNum : Int
  deriving DecidableEq, Repr

def toChar (x : Int) : UInt8 := UInt8.ofNat (x % 256).toNat

/-- A char where an unsigned short is asked for: it has a sign on some machines. -/
def ofChar (charSigned : Bool) (c : UInt8) : UInt16 :=
  if charSigned ∧ 128 ≤ c.toNat then 0xff00 ||| c.toUInt16 else c.toUInt16

def probetypeOf (value : Text) : Option UInt8 :=
  if value = "E1".toList then some 1
  else if value = "155M_CPOS".toList then some 2
  else if value = "155M_ATM".toList then some 3
  else none

def cardtypeOf (value : Text) : Option Cardtype :=
  if value = "AMC".toList then some .amc
  else if value = "ATCA".toList then some .atca
  else if value = "OIPC".toList then some .oipc
  else none

/-- The number of ports, which is left at zero for one type of card. -/
def portNum (lmSimple : Bool) : Cardtype → Int
  | .amc => 4
  | .atca => 0
  | .oipc => if lmSimple then 16 else 32

/-- The parameters, from the values of the section of the agent. -/
def psagentInitParameters (lmSimple : Bool) (cfg : String → Option Text) : Option PsagentGlb := do
  let probetype ← (← cfg "probetype") |> probetypeOf
  let cardtype ← (← cfg "cardtype") |> cardtypeOf
  let slot ← cfg "slot"
  let subslot ← cfg "subslot"
  let check ← cfg "check_phy_status"
  let glb : PsagentGlb :=
    ⟨probetype, cardtype, toChar (atoi slot), toChar (atoi subslot), 0, 0, portNum lmSimple cardtype⟩
  if check = "on".toList then
    let interval ← cfg "check_interval"
    return { glb with checkPhyStatus := 1, checkInterval := toChar (atoi interval) }
  else return glb

/-- The device number that packets are compared with. -/
def localDevice (charSigned : Bool) (glb : PsagentGlb) : UInt16 :=
  match glb.cardtype with
  | .amc => (glb.slot &&& 0x0f).toUInt16 <<< 4 ||| (glb.subslot &&& 0x0f).toUInt16
  | .oipc => ofChar charSigned glb.slot
  | .atca => 0

def checkDevice (host : Endian) (charSigned : Bool) (glb : PsagentGlb) (ph : Octets) : Bool :=
  localDevice charSigned glb == (pkthdrGetDevice host ph &&& 0xff)

/-- The operations of psp_ops that packets, connections and time cause. -/
inductive Op
  | registerMsg
  | registerAckMsg
  | scanClear
  | notifyAnm
  | notifyRel
  | getPhyStat
  | getChannelStat
  | clearIndex
  | vchannelStart
  | vchannelStop
  | clearAll
  | checkPhy
  | resetPointer
  | tranEnable
  deriving DecidableEq, Repr

def opOf (id : UInt16) : Option Op :=
  if id = pspMsgRegister then some .registerMsg
  else if id = pspMsgRegisterAck then some .registerAckMsg
  else if id = pspMsgScanClear then some .scanClear
  else if id = pspMsgNotifyAnm then some .notifyAnm
  else if id = pspMsgNotifyRel then some .notifyRel
  else if id = pspMsgPhyStat then some .getPhyStat
  else if id = pspMsgChannelStat then some .getChannelStat
  else if id = pspMsgClearIndex then some .clearIndex
  else if id = pspMsgVchannelStart then some .vchannelStart
  else if id = pspMsgVchannelStop then some .vchannelStop
  else if id = pspMsgClearAllIndex then some .clearAll
  else if id = pspMsgResetPointer then some .resetPointer
  else if id = pspMsgTranEnable then some .tranEnable
  else none

/-- Whether packets other than registrations are processed, and whether the loop goes on. -/
structure Agent where
  registerFlag : Bool
  running : Bool
  deriving DecidableEq, Repr

/-- The table of operations: which ones are set. The one for acknowledged registrations is
called without a look whether it is, and has to be. -/
structure PspOps where
  has : Op → Bool
  ack : has .registerAckMsg = true

def psagentOp (pops : PspOps) (op : Op) : List Op := if pops.has op then [op] else []

/-- The operation of a message. When the one for an acknowledged registration fails, the loop
ends. -/
def psagentProcess (pops : PspOps) (ackResult : Int) (agent : Agent) (id : UInt16) :
    Agent × List Op :=
  match opOf id with
  | some .registerAckMsg =>
      ({ agent with running := agent.running && decide (0 ≤ ackResult) }, [.registerAckMsg])
  | some op => (agent, psagentOp pops op)
  | none => (agent, [])

/-- Before a registration was acknowledged. A refused one is sent again. -/
def checkRegisterAck (host : Endian) (pops : PspOps) (ackResult : Int) (agent : Agent)
    (ph : Octets) (before : Value PspField) : Agent × List Op :=
  match pspDecodeMsg host ph before with
  | none => (agent, [])
  | some msg =>
      if msg.id ≠ pspMsgRegisterAck then
        if msg.id = pspMsgRegister ||| 0x0400 then
          psagentProcess pops ackResult agent pspMsgRegister
        else (agent, [])
      else psagentProcess pops ackResult { agent with registerFlag := true } msg.id

/-- A packet that was received, at its address: the operations it causes and what is freed. -/
def psagentReceive (host : Endian) (charSigned : Bool) (glb : PsagentGlb) (pops : PspOps)
    (ackResult : Int) (agent : Agent) (addr : Nat) (ph : Octets) (before : Value PspField) :
    Agent × List Op × List Nat :=
  if !checkDevice host charSigned glb ph then (agent, [], [addr])
  else if !agent.registerFlag then
    let (agent, ops) := checkRegisterAck host pops ackResult agent ph before
    (agent, ops, [addr])
  else
    match pspDecodeMsg host ph before with
    | none => (agent, [], [addr])
    | some msg =>
        let (agent, ops) := psagentProcess pops ackResult agent msg.id
        (agent, ops, [addr])

def psagentConncb (pops : PspOps) (agent : Agent) : Agent × List Op :=
  (agent, psagentOp pops .registerMsg ++ psagentOp pops .resetPointer)

def psagentDisccb (pops : PspOps) (agent : Agent) : Agent × List Op :=
  ({ agent with registerFlag := false },
    psagentOp pops .tranEnable ++ psagentOp pops .clearAll)

def checkPhyStatus (glb : PsagentGlb) (pops : PspOps) : List Op :=
  if glb.checkPhyStatus ≠ 0 then psagentOp pops .checkPhy else []

end OiAmc.Lkmp

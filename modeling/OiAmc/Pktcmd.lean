import OiAmc.Pkt
import OiAmc.PktcmdTable

namespace OiAmc.Pktcmd

open MessageLayout ByteBuffer Pkt

-- pkttype.h
def PKT_TYPE_CMD_MIN : UInt8 := 0x20

def PKT_TYPE_CMD_MAX : UInt8 := 0x2b

def PKT_TYPE_CMD : UInt8 := PKT_TYPE_CMD_MIN

def PKT_TYPE_CMDACK : UInt8 := 0x08

def PKT_TYPE_CMDNACK : UInt8 := 0x04

def PKT_TYPE_KEEPALIVE : UInt8 := 0xFE

/-- The blocks of memory that change hands while a packet is processed. -/
inductive Block
  | packet
  | result
  | sending
  | inData
  | outData
  deriving DecidableEq

structure Buffer where
  block : Block
  octets : Octets

/-- `struct pktcmd_cmdinfo`; a null pointer is none. -/
structure Cmdinfo where
  ph : Option Octets
  ip : List UInt8
  port : Int
  id : UInt16
  type : UInt8
  result : Option Buffer
  size : Int
  ackType : UInt8

/-- A block came from malloc or was handed over, malloc refused a size, a block was freed,
a packet was given to the adapter. -/
inductive Ev
  | made (b : Block)
  | refused (size : Int)
  | freed (b : Block)
  | written (ph : Octets) (size : Int) (ip : Option (List UInt8)) (port : Int)

/-- What the surroundings of one packet answer: malloc in a decoder and elsewhere, which
never finds room for a negative size, the clock, and the callbacks that the device has
registered for a command, a null pointer being none. -/
structure Answers where
  room : Int → Bool
  room_nonneg : ∀ n, room n = true → 0 ≤ n
  alloc : Int → Bool
  alloc_nonneg : ∀ n, alloc n = true → 0 ≤ n
  sec : UInt32
  nsec : UInt32
  devcmdcb : Cmd → Option (Cmdinfo → Value Field → Int × Value Field)
  devackcb : Cmd → Option (Cmdinfo → Option (Value Field) → Int)

def memberSize : CType Field → Nat
  | .number k => k
  | .string size => size
  | .octets n => n
  | .buffer _ => 0

/-- The octets that the members of a structure take at least. -/
def members (m : Message Field) : Nat := (m.fields.map fun f => memberSize f.type).sum

/-- `sizeof` of the answer of a command, with whatever padding. -/
structure Abi where
  sizeof : Cmd → Nat
  members_le : ∀ c, ∀ m ∈ c.output, members m ≤ sizeof c
  sizeof_le : ∀ c, sizeof c ≤ 0x10000

/-- What a handler leaves: its result, the command, what happened, and the octets that
OutEncode wrote with the room there was for them. -/
structure Done where
  rc : Int
  cmd : Cmdinfo
  events : List Ev
  encoded : Option (List UInt8 × Int)

structure Decoded where
  ok : Bool
  value : Value Field
  events : List Ev

section

variable (a : Answers) (cmd : Cmdinfo) (arg : Octets) (len : Int)

def pktcmdAllocateResult (size : Int) : Cmdinfo × List Ev :=
  let size := (hdrSize + size).bmod 0x100000000
  if a.alloc size then
    ({ cmd with result := some ⟨.result, fun _ => 0⟩, size := size }, [.made .result])
  else ({ cmd with result := none, size := 0 }, [.refused size])

def decodeArg (m : Message Field) (b : Block) : Decoded :=
  let r := read arg a.room m.decode (.start Field.type len)
  ⟨r.1, r.2.value, if r.2.value.data.isSome then [.made b] else []⟩

/-- `!cmdcb || ((*cmdcb)(device, cmd, &in, &out) < 0)` is that the result is negative. -/
def callCmdcb (cb : Option (Cmdinfo → Value Field → Int × Value Field)) (i : Value Field) :
    Int × Value Field :=
  match cb with
  | none => (-1, .cleared Field.type)
  | some f => f cmd i

def callAckcb (cb : Option (Cmdinfo → Option (Value Field) → Int)) (o : Option (Value Field)) : Int :=
  match cb with
  | none => -1
  | some f => f cmd o

/-- The block that a callback handed over with its answer. -/
def handed (m : Message Field) (v : Value Field) : List Ev :=
  if .data ∈ m.fields ∧ v.data.isSome then [.made .outData] else []

/-- `if ((in.size > 0) && (in.data != NULL)) free(in.data)`. -/
def release (v : Value Field) (b : Block) : List Ev :=
  if v.int .size > 0 ∧ v.data.isSome then [.freed b] else []

def encodeResult (octets : List UInt8) : Cmdinfo :=
  { cmd with
    result := cmd.result.map fun b =>
      { b with octets := overlay b.octets 20 octets.length fun i => octets.getD i 0 } }

/-- `cmd->size = sizeof(pkt_hdr) + osize`. -/
def setSize (osize : Int) : Cmdinfo := { cmd with size := (hdrSize + osize).bmod 0x100000000 }

variable (inarg out : Message Field) (sizeofOut : Nat)
  (cmdcb : Option (Cmdinfo → Value Field → Int × Value Field))
  (ackcb : Option (Cmdinfo → Option (Value Field) → Int))

def hdlIn : Done :=
  if cmd.type ≠ PKT_TYPE_CMD then ⟨-1, cmd, [], none⟩
  else
    let made := pktcmdAllocateResult a cmd 0
    if made.1.result.isNone then ⟨-1, made.1, made.2, none⟩
    else
      let i := decodeArg a arg len inarg .inData
      if i.ok = false then ⟨-1, made.1, made.2 ++ i.events, none⟩
      else if (callCmdcb made.1 cmdcb i.value).1 < 0 then ⟨-1, made.1, made.2 ++ i.events, none⟩
      else ⟨0, made.1, made.2 ++ i.events, none⟩

def hdlInOut : Done :=
  if cmd.type ≠ PKT_TYPE_CMD then ⟨-1, cmd, [], none⟩
  else
    let made := pktcmdAllocateResult a cmd (sizeofOut + 64)
    if made.1.result.isNone then ⟨-1, made.1, made.2, none⟩
    else
      let i := decodeArg a arg len inarg .inData
      if i.ok = false then ⟨-1, made.1, made.2 ++ i.events, none⟩
      else
        let o := callCmdcb made.1 cmdcb i.value
        if o.1 < 0 then ⟨-1, made.1, made.2 ++ i.events, none⟩
        else
          let octets := write out.encode o.2
          let osize := returned octets.length
          let events := made.2 ++ i.events ++ handed out o.2
          let encoded := (octets, made.1.size - hdrSize)
          if osize < 0 then ⟨-1, encodeResult made.1 octets, events, some encoded⟩
          else ⟨0, setSize (encodeResult made.1 octets) osize, events, some encoded⟩

def hdlInOutVarsize : Done :=
  if cmd.type ≠ PKT_TYPE_CMD then ⟨-1, cmd, [], none⟩
  else
    let i := decodeArg a arg len inarg .inData
    if i.ok = false then
      let made := pktcmdAllocateResult a cmd 0
      ⟨-1, made.1, i.events ++ made.2, none⟩
    else
      let o := callCmdcb cmd cmdcb i.value
      if o.1 < 0 then
        let made := pktcmdAllocateResult a cmd 0
        ⟨-1, made.1, i.events ++ made.2, none⟩
      else
        let made := pktcmdAllocateResult a cmd (sizeofOut + 64 + o.2.int .size)
        let events := i.events ++ handed out o.2 ++ made.2
        if made.1.result.isNone then ⟨-1, made.1, events ++ release o.2 .outData, none⟩
        else
          let octets := write out.encode o.2
          let osize := returned octets.length
          let encoded := (octets, made.1.size - hdrSize)
          if osize < 0 then
            ⟨-1, encodeResult made.1 octets, events ++ release o.2 .outData, some encoded⟩
          else
            ⟨0, setSize (encodeResult made.1 octets) osize, events ++ release o.2 .outData, some encoded⟩

def hdlInVarsize : Done :=
  if cmd.type ≠ PKT_TYPE_CMD then ⟨-1, cmd, [], none⟩
  else
    let made := pktcmdAllocateResult a cmd 0
    if made.1.result.isNone then ⟨-1, made.1, made.2, none⟩
    else
      let i := decodeArg a arg len inarg .inData
      if i.ok = false then ⟨-1, made.1, made.2 ++ i.events, none⟩
      else if (callCmdcb made.1 cmdcb i.value).1 < 0 then
        ⟨-1, made.1, made.2 ++ i.events ++ release i.value .inData, none⟩
      else ⟨0, made.1, made.2 ++ i.events ++ release i.value .inData, none⟩

def hdlInVarsizeOutVarsize : Done :=
  if cmd.type ≠ PKT_TYPE_CMD then ⟨-1, cmd, [], none⟩
  else
    let i := decodeArg a arg len inarg .inData
    if i.ok = false then
      let made := pktcmdAllocateResult a cmd 0
      ⟨-1, made.1, i.events ++ made.2, none⟩
    else
      let o := callCmdcb cmd cmdcb i.value
      if o.1 < 0 then
        let made := pktcmdAllocateResult a cmd 0
        ⟨-1, made.1, i.events ++ made.2 ++ release i.value .inData, none⟩
      else
        let made := pktcmdAllocateResult a cmd (sizeofOut + 64 + o.2.int .size)
        let events := i.events ++ handed out o.2 ++ made.2
        let released := release i.value .inData ++ release o.2 .outData
        if made.1.result.isNone then ⟨-1, made.1, events ++ released, none⟩
        else
          let octets := write out.encode o.2
          let osize := returned octets.length
          let encoded := (octets, made.1.size - hdrSize)
          if osize < 0 then ⟨-1, encodeResult made.1 octets, events ++ released, some encoded⟩
          else ⟨0, setSize (encodeResult made.1 octets) osize, events ++ released, some encoded⟩

/-- An answer is decoded from an ACK only; with an NACK it stays cleared. -/
def decodeAck : Decoded :=
  if cmd.type = PKT_TYPE_CMDACK then decodeArg a arg len out .outData
  else ⟨true, .cleared Field.type, []⟩

def ackhdlOut : Done :=
  if cmd.type = PKT_TYPE_CMD then ⟨-1, cmd, [], none⟩
  else
    let o := decodeAck a cmd arg len out
    if o.ok = false then ⟨-1, cmd, o.events, none⟩
    else if callAckcb cmd ackcb (some o.value) < 0 then ⟨-1, cmd, o.events, none⟩
    else ⟨0, cmd, o.events, none⟩

def ackhdlOutVarsize : Done :=
  if cmd.type = PKT_TYPE_CMD then ⟨-1, cmd, [], none⟩
  else
    let o := decodeAck a cmd arg len out
    if o.ok = false then ⟨-1, cmd, o.events, none⟩
    else if callAckcb cmd ackcb (some o.value) < 0 then
      ⟨-1, cmd, o.events ++ release o.value .outData, none⟩
    else ⟨0, cmd, o.events ++ release o.value .outData, none⟩

def ackhdl : Done :=
  if cmd.type = PKT_TYPE_CMD then ⟨-1, cmd, [], none⟩
  else if callAckcb cmd ackcb none < 0 then ⟨-1, cmd, [], none⟩
  else ⟨0, cmd, [], none⟩

end

namespace Cmd

/-- The answer of a command whose handlers have one. -/
def outArg (c : Cmd) : Message Field := c.output.getD ⟨[], [], []⟩

variable (c : Cmd) (abi : Abi) (a : Answers) (cmd : Cmdinfo) (arg : Octets) (len : Int)

/-- `cmdcb` of the row. -/
def cmdcb : Done :=
  match c.hdl with
  | .inHdl => hdlIn a cmd arg len c.input (a.devcmdcb c)
  | .inOut => hdlInOut a cmd arg len c.input c.outArg (abi.sizeof c) (a.devcmdcb c)
  | .inOutVarsize => hdlInOutVarsize a cmd arg len c.input c.outArg (abi.sizeof c) (a.devcmdcb c)
  | .inVarsize => hdlInVarsize a cmd arg len c.input (a.devcmdcb c)
  | .inVarsizeOutVarsize =>
      hdlInVarsizeOutVarsize a cmd arg len c.input c.outArg (abi.sizeof c) (a.devcmdcb c)

/-- `ackcb` of the row. -/
def ackcb : Done :=
  match c.ackHdl with
  | .ackHdl => ackhdl cmd (a.devackcb c)
  | .out => ackhdlOut a cmd arg len c.outArg (a.devackcb c)
  | .outVarsize => ackhdlOutVarsize a cmd arg len c.outArg (a.devackcb c)

end Cmd

end OiAmc.Pktcmd

namespace OiAmc.Pktcmd

open MessageLayout ByteBuffer Pkt
open ByteOrder (Endian)

/-- The table, as `pktcmd_register_hdl` inserts it row by row. -/
def pktcmdCbs : List Cmd :=
  [.getHwModel, .getHwVersion, .getSwVersion, .getHwSerialNum, .getHwDescription, .setHwDescription,
    .getEtherInfo, .setEtherInfo, .getMac, .setMac, .getServerIp, .setServerIp, .getGatewayIp,
    .setGatewayIp, .getSysTime, .setSysTime, .getNtpMode, .setNtpMode, .getClkType, .setClkType,
    .getPorts, .getGlobalPortCfg, .setGlobalPortCfg, .getPortCfg, .setPortCfg, .delPortCfg,
    .downloadPortCfgFile, .uploadPortCfgFile, .downloadChCfgFile, .uploadChCfgFile, .getDevId,
    .setDevId, .getPackType, .setPackType, .getDevMode, .setDevMode, .getPortSdhMatrixCfg,
    .setPortSdhMatrixCfg, .getPortMatrixCfg, .setPortMatrixCfg, .downloadMatrixCfgFile,
    .uploadMatrixCfgFile, .gainScan, .chanScan, .getGlobalBertCfg, .setGlobalBertCfg, .getBertCfg,
    .setBertCfg, .delBertCfg, .startPrbs, .stopPrbs, .insertError, .sysReboot, .sysStart, .sysStop,
    .sysFirmwareUpgrade, .getSysResRep, .getLineStatInfo, .clrLineStatInfo, .getPortStatInfo,
    .clrPortStatInfo, .startPfmTest, .getPortPfmResult, .stopPfmTest, .getChCfg, .getChStatInfo,
    .clrChStatInfo, .getRawData, .getRtVoice, .getCallTrace]

def pktcmdHtQuery (id : UInt16) : Option Cmd := pktcmdCbs.find? fun c => c.id = id

def TYPE_IS_CMD (type : UInt8) : Prop := PKT_TYPE_CMD_MIN ≤ type ∧ type ≤ PKT_TYPE_CMD_MAX

instance (type : UInt8) : Decidable (TYPE_IS_CMD type) := inferInstanceAs (Decidable (_ ∧ _))

/-- A packet as the adapter hands it over, with its sender. -/
structure Packet where
  ph : Octets
  ip : List UInt8
  port : Int

/-- The result, the command that stays behind, and what happened. -/
structure Processed where
  rc : Int
  ctl : Cmdinfo
  events : List Ev

def pktcmdProcessCheckCmd (ph : Octets) (cmd : Cmdinfo) : Option Cmdinfo :=
  let type := pkthdrGetType ph
  let subtype := pkthdrGetSubtype ph
  if type = PKT_TYPE_KEEPALIVE then none
  else if ¬TYPE_IS_CMD type then none
  else
    some { cmd with
      id := (type &&& ~~~(PKT_TYPE_CMDACK ||| PKT_TYPE_CMDNACK)).toUInt16 <<< 8 ||| subtype.toUInt16
      type :=
        if type &&& PKT_TYPE_CMDACK ≠ 0 then PKT_TYPE_CMDACK
        else if type &&& PKT_TYPE_CMDNACK ≠ 0 then PKT_TYPE_CMDNACK
        else PKT_TYPE_CMD }

variable (host : Endian) (abi : Abi) (a : Answers)

def pktcmdDefaultCallback (cmd : Cmdinfo) : Done :=
  if cmd.type ≠ PKT_TYPE_CMD then ⟨-1, cmd, [], none⟩
  else
    match cmd.ph with
    | none => ⟨-1, cmd, [], none⟩
    | some ph =>
        ⟨-1, { cmd with result := some ⟨.packet, ph⟩, size := pkthdrGetPlen host ph, ph := none }, [], none⟩

def pktcmdHandle (cmd : Cmdinfo) (ph : Octets) : Done :=
  let data : Octets := fun i => ph (20 + i)
  let len := pkthdrGetDlen host ph
  match pktcmdHtQuery cmd.id with
  | none => pktcmdDefaultCallback host cmd
  | some c =>
      if cmd.type = PKT_TYPE_CMD then c.cmdcb abi a cmd data len else c.ackcb a cmd data len

/-- The command that a packet is, with nothing answered yet. -/
def pktcmdReceived (ctl : Cmdinfo) (p : Packet) : Option Cmdinfo :=
  (pktcmdProcessCheckCmd p.ph { ctl with ph := some p.ph, ip := p.ip, port := p.port }).map
    fun cmd => { cmd with result := none, size := 0 }

def pktcmdReply (cmd : Cmdinfo) (octets : Octets) : Octets :=
  let ph := pkthdrSetPlen host (pkthdrSetSync host octets) cmd.size
  let ph := pkthdrSetType ph ((cmd.id >>> 8).toUInt8 &&& 0xf3 ||| cmd.ackType)
  pkthdrSetTs host (pkthdrSetSubtype ph (cmd.id &&& 0x00ff).toUInt8) a.sec a.nsec

/-- `if (cmd->ph) free(cmd->ph)`. -/
def freePacket (cmd : Cmdinfo) : List Ev := if cmd.ph.isSome then [.freed .packet] else []

/-- What a handler leaves, with the type of the answer. -/
def acked (d : Done) : Cmdinfo :=
  { d.cmd with
    ph := none
    ackType := if d.rc < 0 then PKT_TYPE_CMDNACK else PKT_TYPE_CMDACK }

def pktcmdProcess (ctl : Cmdinfo) (packet : Option Packet) : Processed :=
  match packet with
  | none => ⟨0, { ctl with ph := none }, []⟩
  | some p =>
      match pktcmdReceived ctl p with
      | none => ⟨1, { ctl with ph := none, ip := p.ip, port := p.port }, [.made .packet, .freed .packet]⟩
      | some cmd =>
          let d := pktcmdHandle host abi a cmd p.ph
          let events := .made .packet :: (d.events ++ freePacket d.cmd)
          let cmd := acked d
          match cmd.result with
          | none => ⟨3, cmd, events⟩
          | some r =>
              ⟨3, { cmd with result := none, size := 0 }, events ++
                [.written (pktcmdReply host a cmd r.octets) cmd.size (some cmd.ip) cmd.port, .freed r.block]⟩

def pktcmdSendto (id : UInt16) (type : UInt8) (arg : Option (Value Field)) (len : Int)
    (ip : Option (List UInt8)) (port : Int) : Int × List Ev :=
  match arg with
  | none => (-1, [])
  | some v =>
      if len < 1 ∨ type ≠ PKT_TYPE_CMD ∧ type ≠ PKT_TYPE_CMDACK ∧ type ≠ PKT_TYPE_CMDNACK then (-1, [])
      else
        match pktcmdHtQuery id with
        | none => (-1, [])
        | some c =>
            if a.alloc (hdrSize + len + 64) then
              let octets :=
                if type = PKT_TYPE_CMD then write c.input.encode v
                else (c.output.map fun m => write m.encode v).getD []
              let enclen := returned octets.length
              if enclen < 0 then (-1, [.made .sending, .freed .sending])
              else
                let ph := overlay (fun _ => 0) 20 octets.length fun i => octets.getD i 0
                let ph := pkthdrSetDlen host (pkthdrSetSync host ph) enclen
                let ph := pkthdrSetType ph ((id >>> 8 &&& 0xff).toUInt8 ||| type)
                let ph := pkthdrSetSubtype ph (id &&& 0xff).toUInt8
                let ph := pkthdrSetChannel host (pkthdrSetDevice host ph 0) 0
                let ph := pkthdrSetTs host ph a.sec a.nsec
                (0, [.made .sending, .written ph (pkthdrGetPlen host ph) ip port, .freed .sending])
            else (-1, [.refused (hdrSize + len + 64)])

end OiAmc.Pktcmd

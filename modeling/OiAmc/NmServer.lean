import OiAmc.NmGlb

namespace OiAmc.NmComponent

open KeyedList NmGlb

def nmComponentE1phy : UInt32 := 0x00000001
def nmComponentFpga : UInt32 := 0x00000008
def nmComponentSwitch : UInt32 := 0x00000010

def nmModuleGlbInfo : UInt8 := 0x00
def nmModuleE1phy : UInt8 := 0x01
def nmModuleFpga : UInt8 := 0x04
def nmModuleSwitch : UInt8 := 0x05

def nmCmdGetBoardInfo : UInt8 := 0x01
def nmCmdGetE1phyStatus : UInt8 := 0x01
def nmCmdGetFpgaInfo : UInt8 := 0x01
def nmCmdGetFpgaStatus : UInt8 := 0x02
def nmCmdGetFpgaStat : UInt8 := 0x03
def nmCmdGetFpgaFlowStat : UInt8 := 0x04
def nmCmdGetSwPortStatus : UInt8 := 0x02

/-- The octets copied out of a number that are there. -/
def memcpy (src : List UInt8) (len : Nat) : Option (List UInt8) :=
  if len ≤ src.length then some (src.take len) else none

/-- Octets copied over the first ones of an allocated block. -/
def memcpyTo (block src : List UInt8) (len : Nat) : Option (List UInt8) :=
  if len ≤ block.length then (memcpy src len).map (· ++ block.drop len) else none

/-- Octets copied out of a block that may not be allocated. -/
def memcpyFrom (block : Option (List UInt8)) (len : Nat) : Option (List UInt8) :=
  match block with
  | some data => memcpy data len
  | none => if len = 0 then some [] else none

/-- A number of records, and the block that holds them. -/
structure Block where
  pcnt : UInt8
  data : Option (List UInt8)
  deriving DecidableEq, Repr

/-- A block is used again for as many records, and else allocated anew, for which there may be
no memory. -/
def Block.add (size : Nat) (alloc : Bool) (block : Block) (pcnt : UInt8) (da : List UInt8) :
    Option Block :=
  let len := pcnt.toNat * size
  match (if block.pcnt = pcnt then block.data else none) with
  | some data => (memcpyTo data da len).map fun data => { block with data := some data }
  | none =>
      if alloc then (memcpy da len).map fun data => ⟨pcnt, some data⟩ else some ⟨pcnt, none⟩

inductive FpgaData
  | status
  | stat
  | fstat
  deriving DecidableEq, Repr

/-- The sizes of fpga_port_status, fpga_port_stat and fpga_port_fstat. -/
def FpgaData.size : FpgaData → Nat
  | .status => 20
  | .stat => 16
  | .fstat => 4

structure FpgaComponent where
  id : UInt8
  type : UInt8
  st : Block
  sta : Block
  fsta : Block
  deriving DecidableEq, Repr

def FpgaComponent.block (entry : FpgaComponent) : FpgaData → Block
  | .status => entry.st
  | .stat => entry.sta
  | .fstat => entry.fsta

def FpgaComponent.setBlock (entry : FpgaComponent) (block : Block) : FpgaData → FpgaComponent
  | .status => { entry with st := block }
  | .stat => { entry with sta := block }
  | .fstat => { entry with fsta := block }

def FpgaComponent.idType (entry : FpgaComponent) : UInt8 × UInt8 := (entry.id, entry.type)

structure FpgaComponentCtl where
  lsthd : List FpgaComponent
  cnt : Nat
  deriving DecidableEq, Repr

def nmFpgaOpen : FpgaComponentCtl := ⟨[], 0⟩

def nmFpgaAddIdType (alloc : Bool) (ctl : FpgaComponentCtl) (id type : UInt8) :
    FpgaComponentCtl :=
  match lookup FpgaComponent.idType (id, type) ctl.lsthd with
  | some _ => ctl
  | none =>
      if alloc then ⟨⟨id, type, ⟨0, none⟩, ⟨0, none⟩, ⟨0, none⟩⟩ :: ctl.lsthd, ctl.cnt + 1⟩
      else ctl

def nmFpgaAddData (alloc : Bool) (ctl : FpgaComponentCtl) (id type : UInt8) (data : List UInt8)
    (flag : FpgaData) : Option FpgaComponentCtl :=
  match lookup FpgaComponent.idType (id, type) ctl.lsthd with
  | some entry => do
      let pcnt ← data.head?
      let block ← (entry.block flag).add flag.size alloc pcnt data.tail
      return { ctl with
        lsthd := alter FpgaComponent.idType (id, type) (fun entry => entry.setBlock block flag)
          ctl.lsthd }
  | none => some ctl

def NmLkaddrInfo.octets (lki : NmLkaddrInfo) : List UInt8 :=
  [lki.rack, lki.shelf, lki.slot, lki.subslot]

/-- A packet of data of a length, unless more is written to it. There may be no memory for it. -/
def nmData (alloc : Bool) (dlen : Nat) (octets : List UInt8) : Option (Option NmData) :=
  if !alloc then some none
  else if octets.length ≤ dlen then some (some ⟨dlen, octets⟩)
  else none

def nmFpgaGetIdTypePkt (alloc : Bool) (ctl : FpgaComponentCtl) (lki : NmLkaddrInfo) :
    Option (Option NmData) :=
  nmData alloc (4 + 1 + ctl.cnt * 2) (NmLkaddrInfo.octets lki ++ UInt8.ofNat ctl.cnt ::
    if 0 < ctl.cnt then ctl.lsthd.flatMap fun entry => [entry.id, entry.type] else [])

def nmFpgaGetDataPkt (alloc : Bool) (ctl : FpgaComponentCtl) (id type : UInt8)
    (lki : NmLkaddrInfo) (flag : FpgaData) : Option (Option NmData) :=
  match lookup FpgaComponent.idType (id, type) ctl.lsthd with
  | some entry =>
      let len := (entry.block flag).pcnt.toNat * flag.size
      if !alloc then some none
      else (memcpyFrom (entry.block flag).data len).bind fun records =>
        nmData alloc (4 + 1 + 1 + 1 + len)
          (NmLkaddrInfo.octets lki ++ id :: type :: (entry.block flag).pcnt :: records)
  | none => some none

/-- The size of nm_port_alarm and nm_port_stat. -/
def nmPortSize : Nat := 8 + 16

structure NmE1phyComponent where
  phycnt : UInt8
  pcnt : UInt8
  data : Option (List UInt8)
  deriving DecidableEq, Repr

def nmE1phyOpen : NmE1phyComponent := ⟨0, 0, none⟩

def nmE1phyAddData (alloc : Bool) (e1hd : NmE1phyComponent) (phycnt pcnt : UInt8)
    (p : List UInt8) : Option NmE1phyComponent :=
  let len := phycnt.toNat * pcnt.toNat * nmPortSize
  match e1hd.data with
  | some data =>
      if e1hd.phycnt = phycnt ∧ e1hd.pcnt = pcnt then
        (memcpyTo data p len).map fun data => { e1hd with data := some data }
      else some { e1hd with data := none }
  | none =>
      if alloc then (memcpy p len).map fun data => ⟨phycnt, pcnt, some data⟩
      else some ⟨phycnt, pcnt, none⟩

def nmE1phyGetDataPkt (alloc : Bool) (e1hd : NmE1phyComponent) (lki : NmLkaddrInfo) :
    Option (Option NmData) :=
  let length := e1hd.phycnt.toNat * e1hd.pcnt.toNat * nmPortSize
  if !alloc then some none
  else (memcpyFrom e1hd.data length).bind fun records =>
    nmData alloc (4 + 1 + 1 + length)
      (NmLkaddrInfo.octets lki ++ e1hd.phycnt :: e1hd.pcnt :: records)

/-- The size of sw_port_status, which is packed. -/
def swPortStatusSize : Nat := 18

def nmSwitchOpen : Block := ⟨0, none⟩

def nmSwitchAddData (alloc : Bool) (ctl : Block) (data : List UInt8) : Option Block := do
  let pcnt ← data.head?
  ctl.add swPortStatusSize alloc pcnt data.tail

def nmSwGetStatusPkt (alloc : Bool) (ctl : Block) (lki : NmLkaddrInfo) : Option (Option NmData) :=
  let len := ctl.pcnt.toNat * swPortStatusSize
  if !alloc then some none
  else (memcpyFrom ctl.data len).bind fun records =>
    nmData alloc (4 + 1 + len) (NmLkaddrInfo.octets lki ++ ctl.pcnt :: records)

structure NmComponentCtl where
  addr : Nat
  e1phy : Option NmE1phyComponent
  fpga : Option FpgaComponentCtl
  sw : Option Block
  deriving DecidableEq, Repr

def nmComponentOpen (addr : Nat) : NmComponentCtl := ⟨addr, none, none, none⟩

/-- Which allocations of a call find memory. -/
structure Allocs where
  component : Bool
  e1phy : Bool
  fpga : Bool
  sw : Bool
  data : Nat → Bool

def opened {α : Type} (comp flag : UInt32) (alloc : Bool) (fresh : α) (handle : Option α) :
    Option α :=
  if comp &&& flag ≠ 0 then handle <|> (if alloc then some fresh else none) else handle

/-- The first handle that cannot be opened is the last one that is tried. -/
def nmComponentOpenComp (allocs : Allocs) (ctl : NmComponentCtl) (comp : UInt32) :
    NmComponentCtl :=
  let ctl := { ctl with
    e1phy := opened comp nmComponentE1phy allocs.e1phy nmE1phyOpen ctl.e1phy }
  if comp &&& nmComponentE1phy ≠ 0 ∧ ctl.e1phy = none then ctl
  else
    let ctl := { ctl with fpga := opened comp nmComponentFpga allocs.fpga nmFpgaOpen ctl.fpga }
    if comp &&& nmComponentFpga ≠ 0 ∧ ctl.fpga = none then ctl
    else { ctl with sw := opened comp nmComponentSwitch allocs.sw nmSwitchOpen ctl.sw }

def nmComponentLprocE1phyStatus (allocs : Allocs) (e1hd : NmE1phyComponent) :
    List UInt8 → Option NmE1phyComponent
  | phycnt :: pcnt :: p => nmE1phyAddData (allocs.data 0) e1hd phycnt pcnt p
  | _ => none

def nmComponentLprocE1phy (allocs : Allocs) (ctl : NmComponentCtl) (cmd : UInt8)
    (data : List UInt8) : Option NmComponentCtl :=
  match ctl.e1phy with
  | none => some ctl
  | some e1hd =>
      if cmd = nmCmdGetE1phyStatus then
        (nmComponentLprocE1phyStatus allocs e1hd data).map fun e1hd =>
          { ctl with e1phy := some e1hd }
      else some ctl

/-- The loop over the ids and types, of which a number is left. -/
def addIdTypes (alloc : Nat → Bool) : Nat → FpgaComponentCtl → List UInt8 →
    Option FpgaComponentCtl
  | 0, ctl, _ => some ctl
  | cnt + 1, ctl, id :: type :: p =>
      addIdTypes alloc cnt (nmFpgaAddIdType (alloc cnt) ctl id type) p
  | _ + 1, _, _ => none

def nmComponentLprocFpgaInfo (allocs : Allocs) (fpga : FpgaComponentCtl) :
    List UInt8 → Option FpgaComponentCtl
  | cnt :: p => addIdTypes allocs.data cnt.toNat fpga p
  | [] => none

def nmComponentLprocDecodeIdType : List UInt8 → Option (UInt8 × UInt8)
  | id :: type :: _ => some (id, type)
  | _ => none

def addFpgaData (allocs : Allocs) (fpga : FpgaComponentCtl) (data : List UInt8)
    (flag : FpgaData) : Option FpgaComponentCtl :=
  (nmComponentLprocDecodeIdType data).bind fun p =>
    nmFpgaAddData (allocs.data 0) fpga p.1 p.2 data flag

def nmComponentLprocFpga (allocs : Allocs) (ctl : NmComponentCtl) (cmd : UInt8)
    (data : List UInt8) : Option NmComponentCtl :=
  match ctl.fpga with
  | none => some ctl
  | some fpga =>
      let fpga :=
        if cmd = nmCmdGetFpgaInfo then nmComponentLprocFpgaInfo allocs fpga data
        else if cmd = nmCmdGetFpgaStatus then addFpgaData allocs fpga data .status
        else if cmd = nmCmdGetFpgaStat then addFpgaData allocs fpga data .stat
        else if cmd = nmCmdGetFpgaFlowStat then addFpgaData allocs fpga data .fstat
        else some fpga
      fpga.map fun fpga => { ctl with fpga := some fpga }

def nmComponentLprocSwitch (allocs : Allocs) (ctl : NmComponentCtl) (cmd : UInt8)
    (data : List UInt8) : Option NmComponentCtl :=
  if cmd = nmCmdGetSwPortStatus then
    match ctl.sw with
    | none => some ctl
    | some sw => (nmSwitchAddData (allocs.data 0) sw data).map fun sw => { ctl with sw := some sw }
  else some ctl

def nmComponentLprocess (allocs : Allocs) (ctl : NmComponentCtl) (module cmd : UInt8)
    (data : List UInt8) : Option NmComponentCtl :=
  if module = nmModuleE1phy then nmComponentLprocE1phy allocs ctl cmd data
  else if module = nmModuleFpga then nmComponentLprocFpga allocs ctl cmd data
  else if module = nmModuleSwitch then nmComponentLprocSwitch allocs ctl cmd data
  else some ctl

/-- What can be asked of the component data of a board. -/
inductive Kind
  | e1phy
  | fpgaInfo
  | fpga (flag : FpgaData) (id type : UInt8)
  | switch
  deriving DecidableEq, Repr

def getPkt (alloc : Bool) (ctl : NmComponentCtl) (lki : NmLkaddrInfo) :
    Kind → Option (Option NmData)
  | .e1phy => match ctl.e1phy with
    | some e1hd => nmE1phyGetDataPkt alloc e1hd lki
    | none => some none
  | .fpgaInfo => match ctl.fpga with
    | some fpga => nmFpgaGetIdTypePkt alloc fpga lki
    | none => some none
  | .fpga flag id type => match ctl.fpga with
    | some fpga => nmFpgaGetDataPkt alloc fpga id type lki flag
    | none => some none
  | .switch => match ctl.sw with
    | some sw => nmSwGetStatusPkt alloc sw lki
    | none => some none

end OiAmc.NmComponent

namespace OiAmc.NmServer

open KeyedList NmGlb NmComponent

/-- A connected board, the second it was last heard of, and its component data. -/
structure Nmclient where
  peer : Peer
  timeS : UInt32
  component : Option NmComponentCtl
  deriving DecidableEq, Repr

structure NmclientCmd where
  peer : Peer
  deriving DecidableEq, Repr

structure NmclientCtrl where
  head : List Nmclient
  cmdHead : List NmclientCmd
  deriving DecidableEq, Repr

/-- The server for the boards. Component data is named by how much was opened before, and the
names of what was closed are kept. -/
structure NmserverSvr where
  schd : NmclientCtrl
  glb : NmsGlbCtl
  opened : Nat
  closed : List Nat

def nmserverOpen : NmserverSvr := ⟨⟨[], []⟩, nmsGlbOpen, 0, []⟩

def timeout : Int := 15

/-- The seconds of a time of day, as far as a client keeps them. -/
def seconds (tvSec : Int) : UInt32 := UInt32.ofNat (tvSec % 2 ^ 32).toNat

def nmclientCmdGet (ctrl : NmclientCtrl) : NmclientCtrl :=
  { ctrl with cmdHead := ctrl.cmdHead.tail }

def nmclientCmdDel (ctrl : NmclientCtrl) (peer : Peer) : NmclientCtrl :=
  { ctrl with cmdHead := ctrl.cmdHead.filter fun cmd => decide (cmd.peer ≠ peer) }

/-- A command for each client, as far as there is memory. -/
def queries (alloc : Nat → Bool) : List Nmclient → List NmclientCmd
  | [] => []
  | client :: clients =>
      if alloc clients.length then ⟨client.peer⟩ :: queries alloc clients
      else queries alloc clients

def nmclientCmdTimerQuery (alloc : Nat → Bool) (ctrl : NmclientCtrl) : NmclientCtrl :=
  { ctrl with cmdHead := ctrl.cmdHead ++ queries alloc ctrl.head }

def nmclientGetNode (ctrl : NmclientCtrl) (peer : Peer) : Option Nmclient :=
  lookup Nmclient.peer peer ctrl.head

def nmclientAddNode (alloc : Bool) (tvSec : Int) (ctrl : NmclientCtrl) (peer : Peer) :
    NmclientCtrl :=
  match nmclientGetNode ctrl peer with
  | some _ => ctrl
  | none => if alloc then { ctrl with head := ctrl.head ++ [⟨peer, seconds tvSec, none⟩] } else ctrl

def Nmclient.name? (client : Nmclient) : Option Nat := client.component.map NmComponentCtl.addr

def nmclientReleaseNode (ss : NmserverSvr) (client : Nmclient) : NmserverSvr :=
  { ss with closed := ss.closed ++ client.name?.toList }

def nmclientDelNode (ss : NmserverSvr) (peer : Peer) : NmserverSvr :=
  match nmclientGetNode ss.schd peer with
  | some client =>
      nmclientReleaseNode
        { ss with schd := { ss.schd with head := without Nmclient.peer peer ss.schd.head } } client
  | none => ss

def nmclientCheckTimeout (tvSec : Int) (client : Nmclient) : Bool :=
  decide (tvSec - client.timeS.toNat > timeout)

/-- The loop over the clients, some of which were passed already. The clock is read for each. -/
def timeoutRelease (tvSec : Nat → Int) (ss : NmserverSvr) (passed : List Nmclient) :
    List Nmclient → NmserverSvr
  | [] => ss
  | client :: clients =>
      if nmclientCheckTimeout (tvSec clients.length) client then
        let schd := nmclientCmdDel { ss.schd with head := passed ++ clients } client.peer
        let glb := nmsGlbDelBdinfo ss.glb client.peer
        timeoutRelease tvSec (nmclientReleaseNode { ss with schd, glb } client) passed clients
      else timeoutRelease tvSec ss (passed ++ [client]) clients

def nmclientTimeoutRelease (tvSec : Nat → Int) (ss : NmserverSvr) : NmserverSvr :=
  timeoutRelease tvSec ss [] ss.schd.head

def nmserverConncb (alloc : Bool) (memory : Option NmboardInfo) (tvSec : Int) (ss : NmserverSvr)
    (peer : Peer) : NmserverSvr :=
  { ss with
    schd := nmclientAddNode alloc tvSec ss.schd peer
    glb := nmsGlbInsertBdinfo ss.glb peer none memory }

def nmserverDisccb (ss : NmserverSvr) (peer : Peer) : NmserverSvr :=
  let ss := nmclientDelNode ss peer
  { ss with glb := nmsGlbDelBdinfo ss.glb peer }

def setNode (ss : NmserverSvr) (peer : Peer) (f : Nmclient → Nmclient) : NmserverSvr :=
  { ss with schd := { ss.schd with head := alter Nmclient.peer peer f ss.schd.head } }

def openComponent (alloc : Bool) (ss : NmserverSvr) (client : Nmclient) :
    Option (NmComponentCtl × NmserverSvr) :=
  match client.component with
  | some component => some (component, ss)
  | none =>
      if alloc then
        let component := nmComponentOpen ss.opened
        let ss := setNode ss client.peer fun client => { client with component := some component }
        some (component, { ss with opened := ss.opened + 1 })
      else none

def nmComponentLprocGlbBdinfo (allocs : Allocs) (memory : Option NmboardInfo) (tvSec : Int)
    (ss : NmserverSvr) (peer : Peer) (component : NmComponentCtl) (data : List UInt8) :
    Option NmserverSvr :=
  (nmGlbDecodeBdinfo data).map fun bdi =>
    let ss := { ss with glb := nmsGlbInsertBdinfo ss.glb peer (some bdi) memory }
    setNode ss peer fun client => { client with
      timeS := seconds tvSec
      component := some (nmComponentOpenComp allocs component bdi.comp) }

def nmclientLprocess (allocs : Allocs) (memory : Option NmboardInfo) (tvSec : Int)
    (ss : NmserverSvr) (peer : Peer) (module cmd : UInt8) (data : List UInt8) :
    Option NmserverSvr :=
  match nmclientGetNode ss.schd peer with
  | none => some ss
  | some client =>
      match openComponent allocs.component ss client with
      | none => some ss
      | some (component, ss) =>
          if module = nmModuleGlbInfo then
            if cmd = nmCmdGetBoardInfo then
              nmComponentLprocGlbBdinfo allocs memory tvSec ss peer component data
            else some ss
          else
            (nmComponentLprocess allocs component module cmd data).map fun component =>
              setNode ss peer fun client => { client with component := some component }

/-- The component data of the board with an address, by way of its connection. Without a board
the buffers for ip and port name any connection. -/
def nmclientRprocGetCompHdl (buffers : Peer) (ss : NmserverSvr) (lki : NmLkaddrInfo) :
    Option NmComponentCtl :=
  (nmclientGetNode ss.schd (nmsGlbGetIpPort ss.glb buffers lki)).bind Nmclient.component

/-- What is asked of the component data of a board. -/
inductive Query
  | e1phy
  | fpgaInfo
  | fpga (flag : FpgaData)
  | switch
  deriving DecidableEq, Repr

def Query.kind (id type : UInt8) : Query → Kind
  | .e1phy => .e1phy
  | .fpgaInfo => .fpgaInfo
  | .fpga flag => .fpga flag id type
  | .switch => .switch

/-- The id and the type, which only some queries have. They are looked for as far behind the
start of the data as an address of the machine is long. -/
def Query.idType (ptrsize : Nat) (data : List UInt8) : Query → Option (UInt8 × UInt8)
  | .fpga _ => do
      let id ← data[ptrsize]?
      let type ← data[ptrsize + 1]?
      return (id, type)
  | .e1phy | .fpgaInfo | .switch => some (0, 0)

/-- The reply to a query, from what is in memory from the start of its data on. -/
def nmclientRprocess (ptrsize : Nat) (buffers : Peer) (alloc : Bool) (ss : NmserverSvr)
    (query : Query) (data : List UInt8) : Option (Option NmData) := do
  let lki ← nmGlbDecodeLkaddrInfo data
  let (id, type) ← query.idType ptrsize data
  match nmclientRprocGetCompHdl buffers ss lki with
  | some component => getPkt alloc component lki (query.kind id type)
  | none => some none

end OiAmc.NmServer

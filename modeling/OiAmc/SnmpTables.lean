import OiAmc.NmGlb
import OiAmc.ByteOrder
import OiAmc.LockedCode
import OiAmc.NmServer

namespace OiAmc.SnmpTables

open BoardsInfoTable (indexOf snmpMaxBoardCnt)
open ByteOrder KeyedList LockedCode Code NmGlb
open NmComponent (nmModuleGlbInfo nmModuleE1phy nmModuleSwitch nmCmdGetBoardInfo nmCmdGetE1phyStatus
  nmCmdGetSwPortStatus)

def e1phymaxitems : Int := 10240
def switchmaxitems : Int := 10240
def switchPortNameLen : Nat := 32
def boardTypeEipbV2 : Int := 1
def boardTypeMpcbV3 : Int := 2
def boardTypeMacbV2 : Int := 3
def nmCmdSetSwPortAutoneg : UInt8 := 0x05
def nmCmdSetSwPortPwrdn : UInt8 := 0x06

/-- A table, as its list and the number that is kept beside it. -/
structure Rows (ε : Type) where
  head : List ε
  count : Int

structure E1Entry where
  position : UInt32
  port : Nat
  e1Port : Nat
  los : Nat
  lof : Nat
  ais : Nat
  rai : Nat
  casmfloss : Nat
  crcmfloss : Nat
  casmfrai : Nat
  oeq : Nat
  ueq : Nat
  jalt : Nat
  resf : Nat
  resem : Nat
  rslip : Nat
  rsl : Nat
  toc : Nat
  tsc : Nat
  code : Nat
  crc : Nat
  fas : Nat
  ebit : Nat
  valid : Int

structure SwitchEntry where
  position : UInt32
  port : Nat
  portName : List UInt8
  linkState : Int
  linkEnable : Int
  oldLinkEnable : Int
  autoNeg : Int
  oldAutoNeg : Int
  linkSpeed : Int
  duplex : Int
  valid : Int

/-- A pointer to a row. No two rows of a table have the same index values. -/
inductive RowPtr
  | boards (index : Int × Int × Int × Int)
  | e1 (position : UInt32) (port e1Port : Nat)
  | switch (position : UInt32) (port : Nat)
  deriving DecidableEq

inductive AsnType
  | ipaddress
  | integer
  | counter

inductive SnmpErr
  | nosuchobject
  | notwritable
  | code (err : Int)

inductive Out
  | integer (type : AsnType) (val : Int)
  | octets (val : List UInt8)
  | error (err : SnmpErr)
  | point (index : List (AsnType × Int)) (data : RowPtr) (next : Option RowPtr)
  | bdtype (val : Int)
  | packet (module cmd : UInt8) (data : List UInt8)

/-- The tables, with the array po of a caller of getboards. -/
structure Mem where
  boards : BoardsInfoTable.Table
  e1 : Rows E1Entry
  switch : Rows SwitchEntry
  po : Nat → NmLkaddrInfo
  out : List Out

inductive Lock
  | boards
  | e1
  | switch
  deriving DecidableEq

abbrev Fn := Code Lock Mem

def load (next : Mem → Fn) : Fn := step id next

def store (f : Mem → Mem) (next : Fn) : Fn := step f fun _ => next

def emit (out : Out) (next : Fn) : Fn := store (fun m => { m with out := m.out ++ [out] }) next

/-- What the functions of a table that read it have in common. -/
structure Reader (ε : Type) where
  lstlock : Lock
  rows : Mem → List ε
  ptr : ε → RowPtr
  index : ε → List (AsnType × Int)
  column : ε → Nat → Option Out

section Reader

variable {ε : Type} (t : Reader ε)

def deref (m : Mem) (p : RowPtr) (next : ε → Fn) : Fn :=
  match lookup t.ptr p (t.rows m) with
  | some entry => next entry
  | none => require false <| ret 0

def nextRow (m : Mem) (p : RowPtr) : Option RowPtr :=
  ((t.rows m).dropWhile fun entry => decide (t.ptr entry ≠ p)).tail.head?.map t.ptr

def getNextDataPoint (loopContext : Option RowPtr) : Fn :=
  lock t.lstlock <|
  match loopContext with
  | some p =>
      load fun m => deref t m p fun entry =>
      emit (.point (t.index entry) p (nextRow t m p)) <|
      unlock t.lstlock <|
      ret 1
  | none => unlock t.lstlock <| ret 0

def getFirstDataPoint : Fn := load fun m => getNextDataPoint t ((t.rows m).head?.map t.ptr)

end Reader

inductive Mode
  | get
  | setReserve1
  | setReserve2
  | setFree
  | setAction
  | setUndo
  | setCommit
  | other

/-- A request: the row that was found for it, and the value to be set, with what the check of its
type says. -/
structure Request where
  entry : Option RowPtr
  colnum : Nat
  checkVbInt : Int
  integer : Int

def modeGet {ε : Type} (t : Reader ε) : List Request → Fn → Fn
  | [], next => next
  | request :: requests, next =>
      match request.entry with
      | none => modeGet t requests next
      | some p =>
          load fun m => deref t m p fun entry =>
          emit ((t.column entry request.colnum).getD (.error .nosuchobject)) <|
          modeGet t requests next

def readHandler {ε : Type} (t : Reader ε) (mode : Mode) (requests : List Request) : Fn :=
  lock t.lstlock <|
  match mode with
  | .get => modeGet t requests <| unlock t.lstlock <| ret 0
  | _ => unlock t.lstlock <| ret 0

def delHeads {ε : Type} (valid : ε → Int) : List ε → Int → List ε × Int
  | [], count => ([], count)
  | n :: rest, count => if valid n = 0 then delHeads valid rest (count - 1) else (n :: rest, count)

def delBehind {ε : Type} (valid : ε → Int) : List ε → Int → List ε × Int
  | [], count => ([], count)
  | n :: p, count =>
      if valid n = 0 then delBehind valid p (count - 1)
      else
        let r := delBehind valid p count
        (n :: r.1, r.2)

def delInvalidEntrys {ε : Type} (valid : ε → Int) (rows : Rows ε) : Rows ε :=
  if rows.head.isEmpty then rows
  else
    match delHeads valid rows.head rows.count with
    | ([], _) => ⟨[], 0⟩
    | (head :: p, count) =>
        let r := delBehind valid p count
        ⟨head :: r.1, r.2⟩

/-! The boards. -/

def boardsReader : Reader BoardsInfoTable.Entry where
  lstlock := .boards
  rows m := m.boards.head
  ptr entry := .boards entry.index
  index entry :=
    [(.integer, entry.boardRack), (.integer, entry.boardShelf), (.integer, entry.boardSlot),
      (.integer, entry.boardSubSlot)]
  column entry
    | 1 => some (.integer .integer entry.boardRack)
    | 2 => some (.integer .integer entry.boardShelf)
    | 3 => some (.integer .integer entry.boardSlot)
    | 4 => some (.integer .integer entry.boardSubSlot)
    | 5 => some (.integer .integer entry.boardType)
    | 6 => some (.integer .integer entry.boardStat)
    | _ => none

def boardsInfoTableGetFirstDataPoint : Fn := getFirstDataPoint boardsReader

def boardsInfoTableGetNextDataPoint (loopContext : Option RowPtr) : Fn :=
  getNextDataPoint boardsReader loopContext

def boardsInfoTableHandler (mode : Mode) (requests : List Request) : Fn :=
  readHandler boardsReader mode requests

def boardsInfoTableResetValid : Fn :=
  load fun m =>
  if m.boards.head.isEmpty then ret 0
  else
    lock .boards <|
    store (fun m => { m with boards := BoardsInfoTable.resetValid m.boards }) <|
    unlock .boards <|
    ret 0

/-- The fields of a nmboard_info that are read. -/
structure Record where
  po : NmLkaddrInfo
  bdtype : UInt8
  stat : UInt8

def boardsInfoTableUpdate (alloc : Bool) (bdinfo : Option Record) : Fn :=
  match bdinfo with
  | none => ret (-1)
  | some bdinfo =>
      let put (m : Mem) :=
        { m with boards := BoardsInfoTable.update alloc m.boards bdinfo.po bdinfo.bdtype bdinfo.stat }
      lock .boards <|
      load fun m =>
      match lookup BoardsInfoTable.Entry.index (indexOf bdinfo.po) m.boards.head with
      | some _ => store put <| unlock .boards <| ret 0
      | none =>
          if alloc then store put <| unlock .boards <| ret 0
          else unlock .boards <| ret (-1)

def boardsInfoTableDeleteInvalid : Fn :=
  lock .boards <|
  store (fun m => { m with boards := BoardsInfoTable.delInvalidEntrys m.boards }) <|
  unlock .boards <|
  ret 0

def boardsInfoTableGetbdtype (po : NmLkaddrInfo) (given : Bool) : Fn :=
  if !given then ret (-1)
  else
    lock .boards <|
    load fun m =>
    match BoardsInfoTable.getbdtype m.boards po with
    | some bdtype => emit (.bdtype bdtype) <| unlock .boards <| ret 0
    | none => unlock .boards <| ret (-1)

def octet (x : Int) : UInt8 := UInt8.ofBitVec (BitVec.ofInt 8 x)

def location (entry : BoardsInfoTable.Entry) : NmLkaddrInfo :=
  ⟨octet entry.boardRack, octet entry.boardShelf, octet entry.boardSlot, octet entry.boardSubSlot⟩

/-- The array from a place on, with some boards stored there. -/
def fill (po : Nat → NmLkaddrInfo) (base : Nat) (found : List NmLkaddrInfo) (i : Nat) : NmLkaddrInfo :=
  if i < base then po i else found.getD (i - base) (po i)

/-- The boards of a type are stored from a place of the array po on, if there is one. With the
board that reaches the limit it returns as it is. -/
def boardsInfoTableGetboards (bdtype : Int) (po : Option Nat) : Fn :=
  match po with
  | none => ret 0
  | some base =>
      lock .boards <|
      load fun m =>
      let boards := m.boards.head.filter fun entry => decide (entry.boardType = bdtype)
      let found := (boards.take snmpMaxBoardCnt).map location
      require (decide (base + found.length ≤ snmpMaxBoardCnt)) <|
      store (fun m => { m with po := fill m.po base found }) <|
      check (decide (boards.length < snmpMaxBoardCnt)) (ret 0) <|
      unlock .boards <|
      ret boards.length

def boardsInfoTableClear : Fn :=
  lock .boards <|
  store (fun m => { m with boards := ⟨[], 0⟩ }) <|
  unlock .boards <|
  ret 0

def sendLoop : List BoardsInfoTable.Entry → Fn → Fn
  | [], next => next
  | entry :: entries, next =>
      let buf := [octet entry.boardRack, octet entry.boardShelf, octet entry.boardSlot, octet entry.boardSubSlot]
      if entry.boardType = boardTypeMpcbV3 ∨ entry.boardType = boardTypeMacbV2 then
        emit (.packet nmModuleSwitch nmCmdGetSwPortStatus buf) <| sendLoop entries next
      else if entry.boardType = boardTypeEipbV2 then
        emit (.packet nmModuleE1phy nmCmdGetE1phyStatus buf) <| sendLoop entries next
      else sendLoop entries next

def boardsInfoTableProcSendReq : Fn :=
  lock .boards <|
  load fun m => sendLoop m.boards.head <|
  unlock .boards <|
  ret 0

/-! The alarms of the E1. -/

def e1Reader : Reader E1Entry where
  lstlock := .e1
  rows m := m.e1.head
  ptr entry := .e1 entry.position entry.port entry.e1Port
  index entry := [(.ipaddress, entry.position.toNat), (.integer, entry.port), (.integer, entry.e1Port)]
  column entry
    | 1 => some (.integer .ipaddress entry.position.toNat)
    | 2 => some (.integer .integer entry.port)
    | 3 => some (.integer .integer entry.e1Port)
    | 4 => some (.integer .integer entry.los)
    | 5 => some (.integer .integer entry.lof)
    | 6 => some (.integer .integer entry.ais)
    | 7 => some (.integer .integer entry.rai)
    | 8 => some (.integer .integer entry.casmfloss)
    | 9 => some (.integer .integer entry.crcmfloss)
    | 10 => some (.integer .integer entry.casmfrai)
    | 11 => some (.integer .integer entry.oeq)
    | 12 => some (.integer .integer entry.ueq)
    | 13 => some (.integer .integer entry.jalt)
    | 14 => some (.integer .integer entry.resf)
    | 15 => some (.integer .integer entry.resem)
    | 16 => some (.integer .integer entry.rslip)
    | 17 => some (.integer .integer entry.rsl)
    | 18 => some (.integer .integer entry.toc)
    | 19 => some (.integer .integer entry.tsc)
    | 20 => some (.integer .counter entry.code)
    | 21 => some (.integer .counter entry.crc)
    | 22 => some (.integer .counter entry.fas)
    | 23 => some (.integer .counter entry.ebit)
    | _ => none

def e1PhyMibPortInfoAlarmTableGetFirstDataPoint : Fn := getFirstDataPoint e1Reader

def e1PhyMibPortInfoAlarmTableGetNextDataPoint (loopContext : Option RowPtr) : Fn :=
  getNextDataPoint e1Reader loopContext

def e1PhyMibPortInfoAlarmTableHandler (mode : Mode) (requests : List Request) : Fn :=
  readHandler e1Reader mode requests

def positionOf (po : NmLkaddrInfo) : UInt32 :=
  po.rack.toUInt32 <<< 24 ||| po.shelf.toUInt32 <<< 16 ||| po.slot.toUInt32 <<< 8 ||| po.subslot.toUInt32

def newE1Entry (position : UInt32) (port e1Port : Nat) : E1Entry :=
  ⟨position, port, e1Port, 0, 0, 0, 0, 0, 0, 0, 0, 0, 0, 0, 0, 0, 0, 0, 0, 0, 0, 0, 0, 0⟩

/-- al and st: where the nm_port_alarm and the nm_port_stat stand. The row was found by the index
values that it gets. -/
def updateE1Entry (host : Endian) (data : Octets) (al st : Nat) (entry : E1Entry) : E1Entry :=
  let r := load32 host data al
  let t := load32 host data (al + 4)
  let flag (tmp mask : UInt32) := if tmp &&& mask ≠ 0 then 1 else 0
  { entry with
    los := flag r 0x00000001
    lof := flag r 0x00000002
    ais := flag r 0x00000004
    rai := flag r 0x00000008
    casmfloss := flag r 0x00000010
    crcmfloss := flag r 0x00000020
    casmfrai := flag r 0x00000040
    oeq := flag r 0x00010000
    ueq := flag r 0x00020000
    jalt := flag r 0x00040000
    resf := flag r 0x00080000
    resem := flag r 0x00100000
    rslip := flag r 0x00200000
    rsl := ((r &&& 0xf0000000) >>> 28).toNat
    toc := flag t 0x00000001
    tsc := flag t 0x00000002
    code := (load32 host data st).toNat
    crc := (load32 host data (st + 4)).toNat
    fas := (load32 host data (st + 8)).toNat
    ebit := (load32 host data (st + 12)).toNat }

/-- The row of the E1 that is reported as the k-th. -/
def e1Ptr (position : UInt32) (k : Nat) : RowPtr := .e1 position (k / 16 + 1) (k % 16 + 1)

/-- The alarms and then the statistics of all 16 * 8 E1 stand behind the two numbers. -/
def setE1 (host : Endian) (position : UInt32) (data : Octets) (k : Nat) (m : Mem) : Mem :=
  let entry := updateE1Entry host data (2 + 8 * k) (2 + 8 * 128 + 16 * k)
  { m with e1 := { m.e1 with head := alter e1Reader.ptr (e1Ptr position k) entry m.e1.head } }

def addE1 (position : UInt32) (k : Nat) (m : Mem) : Mem :=
  { m with e1 := ⟨newE1Entry position (k / 16 + 1) (k % 16 + 1) :: m.e1.head, m.e1.count + 1⟩ }

def e1Loop (host : Endian) (alloc : Nat → Bool) (position : UInt32) (data : Octets) : List Nat → Fn → Fn
  | [], next => next
  | k :: ks, next =>
      let rest := store (setE1 host position data k) (e1Loop host alloc position data ks next)
      load fun m =>
      match lookup e1Reader.ptr (e1Ptr position k) m.e1.head with
      | some _ => rest
      | none => check (alloc k) (ret (-1)) <| store (addE1 position k) rest

def e1PhyMibPortInfoAlarmTableUpdate (host : Endian) (alloc : Nat → Bool) (po : NmLkaddrInfo)
    (data : Octets) : Fn :=
  load fun m =>
  if m.e1.count ≥ e1phymaxitems then ret (-1)
  else
    lock .e1 <|
    check (data 0 == 16 && data 1 == 8) (ret (-1)) <|
    e1Loop host alloc (positionOf po) data (List.range (8 * 16)) <|
    unlock .e1 <|
    ret 0

/-- Whether one of so many boards of po stands at a position. -/
def isAt (m : Mem) (cnt : Nat) (position : UInt32) : Bool :=
  (List.range cnt).any fun i => positionOf (m.po i) == position

def markE1 (m : Mem) (cnt : Nat) (entry : E1Entry) : E1Entry :=
  if isAt m cnt entry.position then { entry with valid := 1 } else entry

def e1PhyMibPortInfoAlarmTableCheckAndClear : Fn :=
  load fun m =>
  if m.e1.head.isEmpty then ret 0
  else
    lock .e1 <|
    store (fun m => { m with
      e1 := { m.e1 with head := m.e1.head.map fun entry => { entry with valid := 0 } }
      po := fun _ => ⟨0, 0, 0, 0⟩ }) <|
    call (boardsInfoTableGetboards boardTypeEipbV2 (some 0)) fun cnt =>
    store (fun m => { m with
      e1 := delInvalidEntrys E1Entry.valid { m.e1 with head := m.e1.head.map (markE1 m cnt.toNat) } }) <|
    unlock .e1 <|
    ret 0

def e1PhyMibPortInfoAlarmTableClear : Fn :=
  lock .e1 <|
  store (fun m => { m with e1 := ⟨[], 0⟩ }) <|
  unlock .e1 <|
  ret 0

/-! The ports of the switches. -/

def switchReader : Reader SwitchEntry where
  lstlock := .switch
  rows m := m.switch.head
  ptr entry := .switch entry.position entry.port
  index entry := [(.ipaddress, entry.position.toNat), (.integer, entry.port)]
  column entry
    | 1 => some (.integer .ipaddress entry.position.toNat)
    | 2 => some (.integer .integer entry.port)
    | 3 => some (.octets entry.portName)
    | 4 => some (.integer .integer entry.linkState)
    | 5 => some (.integer .integer entry.linkEnable)
    | 6 => some (.integer .integer entry.autoNeg)
    | 7 => some (.integer .integer entry.linkSpeed)
    | 8 => some (.integer .integer entry.duplex)
    | _ => none

def switchMibPortInfoStatTableGetFirstDataPoint : Fn := getFirstDataPoint switchReader

def switchMibPortInfoStatTableGetNextDataPoint (loopContext : Option RowPtr) : Fn :=
  getNextDataPoint switchReader loopContext

def newSwitchEntry (position : UInt32) (port : Nat) : SwitchEntry :=
  ⟨position, port, [], 0, 0, 0, 0, 0, 0, 0, 0⟩

/-- The name goes up to a 0, which has to come before the place in the row is full. -/
def nameAt (data : Octets) (ps : Nat) : List UInt8 :=
  ((List.range switchPortNameLen).map fun i => data (ps + 1 + i)).takeWhile (· ≠ 0)

def updateSwitchEntry (data : Octets) (ps : Nat) (entry : SwitchEntry) : SwitchEntry :=
  { entry with
    portName := nameAt data ps
    autoNeg := (data (ps + 13)).toNat
    linkEnable := (data (ps + 14)).toNat
    linkState := (data (ps + 15)).toNat
    duplex := (data (ps + 16)).toNat
    linkSpeed := (data (ps + 17)).toNat }

/-- Where there is no memory for a row, the same record is taken again in the next round. -/
def switchLoop (alloc : Nat → Bool) (position : UInt32) (data : Octets) : List Nat → Nat → Fn → Fn
  | [], _, next => next
  | i :: is, ps, next =>
      let port := (data ps).toNat
      let p := RowPtr.switch position port
      let rest :=
        require (decide ((nameAt data ps).length < switchPortNameLen)) <|
        store
          (fun m => { m with switch := { m.switch with
            head := alter switchReader.ptr p (updateSwitchEntry data ps) m.switch.head } })
          (switchLoop alloc position data is (ps + NmComponent.swPortStatusSize) next)
      load fun m =>
      match lookup switchReader.ptr p m.switch.head with
      | some _ => rest
      | none =>
          if alloc i then
            store (fun m => { m with
              switch := ⟨newSwitchEntry position port :: m.switch.head, m.switch.count + 1⟩ }) rest
          else switchLoop alloc position data is ps next

def switchMibPortInfoStatTableUpdate (alloc : Nat → Bool) (po : NmLkaddrInfo) (cnt : Nat)
    (data : Option Octets) : Fn :=
  match data with
  | none => ret (-1)
  | some data =>
      load fun m =>
      if m.switch.count ≥ switchmaxitems then ret (-1)
      else
        lock .switch <|
        switchLoop alloc (positionOf po) data (List.range cnt) 0 <|
        unlock .switch <|
        ret 0

def markSwitch (m : Mem) (cnt : Nat) (entry : SwitchEntry) : SwitchEntry :=
  if isAt m cnt entry.position then { entry with valid := 1 } else entry

def switchMibPortInfoStatTableCheckAndClear : Fn :=
  load fun m =>
  if m.switch.head.isEmpty then ret 0
  else
    lock .switch <|
    store (fun m => { m with
      switch := { m.switch with head := m.switch.head.map fun entry => { entry with valid := 0 } }
      po := fun _ => ⟨0, 0, 0, 0⟩ }) <|
    call (boardsInfoTableGetboards boardTypeEipbV2 (some 0)) fun cnt1 =>
    call (boardsInfoTableGetboards boardTypeMpcbV3 (some cnt1.toNat)) fun cnt2 =>
    call (boardsInfoTableGetboards boardTypeMacbV2 (some (cnt1 + cnt2).toNat)) fun cnt3 =>
    store (fun m => { m with
      switch := delInvalidEntrys SwitchEntry.valid { m.switch with
        head := m.switch.head.map (markSwitch m (cnt1 + cnt2 + cnt3).toNat) } }) <|
    unlock .switch <|
    ret 0

def switchMibPortInfoStatTableClear : Fn :=
  lock .switch <|
  store (fun m => { m with switch := ⟨[], 0⟩ }) <|
  unlock .switch <|
  ret 0

/-- A request that cannot be carried out ends the handler. -/
def modeSetReserve1 : List Request → Fn → Fn
  | [], next => next
  | request :: requests, next =>
      if request.colnum = 5 ∨ request.colnum = 6 then
        if request.checkVbInt ≠ 0 then
          emit (.error (.code request.checkVbInt)) <| unlock .switch <| ret 0
        else modeSetReserve1 requests next
      else emit (.error .notwritable) <| unlock .switch <| ret 0

/-- What is done with the row of each request, which has to have one where its column can be
written. -/
def modeSet (f : Request → SwitchEntry → SwitchEntry) : List Request → Fn → Fn
  | [], next => next
  | request :: requests, next =>
      if request.colnum = 5 ∨ request.colnum = 6 then
        match request.entry with
        | none => require false <| ret 0
        | some p =>
            load fun m => deref switchReader m p fun _ =>
            store
              (fun m => { m with switch := { m.switch with
                head := alter switchReader.ptr p (f request) m.switch.head } }) <|
            modeSet f requests next
      else modeSet f requests next

def setAction (request : Request) (entry : SwitchEntry) : SwitchEntry :=
  if request.colnum = 5 then { entry with oldLinkEnable := entry.linkEnable, linkEnable := request.integer }
  else { entry with oldAutoNeg := entry.autoNeg, autoNeg := request.integer }

def setUndo (request : Request) (entry : SwitchEntry) : SwitchEntry :=
  if request.colnum = 5 then { entry with linkEnable := entry.oldLinkEnable, oldLinkEnable := 0 }
  else { entry with autoNeg := entry.oldAutoNeg, oldAutoNeg := 0 }

def switchMibPortInfoStatTableHandler (mode : Mode) (requests : List Request) : Fn :=
  lock .switch <|
  match mode with
  | .get => modeGet switchReader requests <| unlock .switch <| ret 0
  | .setReserve1 => modeSetReserve1 requests <| unlock .switch <| ret 0
  | .setAction => modeSet setAction requests <| unlock .switch <| ret 0
  | .setUndo => modeSet setUndo requests <| unlock .switch <| ret 0
  | _ => unlock .switch <| ret 0

/-! The packets, which are handed over from behind their headers on. -/

def recordAt (p : Octets) (bdinfo : Nat) : Record :=
  ⟨⟨p bdinfo, p (bdinfo + 1), p (bdinfo + 2), p (bdinfo + 3)⟩, p (bdinfo + 8), p (bdinfo + 9)⟩

def updateLoop (alloc : Nat → Bool) (p : Octets) : List Nat → Fn → Fn
  | [], next => next
  | i :: is, next =>
      call (boardsInfoTableUpdate (alloc i) (some (recordAt p (1 + nmboardInfoSize * i)))) fun _ =>
      updateLoop alloc p is next

def socketAdaptProcGlbinfoModule (alloc : Nat → Bool) (cmd : UInt8) (p : Octets) : Fn :=
  if cmd = nmCmdGetBoardInfo then
    call boardsInfoTableResetValid fun _ =>
    updateLoop alloc p (List.range (p 0).toNat) <|
    call boardsInfoTableDeleteInvalid fun _ =>
    ret 0
  else ret (-1)

def addressAt (p : Octets) : NmLkaddrInfo := ⟨p 0, p 1, p 2, p 3⟩

def socketAdaptProcE1phyModule (host : Endian) (alloc : Nat → Bool) (cmd : UInt8) (p : Octets) : Fn :=
  if cmd = nmCmdGetE1phyStatus then
    call (e1PhyMibPortInfoAlarmTableUpdate host alloc (addressAt p) fun i => p (4 + i)) fun _ =>
    ret 0
  else ret (-1)

def socketAdaptProcSwitchModule (alloc : Nat → Bool) (cmd : UInt8) (p : Octets) : Fn :=
  if cmd = nmCmdGetSwPortStatus then
    call (switchMibPortInfoStatTableUpdate alloc (addressAt p) (p 4).toNat (some fun i => p (5 + i))) fun _ =>
    ret 0
  else if cmd = nmCmdSetSwPortAutoneg ∨ cmd = nmCmdSetSwPortPwrdn then ret 0
  else ret (-1)

/-- Only a positive number is the length of an answer. -/
def answer (sent : Bool) (module cmd : UInt8) (p : Octets) (dlen : Int) : Fn :=
  if dlen ≤ 0 then ret dlen
  else emit (.packet module cmd ((List.range dlen.toNat).map p)) <| if sent then ret 0 else ret (-1)

def socketAdaptRxProcess (host : Endian) (alloc : Nat → Bool) (sent : Bool) (module cmd : UInt8)
    (p : Octets) : Fn :=
  if module = nmModuleGlbInfo then
    call (socketAdaptProcGlbinfoModule alloc cmd p) (answer sent module cmd p)
  else if module = nmModuleE1phy then
    call (socketAdaptProcE1phyModule host alloc cmd p) (answer sent module cmd p)
  else if module = nmModuleSwitch then
    call (socketAdaptProcSwitchModule alloc cmd p) (answer sent module cmd p)
  else ret (-1)

def socketAdaptTimercb : Fn :=
  emit (.packet nmModuleGlbInfo nmCmdGetBoardInfo []) <|
  call boardsInfoTableProcSendReq fun _ =>
  ret 0

end OiAmc.SnmpTables

import OiAmc.KeyedList
import Mathlib.Data.UInt
import Mathlib.Data.Int.Notation

namespace OiAmc.NmGlb

open KeyedList

structure NmLkaddrInfo where
  rack : UInt8
  shelf : UInt8
  slot : UInt8
  subslot : UInt8
  deriving DecidableEq, Repr

structure NmboardInfo where
  rack : UInt8
  shelf : UInt8
  slot : UInt8
  subslot : UInt8
  comp : UInt32
  bdtype : UInt8
  stat : UInt8
  deriving DecidableEq, Repr

/-- The size of nmboard_info, which is packed. -/
def nmboardInfoSize : Nat := 10

def NmboardInfo.lki (bdi : NmboardInfo) : NmLkaddrInfo := ⟨bdi.rack, bdi.shelf, bdi.slot, bdi.subslot⟩

/-- The other end of a connection, by which boards are told apart. -/
structure Peer where
  ip : String
  port : UInt16
  deriving DecidableEq, Repr

structure NmsBdinfo where
  peer : Peer
  bdi : NmboardInfo
  deriving DecidableEq, Repr

structure NmsGlbCtl where
  nmbdiCnt : Nat
  lsthd : List NmsBdinfo

def nmsGlbOpen : NmsGlbCtl := ⟨0, []⟩

def nmsGlbFindEntryByip (ctl : NmsGlbCtl) (peer : Peer) : Option NmsBdinfo :=
  lookup NmsBdinfo.peer peer ctl.lsthd

def nmsGlbFindEntryBylki (ctl : NmsGlbCtl) (lki : NmLkaddrInfo) : Option NmsBdinfo :=
  lookup (fun entry => entry.bdi.lki) lki ctl.lsthd

/-- A new entry without board information keeps what its memory holds. There may be no memory
for it. -/
def nmsGlbInsertBdinfo (ctl : NmsGlbCtl) (peer : Peer) (bdi memory : Option NmboardInfo) :
    NmsGlbCtl :=
  match nmsGlbFindEntryByip ctl peer with
  | some _ => { ctl with
      lsthd := alter NmsBdinfo.peer peer (fun entry => ⟨peer, bdi.getD entry.bdi⟩) ctl.lsthd }
  | none =>
      match memory with
      | none => ctl
      | some garbage => ⟨ctl.nmbdiCnt + 1, ⟨peer, bdi.getD garbage⟩ :: ctl.lsthd⟩

def nmsGlbGetIpPort (ctl : NmsGlbCtl) (buffers : Peer) (lki : NmLkaddrInfo) : Peer :=
  match nmsGlbFindEntryBylki ctl lki with
  | some entry => entry.peer
  | none => buffers

def nmsGlbDelBdinfo (ctl : NmsGlbCtl) (peer : Peer) : NmsGlbCtl :=
  match nmsGlbFindEntryByip ctl peer with
  | some _ => ⟨ctl.nmbdiCnt - 1, without NmsBdinfo.peer peer ctl.lsthd⟩
  | none => ctl

def coding32 (v : UInt32) : List UInt8 :=
  [UInt8.ofNat (v.toNat / 2 ^ 24), UInt8.ofNat (v.toNat / 2 ^ 16), UInt8.ofNat (v.toNat / 2 ^ 8),
    UInt8.ofNat v.toNat]

def decode32 (a b c d : UInt8) : UInt32 :=
  UInt32.ofNat (a.toNat * 2 ^ 24 + b.toNat * 2 ^ 16 + c.toNat * 2 ^ 8 + d.toNat)

def nmGlbCodeBdinfo (bdi : NmboardInfo) : List UInt8 :=
  [bdi.rack, bdi.shelf, bdi.slot, bdi.subslot] ++ coding32 bdi.comp ++ [bdi.bdtype, bdi.stat]

/-- The octets are read without regard to how many there are. -/
def nmGlbDecodeBdinfo : List UInt8 → Option NmboardInfo
  | rack :: shelf :: slot :: subslot :: a :: b :: c :: d :: bdtype :: stat :: _ =>
      some ⟨rack, shelf, slot, subslot, decode32 a b c d, bdtype, stat⟩
  | _ => none

def nmGlbDecodeLkaddrInfo : List UInt8 → Option NmLkaddrInfo
  | rack :: shelf :: slot :: subslot :: _ => some ⟨rack, shelf, slot, subslot⟩
  | _ => none

/-- The entries are written for as long as the place for the next one is inside of len octets. -/
def codeEntries (len : Nat) : Nat → List NmsBdinfo → List UInt8
  | _, [] => []
  | bdi, entry :: entries =>
      if bdi < len then
        nmGlbCodeBdinfo entry.bdi ++ codeEntries len (bdi + nmboardInfoSize) entries
      else codeEntries len bdi entries

/-- The data of a packet: its length, and the octets that were written to it. Beyond its
length none may be. -/
structure NmData where
  dlen : Nat
  octets : List UInt8
  deriving DecidableEq, Repr

def nmsGlbGetAllBdinfoPkt (ctl : NmsGlbCtl) : Option NmData :=
  let dlen := ctl.nmbdiCnt * nmboardInfoSize + 1
  let octets := UInt8.ofNat ctl.nmbdiCnt :: codeEntries dlen 1 ctl.lsthd
  if octets.length ≤ dlen then some ⟨dlen, octets⟩ else none

-- What is written is read back.

theorem decode32_coding32 (v : UInt32) :
    decode32 (UInt8.ofNat (v.toNat / 2 ^ 24)) (UInt8.ofNat (v.toNat / 2 ^ 16))
      (UInt8.ofNat (v.toNat / 2 ^ 8)) (UInt8.ofNat v.toNat) = v := by
  have hv := v.toNat_lt
  apply UInt32.toNat_inj.mp
  simp only [decode32, UInt8.toNat_ofNat', UInt32.toNat_ofNat']
  omega

theorem length_codeBdinfo (bdi : NmboardInfo) : (nmGlbCodeBdinfo bdi).length = nmboardInfoSize := rfl

theorem decode_codeBdinfo (bdi : NmboardInfo) (rest : List UInt8) :
    nmGlbDecodeBdinfo (nmGlbCodeBdinfo bdi ++ rest) = some bdi := by
  obtain ⟨rack, shelf, slot, subslot, comp, bdtype, stat⟩ := bdi
  exact congrArg (fun comp => some (NmboardInfo.mk rack shelf slot subslot comp bdtype stat))
    (decode32_coding32 comp)

theorem codeEntries_eq (entries : List NmsBdinfo) (bdi len : Nat)
    (h : bdi + entries.length * nmboardInfoSize ≤ len) :
    codeEntries len bdi entries = entries.flatMap fun entry => nmGlbCodeBdinfo entry.bdi := by
  induction entries generalizing bdi with
  | nil => rfl
  | cons entry entries ih =>
      rw [List.length_cons, nmboardInfoSize] at h
      rw [codeEntries, if_pos (by omega), ih _ (by rw [nmboardInfoSize]; omega), List.flatMap_cons]

theorem length_codeEntries (entries : List NmsBdinfo) :
    (entries.flatMap fun entry => nmGlbCodeBdinfo entry.bdi).length =
      entries.length * nmboardInfoSize := by
  induction entries with
  | nil => rfl
  | cons entry entries ih =>
      rw [List.flatMap_cons, List.length_append, ih, length_codeBdinfo, List.length_cons,
        Nat.succ_mul, Nat.add_comm]

theorem getAllBdinfoPkt_eq {ctl : NmsGlbCtl} (h : ctl.nmbdiCnt = ctl.lsthd.length) :
    nmsGlbGetAllBdinfoPkt ctl = some ⟨ctl.lsthd.length * nmboardInfoSize + 1,
      UInt8.ofNat ctl.lsthd.length :: ctl.lsthd.flatMap fun entry => nmGlbCodeBdinfo entry.bdi⟩ := by
  have hall := codeEntries_eq ctl.lsthd 1 (ctl.lsthd.length * nmboardInfoSize + 1)
    (Nat.le_of_eq (Nat.add_comm _ _))
  rw [nmsGlbGetAllBdinfoPkt, h, hall,
    if_pos (Nat.le_of_eq (by rw [List.length_cons, length_codeEntries]))]

end OiAmc.NmGlb

namespace OiAmc.BoardsInfoTable

open KeyedList NmGlb

def snmpMaxBoardCnt : Nat := 256

def nmCmdGetBoardInfo : UInt8 := 0x01

structure Entry where
  boardRack : Int
  boardShelf : Int
  boardSlot : Int
  boardSubSlot : Int
  boardType : Int
  boardStat : Int
  valid : Int
  deriving DecidableEq, Repr

def Entry.index (entry : Entry) : Int × Int × Int × Int :=
  (entry.boardRack, entry.boardShelf, entry.boardSlot, entry.boardSubSlot)

structure Table where
  head : List Entry
  count : Int
  deriving DecidableEq, Repr

def indexOf (po : NmLkaddrInfo) : Int × Int × Int × Int :=
  (po.rack.toNat, po.shelf.toNat, po.slot.toNat, po.subslot.toNat)

def resetValid (table : Table) : Table :=
  { table with head := table.head.map fun entry => { entry with valid := 0 } }

/-- There may be no memory for a new row. -/
def update (alloc : Bool) (table : Table) (po : NmLkaddrInfo) (bdtype stat : UInt8) : Table :=
  match lookup Entry.index (indexOf po) table.head with
  | some _ => { table with
      head := alter Entry.index (indexOf po)
        (fun entry => { entry with boardType := bdtype.toNat, boardStat := stat.toNat, valid := 1 })
        table.head }
  | none =>
      if alloc then
        ⟨⟨po.rack.toNat, po.shelf.toNat, po.slot.toNat, po.subslot.toNat, bdtype.toNat, stat.toNat,
          1⟩ :: table.head, table.count + 1⟩
      else table

def delHeads : List Entry → Int → List Entry × Int
  | [], count => ([], count)
  | n :: rest, count => if n.valid = 0 then delHeads rest (count - 1) else (n :: rest, count)

def delBehind : List Entry → Int → List Entry × Int
  | [], count => ([], count)
  | n :: p, count =>
      if n.valid = 0 then delBehind p (count - 1)
      else
        let r := delBehind p count
        (n :: r.1, r.2)

def delInvalidEntrys (table : Table) : Table :=
  if table.head = [] then table
  else
    match delHeads table.head table.count with
    | ([], _) => ⟨[], 0⟩
    | (head :: p, count) =>
        let r := delBehind p count
        ⟨head :: r.1, r.2⟩

def getbdtype (table : Table) (po : NmLkaddrInfo) : Option Int :=
  (lookup Entry.index (indexOf po) table.head).map Entry.boardType

/-- The boards that are found go to an array of snmpMaxBoardCnt places. With the last one taken
none are reported. -/
def getboards (table : Table) (bdtype : Int) : List (Int × Int × Int × Int) :=
  let po := (table.head.filter fun entry => decide (entry.boardType = bdtype)).map Entry.index
  if snmpMaxBoardCnt ≤ po.length then [] else po

/-- What is read of a record: the structure is laid over the octets of the packet. -/
def overlay (p : List UInt8) (bdinfo : Nat) : Option (NmLkaddrInfo × UInt8 × UInt8) := do
  let rack ← p[bdinfo]?
  let shelf ← p[bdinfo + 1]?
  let slot ← p[bdinfo + 2]?
  let subslot ← p[bdinfo + 3]?
  let bdtype ← p[bdinfo + 8]?
  let stat ← p[bdinfo + 9]?
  return (⟨rack, shelf, slot, subslot⟩, bdtype, stat)

/-- The loop over the records, of which a number is left. -/
def updateAll (alloc : Nat → Bool) (p : List UInt8) : Nat → Nat → Table → Option Table
  | 0, _, table => some table
  | cnt + 1, bdinfo, table =>
      (overlay p bdinfo).bind fun record =>
        updateAll alloc p cnt (bdinfo + nmboardInfoSize)
          (update (alloc cnt) table record.1 record.2.1 record.2.2)

def socketAdaptProcGlbinfoModule (alloc : Nat → Bool) (table : Table) (cmd : UInt8)
    (p : List UInt8) : Option (Table × Int) :=
  if cmd = nmCmdGetBoardInfo then do
    let cnt ← p[0]?
    let table ← updateAll alloc p cnt.toNat 1 (resetValid table)
    return (delInvalidEntrys table, 0)
  else some (table, -1)

end OiAmc.BoardsInfoTable

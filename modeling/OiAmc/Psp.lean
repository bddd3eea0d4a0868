import OiAmc.MessageSafety
import OiAmc.Pkt

namespace OiAmc.Psp

open ByteBuffer MessageLayout Pkt
open ByteOrder (Endian)

def PSP_MSG_REGISTER : UInt16 := 0x2360
def PSP_MSG_SCAN_INIT : UInt16 := 0x2361
def PSP_MSG_SCAN_START : UInt16 := 0x2362
def PSP_MSG_SCAN_STOP : UInt16 := 0x2363
def PSP_MSG_SCAN_RESULT : UInt16 := 0x2364
def PSP_MSG_PROBE_LINK_ENABLE : UInt16 := 0x2365
def PSP_MSG_PROBE_LINK_DISABLE : UInt16 := 0x2366
def PSP_MSG_PROBE_CHANNEL_START : UInt16 := 0x2367
def PSP_MSG_PROBE_CHANNEL_STOP : UInt16 := 0x2368
def PSP_MSG_PROBE_LINK_ITFNOTIFY : UInt16 := 0x2369
def PSP_MSG_PROBE_ALLCH_START : UInt16 := 0x2370
def PSP_MSG_PROBE_ALLCH_STOP : UInt16 := 0x2371
def PSP_MSG_STM_MAP_ADD : UInt16 := 0x2372
def PSP_MSG_STM_MAP_DEL : UInt16 := 0x2373
def PSP_MSG_STM_MAP_GET : UInt16 := 0x2374
def PSP_MSG_STM_MAP_RESULT : UInt16 := 0x2375
def PSP_MSG_BLOCK_DATA : UInt16 := 0x2376
def PSP_MSG_PHY_STAT : UInt16 := 0x2377
def PSP_MSG_CHANNEL_STAT : UInt16 := 0x2378
def PSP_MSG_GET_STAT : UInt16 := 0x2379
def PSP_MSG_SILENCE_TIMEOUT : UInt16 := 0x2380
def PSP_MSG_SILENCE_RANGE : UInt16 := 0x2381
def PSP_MSG_SILENCE_RESULT : UInt16 := 0x2382

-- The link map gives some of the ids to messages of its own.
def PSP_MSG_REGISTER_ACK : UInt16 := 0x2b60
def PSP_MSG_REGISTER_UNACK : UInt16 := 0x2760
def PSP_MSG_SCAN_CLEAR : UInt16 := 0x2361
def PSP_MSG_SCAN_CLEAR_ACK : UInt16 := 0x2b61
def PSP_MSG_NOTIFY_ANM : UInt16 := 0x2362
def PSP_MSG_NOTIFY_REL : UInt16 := 0x2363
def PSP_MSG_VCHANNEL_START : UInt16 := 0x2367
def PSP_MSG_VCHANNEL_STOP : UInt16 := 0x2368
def PSP_MSG_TRAN_ENABLE : UInt16 := 0x2369
def PSP_MSG_CLEAR_INDEX : UInt16 := 0x2385
def PSP_MSG_CLEAR_ALL_INDEX : UInt16 := 0x2387
def PSP_MSG_RESET_POINTER : UInt16 := 0x2388

/-- The members of either struct psp_msg that a decoder fills, named by their paths. -/
inductive Field
  | regProbetype | regCardtype | regSlot | regSubslot
  | scanInitmask | scanScanmode | scanIndex | scanChannel | scanScanendflag | scanClearMask
  | probePhylink | probeChannel | probePhylink1 | probeChannel1 | probeVpi | probeVci | probeItftype
  | mapInport | mapOutport
  | blockFlag | blockType | blockSize
  | hdlcPort | hdlcType | hdlcE1 | hdlcTs | hdlcEndflag
  | getFlag
  | silenceTimeout | silenceRange | silenceCount
  | clearIndex
  | rgSilencetype | rgIndexlimit | rgRevert | rgTranen
  | tranChan | tranPort | tranE1 | tranTs
  | tranEnRevert | tranEnEnable
  deriving DecidableEq

open Psp.Field

/-- struct psp_msg. Pointers are octets of the packet, counted from its start. -/
structure Msg where
  id : UInt16
  num : Field → UInt32
  blockBuf : Option Nat
  silenceData : Option Nat
  ph : Option Nat

/-- What a case of the switch does behind its fields. -/
inductive Tail
  | none
  | block
  | silence
  deriving DecidableEq

/-- The labels of a case, the fields it decodes with their octets, and the rest. -/
structure Case where
  labels : List UInt16
  fields : List (Field × Nat)
  tail : Tail := .none

/-- What a decoder returns and stores, and up to which octet of the packet it looked. -/
structure Decoded where
  rc : Int
  msg : Msg
  seen : Nat

/-- DECODE_8, DECODE_16 or DECODE_32. -/
def Case.gets (c : Case) : List (Get Field) := c.fields.map fun f => .num f.1 f.2

def Case.width (c : Case) : Nat := (c.fields.map Prod.snd).sum

def payload (ph : Octets) : Octets := fun i => ph (i + 20)

/-- No member that is decoded is a string or an array. -/
def fieldType (_ : Field) : CType Field := .number 4

def msgId (ph : Octets) : UInt16 :=
  .ofNat ((pkthdrGetType ph).toNat <<< 8 ||| (pkthdrGetSubtype ph).toNat)

/-- Behind the fields of a case. A block goes unchecked; where all went well the packet is
logged, all of it. -/
def Tail.finish (t : Tail) (plen : Nat) (msg : Msg) (r : Reader Field) : Decoded :=
  let seen := 20 + r.seen
  match t with
  | .none => ⟨0, msg, max seen plen⟩
  | .block => ⟨0, { msg with blockBuf := some (20 + r.pos) }, max seen plen⟩
  | .silence =>
      if r.left ≥ ((msg.num silenceCount).toNat : Int) * 2 then
        ⟨0, { msg with silenceData := some (20 + r.pos) }, max seen plen⟩
      else ⟨-1, msg, seen⟩

/-- Two libraries have a psp_decode_msg, which differ in the cases of the switch. -/
def pspDecodeMsg (cases : List Case) (host : Endian) (ph : Octets) (msg : Msg) : Decoded :=
  let dlen := pkthdrGetDlen host ph
  let msg := { msg with
    id := msgId ph
    ph := some 0 }
  match cases.find? fun c => c.labels.contains msg.id with
  | none => ⟨-1, msg, 20⟩
  | some c =>
      let start : Reader Field := ⟨0, dlen, 0, [], ⟨msg.num, fun _ => [], none⟩⟩
      match read (payload ph) (fun _ => true) c.gets start with
      | (false, r) => ⟨-1, { msg with num := r.value.num }, 20 + r.seen⟩
      | (true, r) => c.tail.finish (pkthdrGetPlen host ph).toNat { msg with num := r.value.num } r

def cases : List Case := [
  { labels := [PSP_MSG_REGISTER]
    fields := [(regProbetype, 1), (regCardtype, 1), (regSlot, 1), (regSubslot, 1)] },
  { labels := [PSP_MSG_SCAN_INIT]
    fields := [(scanInitmask, 1), (scanScanmode, 1)] },
  { labels := [PSP_MSG_SCAN_START, PSP_MSG_SCAN_STOP]
    fields := [(scanIndex, 4), (scanChannel, 1)] },
  { labels := [PSP_MSG_SCAN_RESULT]
    fields := [(scanScanendflag, 1)] },
  { labels := [PSP_MSG_PROBE_LINK_ENABLE, PSP_MSG_PROBE_LINK_DISABLE]
    fields := [(probePhylink, 1)] },
  { labels := [PSP_MSG_PROBE_CHANNEL_START, PSP_MSG_PROBE_CHANNEL_STOP]
    fields := [(probePhylink, 1), (probeChannel, 1), (probePhylink1, 1), (probeChannel1, 1),
      (probeVpi, 2), (probeVci, 2)] },
  { labels := [PSP_MSG_PROBE_LINK_ITFNOTIFY]
    fields := [(probePhylink, 1), (probeItftype, 1)] },
  { labels := [PSP_MSG_PROBE_ALLCH_START, PSP_MSG_PROBE_ALLCH_STOP]
    fields := [(probeChannel, 1), (probeVpi, 2), (probeVci, 2)] },
  { labels := [PSP_MSG_STM_MAP_ADD, PSP_MSG_STM_MAP_DEL, PSP_MSG_STM_MAP_RESULT]
    fields := [(mapInport, 1), (mapOutport, 1)] },
  { labels := [PSP_MSG_STM_MAP_GET]
    fields := [(mapInport, 1)] },
  { labels := [PSP_MSG_BLOCK_DATA]
    fields := [(blockFlag, 2), (blockType, 2), (blockSize, 4)]
    tail := .block },
  { labels := [PSP_MSG_PHY_STAT]
    fields := [] },
  { labels := [PSP_MSG_CHANNEL_STAT]
    fields := [(hdlcPort, 1), (hdlcType, 1), (hdlcE1, 1), (hdlcTs, 1), (hdlcEndflag, 1)] },
  { labels := [PSP_MSG_GET_STAT]
    fields := [(getFlag, 4)] },
  { labels := [PSP_MSG_SILENCE_TIMEOUT]
    fields := [(silenceTimeout, 1)] },
  { labels := [PSP_MSG_SILENCE_RANGE]
    fields := [(silenceRange, 4)] },
  { labels := [PSP_MSG_SILENCE_RESULT]
    fields := [(silenceCount, 2)]
    tail := .silence }]

/-- The switch of src/lch/psp_lkmp. -/
def lkmpCases : List Case := [
  { labels := [PSP_MSG_REGISTER]
    fields := [(regProbetype, 1), (regCardtype, 1), (regSlot, 1), (regSubslot, 1)] },
  { labels := [PSP_MSG_REGISTER_ACK]
    fields := [(rgSilencetype, 1), (rgIndexlimit, 2), (rgRevert, 1), (rgTranen, 1)] },
  { labels := [PSP_MSG_REGISTER_UNACK]
    fields := [] },
  { labels := [PSP_MSG_SCAN_CLEAR]
    fields := [(scanClearMask, 1)] },
  { labels := [PSP_MSG_SCAN_CLEAR_ACK]
    fields := [] },
  { labels := [PSP_MSG_NOTIFY_ANM, PSP_MSG_NOTIFY_REL]
    fields := [(scanIndex, 2)] },
  { labels := [PSP_MSG_SCAN_RESULT]
    fields := [(scanScanendflag, 1)] },
  { labels := [PSP_MSG_STM_MAP_ADD, PSP_MSG_STM_MAP_DEL, PSP_MSG_STM_MAP_RESULT]
    fields := [(mapInport, 1), (mapOutport, 1)] },
  { labels := [PSP_MSG_STM_MAP_GET]
    fields := [(mapInport, 1)] },
  { labels := [PSP_MSG_BLOCK_DATA]
    fields := [(blockFlag, 2), (blockType, 2), (blockSize, 4)]
    tail := .block },
  { labels := [PSP_MSG_PHY_STAT]
    fields := [] },
  { labels := [PSP_MSG_CHANNEL_STAT]
    fields := [] },
  { labels := [PSP_MSG_GET_STAT]
    fields := [(getFlag, 4)] },
  { labels := [PSP_MSG_CLEAR_INDEX]
    fields := [(clearIndex, 2)] },
  { labels := [PSP_MSG_SILENCE_RANGE]
    fields := [] },
  { labels := [PSP_MSG_SILENCE_RESULT]
    fields := [] },
  { labels := [PSP_MSG_VCHANNEL_START, PSP_MSG_VCHANNEL_STOP]
    fields := [(tranChan, 1), (tranPort, 1), (tranE1, 1), (tranTs, 1)] },
  -- Falls through into the cases below, which do nothing.
  { labels := [PSP_MSG_TRAN_ENABLE]
    fields := [(tranEnRevert, 1), (tranEnEnable, 1)] },
  { labels := [PSP_MSG_CLEAR_ALL_INDEX]
    fields := [] },
  { labels := [PSP_MSG_RESET_POINTER]
    fields := [] }]

def caseOf (cs : List Case) (id : UInt16) : Option Case := cs.find? fun c => c.labels.contains id

/-- Blocks come under one id only, behind two numbers and their size, and silence data
behind its count. -/
def Laid (cs : List Case) : Prop :=
  (∀ c ∈ cs, (c.tail = .block → c.labels = [PSP_MSG_BLOCK_DATA] ∧
      c.fields = [(blockFlag, 2), (blockType, 2), (blockSize, 4)]) ∧
    (c.tail = .silence → c.fields = [(silenceCount, 2)])) ∧
  ∃ c, caseOf cs PSP_MSG_BLOCK_DATA = some c ∧ c.tail = .block

theorem cases_laid : Laid cases :=
  ⟨by decide, _, rfl, rfl⟩

theorem lkmpCases_laid : Laid lkmpCases :=
  ⟨by decide, _, rfl, rfl⟩

/-- What a decoder does with a packet: it looks at no other octets, refuses a payload that
is too short for the fields of its id, and where it returns 0 the octets that it stored a
pointer and a length of are octets of the payload. -/
structure Safe (cs : List Case) (host : Endian) (ph : Octets) (msg : Msg) : Prop where
  inside : ((pspDecodeMsg cs host ph msg).seen : Int) ≤ pkthdrGetPlen host ph
  refused : ∀ c, caseOf cs (msgId ph) = some c → pkthdrGetDlen host ph < c.width →
    (pspDecodeMsg cs host ph msg).rc = -1
  block : ∀ c, caseOf cs (msgId ph) = some c → c.tail = .block → (pspDecodeMsg cs host ph msg).rc = 0 →
    ∃ a, (pspDecodeMsg cs host ph msg).msg.blockBuf = some a ∧ 20 ≤ a ∧
      (a : Int) + ((pspDecodeMsg cs host ph msg).msg.num blockSize).toNat ≤ pkthdrGetPlen host ph
  silence : ∀ c, caseOf cs (msgId ph) = some c → c.tail = .silence → (pspDecodeMsg cs host ph msg).rc = 0 →
    ∃ a, (pspDecodeMsg cs host ph msg).msg.silenceData = some a ∧ 20 ≤ a ∧
      (a : Int) + 2 * ((pspDecodeMsg cs host ph msg).msg.num silenceCount).toNat ≤ pkthdrGetPlen host ph

def sizeOf (ph : Octets) : UInt32 := .ofNat (fromBe (entries (payload ph) 4 4))

/-- A block is not longer than what is left behind its size. -/
def BlockFits (host : Endian) (ph : Octets) : Prop :=
  msgId ph = PSP_MSG_BLOCK_DATA → 8 ≤ pkthdrGetDlen host ph →
    8 + ((sizeOf ph).toNat : Int) ≤ pkthdrGetDlen host ph

end OiAmc.Psp

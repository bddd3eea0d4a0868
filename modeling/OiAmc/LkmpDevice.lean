import OiAmc.Lkmp

namespace OiAmc.LkmpDevice

open ByteBuffer ByteOrder Lkmp Numerals Pkt
open MessageLayout hiding Octets

def payloadAt (ph : Octets) (payload : List UInt8) : Octets :=
  overlay ph 20 payload.length fun i => payload.getD i 0

def setId (ph : Octets) (id : UInt16) : Octets :=
  pkthdrSetSubtype (pkthdrSetType ph ((id >>> 8) &&& 0xff).toUInt8) (id &&& 0xff).toUInt8

def message (host : Endian) (id : UInt16) (len : Int) (device : UInt16) (payload : List UInt8) :
    Octets :=
  let ph := pkthdrSetPlen host (pkthdrSetSync host fun _ => 0) len
  let ph := pkthdrSetDevice host (setId ph id) device
  payloadAt (pkthdrSetChannel host ph 0) payload

/-- The slot in the high four bits, and the subslot in the low ones. -/
def deviceOf (glb : PsagentGlb) : UInt16 :=
  (glb.slot &&& 0x0f).toUInt16 <<< 4 ||| (glb.subslot &&& 0x0f).toUInt16

/-- Without the FPGA nothing is sent. -/
def psagentRegisterMsg (host : Endian) (glb : PsagentGlb) (fpga : Bool) : Option Octets :=
  if fpga then
    some (message host pspMsgRegister (hdrSize + 4) (deviceOf glb)
      [glb.probetype, glb.cardtype.code, glb.slot, glb.subslot])
  else none

def psagentScanClear (host : Endian) (glb : PsagentGlb) (fpga : Bool) (mask : UInt8) :
    Option Octets :=
  if mask < 1 ∨ mask > 3 then none
  else if fpga then some (message host pspMsgScanClearAck hdrSize (deviceOf glb) [])
  else none

/-- What is read of a port, and which of its E1 are valid. -/
structure PhyPort where
  status : UInt8
  phyType : UInt8
  e1Cnt : UInt8
  chcnt64k : UInt16
  chcnt2m : UInt16
  fmcnt64k : UInt32
  fmcnt2m : UInt32
  valid : Option (Nat → Bool)

def bitsFrom (first n : Nat) (holds : Nat → Bool) : UInt32 :=
  (List.range n).foldl (fun v j => if holds (first + j) then v ||| (1 <<< UInt32.ofNat j) else v) 0

def PhyPort.octets (port : PhyPort) : List UInt8 :=
  let valid := port.valid.getD fun _ => false
  let status := if port.status &&& 0x02 ≠ 0 then port.status &&& 0xfd else port.status
  [status, port.phyType, port.e1Cnt] ++ be 2 port.chcnt64k.toNat ++ be 2 port.chcnt2m.toNat ++
    be 4 port.fmcnt64k.toNat ++ be 4 port.fmcnt2m.toNat ++ be 4 (bitsFrom 0 32 valid).toNat ++
    be 4 (bitsFrom 32 31 valid).toNat

/-- The ports are read where they are in memory, how many there may be. -/
def psagentGetPhyStat (host : Endian) (glb : PsagentGlb) (fpga : Bool) (port : Nat → PhyPort) :
    Option Octets :=
  if fpga then
    some (message host pspMsgPhyStatAck (hdrSize + 1 + 23 * glb.psPortNum) (deviceOf glb)
      (toChar glb.psPortNum :: (List.range glb.psPortNum.toNat).flatMap fun i => (port i).octets))
  else none

structure HdlcChannelStat where
  port : UInt8
  type : UInt8
  e1 : UInt8
  ts : UInt8

/-- The channels of the ports: a type, and for each E1 its time slots as bits. -/
structure Channels where
  type : Nat → UInt8
  e1Ts : Nat → Nat → UInt32

def Channels.add (chan : Channels) (stat : HdlcChannelStat) : Channels :=
  let port := stat.port.toNat
  let e1 := stat.e1.toNat
  ⟨Function.update chan.type port stat.type,
    Function.update chan.e1Ts port (Function.update (chan.e1Ts port) e1
      (chan.e1Ts port e1 ||| (1 <<< stat.ts.toUInt32)))⟩

def psagentGetChannelStat (host : Endian) (glb : PsagentGlb) (alloc fpga : Bool)
    (stats : List HdlcChannelStat) : Option Octets :=
  if alloc && fpga then
    let chan := stats.foldl Channels.add ⟨fun _ => 0, fun _ _ => 0⟩
    some (message host pspMsgChannelStatAck (hdrSize + 1 + 253 * glb.psPortNum) (deviceOf glb)
      (toChar glb.psPortNum :: (List.range glb.psPortNum.toNat).flatMap fun i =>
        chan.type i :: (List.range 63).flatMap fun j => be 4 (chan.e1Ts i j).toNat))
  else none

def psagentClearIndex (host : Endian) (glb : PsagentGlb) (fpga : Bool) (index : UInt16) : Octets :=
  let ph := pkthdrSetPlen host (pkthdrSetSync host fun _ => 0) (hdrSize + 2)
  let ph := pkthdrSetChannel host (pkthdrSetDevice host ph (deviceOf glb)) 0
  let ph := setId ph (if fpga then pspMsgClearIndexAck else pspMsgClearIndexNack)
  payloadAt ph (be 2 index.toNat)

def portMax : Nat := 4

/-- The states of the ports as they were seen last, unless they were not yet. -/
structure PsagentGlbData where
  first : Bool
  phy : Nat → UInt8

def psagentCheckPhy (host : Endian) (charSigned : Bool) (glb : PsagentGlb) (data : PsagentGlbData)
    (fpga : Bool) (status : Nat → UInt8) : PsagentGlbData × Option Octets :=
  let changed := (List.range portMax).filter fun i => decide (status i ≠ data.phy i)
  if !fpga then (data, none)
  else if data.first then (⟨false, status⟩, none)
  else if changed = [] then (data, none)
  else
    let device := ofChar charSigned (deviceOf glb).toUInt8
    (⟨false, status⟩, some (message host pspMsgTrapLinkChange (hdrSize + 4 + 10 * changed.length)
      device (be 4 changed.length ++ changed.flatMap fun i =>
        [glb.slot, UInt8.ofNat (i + 1), 0x7f, 0xff, 0xff, 0xff, 0xff, 0xff, 0xff, 0xff])))

inductive Sent (host : Endian) (charSigned : Bool) (glb : PsagentGlb) : Octets → Prop
  | register {fpga ph} (h : psagentRegisterMsg host glb fpga = some ph) : Sent host charSigned glb ph
  | scanClear {fpga mask ph} (h : psagentScanClear host glb fpga mask = some ph) :
      Sent host charSigned glb ph
  | phyStat {fpga port ph} (h : psagentGetPhyStat host glb fpga port = some ph) :
      Sent host charSigned glb ph
  | channelStat {alloc fpga stats ph}
      (h : psagentGetChannelStat host glb alloc fpga stats = some ph) : Sent host charSigned glb ph
  | clearIndex (fpga index) : Sent host charSigned glb (psagentClearIndex host glb fpga index)
  | trap {data fpga status ph}
      (h : (psagentCheckPhy host charSigned glb data fpga status).2 = some ph) :
      Sent host charSigned glb ph

/-- One device number is that of all messages, and packets that carry it are accepted. -/
def Identity (host : Endian) (charSigned : Bool) (glb : PsagentGlb) : Prop :=
  ∃ device, (∀ ph, Sent host charSigned glb ph → pkthdrGetDevice host ph = device) ∧
    ∀ ph, pkthdrGetDevice host ph = device → checkDevice host charSigned glb ph = true

/-- The number has no sign as a char, and it is what the card compares with. -/
def Agrees (charSigned : Bool) (glb : PsagentGlb) : Prop :=
  (charSigned = true → glb.slot.toNat % 16 < 8) ∧
  match glb.cardtype with
  | .amc => True
  | .oipc => glb.slot.toNat / 16 = glb.slot.toNat % 16 ∧ glb.subslot.toNat % 16 = glb.slot.toNat % 16
  | .atca => glb.slot.toNat % 16 = 0 ∧ glb.subslot.toNat % 16 = 0

variable {host : Endian} {charSigned : Bool} {glb : PsagentGlb} {ph : Octets}

theorem nibble_lt (c : UInt8) : (c &&& 0x0f).toUInt16.toNat = c.toNat % 16 := by
  rw [UInt8.toNat_toUInt16, UInt8.toNat_and]
  exact Nat.and_two_pow_sub_one_eq_mod c.toNat 4

theorem toNat_deviceOf (glb : PsagentGlb) :
    (deviceOf glb).toNat = glb.slot.toNat % 16 * 16 + glb.subslot.toNat % 16 := by
  have hslot := Nat.mod_lt glb.slot.toNat (show 16 > 0 by decide)
  have hsub := Nat.mod_lt glb.subslot.toNat (show 16 > 0 by decide)
  rw [deviceOf, UInt16.toNat_or, UInt16.toNat_shiftLeft, nibble_lt, nibble_lt]
  have hshift : (glb.slot.toNat % 16) <<< ((4 : UInt16).toNat % 16) % 2 ^ 16 =
      (glb.slot.toNat % 16) <<< 4 := by
    change (glb.slot.toNat % 16) <<< 4 % 2 ^ 16 = _
    rw [Nat.shiftLeft_eq]
    omega
  rw [hshift, ← Nat.shiftLeft_add_eq_or_of_lt (b := glb.subslot.toNat % 16) (i := 4) (by omega),
    Nat.shiftLeft_eq]

theorem toNat_ofChar (charSigned : Bool) (c : UInt8) : (ofChar charSigned c).toNat =
    if charSigned = true ∧ 128 ≤ c.toNat then 0xff00 + c.toNat else c.toNat := by
  have hc := c.toNat_lt
  rw [ofChar]
  split
  · rw [UInt16.toNat_or, UInt8.toNat_toUInt16]
    change 0xff <<< 8 ||| c.toNat = _
    rw [← Nat.shiftLeft_add_eq_or_of_lt (by omega)]
    rfl
  · rw [UInt8.toNat_toUInt16]

theorem getDevice_eq (ph : Octets) : pkthdrGetDevice host ph = be16 ph 8 :=
  swap16_load16 _ _ _

theorem getDevice_congr {ph' : Octets} (h : ∀ i < 12, ph' i = ph i) :
    pkthdrGetDevice host ph' = pkthdrGetDevice host ph := by
  rw [getDevice_eq, getDevice_eq]
  exact be16_congr _ (h 8 (by omega)) (h 9 (by omega))

theorem getDevice_set (ph : Octets) (device : UInt16) :
    pkthdrGetDevice host (pkthdrSetDevice host ph device) = device := by
  rw [getDevice_eq, pkthdrSetDevice, store16_swap16, be16_putBe16]

theorem getDevice_payload (ph : Octets) (payload : List UInt8) :
    pkthdrGetDevice host (payloadAt ph payload) = pkthdrGetDevice host ph := by
  refine getDevice_congr fun i hi => ?_
  rw [payloadAt, overlay, if_neg (by omega)]

theorem getDevice_channel (ph : Octets) (channel : UInt16) :
    pkthdrGetDevice host (pkthdrSetChannel host ph channel) = pkthdrGetDevice host ph := by
  rw [getDevice_eq, getDevice_eq, pkthdrSetChannel, store16_swap16]
  exact be16_congr _ (putBe16_of_outside _ _ _ (.inl (by omega)))
    (putBe16_of_outside _ _ _ (.inl (by omega)))

theorem getDevice_setId (ph : Octets) (id : UInt16) :
    pkthdrGetDevice host (setId ph id) = pkthdrGetDevice host ph := by
  rw [getDevice_eq, getDevice_eq]
  exact be16_congr _ rfl rfl

theorem getDevice_message (id : UInt16) (len : Int) (device : UInt16) (payload : List UInt8) :
    pkthdrGetDevice host (message host id len device payload) = device := by
  rw [message, getDevice_payload, getDevice_channel, getDevice_set]

theorem getDevice_clearIndex (fpga : Bool) (index : UInt16) :
    pkthdrGetDevice host (psagentClearIndex host glb fpga index) = deviceOf glb := by
  rw [psagentClearIndex, getDevice_payload, getDevice_setId, getDevice_channel, getDevice_set]

def trapDevice (charSigned : Bool) (glb : PsagentGlb) : UInt16 :=
  ofChar charSigned (deviceOf glb).toUInt8

theorem sent_device (h : Sent host charSigned glb ph) :
    pkthdrGetDevice host ph = deviceOf glb ∨ pkthdrGetDevice host ph = trapDevice charSigned glb := by
  cases h with
  | register h =>
      rw [psagentRegisterMsg] at h
      split at h
      · rw [← Option.some.inj h]
        exact Or.inl (getDevice_message ..)
      · cases h
  | scanClear h =>
      rw [psagentScanClear] at h
      split at h
      · cases h
      · split at h
        · rw [← Option.some.inj h]
          exact Or.inl (getDevice_message ..)
        · cases h
  | phyStat h =>
      rw [psagentGetPhyStat] at h
      split at h
      · rw [← Option.some.inj h]
        exact Or.inl (getDevice_message ..)
      · cases h
  | channelStat h =>
      rw [psagentGetChannelStat] at h
      split at h
      · rw [← Option.some.inj h]
        exact Or.inl (getDevice_message ..)
      · cases h
  | clearIndex fpga index => exact Or.inl (getDevice_clearIndex fpga index)
  | trap h =>
      rw [psagentCheckPhy] at h
      dsimp only at h
      split at h
      · cases h
      · split at h
        · cases h
        · split at h
          · cases h
          · rw [← Option.some.inj h]
            exact Or.inr (getDevice_message ..)

theorem register_sent (host : Endian) (charSigned : Bool) (glb : PsagentGlb) :
    ∃ ph, Sent host charSigned glb ph ∧ pkthdrGetDevice host ph = deviceOf glb :=
  ⟨_, @Sent.register _ _ _ true _ rfl, getDevice_message ..⟩

theorem trap_sent (host : Endian) (charSigned : Bool) (glb : PsagentGlb) :
    ∃ ph, Sent host charSigned glb ph ∧ pkthdrGetDevice host ph = trapDevice charSigned glb :=
  ⟨_, @Sent.trap _ _ _ ⟨false, fun _ => 0⟩ true (fun _ => 1) _ rfl,
    getDevice_message ..⟩

theorem deviceOf_lt (glb : PsagentGlb) : (deviceOf glb).toNat < 256 := by
  rw [toNat_deviceOf]
  omega

theorem trapDevice_eq_iff : trapDevice charSigned glb = deviceOf glb ↔
    (charSigned = true → glb.slot.toNat % 16 < 8) := by
  have hlt := deviceOf_lt glb
  have hnum := toNat_deviceOf glb
  have hchar : (deviceOf glb).toUInt8.toNat = (deviceOf glb).toNat := by
    rw [UInt16.toNat_toUInt8]
    exact Nat.mod_eq_of_lt hlt
  rw [← UInt16.toNat_inj, trapDevice, toNat_ofChar, hchar]
  split
  · rename_i hsign
    constructor
    · intro h
      omega
    · intro h
      have := h hsign.1
      omega
  · rename_i hsign
    refine iff_of_true rfl fun hs => ?_
    by_contra hge
    exact hsign ⟨hs, by omega⟩

theorem and_low {v : UInt16} (h : v.toNat < 256) : v &&& 0xff = v := by
  apply UInt16.toNat_inj.mp
  rw [UInt16.toNat_and]
  exact (Nat.and_two_pow_sub_one_eq_mod v.toNat 8).trans (Nat.mod_eq_of_lt h)

theorem accepts_iff : (∀ ph, pkthdrGetDevice host ph = deviceOf glb →
      checkDevice host charSigned glb ph = true) ↔
    localDevice charSigned glb = deviceOf glb := by
  have hlow := and_low (deviceOf_lt glb)
  constructor
  · intro h
    obtain ⟨ph, -, hdevice⟩ := register_sent host charSigned glb
    have hcheck := beq_iff_eq.mp (h ph hdevice)
    rwa [hdevice, hlow] at hcheck
  · intro h ph hdevice
    rw [checkDevice, hdevice, hlow, h]
    exact beq_self_eq_true _

theorem local_eq_iff (hsign : charSigned = true → glb.slot.toNat % 16 < 8) :
    localDevice charSigned glb = deviceOf glb ↔ match glb.cardtype with
      | .amc => True
      | .oipc => glb.slot.toNat / 16 = glb.slot.toNat % 16 ∧
          glb.subslot.toNat % 16 = glb.slot.toNat % 16
      | .atca => glb.slot.toNat % 16 = 0 ∧ glb.subslot.toNat % 16 = 0 := by
  have hnum := toNat_deviceOf glb
  have hlt := glb.slot.toNat_lt
  rw [localDevice]
  cases glb.cardtype with
  | amc => exact iff_of_true rfl trivial
  | oipc =>
      dsimp only
      rw [← UInt16.toNat_inj, toNat_ofChar, hnum]
      split
      · rename_i hs
        have := hsign hs.1
        omega
      · omega
  | atca =>
      dsimp only
      rw [← UInt16.toNat_inj, hnum]
      change 0 = _ ↔ _
      omega

/-- One number serves all messages and is accepted exactly for the cards and slots for which it
is without a sign and what the card compares with. -/
theorem identity_iff (host : Endian) (charSigned lmSimple : Bool) (cfg : String → Option Text)
    (glb : PsagentGlb) (_ : psagentInitParameters lmSimple cfg = some glb) :
    Identity host charSigned glb ↔ Agrees charSigned glb := by
  constructor
  · rintro ⟨device, hsent, haccepts⟩
    obtain ⟨ph, hph, hdevice⟩ := register_sent host charSigned glb
    obtain ⟨ph', hph', hdevice'⟩ := trap_sent host charSigned glb
    obtain rfl : deviceOf glb = device := hdevice.symm.trans (hsent ph hph)
    have hsign := trapDevice_eq_iff.mp (hdevice'.symm.trans (hsent ph' hph'))
    exact ⟨hsign, (local_eq_iff hsign).mp (accepts_iff.mp haccepts)⟩
  · rintro ⟨hsign, hcard⟩
    refine ⟨deviceOf glb, fun ph hph => ?_, accepts_iff.mpr ((local_eq_iff hsign).mpr hcard)⟩
    rcases sent_device hph with hdevice | hdevice
    · exact hdevice
    · exact hdevice.trans (trapDevice_eq_iff.mpr hsign)

def oipcCfg (slot : String) : String → Option Text
  | "probetype" => some "E1".toList
  | "cardtype" => some "OIPC".toList
  | "slot" => some slot.toList
  | "subslot" => some "1".toList
  | "check_phy_status" => some "off".toList
  | _ => none

theorem oipc_identity_iff :
    ∃ glb, psagentInitParameters false (oipcCfg "17") = some glb ∧
      (Identity .little true glb ↔ Agrees true glb) :=
  ⟨⟨1, .oipc, 17, 1, 0, 0, 32⟩, by decide,
    identity_iff .little true false (oipcCfg "17") _ (by decide)⟩

/-- Answers to an OIPC card in slot 3 are not accepted. -/
theorem oipc_ignored : ¬ ∀ (host : Endian) (charSigned lmSimple : Bool)
    (cfg : String → Option Text) (glb : PsagentGlb),
    psagentInitParameters lmSimple cfg = some glb → Identity host charSigned glb := by
  intro h
  have hinit : psagentInitParameters false (oipcCfg "3") = some ⟨1, .oipc, 3, 1, 0, 0, 32⟩ := by
    decide
  obtain ⟨device, hsent, haccepts⟩ := h .little true false (oipcCfg "3") _ hinit
  obtain ⟨ph, hph, hdevice⟩ := register_sent .little true ⟨1, .oipc, 3, 1, 0, 0, 32⟩
  have hcheck := haccepts ph (hsent ph hph)
  rw [checkDevice, hdevice] at hcheck
  exact absurd hcheck (by decide)

end OiAmc.LkmpDevice

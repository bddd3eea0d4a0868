import OiAmc.Fpgamif
import OiAmc.LkmpDevice
import OiAmc.StreamFrames

/-! What the link map agent reads of the FPGA and reports. -/

namespace OiAmc.LkmpStat

open ByteBuffer ByteOrder Lkmp LkmpDevice Pkt
open MessageLayout hiding Octets
open Fpgamif (SdhPhyStat fpgadrvOiamcE1Max fpgadrvOiamcChanAll)

/-- Whether the registers that select take what is written to them, and what the others then read;
the counters by port and type. -/
structure Fpga where
  portTypeSel : Nat → Bool
  sdhPhyInfo : Nat → UInt8
  sigTypeSel : Nat → Nat → Bool
  cntChScan : Nat → Nat → UInt16
  cntFr : Nat → Nat → UInt32
  portSel : Nat → Bool
  mifE1Num : Nat → Nat → Bool
  e1Valid : Nat → Nat → UInt8
  chanSel : Nat → Bool
  chan : Nat → HdlcChannelStat

def cleared : SdhPhyStat := ⟨0, 0, 0, 0, 0, 0, 0, 0, 0, 0, 0⟩

/-- A check that fails leaves what was read before it. -/
def fpgamifGetOnePortPhyStatus (fpga : Fpga) (phyStat : SdhPhyStat) : Int × SdhPhyStat :=
  let port := phyStat.port.toNat
  if fpga.portTypeSel port = false then (-1, phyStat)
  else
    let info := fpga.sdhPhyInfo port
    let phyStat := { phyStat with
      status := (info &&& 0x80) >>> 7 ||| (info &&& 0x40) >>> 5
      e1Cnt := info &&& 0x3f
      b1 := 0, b2 := 0, b3 := 0
      phyType := 1 }
    if fpga.sigTypeSel port 0 = false then (-1, phyStat)
    else
      let phyStat := { phyStat with chcnt64k := fpga.cntChScan port 0, fmcnt64k := fpga.cntFr port 0 }
      if fpga.sigTypeSel port 1 = false then (-1, phyStat)
      else (0, { phyStat with chcnt2m := fpga.cntChScan port 1, fmcnt2m := fpga.cntFr port 1 })

/-- An entry of the table that is filled. Ports that fail are passed over; the result is always 0. -/
def fpgamifGetPhyStatus (fpga : Fpga) (i : Nat) : SdhPhyStat :=
  (fpgamifGetOnePortPhyStatus fpga { cleared with port := .ofNat i }).2

/-- None for -1. -/
def fpgamifGetE1Vaild (fpga : Fpga) (port : Nat) : Option (Nat → UInt8) :=
  if fpga.portSel port && (List.range fpgadrvOiamcE1Max).all (fpga.mifE1Num port) then
    some (fpga.e1Valid port)
  else none

def validTs (stat : HdlcChannelStat) : Bool := decide (1 ≤ stat.ts ∧ stat.ts ≤ 31)

def fpgamifGetAllHdlcChannelStat (fpga : Fpga) : Option (List HdlcChannelStat) :=
  if (List.range fpgadrvOiamcChanAll).all fpga.chanSel then
    some (((List.range fpgadrvOiamcChanAll).map fpga.chan).filter validTs)
  else none

def phyPort (fpga : Fpga) (i : Nat) : PhyPort :=
  let stat := fpgamifGetPhyStatus fpga i
  ⟨stat.status, stat.phyType, stat.e1Cnt, stat.chcnt64k, stat.chcnt2m, stat.fmcnt64k, stat.fmcnt2m,
    (fpgamifGetE1Vaild fpga i).map fun vaild j => vaild j ≠ 0⟩

/-- An entry of an array of four, one for each port. -/
def atPort {α : Type} (x : Nat → α) (i : Nat) : Option α := if i < portMax then some (x i) else none

variable (host : Endian) (glb : PsagentGlb) (fpga : Fpga)

def psagentGetPhyStat : Option Octets := do
  let len := hdrSize + 1 + 23 * glb.psPortNum
  let octets ← (List.range glb.psPortNum.toNat).mapM fun i => (atPort (phyPort fpga) i).map PhyPort.octets
  if 2048 < len then none
  else return message host pspMsgPhyStatAck len (deviceOf glb) (toChar glb.psPortNum :: octets.flatten)

def Placed (stat : HdlcChannelStat) : Prop := stat.port.toNat < portMax ∧ stat.e1.toNat < fpgadrvOiamcE1Max

instance (stat : HdlcChannelStat) : Decidable (Placed stat) := inferInstanceAs (Decidable (_ ∧ _))

/-- `chan[port]. e1_ts[e1] |= (1 << ts)`, and the type. -/
def addChannel (chan : Channels) (stat : HdlcChannelStat) : Option Channels :=
  if Placed stat then some (chan.add stat) else none

def channelOctets (chan : Channels) (i : Nat) : List UInt8 :=
  chan.type i :: (List.range fpgadrvOiamcE1Max).flatMap fun j => be 4 (chan.e1Ts i j).toNat

/-- The message, none where -1 is returned. alloc: whether there is memory. -/
def psagentGetChannelStat (alloc : Bool) : Option (Option Octets) :=
  if alloc = false then some none
  else
    match fpgamifGetAllHdlcChannelStat fpga with
    | none => some none
    | some stats => do
        let chan ← stats.foldlM addChannel ⟨fun _ => 0, fun _ _ => 0⟩
        let len := hdrSize + 1 + 253 * glb.psPortNum
        let octets ← (List.range glb.psPortNum.toNat).mapM fun i => atPort (channelOctets chan) i
        if 9216 < len then none
        else
          return some (message host pspMsgChannelStatAck len (deviceOf glb)
            (toChar glb.psPortNum :: octets.flatten))

/-- The word of a port for an E1 in the messages. -/
def phyWord (buf : Octets) (i j : Nat) : UInt32 := be32 buf (21 + 23 * i + if j < 32 then 15 else 19)

def channelWord (buf : Octets) (i j : Nat) : UInt32 := be32 buf (21 + 253 * i + 1 + 4 * j)

/-- The E1 could be read and is valid. -/
def ReadsValid (i j : Nat) : Prop := ∃ vaild, fpgamifGetE1Vaild fpga i = some vaild ∧ vaild j ≠ 0

/-- Some channel is that time slot of the E1. -/
def Reports (i j t : Nat) : Prop :=
  1 ≤ t ∧ t ≤ 31 ∧ ∃ c < fpgadrvOiamcChanAll,
    (fpga.chan c).ts.toNat = t ∧ (fpga.chan c).port.toNat = i ∧ (fpga.chan c).e1.toNat = j

/-- No array is left, the length is that of the header and of what is encoded, and the bits say
which E1 are valid and which time slots have a channel. -/
structure StatusMessages (alloc : Bool) : Prop where
  phy : ∃ buf, psagentGetPhyStat host glb fpga = some buf ∧
    pkthdrGetPlen host buf = hdrSize + (1 + 23 * glb.psPortNum) ∧
    ∀ i < glb.psPortNum.toNat, ∀ j < fpgadrvOiamcE1Max,
      (phyWord buf i j).toNat.testBit (j % 32) = true ↔ ReadsValid fpga i j
  channel : ∃ sent, psagentGetChannelStat host glb fpga alloc = some sent ∧ ∀ buf, sent = some buf →
    pkthdrGetPlen host buf = hdrSize + (1 + 253 * glb.psPortNum) ∧
    ∀ i < glb.psPortNum.toNat, ∀ j < fpgadrvOiamcE1Max, ∀ t, 1 ≤ t → t ≤ 31 →
      ((channelWord buf i j).toNat.testBit t = true ↔ Reports fpga i j t)

section Message

variable {host : Endian} {id device : UInt16} {len : Int} {payload : List UInt8}

theorem message_header (i : Nat) (hi : i < 20) : message host id len device payload i =
    pkthdrSetChannel host (pkthdrSetDevice host (setId (pkthdrSetPlen host (pkthdrSetSync host fun _ => 0) len) id)
      device) 0 i := by
  rw [message, payloadAt, overlay, if_neg (by omega)]

theorem plen_message (hmin : hdrSize ≤ len) (hmax : len ≤ 262140) :
    pkthdrGetPlen host (message host id len device payload) = len := by
  have hlow (i : Nat) (hi : i < 8) (h4 : i ≠ 4) (h5 : i ≠ 5) : message host id len device payload i =
      pkthdrSetPlen host (pkthdrSetSync host fun _ => 0) len i := by
    rw [message_header i (by omega), pkthdrSetChannel, store16_swap16, putBe16_of_outside _ _ _ (by omega),
      pkthdrSetDevice, store16_swap16, putBe16_of_outside _ _ _ (by omega), setId, pkthdrSetSubtype,
      Function.update_of_ne h5, pkthdrSetType, Function.update_of_ne h4]
  rw [getPlen_of_fields (hlow 2 (by omega) (by omega) (by omega)) (hlow 3 (by omega) (by omega) (by omega))
    (hlow 7 (by omega) (by omega) (by omega))]
  exact (getPlen_setPlen_iff hmin).mpr hmax

theorem entries_message {a m : Nat} (h : a + m ≤ payload.length) :
    entries (message host id len device payload) (20 + a) m = (payload.drop a).take m := by
  have hall : entries (message host id len device payload) 20 payload.length = payload := by
    rw [message, payloadAt, entries_overlay]
    exact map_getD_range payload 0
  have hdrop := drop_entries (message host id len device payload) 20 payload.length a
  rw [hall] at hdrop
  rw [hdrop, take_entries _ _ (by omega)]

end Message

section Bits

theorem be32_of_entries {buf : Octets} {a : Nat} {v : UInt32} (h : entries buf a 4 = be 4 v.toNat) :
    be32 buf a = v := by
  have hentries : [buf a, buf (a + 1), buf (a + 2), buf (a + 3)] = [UInt8.ofNat (v.toNat / 256 / 256 / 256),
      UInt8.ofNat (v.toNat / 256 / 256), UInt8.ofNat (v.toNat / 256), UInt8.ofNat v.toNat] := h
  simp only [List.cons.injEq, and_true] at hentries
  obtain ⟨h0, h1, h2, h3⟩ := hentries
  have hv := v.toNat_lt
  apply UInt32.toNat.inj
  rw [toNat_be32, h0, h1, h2, h3]
  simp only [UInt8.toNat_ofNat']
  omega

theorem toNat_bit {k : Nat} (hk : k < 32) : ((1 : UInt32) <<< UInt32.ofNat k).toNat = 2 ^ k := by
  have hmod : (UInt32.ofNat k).toNat % 32 = k := by
    rw [UInt32.toNat_ofNat']
    omega
  have hlt : 2 ^ k < 2 ^ 32 := Nat.pow_lt_pow_right (by decide) hk
  rw [UInt32.toNat_shiftLeft, hmod, Nat.shiftLeft_eq]
  exact (Nat.mod_eq_of_lt (by rwa [UInt32.toNat_one, Nat.one_mul])).trans (Nat.one_mul _)

theorem testBit_set (v : UInt32) {k : Nat} (hk : k < 32) (t : Nat) :
    (v ||| 1 <<< UInt32.ofNat k).toNat.testBit t = (v.toNat.testBit t || decide (k = t)) := by
  rw [UInt32.toNat_or, Nat.testBit_or, toNat_bit hk, Nat.testBit_two_pow]

theorem testBit_bitsFrom (first : Nat) {n : Nat} (hn : n ≤ 32) (holds : Nat → Bool) (t : Nat) :
    (bitsFrom first n holds).toNat.testBit t = (decide (t < n) && holds (first + t)) := by
  induction n with
  | zero => simp [bitsFrom]
  | succ n ih =>
      have ih := ih (by omega)
      have hstep : bitsFrom first (n + 1) holds =
          if holds (first + n) then bitsFrom first n holds ||| 1 <<< UInt32.ofNat n
          else bitsFrom first n holds := by
        rw [bitsFrom, List.range_succ, List.foldl_append]
        rfl
      rw [hstep]
      by_cases hbit : holds (first + n) = true
      · rw [if_pos hbit, testBit_set _ (by omega), ih]
        by_cases ht : n = t
        · subst ht
          simp [hbit]
        · have hlt : (t < n + 1) = (t < n) := propext (by omega)
          simp only [ht, hlt, decide_false, Bool.or_false]
      · rw [if_neg hbit, ih]
        by_cases ht : n = t
        · subst ht
          simp [hbit]
        · have hlt : (t < n + 1) = (t < n) := propext (by omega)
          simp only [hlt]

end Bits

section Rows

variable {α : Type} {n w : Nat} {rows : List (List UInt8)}

theorem mapM_atPort {x : Nat → α} (f : α → List UInt8) (hn : n ≤ portMax) :
    (List.range n).mapM (fun i => (atPort x i).map f) = some ((List.range n).map fun i => f (x i)) := by
  have hall (is : List Nat) (his : ∀ i ∈ is, i < portMax) :
      is.mapM (fun i => (atPort x i).map f) = some (is.map fun i => f (x i)) := by
    induction is with
    | nil => rfl
    | cons i is ih =>
        obtain ⟨hi, his⟩ := List.forall_mem_cons.mp his
        rw [List.mapM_cons, ih his, atPort, if_pos hi]
        rfl
  exact hall _ fun i hi => Nat.lt_of_lt_of_le (List.mem_range.mp hi) hn

theorem mapM_outside {x : Nat → α} (f : α → List UInt8) (hn : portMax < n) :
    (List.range n).mapM (fun i => (atPort x i).map f) = none := by
  have hall (is : List Nat) (his : portMax ∈ is) : is.mapM (fun i => (atPort x i).map f) = none := by
    induction is with
    | nil => cases his
    | cons i is ih =>
        rw [List.mapM_cons]
        by_cases hi : i < portMax
        · have hmem : portMax ∈ is := by
            rcases List.mem_cons.mp his with h | h
            · omega
            · exact h
          rw [ih hmem]
          cases (atPort x i).map f <;> rfl
        · rw [atPort, if_neg hi]
          rfl
  exact hall _ (List.mem_range.mpr hn)

theorem window_rows {row : Nat → List UInt8} (hrow : ∀ i, (row i).length = w) {i k m : Nat} (hi : i < n)
    (hk : k + m ≤ w) : (((List.range n).map row).flatten.drop (w * i + k)).take m = ((row i).drop k).take m := by
  have hrows : ∀ c ∈ (List.range n).map row, c.length = w := by
    intro c hc
    obtain ⟨i, -, rfl⟩ := List.mem_map.mp hc
    exact hrow i
  have hwin := StreamWindows.window_flatten hrows (i := i) (by rwa [List.length_map, List.length_range])
  rw [List.getElem_map, List.getElem_range, StreamWindows.window] at hwin
  rw [← hwin, List.drop_take, List.take_take, Nat.min_eq_left (by omega), List.drop_drop]

theorem length_rows {row : Nat → List UInt8} (hrow : ∀ i, (row i).length = w) :
    ((List.range n).map row).flatten.length = w * n := by
  rw [StreamWindows.length_flatten, List.length_map, List.length_range]
  intro c hc
  obtain ⟨i, -, rfl⟩ := List.mem_map.mp hc
  exact hrow i

theorem word_message {host : Endian} {id device : UInt16} {len : Int} {c : UInt8}
    {row : Nat → List UInt8} {v : UInt32} (hrow : ∀ i, (row i).length = w) {i k : Nat} (hi : i < n) (hk : k + 4 ≤ w)
    (hv : ((row i).drop k).take 4 = be 4 v.toNat) :
    be32 (message host id len device (c :: ((List.range n).map row).flatten)) (21 + w * i + k) = v := by
  apply be32_of_entries
  have hlen := length_rows (n := n) hrow
  have hle : w * i + w ≤ w * n := by
    rw [← Nat.mul_succ]
    exact Nat.mul_le_mul_left w hi
  have hin : 1 + (w * i + k) + 4 ≤ (c :: ((List.range n).map row).flatten).length := by
    rw [List.length_cons, hlen]
    omega
  have hentries := @entries_message host id device len _ _ _ hin
  rw [Nat.add_comm 1, List.drop_succ_cons, window_rows hrow hi hk, hv] at hentries
  rw [← hentries]
  congr 1
  omega

end Rows

section Phy

variable {host : Endian} {glb : PsagentGlb} {fpga : Fpga}

theorem length_octets (port : PhyPort) : port.octets.length = 23 := rfl

theorem phy_none (h : portMax < glb.psPortNum.toNat) : psagentGetPhyStat host glb fpga = none := by
  rw [psagentGetPhyStat, mapM_outside PhyPort.octets h]
  rfl

theorem phy_some (h : glb.psPortNum.toNat ≤ portMax) :
    psagentGetPhyStat host glb fpga = some (message host pspMsgPhyStatAck (hdrSize + 1 + 23 * glb.psPortNum)
      (deviceOf glb) (toChar glb.psPortNum ::
        ((List.range glb.psPortNum.toNat).map fun i => (phyPort fpga i).octets).flatten)) := by
  have hmax : portMax = 4 := rfl
  rw [psagentGetPhyStat, mapM_atPort PhyPort.octets h]
  simp only [Option.bind_eq_bind, Option.bind_some]
  rw [if_neg (by simp only [hdrSize]; omega)]
  rfl

theorem readsValid_iff (i j : Nat) :
    ReadsValid fpga i j ↔ ((phyPort fpga i).valid.getD fun _ => false) j = true := by
  rw [ReadsValid, phyPort]
  cases fpgamifGetE1Vaild fpga i with
  | none => simp
  | some vaild => simp

theorem phy_bits {i j : Nat} (hi : i < glb.psPortNum.toNat) (hj : j < fpgadrvOiamcE1Max) (len : Int) :
    (phyWord (message host pspMsgPhyStatAck len (deviceOf glb) (toChar glb.psPortNum ::
        ((List.range glb.psPortNum.toNat).map fun i => (phyPort fpga i).octets).flatten)) i j).toNat.testBit (j % 32) =
      true ↔ ReadsValid fpga i j := by
  have hmax : fpgadrvOiamcE1Max = 63 := rfl
  rw [readsValid_iff, phyWord]
  by_cases hlow : j < 32
  · rw [if_pos hlow, word_message (fun i => length_octets (phyPort fpga i)) hi (by decide) rfl,
      testBit_bitsFrom 0 (Nat.le_refl 32), Nat.mod_eq_of_lt hlow, Nat.zero_add]
    simp [hlow]
  · rw [if_neg hlow, word_message (fun i => length_octets (phyPort fpga i)) hi (by decide) rfl,
      testBit_bitsFrom 32 (by decide : 31 ≤ 32)]
    have hj31 : j % 32 < 31 := by omega
    have hsum : 32 + j % 32 = j := by omega
    rw [hsum]
    simp [hj31]

end Phy

section Channel

variable {host : Endian} {glb : PsagentGlb} {fpga : Fpga} {chan : Channels} {stats : List HdlcChannelStat}

theorem addChannels_placed (h : ∀ stat ∈ stats, Placed stat) (chan : Channels) :
    stats.foldlM addChannel chan = some (stats.foldl Channels.add chan) := by
  induction stats generalizing chan with
  | nil => rfl
  | cons stat stats ih =>
      obtain ⟨hstat, hstats⟩ := List.forall_mem_cons.mp h
      rw [List.foldlM_cons, addChannel, if_pos hstat]
      exact ih hstats _

theorem addChannels_none {stat : HdlcChannelStat} (hmem : stat ∈ stats) (h : ¬ Placed stat) (chan : Channels) :
    stats.foldlM addChannel chan = none := by
  induction stats generalizing chan with
  | nil => cases hmem
  | cons stat' stats ih =>
      rw [List.foldlM_cons, addChannel]
      by_cases hplaced : Placed stat'
      · rw [if_pos hplaced]
        rcases List.mem_cons.mp hmem with rfl | hmem
        · exact absurd hplaced h
        · exact ih hmem _
      · rw [if_neg hplaced]
        rfl

theorem testBit_add {stat : HdlcChannelStat} (hts : stat.ts.toNat < 32) (i j t : Nat) :
    ((chan.add stat).e1Ts i j).toNat.testBit t = true ↔
      (chan.e1Ts i j).toNat.testBit t = true ∨ stat.port.toNat = i ∧ stat.e1.toNat = j ∧ stat.ts.toNat = t := by
  have hshift : stat.ts.toUInt32 = UInt32.ofNat stat.ts.toNat := by
    apply UInt32.toNat.inj
    rw [UInt8.toNat_toUInt32, UInt32.toNat_ofNat']
    omega
  have hword : (chan.add stat).e1Ts i j =
      if i = stat.port.toNat ∧ j = stat.e1.toNat then chan.e1Ts i j ||| 1 <<< UInt32.ofNat stat.ts.toNat
      else chan.e1Ts i j := by
    rw [← hshift]
    simp only [Channels.add]
    by_cases hi : i = stat.port.toNat
    · subst hi
      rw [Function.update_self]
      by_cases hj : j = stat.e1.toNat
      · subst hj
        rw [Function.update_self, if_pos ⟨rfl, rfl⟩]
      · rw [Function.update_of_ne hj, if_neg fun h => hj h.2]
    · rw [Function.update_of_ne hi, if_neg fun h => hi h.1]
  rw [hword]
  by_cases hplace : i = stat.port.toNat ∧ j = stat.e1.toNat
  · rw [if_pos hplace, testBit_set _ hts, Bool.or_eq_true, decide_eq_true_eq]
    exact or_congr Iff.rfl ⟨fun h => ⟨hplace.1.symm, hplace.2.symm, h⟩, fun h => h.2.2⟩
  · rw [if_neg hplace]
    exact (or_iff_left fun h => hplace ⟨h.1.symm, h.2.1.symm⟩).symm

theorem testBit_channels (hts : ∀ stat ∈ stats, stat.ts.toNat < 32) (chan : Channels) (i j t : Nat) :
    ((stats.foldl Channels.add chan).e1Ts i j).toNat.testBit t = true ↔
      (chan.e1Ts i j).toNat.testBit t = true ∨
        ∃ stat ∈ stats, stat.port.toNat = i ∧ stat.e1.toNat = j ∧ stat.ts.toNat = t := by
  induction stats generalizing chan with
  | nil => simp
  | cons stat stats ih =>
      obtain ⟨hstat, hstats⟩ := List.forall_mem_cons.mp hts
      rw [List.foldl_cons, ih hstats, testBit_add hstat, or_assoc]
      simp only [List.mem_cons, exists_eq_or_imp]

theorem validTs_iff {stat : HdlcChannelStat} : validTs stat = true ↔ 1 ≤ stat.ts.toNat ∧ stat.ts.toNat ≤ 31 := by
  rw [validTs, decide_eq_true_eq, UInt8.le_iff_toNat_le, UInt8.le_iff_toNat_le]
  rfl

def validChannels (fpga : Fpga) : List HdlcChannelStat :=
  ((List.range fpgadrvOiamcChanAll).map fpga.chan).filter validTs

theorem mem_validChannels {stat : HdlcChannelStat} : stat ∈ validChannels fpga ↔
    (∃ c < fpgadrvOiamcChanAll, fpga.chan c = stat) ∧ 1 ≤ stat.ts.toNat ∧ stat.ts.toNat ≤ 31 := by
  rw [validChannels, List.mem_filter, validTs_iff, List.mem_map]
  simp only [List.mem_range]

theorem length_channelOctets (chan : Channels) (i : Nat) : (channelOctets chan i).length = 253 := by
  have hwords := length_rows (n := fpgadrvOiamcE1Max) fun j => length_be 4 (chan.e1Ts i j).toNat
  rw [channelOctets, List.length_cons, List.flatMap_def, hwords]
  rfl

theorem channelOctets_word (chan : Channels) {i j : Nat} (hj : j < fpgadrvOiamcE1Max) :
    ((channelOctets chan i).drop (1 + 4 * j)).take 4 = be 4 (chan.e1Ts i j).toNat := by
  have hwin := window_rows (m := 4) (k := 0) (fun j => length_be 4 (chan.e1Ts i j).toNat) hj (Nat.le_refl 4)
  rw [channelOctets, Nat.add_comm 1, List.drop_succ_cons, List.flatMap_def]
  rw [Nat.add_zero, List.drop_zero] at hwin
  rw [hwin, List.take_of_length_le (Nat.le_of_eq (length_be 4 _))]

theorem channel_bits {i j t : Nat} (hi : i < glb.psPortNum.toNat) (hj : j < fpgadrvOiamcE1Max)
    (hpos : 1 ≤ t) (hle : t ≤ 31) (len : Int) :
    (channelWord (message host pspMsgChannelStatAck len (deviceOf glb) (toChar glb.psPortNum ::
        ((List.range glb.psPortNum.toNat).map (channelOctets
          ((validChannels fpga).foldl Channels.add ⟨fun _ => 0, fun _ _ => 0⟩))).flatten)) i j).toNat.testBit t =
      true ↔ Reports fpga i j t := by
  have hmax : fpgadrvOiamcE1Max = 63 := rfl
  have hts : ∀ stat ∈ validChannels fpga, stat.ts.toNat < 32 := fun stat hstat => by
    have h := (mem_validChannels.mp hstat).2.2
    omega
  rw [channelWord, Nat.add_assoc (21 + 253 * i),
    word_message (length_channelOctets _) hi (by omega) (channelOctets_word _ hj), testBit_channels hts]
  constructor
  · rintro (hzero | ⟨stat, hstat, hport, he1, htime⟩)
    · simp at hzero
    · obtain ⟨⟨c, hc, rfl⟩, -⟩ := mem_validChannels.mp hstat
      exact ⟨hpos, hle, c, hc, htime, hport, he1⟩
  · rintro ⟨-, -, c, hc, htime, hport, he1⟩
    exact Or.inr ⟨fpga.chan c, mem_validChannels.mpr ⟨⟨c, hc, rfl⟩, by omega, by omega⟩, hport, he1, htime⟩

def Selects (fpga : Fpga) : Prop := ∀ c < fpgadrvOiamcChanAll, fpga.chanSel c = true

theorem getAll_eq (fpga : Fpga) [Decidable (Selects fpga)] :
    fpgamifGetAllHdlcChannelStat fpga = if Selects fpga then some (validChannels fpga) else none := by
  rw [fpgamifGetAllHdlcChannelStat]
  refine if_congr ?_ rfl rfl
  rw [List.all_eq_true]
  simp only [List.mem_range]
  exact Iff.rfl

theorem channel_refused {alloc : Bool} (h : ¬ (alloc = true ∧ Selects fpga)) :
    psagentGetChannelStat host glb fpga alloc = some none := by
  classical
  rw [psagentGetChannelStat, getAll_eq]
  by_cases halloc : alloc = false
  · exact if_pos halloc
  · have hsel : ¬ Selects fpga := fun hs => h ⟨by simpa using halloc, hs⟩
    rw [if_neg halloc, if_neg hsel]

theorem channel_none (hsel : Selects fpga) {stat : HdlcChannelStat} (hmem : stat ∈ validChannels fpga)
    (h : ¬ Placed stat) : psagentGetChannelStat host glb fpga true = none := by
  classical
  rw [psagentGetChannelStat, getAll_eq, if_neg (by decide), if_pos hsel]
  simp only [addChannels_none hmem h]
  rfl

theorem channel_some (hsel : Selects fpga) (hplaced : ∀ stat ∈ validChannels fpga, Placed stat)
    (hnum : glb.psPortNum.toNat ≤ portMax) :
    psagentGetChannelStat host glb fpga true = some (some (message host pspMsgChannelStatAck
      (hdrSize + 1 + 253 * glb.psPortNum) (deviceOf glb) (toChar glb.psPortNum ::
        ((List.range glb.psPortNum.toNat).map (channelOctets
          ((validChannels fpga).foldl Channels.add ⟨fun _ => 0, fun _ _ => 0⟩))).flatten))) := by
  classical
  have hmax : portMax = 4 := rfl
  have hrows := mapM_atPort
    (x := channelOctets ((validChannels fpga).foldl Channels.add ⟨fun _ => 0, fun _ _ => 0⟩)) id hnum
  simp only [Option.map_id, id_eq] at hrows
  rw [psagentGetChannelStat, getAll_eq, if_neg (by decide), if_pos hsel]
  simp only [addChannels_placed hplaced, hrows, Option.bind_eq_bind, Option.bind_some]
  rw [if_neg (by simp only [hdrSize]; omega)]
  rfl

end Channel

/-- The parameters of a card: the number of ports goes by its type and the version. -/
def configured (lmSimple : Bool) (glb : PsagentGlb) : PsagentGlb :=
  { glb with psPortNum := portNum lmSimple glb.cardtype }

/-- The card is not the one with more ports than the arrays have, and each channel that is reported
goes to an entry of them. -/
structure Fits (glb : PsagentGlb) (fpga : Fpga) (alloc : Bool) : Prop where
  ports : glb.cardtype ≠ .oipc
  channels : alloc = true → (∀ c < fpgadrvOiamcChanAll, fpga.chanSel c = true) →
    ∀ c < fpgadrvOiamcChanAll, 1 ≤ (fpga.chan c).ts.toNat → (fpga.chan c).ts.toNat ≤ 31 →
      (fpga.chan c).port.toNat < portMax ∧ (fpga.chan c).e1.toNat < fpgadrvOiamcE1Max

theorem configured_ports (lmSimple : Bool) (glb : PsagentGlb) :
    glb.cardtype ≠ .oipc ↔ (configured lmSimple glb).psPortNum.toNat ≤ portMax := by
  change glb.cardtype ≠ .oipc ↔ (portNum lmSimple glb.cardtype).toNat ≤ portMax
  cases glb.cardtype <;> cases lmSimple <;> decide

theorem configured_nonneg (lmSimple : Bool) (glb : PsagentGlb) :
    0 ≤ (configured lmSimple glb).psPortNum ∧ (configured lmSimple glb).psPortNum ≤ 32 := by
  change 0 ≤ portNum lmSimple glb.cardtype ∧ portNum lmSimple glb.cardtype ≤ 32
  cases glb.cardtype <;> cases lmSimple <;> decide

theorem status_messages_iff (host : Endian) (lmSimple : Bool) (glb : PsagentGlb) (fpga : Fpga) (alloc : Bool) :
    StatusMessages host (configured lmSimple glb) fpga alloc ↔ Fits glb fpga alloc := by
  obtain ⟨hmin, hmax⟩ := configured_nonneg lmSimple glb
  have hhdr : hdrSize = 20 := rfl
  constructor
  · rintro ⟨⟨buf, hphy, -⟩, ⟨sent, hsent, -⟩⟩
    have hports : (configured lmSimple glb).psPortNum.toNat ≤ portMax := by
      by_contra hmore
      rw [phy_none (by omega)] at hphy
      cases hphy
    refine ⟨(configured_ports lmSimple glb).mpr hports, ?_⟩
    rintro rfl hsel c hc hpos hle
    by_contra hplaced
    rw [channel_none hsel (mem_validChannels.mpr ⟨⟨c, hc, rfl⟩, hpos, hle⟩) hplaced] at hsent
    cases hsent
  · rintro ⟨hcard, hchannels⟩
    have hports := (configured_ports lmSimple glb).mp hcard
    refine ⟨⟨_, phy_some hports, ?_, fun i hi j hj => phy_bits hi hj _⟩, ?_⟩
    · rw [plen_message (by omega) (by omega), Int.add_assoc]
    · by_cases hsends : alloc = true ∧ Selects fpga
      · obtain ⟨rfl, hsel⟩ := hsends
        have hplaced : ∀ stat ∈ validChannels fpga, Placed stat := by
          intro stat hstat
          obtain ⟨⟨c, hc, rfl⟩, hpos, hle⟩ := mem_validChannels.mp hstat
          exact hchannels rfl hsel c hc hpos hle
        refine ⟨_, channel_some hsel hplaced hports, fun buf hbuf => ?_⟩
        obtain rfl := Option.some.inj hbuf
        refine ⟨?_, fun i hi j hj t hpos hle => channel_bits hi hj hpos hle _⟩
        rw [plen_message (by omega) (by omega), Int.add_assoc]
      · exact ⟨none, channel_refused hsends, fun buf hbuf => absurd hbuf (by simp)⟩

/-- An OIPC card reads beyond the table of four ports. -/
theorem oipc_leaves_table : ¬ ∀ host lmSimple glb fpga alloc,
    StatusMessages host (configured lmSimple glb) fpga alloc := by
  intro h
  let glb : PsagentGlb := ⟨1, .oipc, 1, 1, 0, 0, 0⟩
  let fpga : Fpga := ⟨fun _ => true, fun _ => 0, fun _ _ => true, fun _ _ => 0, fun _ _ => 0, fun _ => true,
    fun _ _ => true, fun _ _ => 0, fun _ => true, fun _ => ⟨0, 0, 0, 0⟩⟩
  obtain ⟨buf, hphy, -⟩ := (h .big false glb fpga true).phy
  rw [phy_none (by decide)] at hphy
  cases hphy

end OiAmc.LkmpStat

import Mathlib.Tactic.IntervalCases
import OiAmc.ByteOrder

namespace OiAmc.Pkt

open Function ByteOrder

variable (host : Endian) (ph : Octets)

def PKT_SYNC_FLAG : UInt16 := 0x7e5a

def PKT_2M_CHANNEL : UInt8 := 0x04

/-- sizeof(pkt_hdr). -/
def hdrSize : Int := 20

-- A field of two octets, by octet shifts.
def slowGet16 (a : Nat) : UInt16 := .ofNat ((ph a).toNat <<< 8 ||| (ph (a + 1)).toNat)

def slowSet16 (a : Nat) (v : UInt16) : Octets :=
  update (update ph a (.ofNat (v.toNat >>> 8 &&& 0xff))) (a + 1) (.ofNat (v.toNat &&& 0xff))

def pkthdrGetSync : UInt16 := swap16 host (load16 host ph 0)

def pkthdrSlowGetSync : UInt16 := slowGet16 ph 0

def pkthdrSetSync : Octets := store16 host ph 0 (swap16 host PKT_SYNC_FLAG)

def pkthdrSlowSetSync : Octets := update (update ph 0 0x7e) 1 0x5a

def pkthdrValidSync : Bool := pkthdrGetSync host ph == PKT_SYNC_FLAG

def pkthdrSlowValidSync : Bool := pkthdrSlowGetSync ph == PKT_SYNC_FLAG

def pkthdrGetSc : UInt8 := ph 7

def pkthdrSlowGetSc : UInt8 := ph 7

def pkthdrScIs2mChannel : Int := if ph 7 &&& PKT_2M_CHANNEL ≠ 0 then 1 else 0

def pkthdrSlowScIs2mChannel : Int := if ph 7 &&& PKT_2M_CHANNEL ≠ 0 then 1 else 0

def pkthdrScSet2mChannel : Octets := update ph 7 (ph 7 ||| PKT_2M_CHANNEL)

def pkthdrSlowScSet2mChannel : Octets := update ph 7 (ph 7 ||| PKT_2M_CHANNEL)

def pkthdrScClr2mChannel : Octets := update ph 7 (ph 7 &&& ~~~PKT_2M_CHANNEL)

def pkthdrSlowScClr2mChannel : Octets := update ph 7 (ph 7 &&& ~~~PKT_2M_CHANNEL)

def pkthdrScGetFlen : Int := (ph 7 &&& 0x03).toNat

def pkthdrSlowScGetFlen : Int := (ph 7 &&& 0x03).toNat

def pkthdrScClrFlen : Octets := update ph 7 (ph 7 &&& 0xFC)

def pkthdrSlowScClrFlen : Octets := update ph 7 (ph 7 &&& 0xFC)

def pkthdrScSetFlen (flen : Int) : Octets :=
  let ph := pkthdrScClrFlen ph
  update ph 7 (ph 7 ||| UInt8.ofInt flen &&& 0x03)

def pkthdrSlowScSetFlen (flen : Int) : Octets :=
  let ph := pkthdrSlowScClrFlen ph
  update ph 7 (ph 7 ||| UInt8.ofInt flen &&& 0x03)

def pkthdrRawGetLen : UInt16 := swap16 host (load16 host ph 2)

def pkthdrRawSlowGetLen : UInt16 := slowGet16 ph 2

def pkthdrRawSetLen (len : UInt16) : Octets := store16 host ph 2 (swap16 host len)

def pkthdrRawSlowSetLen (len : UInt16) : Octets := slowSet16 ph 2 len

def pkthdrGetLen : Int := (pkthdrRawGetLen host ph).toNat * 4

def pkthdrSlowGetLen : Int := (pkthdrRawSlowGetLen ph).toNat * 4

def pkthdrGetPlen : Int := pkthdrGetLen host ph - pkthdrScGetFlen ph

def pkthdrSlowGetPlen : Int := pkthdrSlowGetLen ph - pkthdrSlowScGetFlen ph

def fillerOf (plen : Int) : Int :=
  let filler := 4 - plen % 4
  if filler ≥ 4 then 0 else filler

/-- The length in words, as an unsigned short. -/
def wordsOf (plen : Int) : UInt16 := .ofNat ((plen + fillerOf plen) / 4).toNat

def pkthdrSetPlen (plen : Int) : Octets :=
  if plen ≥ hdrSize then
    pkthdrRawSetLen host (pkthdrScSetFlen ph (fillerOf plen)) (wordsOf plen)
  else ph

def pkthdrSlowSetPlen (plen : Int) : Octets :=
  if plen ≥ hdrSize then
    pkthdrRawSlowSetLen (pkthdrSlowScSetFlen ph (fillerOf plen)) (wordsOf plen)
  else ph

def pkthdrGetDlen : Int := pkthdrGetPlen host ph - hdrSize

def pkthdrSlowGetDlen : Int := pkthdrSlowGetPlen ph - hdrSize

/-- The sum is taken as a size_t and handed over as an int. -/
def pkthdrSetDlen (datalen : Int) : Octets :=
  pkthdrSetPlen host ph ((hdrSize + datalen).bmod 0x100000000)

def pkthdrSlowSetDlen (datalen : Int) : Octets :=
  pkthdrSlowSetPlen ph ((hdrSize + datalen).bmod 0x100000000)

def pkthdrGetType : UInt8 := ph 4

def pkthdrSlowGetType : UInt8 := ph 4

def pkthdrSetType (t : UInt8) : Octets := update ph 4 t

def pkthdrSlowSetType (t : UInt8) : Octets := update ph 4 t

def pkthdrGetSubtype : UInt8 := ph 5

def pkthdrSlowGetSubtype : UInt8 := ph 5

def pkthdrSetSubtype (st : UInt8) : Octets := update ph 5 st

def pkthdrSlowSetSubtype (st : UInt8) : Octets := update ph 5 st

def pkthdrGetProtocol : UInt8 := ph 6

def pkthdrSlowGetProtocol : UInt8 := ph 6

def pkthdrSetProtocol (p : UInt8) : Octets := update ph 6 p

def pkthdrSlowSetProtocol (p : UInt8) : Octets := update ph 6 p

def pkthdrGetDevice : UInt16 := swap16 host (load16 host ph 8)

def pkthdrSlowGetDevice : UInt16 := slowGet16 ph 8

def pkthdrSetDevice (dev : UInt16) : Octets := store16 host ph 8 (swap16 host dev)

def pkthdrSlowSetDevice (dev : UInt16) : Octets := slowSet16 ph 8 dev

def pkthdrGetChannel : UInt16 := swap16 host (load16 host ph 10)

def pkthdrSlowGetChannel : UInt16 := slowGet16 ph 10

def pkthdrSetChannel (channel : UInt16) : Octets := store16 host ph 10 (swap16 host channel)

def pkthdrSlowSetChannel (channel : UInt16) : Octets := slowSet16 ph 10 channel

/-- The first three octets are all shifted by eight. -/
def slowGetStamp (a : Nat) : UInt32 :=
  .ofNat ((ph a).toNat <<< 8 ||| (ph (a + 1)).toNat <<< 8 ||| (ph (a + 2)).toNat <<< 8 |||
    (ph (a + 3)).toNat)

def slowSetStamp (a : Nat) (v : UInt32) : Octets :=
  update (update (update (update ph a (.ofNat (v.toNat >>> 24 &&& 0xff)))
    (a + 1) (.ofNat (v.toNat >>> 16 &&& 0xff))) (a + 2) (.ofNat (v.toNat >>> 8 &&& 0xff)))
    (a + 3) (.ofNat (v.toNat >>> 0 &&& 0xff))

def pkthdrGetTsS : UInt32 := swap32 host (load32 host ph 12)

def pkthdrSlowGetTsS : UInt32 := slowGetStamp ph 12

def pkthdrGetTsNs : UInt32 := swap32 host (load32 host ph 16)

def pkthdrSlowGetTsNs : UInt32 := slowGetStamp ph 16

def pkthdrSetTsS (s : UInt32) : Octets := store32 host ph 12 (swap32 host s)

def pkthdrSlowSetTsS (s : UInt32) : Octets := slowSetStamp ph 12 s

def pkthdrSetTsNs (ns : UInt32) : Octets := store32 host ph 16 (swap32 host ns)

def pkthdrSlowSetTsNs (ns : UInt32) : Octets := slowSetStamp ph 16 ns

def pkthdrSetTs (s ns : UInt32) : Octets := pkthdrSetTsNs host (pkthdrSetTsS host ph s) ns

def pkthdrSlowSetTs (s ns : UInt32) : Octets := pkthdrSlowSetTsNs (pkthdrSlowSetTsS ph s) ns

/-- The length of the packet at the start of a buffer: -1 where there is none, 0 while it is not
complete. A buffer of none is a null pointer. -/
def pktVerify (buf : Option Octets) (size : Int) : Int :=
  match buf with
  | none => -1
  | some ph =>
      if size < hdrSize then 0
      else if !pkthdrValidSync host ph then -1
      else if pkthdrGetPlen host ph < hdrSize then -1
      else if size > 0 ∧ pkthdrGetPlen host ph > size then 0
      else pkthdrGetPlen host ph

def pktVerifySlow (buf : Option Octets) (size : Int) : Int :=
  match buf with
  | none => -1
  | some ph =>
      if size < hdrSize then 0
      else if !pkthdrSlowValidSync ph then -1
      else if pkthdrSlowGetPlen ph < hdrSize then -1
      else if size > 0 ∧ pkthdrSlowGetPlen ph > size then 0
      else pkthdrSlowGetPlen ph

theorem shiftLeft_or_octet (m n : UInt8) : m.toNat <<< 8 ||| n.toNat = 256 * m.toNat + n.toNat := by
  rw [← Nat.shiftLeft_add_eq_or_of_lt n.toNat_lt, Nat.shiftLeft_eq, Nat.mul_comm]

theorem slowGet16_eq (a : Nat) : slowGet16 ph a = be16 ph a := by
  rw [slowGet16, shiftLeft_or_octet, be16, load16]

theorem ofNat_and_ff (n : Nat) : UInt8.ofNat (n &&& 0xff) = .ofNat n := by
  apply ofNat_eq_of_mod
  rw [Nat.and_two_pow_sub_one_eq_mod n 8, Nat.mod_mod]

theorem slowSet16_eq (a : Nat) (v : UInt16) : slowSet16 ph a v = putBe16 ph a v := by
  rw [slowSet16, ofNat_and_ff, ofNat_and_ff, Nat.shiftRight_eq_div_pow, putBe16, store16]

theorem slowSetStamp_eq (a : Nat) (v : UInt32) : slowSetStamp ph a v = putBe32 ph a v := by
  rw [slowSetStamp, ofNat_and_ff, ofNat_and_ff, ofNat_and_ff, ofNat_and_ff,
    Nat.shiftRight_eq_div_pow, Nat.shiftRight_eq_div_pow, Nat.shiftRight_eq_div_pow,
    Nat.shiftRight_zero, putBe32, store32]

theorem toNat_slowGetStamp_lt (a : Nat) : (slowGetStamp ph a).toNat < 65536 := by
  have hshift (i : Nat) : (ph i).toNat <<< 8 < 2 ^ 16 := by
    have := (ph i).toNat_lt
    rw [Nat.shiftLeft_eq]
    omega
  have hlow : (ph (a + 3)).toNat < 2 ^ 16 := by
    have := (ph (a + 3)).toNat_lt
    omega
  have h := Nat.or_lt_two_pow (Nat.or_lt_two_pow (Nat.or_lt_two_pow (hshift a) (hshift (a + 1)))
    (hshift (a + 2))) hlow
  rw [slowGetStamp, UInt32.toNat_ofNat']
  omega

theorem slowGetStamp_eq_iff (a : Nat) : slowGetStamp ph a = be32 ph a ↔ (be32 ph a).toNat < 65536 := by
  constructor
  · intro h
    rw [← h]
    exact toNat_slowGetStamp_lt ph a
  · intro h
    have hb := toNat_be32 ph a
    have h0 : (ph a).toNat = 0 := by omega
    have h1 : (ph (a + 1)).toNat = 0 := by omega
    rw [h0, h1] at hb
    apply UInt32.toNat.inj
    rw [hb, slowGetStamp, h0, h1, Nat.zero_shiftLeft, Nat.zero_or, Nat.zero_or, shiftLeft_or_octet,
      UInt32.toNat_ofNat']
    omega

@[simp] theorem slowValidSync_eq : pkthdrSlowValidSync ph = pkthdrValidSync host ph := by
  rw [pkthdrSlowValidSync, pkthdrSlowGetSync, slowGet16_eq, pkthdrValidSync, pkthdrGetSync,
    swap16_load16]

@[simp] theorem rawSlowGetLen_eq : pkthdrRawSlowGetLen ph = pkthdrRawGetLen host ph := by
  rw [pkthdrRawSlowGetLen, slowGet16_eq, pkthdrRawGetLen, swap16_load16]

@[simp] theorem slowGetPlen_eq : pkthdrSlowGetPlen ph = pkthdrGetPlen host ph := by
  rw [pkthdrSlowGetPlen, pkthdrSlowGetLen, rawSlowGetLen_eq host]
  rfl

theorem verifySlow_eq (buf : Option Octets) (size : Int) :
    pktVerifySlow buf size = pktVerify host buf size := by
  cases buf with
  | none => rfl
  | some ph =>
      simp only [pktVerifySlow, pktVerify, slowValidSync_eq host, slowGetPlen_eq host]

variable {host ph}

theorem rawGetLen_rawSetLen (len : UInt16) :
    pkthdrRawGetLen host (pkthdrRawSetLen host ph len) = len := by
  rw [pkthdrRawGetLen, swap16_load16, pkthdrRawSetLen, store16_swap16, be16_putBe16]

theorem rawSetLen_of_outside (len : UInt16) {i : Nat} (hi : i < 2 ∨ 4 ≤ i) :
    pkthdrRawSetLen host ph len i = ph i := by
  rw [pkthdrRawSetLen, store16_swap16, putBe16_of_outside _ _ _ hi]

theorem scSetFlen_seven (ph : Octets) (flen : Int) :
    pkthdrScSetFlen ph flen 7 = ph 7 &&& ~~~0x03 ||| UInt8.ofInt flen &&& 0x03 := by
  rw [pkthdrScSetFlen, update_self, pkthdrScClrFlen, update_self]
  rfl

theorem scGetFlen_scSetFlen {flen : Int} (h0 : 0 ≤ flen) (h3 : flen ≤ 3) :
    pkthdrScGetFlen (pkthdrScSetFlen ph flen) = flen := by
  rw [pkthdrScGetFlen, scSetFlen_seven, put_and_mask]
  interval_cases flen <;> rfl

theorem scGetFlen_nonneg (ph : Octets) : 0 ≤ pkthdrScGetFlen ph := Int.natCast_nonneg _

theorem fillerOf_bounds (n : Int) : 0 ≤ fillerOf n ∧ fillerOf n ≤ 3 ∧
    4 * ((n + fillerOf n) / 4) = n + fillerOf n := by
  simp only [fillerOf]
  split <;> omega

theorem scGetFlen_congr {p : Octets} (h : p 7 = ph 7) : pkthdrScGetFlen p = pkthdrScGetFlen ph := by
  rw [pkthdrScGetFlen, h, pkthdrScGetFlen]

theorem getPlen_le (host : Endian) (ph : Octets) : pkthdrGetPlen host ph ≤ 262140 := by
  have hlen : (pkthdrRawGetLen host ph).toNat < 65536 := (pkthdrRawGetLen host ph).toNat_lt
  have hflen := scGetFlen_nonneg ph
  rw [pkthdrGetPlen, pkthdrGetLen]
  omega

theorem getPlen_setPlen_iff {n : Int} (h : hdrSize ≤ n) :
    pkthdrGetPlen host (pkthdrSetPlen host ph n) = n ↔ n ≤ 262140 := by
  constructor
  · intro hn
    rw [← hn]
    exact getPlen_le _ _
  · intro hn
    have hn0 : 0 ≤ n := le_trans (by decide) h
    obtain ⟨h0, h3, hwords⟩ := fillerOf_bounds n
    have hlen : ((wordsOf n).toNat : Int) * 4 = n + fillerOf n := by
      rw [wordsOf, UInt16.toNat_ofNat']
      omega
    rw [pkthdrSetPlen, if_pos h, pkthdrGetPlen, pkthdrGetLen, rawGetLen_rawSetLen, hlen,
      scGetFlen_congr (rawSetLen_of_outside _ (by omega)), scGetFlen_scSetFlen h0 h3]
    omega

theorem getDlen_setDlen_iff {n : Int} (h : 0 ≤ n) (hint : n ≤ 2147483627) :
    pkthdrGetDlen host (pkthdrSetDlen host ph n) = n ↔ n ≤ 262120 := by
  have hmod : (hdrSize + n).bmod 0x100000000 = hdrSize + n := by
    apply Int.bmod_eq_of_le
    · simp only [hdrSize]
      omega
    · simp only [hdrSize]
      omega
  have hle : hdrSize ≤ hdrSize + n := by omega
  rw [pkthdrGetDlen, pkthdrSetDlen, hmod, Int.sub_eq_iff_eq_add, Int.add_comm n,
    getPlen_setPlen_iff hle]
  simp only [hdrSize]
  omega

theorem load16_congr {p q : Octets} {a : Nat} (h : p a = q a) (h' : p (a + 1) = q (a + 1)) :
    load16 host p a = load16 host q a := by
  cases host <;> rw [load16, load16, h, h']

-- Of a header pkt_verify looks at the first eight octets only.
theorem validSync_congr {p q : Octets} (h : ∀ i < 8, p i = q i) :
    pkthdrValidSync host p = pkthdrValidSync host q := by
  rw [pkthdrValidSync, pkthdrGetSync, load16_congr (h 0 (by omega)) (h 1 (by omega)),
    pkthdrValidSync, pkthdrGetSync]

theorem getPlen_of_fields {p q : Octets} (h2 : p 2 = q 2) (h3 : p 3 = q 3) (h7 : p 7 = q 7) :
    pkthdrGetPlen host p = pkthdrGetPlen host q := by
  rw [pkthdrGetPlen, pkthdrGetLen, pkthdrRawGetLen, load16_congr h2 h3, scGetFlen_congr h7, pkthdrGetPlen,
    pkthdrGetLen, pkthdrRawGetLen]

theorem getPlen_congr {p q : Octets} (h : ∀ i < 8, p i = q i) :
    pkthdrGetPlen host p = pkthdrGetPlen host q :=
  getPlen_of_fields (h 2 (by omega)) (h 3 (by omega)) (h 7 (by omega))

theorem setTs_of_lt (host : Endian) (ph : Octets) (s ns : UInt32) {i : Nat} (hi : i < 12) :
    pkthdrSetTs host ph s ns i = ph i := by
  rw [pkthdrSetTs, pkthdrSetTsNs, store32_swap32, putBe32_of_outside _ _ _ (.inl (by omega)),
    pkthdrSetTsS, store32_swap32, putBe32_of_outside _ _ _ (.inl hi)]

theorem verify_of_valid {p : Octets} {size : Int} (hsync : pkthdrValidSync host p = true)
    (hmin : hdrSize ≤ pkthdrGetPlen host p) (hsize : pkthdrGetPlen host p ≤ size) :
    pktVerify host (some p) size = pkthdrGetPlen host p := by
  simp only [pktVerify]
  rw [if_neg (by omega), hsync, if_neg (by decide), if_neg (by omega), if_neg (by omega)]

theorem verify_le (host : Endian) (p : Octets) (size : Int) : pktVerify host (some p) size ≤ 262140 := by
  have hplen := getPlen_le host p
  simp only [pktVerify]
  split_ifs <;> omega

end OiAmc.Pkt

import OiAmc.CrcRegister
import Mathlib.Data.UInt

namespace OiAmc.SwtcHeader

open CrcRegister

def cosetLeader : UInt8 := 0x55

def syndromeTable : List UInt8 :=
  [0x00, 0x07, 0x0e, 0x09, 0x1c, 0x1b, 0x12, 0x15, 0x38, 0x3f, 0x36, 0x31,
   0x24, 0x23, 0x2a, 0x2d, 0x70, 0x77, 0x7e, 0x79, 0x6c, 0x6b, 0x62, 0x65,
   0x48, 0x4f, 0x46, 0x41, 0x54, 0x53, 0x5a, 0x5d, 0xe0, 0xe7, 0xee, 0xe9,
   0xfc, 0xfb, 0xf2, 0xf5, 0xd8, 0xdf, 0xd6, 0xd1, 0xc4, 0xc3, 0xca, 0xcd,
   0x90, 0x97, 0x9e, 0x99, 0x8c, 0x8b, 0x82, 0x85, 0xa8, 0xaf, 0xa6, 0xa1,
   0xb4, 0xb3, 0xba, 0xbd, 0xc7, 0xc0, 0xc9, 0xce, 0xdb, 0xdc, 0xd5, 0xd2,
   0xff, 0xf8, 0xf1, 0xf6, 0xe3, 0xe4, 0xed, 0xea, 0xb7, 0xb0, 0xb9, 0xbe,
   0xab, 0xac, 0xa5, 0xa2, 0x8f, 0x88, 0x81, 0x86, 0x93, 0x94, 0x9d, 0x9a,
   0x27, 0x20, 0x29, 0x2e, 0x3b, 0x3c, 0x35, 0x32, 0x1f, 0x18, 0x11, 0x16,
   0x03, 0x04, 0x0d, 0x0a, 0x57, 0x50, 0x59, 0x5e, 0x4b, 0x4c, 0x45, 0x42,
   0x6f, 0x68, 0x61, 0x66, 0x73, 0x74, 0x7d, 0x7a, 0x89, 0x8e, 0x87, 0x80,
   0x95, 0x92, 0x9b, 0x9c, 0xb1, 0xb6, 0xbf, 0xb8, 0xad, 0xaa, 0xa3, 0xa4,
   0xf9, 0xfe, 0xf7, 0xf0, 0xe5, 0xe2, 0xeb, 0xec, 0xc1, 0xc6, 0xcf, 0xc8,
   0xdd, 0xda, 0xd3, 0xd4, 0x69, 0x6e, 0x67, 0x60, 0x75, 0x72, 0x7b, 0x7c,
   0x51, 0x56, 0x5f, 0x58, 0x4d, 0x4a, 0x43, 0x44, 0x19, 0x1e, 0x17, 0x10,
   0x05, 0x02, 0x0b, 0x0c, 0x21, 0x26, 0x2f, 0x28, 0x3d, 0x3a, 0x33, 0x34,
   0x4e, 0x49, 0x40, 0x47, 0x52, 0x55, 0x5c, 0x5b, 0x76, 0x71, 0x78, 0x7f,
   0x6a, 0x6d, 0x64, 0x63, 0x3e, 0x39, 0x30, 0x37, 0x22, 0x25, 0x2c, 0x2b,
   0x06, 0x01, 0x08, 0x0f, 0x1a, 0x1d, 0x14, 0x13, 0xae, 0xa9, 0xa0, 0xa7,
   0xb2, 0xb5, 0xbc, 0xbb, 0x96, 0x91, 0x98, 0x9f, 0x8a, 0x8d, 0x84, 0x83,
   0xde, 0xd9, 0xd0, 0xd7, 0xc2, 0xc5, 0xcc, 0xcb, 0xe6, 0xe1, 0xe8, 0xef,
   0xfa, 0xfd, 0xf4, 0xf3]

def noErrorDetected : Int := -128

def uncorrectableError : Int := 128

/-- The entries that the source writes down. Those after them are 0. -/
def errPosnTable : List Int :=
  [-128, 37, 36, 128, 35, 128, 128, 29, 34, 128, 128, 6, 128, 128, 28, 128,
   33, 128, 128, 128, 128, 21, 5, 128, 128, 128, 128, 128, 27, 128, 128, 128,
   32, 128, 128, 128, 128, 128, 128, 128, 128, 128, 20, 128, 4, 128, 128, 128,
   128, 128, 128, 128, 128, 128, 128, 128, 26, 128, 128, 128, 128, 128, 128, 128]

/-- Where the error of a cell header is, if it was correctable. A header without an
error gives noErrorDetected. -/
def getHeaderErr (cellHeader : Nat → UInt8) : Int :=
  let syndrome := (List.range 4).foldl
    (fun syndrome i => syndromeTable.getD (syndrome ^^^ cellHeader i).toNat 0) 0
  let syndrome := syndrome ^^^ (cellHeader 4 ^^^ cosetLeader)
  let errPosn := errPosnTable.getD syndrome.toNat 0
  if errPosn < 0 then noErrorDetected
  else if errPosn < 40 then errPosn
  else uncorrectableError

/-- The CRC-8 of the first four octets, for x^8 + x^2 + x + 1. -/
def crc8 (h : Nat → UInt8) : BitVec 8 :=
  (forward 0x07#8).run 0#8 ((List.range 4).flatMap fun i => msbBits (h i).toBitVec)

/-- A header with the check octet that belongs to it. -/
def Valid (h : Nat → UInt8) : Prop := (h 4).toBitVec = crc8 h ^^^ 0x55#8

/-- A header with one bit inverted; bits are counted from the highest one of the first octet. -/
def invert (h : Nat → UInt8) (j : Nat) : Nat → UInt8 :=
  Function.update h (j / 8) (h (j / 8) ^^^ (0x80 : UInt8) >>> .ofNat (j % 8))

theorem syndromeTable_eq : syndromeTable.map UInt8.toBitVec = octetTable (forward 0x07#8) := by
  decide +kernel

theorem syndromeTable_getD (s : BitVec 8) :
    (syndromeTable.getD s.toNat 0).toBitVec = (forward 0x07#8).shift^[8] s := by
  rw [octetTable_getD UInt8.toBitVec _ 0 syndromeTable_eq s.isLt, BitVec.ofNat_toNat, BitVec.setWidth_eq]

/-- What is left over of five octets, without the coset. -/
def remainder (x : Nat → BitVec 8) : BitVec 8 :=
  (List.range 4).foldl (fun s i => (forward 0x07#8).shift^[8] (s ^^^ x i)) 0#8 ^^^ x 4

theorem remainder_xor (x y : Nat → BitVec 8) :
    remainder (fun i => x i ^^^ y i) = remainder x ^^^ remainder y := by
  have hadd := shifts_xor (forward 0x07#8) 8
  simp only [remainder, show List.range 4 = [0, 1, 2, 3] from rfl, List.foldl_cons, List.foldl_nil,
    BitVec.zero_xor]
  generalize (forward 0x07#8).shift^[8] = shift at hadd ⊢
  simp only [hadd]
  ac_rfl

theorem crc8_eq (h : Nat → UInt8) : crc8 h ^^^ (h 4).toBitVec = remainder fun i => (h i).toBitVec := by
  simp only [crc8, remainder, show List.range 4 = [0, 1, 2, 3] from rfl, List.flatMap_cons,
    List.flatMap_nil, run_append, forward_run, List.foldl_cons, List.foldl_nil]
  rfl

/-- The entry that a syndrome stands for, as it is returned. -/
def errOf (syndrome : BitVec 8) : Int :=
  let errPosn := errPosnTable.getD syndrome.toNat 0
  if errPosn < 0 then noErrorDetected
  else if errPosn < 40 then errPosn
  else uncorrectableError

theorem getHeaderErr_eq (h : Nat → UInt8) :
    getHeaderErr h = errOf ((remainder fun i => (h i).toBitVec) ^^^ 0x55#8) := by
  have hfold (is : List Nat) (s : UInt8) :
      (is.foldl (fun s i => syndromeTable.getD (s ^^^ h i).toNat 0) s).toBitVec =
        is.foldl (fun s i => (forward 0x07#8).shift^[8] (s ^^^ (h i).toBitVec)) s.toBitVec := by
    induction is generalizing s with
    | nil => rfl
    | cons i is ih =>
        rw [List.foldl_cons, ih, List.foldl_cons]
        congr 1
        exact syndromeTable_getD (s ^^^ h i).toBitVec
  have hsyndrome := hfold (List.range 4) 0
  rw [remainder, BitVec.xor_assoc, ← show (0 : UInt8).toBitVec = 0#8 from rfl, ← hsyndrome]
  rfl

theorem errOf_none : ∀ s : BitVec 8, errOf s = noErrorDetected ↔ s = 0#8 := by
  decide +kernel

theorem valid_iff (h : Nat → UInt8) : Valid h ↔ (remainder fun i => (h i).toBitVec) ^^^ 0x55#8 = 0#8 := by
  rw [← crc8_eq, Valid, BitVec.xor_assoc, BitVec.xor_comm (h 4).toBitVec, ← BitVec.xor_assoc,
    BitVec.xor_eq_zero_iff, eq_comm]

theorem no_error_iff (h : Nat → UInt8) : getHeaderErr h = noErrorDetected ↔ Valid h := by
  rw [getHeaderErr_eq, errOf_none, valid_iff]

/-- What is returned when one bit is wrong, bit by bit. -/
def bitErr : List Int :=
  [128, 0, 0, 0, 0, 0, 4, 5, 6, 0, 0, 0, 0, 0, 0, 0, 0, 0, 0, 0, 0, 0, 20, 21, 0, 0, 0, 0, 26, 27, 28, 29,
   0, 0, 32, 33, 34, 35, 36, 37]

def bitRemainder (j : Nat) : BitVec 8 := remainder fun i => if i = j / 8 then 0x80#8 >>> (j % 8) else 0#8

theorem bitErr_eq : ∀ j < 40, errOf (bitRemainder j) = bitErr.getD j 0 := by
  decide +kernel

theorem getHeaderErr_invert {h : Nat → UInt8} (hv : Valid h) {j : Nat} (hj : j < 40) :
    getHeaderErr (invert h j) = bitErr.getD j 0 := by
  have hflip : (fun i => (invert h j i).toBitVec) = fun i => (h i).toBitVec ^^^
      if i = j / 8 then 0x80#8 >>> (j % 8) else 0#8 := by
    funext i
    rw [invert]
    by_cases hi : i = j / 8
    · subst hi
      rw [Function.update_self, if_pos rfl, UInt8.toBitVec_xor, UInt8.toBitVec_shiftRight]
      have hplace : (UInt8.ofNat (j % 8)).toBitVec % (8 : BitVec 8) = BitVec.ofNat 8 (j % 8) := by
        apply BitVec.eq_of_toNat_eq
        simp
        omega
      have hsmall : (BitVec.ofNat 8 (j % 8)).toNat = j % 8 := by
        rw [BitVec.toNat_ofNat]
        exact Nat.mod_eq_of_lt (by omega)
      rw [hplace, BitVec.ushiftRight_eq', hsmall]
      rfl
    · rw [Function.update_of_ne hi, if_neg hi, BitVec.xor_zero]
  rw [getHeaderErr_eq, hflip, remainder_xor, ← bitErr_eq j hj, bitRemainder]
  congr 1
  rw [BitVec.xor_assoc, BitVec.xor_comm _ 0x55#8, ← BitVec.xor_assoc, (valid_iff h).mp hv,
    BitVec.zero_xor]

/-- The position that is returned for a wrong bit is one, and no other bit's. -/
def Identified (h : Nat → UInt8) (j : Nat) : Prop :=
  0 ≤ getHeaderErr (invert h j) ∧ getHeaderErr (invert h j) < 40 ∧
    ∀ i < 40, getHeaderErr (invert h i) = getHeaderErr (invert h j) → i = j

theorem bitErr_once : ∀ j < 40, (0 ≤ bitErr.getD j 0 ∧ bitErr.getD j 0 < 40 ∧
    ∀ i < 40, bitErr.getD i 0 = bitErr.getD j 0 → i = j) ↔
      j ∈ [6, 7, 8, 22, 23, 28, 29, 30, 31, 34, 35, 36, 37, 38, 39] := by
  decide +kernel

theorem bitErr_ne : ∀ j < 40, bitErr.getD j 0 ≠ j := by decide +kernel

/-- The check itself is right. Of the bits that may be wrong most share a position, and the others are
two off. -/
theorem header_check_iff (h : Nat → UInt8) : (getHeaderErr h = noErrorDetected ↔ Valid h) ∧
    (Valid h → ∀ j < 40,
      (Identified h j ↔ j ∈ [6, 7, 8, 22, 23, 28, 29, 30, 31, 34, 35, 36, 37, 38, 39]) ∧
      getHeaderErr (invert h j) ≠ j) := by
  refine ⟨no_error_iff h, fun hv j hj => ⟨?_, ?_⟩⟩
  · rw [← bitErr_once j hj, Identified, getHeaderErr_invert hv hj]
    exact and_congr_right fun _ => and_congr_right fun _ =>
      forall_congr' fun i => forall_congr' fun hi => by rw [getHeaderErr_invert hv hi]
  · rw [getHeaderErr_invert hv hj]
    exact bitErr_ne j hj

def idle : Nat → UInt8 := fun i => if i = 4 then 0x55 else 0

theorem idle_valid : Valid idle := by
  rw [← no_error_iff]
  decide

theorem header_check_idle : ¬ Identified idle 32 ∧ getHeaderErr (invert idle 37) ≠ 37 :=
  ⟨mt ((header_check_iff idle).2 idle_valid 32 (by decide)).1.mp (by decide),
    ((header_check_iff idle).2 idle_valid 37 (by decide)).2⟩

/-- Two bits of the check octet give the same position. -/
theorem check_bits_alike : ¬ ((∀ h, getHeaderErr h = noErrorDetected ↔ Valid h) ∧
    ∀ h, Valid h → ∀ j < 40, Identified h j) := by
  intro hclaim
  have hsame : getHeaderErr (invert idle 33) = getHeaderErr (invert idle 32) := by
    rw [getHeaderErr_invert idle_valid (by decide), getHeaderErr_invert idle_valid (by decide)]
    rfl
  exact absurd ((hclaim.2 idle idle_valid 32 (by decide)).2.2 33 (by decide) hsame) (by decide)

end OiAmc.SwtcHeader

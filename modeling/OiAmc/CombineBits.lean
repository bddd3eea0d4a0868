import OiAmc.BitField

namespace OiAmc.CombineBits

open BitField

variable {data : Nat → Option UInt8} {p : Nat → UInt8} {s n k i : Nat}

/-- The octets of data; one that is not there has no outcome. Bits are numbered 8 to 1 in an
octet, the highest first. -/
def combineBitsRangeFrom (data : Nat → Option UInt8) (sbyte sbit ebyte ebit : Nat) (vi : UInt32) :
    Option UInt32 :=
  if sbyte < ebyte then do
    let vu := (← data sbyte) &&& .ofNat (0xff >>> (8 - sbit))
    combineBitsRangeFrom data (sbyte + 1) 8 ebyte ebit ((vi <<< 8) ||| vu.toUInt32)
  else do
    let vu := (← data sbyte) &&& .ofNat (0xff >>> (8 - sbit) &&& 0xff <<< (ebit - 1))
    return ((vi <<< 8) ||| vu.toUInt32) >>> .ofNat (ebit - 1)
  termination_by ebyte - sbyte

def combineBitsRange (data : Nat → Option UInt8) (sbyte sbit ebyte ebit : Nat) : Option UInt32 :=
  combineBitsRangeFrom data sbyte sbit ebyte ebit 0

def combineBitsLengthFrom (data : Nat → Option UInt8) (sbyte sbit bits : Nat) (vi : UInt32) :
    Option UInt32 :=
  if sbit < bits then do
    let vu := (← data sbyte) &&& .ofNat (0xff >>> (8 - sbit))
    combineBitsLengthFrom data (sbyte + 1) 8 (bits - sbit) ((vi <<< 8) ||| vu.toUInt32)
  else do
    let vu := (← data sbyte) &&& .ofNat (0xff >>> (8 - sbit) &&& 0xff <<< (sbit - bits))
    return ((vi <<< 8) ||| vu.toUInt32) >>> .ofNat (sbit - bits)
  termination_by bits - sbit

def combineBitsLength (data : Nat → Option UInt8) (sbyte sbit bits : Nat) : Option UInt32 :=
  combineBitsLengthFrom data sbyte sbit bits 0

def rmask : List UInt8 := [0x00, 0x01, 0x03, 0x07, 0x0f, 0x1f, 0x3f, 0x7f, 0xff]

def lmask : List UInt8 := [0x00, 0x80, 0xc0, 0xe0, 0xf0, 0xf8, 0xfc, 0xfe, 0xff]

/-- The loop goes from the last octet back to the first one. -/
def combineBitsLEFrom (data : Nat → Option UInt8) (sbyte sbit ebyte ebit : Nat) (vi : UInt32) :
    Option UInt32 :=
  if sbyte < ebyte then do
    let vu := (← data ebyte) &&& rmask.getD ebit 0
    combineBitsLEFrom data sbyte sbit (ebyte - 1) 8 ((vi <<< 8) ||| vu.toUInt32)
  else do
    let lbits := ebit - sbit + 1
    let vu := ((← data ebyte).toNat <<< (8 - ebit) &&& (lmask.getD lbits 0).toNat) >>> (8 - lbits)
    return (vi <<< .ofNat lbits) ||| .ofNat vu
  termination_by ebyte - sbyte

def combineBitsLE (data : Nat → Option UInt8) (sbit bits : Nat) : Option UInt32 :=
  if bits < 1 then some 0
  else
    let ebit := sbit + bits - 1
    combineBitsLEFrom data (sbit >>> 3) ((sbit &&& 0x07) + 1) (ebit >>> 3) ((ebit &&& 0x07) + 1) 0

def wholeOctets (data : Nat → Option UInt8) (sbyte bits : Nat) (vi : UInt32) : Option UInt32 :=
  if 8 ≤ bits then do
    wholeOctets data (sbyte + 1) (bits - 8) ((vi <<< 8) ||| (← data sbyte).toUInt32)
  else if 0 < bits then do
    return (vi <<< .ofNat bits) ||| ((← data sbyte) >>> .ofNat (8 - bits)).toUInt32
  else some vi
  termination_by bits

def partOctets (data : Nat → Option UInt8) (sbyte sbit bits : Nat) (vi : UInt32) : Option UInt32 :=
  if sbit < bits then do
    let vu := (← data sbyte) &&& .ofNat (0xff >>> (8 - sbit))
    partOctets data (sbyte + 1) 8 (bits - sbit) ((vi <<< 8) ||| vu.toUInt32)
  else do
    let vu := (← data sbyte) &&& .ofNat (0xff >>> (8 - sbit) &&& 0xff <<< (sbit - bits))
    return (vi <<< .ofNat bits) ||| (vu >>> .ofNat (sbit - bits)).toUInt32
  termination_by bits - sbit

def combineBitsBE (data : Nat → Option UInt8) (sbit bits : Nat) : Option UInt32 :=
  let sbyte := sbit >>> 3
  let sbit := (sbit &&& 0x07) + 1
  if sbit = 8 then wholeOctets data sbyte bits 0 else partOctets data sbyte sbit bits 0

def countBitsOctet (byte : UInt8) : Nat :=
  if _h : byte = 0 then 0
  else (if byte &&& 0x01 = 0 then 0 else 1) + countBitsOctet (byte >>> 1)
  termination_by byte.toNat
  decreasing_by
    have hpos : 0 < byte.toNat := Nat.pos_of_ne_zero fun h0 => _h (UInt8.toNat.inj h0)
    rw [UInt8.toNat_shiftRight, show (1 : UInt8).toNat % 8 = 1 from rfl, Nat.shiftRight_one]
    omega

def countBitsLengthFrom (data : Nat → Option UInt8) (sbyte sbit bits count : Nat) : Option Nat :=
  if sbit < bits then do
    let vu := (← data sbyte) &&& .ofNat (0xff >>> (8 - sbit))
    countBitsLengthFrom data (sbyte + 1) 8 (bits - sbit) (count + countBitsOctet vu)
  else do
    let vu := (← data sbyte) &&& .ofNat (0xff >>> (8 - sbit) &&& 0xff <<< (sbit - bits))
    return count + countBitsOctet vu
  termination_by bits - sbit

def countBitsLength (data : Nat → Option UInt8) (sbyte sbit bits : Nat) : Option Nat :=
  countBitsLengthFrom data sbyte sbit bits 0

/-- The octet of a bit that is so many behind the highest bit of an octet. -/
def bitPlace (sbyte bits : Nat) : Nat × Nat :=
  if 8 < bits then bitPlace (sbyte + 1) (bits - 8) else (sbyte, bits)

def queryBit (data : Nat → Option UInt8) (sbyte sbit bits : Nat) : Option Nat := do
  let (sbyte, bits) := bitPlace sbyte (bits + (8 - sbit))
  return if ((← data sbyte).toNat >>> (8 - bits)) &&& 0x01 = 0 then 0 else 1

theorem push_octet (vi : UInt32) (d : UInt8) (hk : k ≤ 8) :
    ((vi <<< 8) ||| (d &&& .ofNat (0xff >>> (8 - k))).toUInt32).toNat =
      (vi.toNat * 2 ^ 8 + d.toNat % 2 ^ k) % 2 ^ 32 := by
  have hlow : d.toNat % 2 ^ k < 2 ^ 8 :=
    (Nat.mod_lt _ (Nat.two_pow_pos k)).trans_le (Nat.pow_le_pow_right (by decide) hk)
  rw [shift_or vi _ 8 (by decide), UInt8.toNat_toUInt32, and_lowMask d hk]
  · rfl
  · rwa [UInt8.toNat_toUInt32, and_lowMask d hk]

theorem mod_push (a c m : Nat) :
    ((a % 2 ^ 32) * m + c) % 2 ^ 32 = (a * m + c) % 2 ^ 32 := by
  rw [Nat.add_mod, Nat.mod_mul_mod, ← Nat.add_mod]

theorem beVal_step (p : Nat → UInt8) (i : Nat) (hk : k ≤ 8) (hn : k < n) :
    beVal (msbBit p) (8 * i + (8 - k)) n =
      (p i).toNat % 2 ^ k * 2 ^ (n - k) + beVal (msbBit p) (8 * (i + 1) + (8 - 8)) (n - k) := by
  have hsplit := beVal_add (msbBit p) (8 * i + (8 - k)) k (n - k)
  have hnext : 8 * i + (8 - k) + k = 8 * (i + 1) + (8 - 8) := by omega
  rw [Nat.add_sub_cancel' hn.le, beVal_in_octet p i hk le_rfl, Nat.sub_self, Nat.shiftRight_zero,
    hnext] at hsplit
  exact hsplit

theorem holds_next (h : Holds data p (8 * i + (8 - k)) n) (hk : k ≤ 8) (hn : k < n) :
    Holds data p (8 * (i + 1) + (8 - 8)) (n - k) := h.part (by omega) (by omega)

theorem holds_here (h : Holds data p (8 * i + (8 - k)) n) (hk0 : 0 < k) (hn : 0 < n) :
    data i = some (p i) := h.octet (by omega) hn

theorem combineBitsLengthFrom_eq {r : Nat} (hr : r < 8) (vi : UInt32) (hk0 : 0 < k) (hk : k ≤ 8)
    (hn : 0 < n) (hend : (8 * i + (8 - k) + n + r) % 8 = 0) (h : Holds data p (8 * i + (8 - k)) n) :
    ∃ v, combineBitsLengthFrom data i k n vi = some v ∧
      v.toNat = (vi.toNat * 2 ^ (n + r + (8 - k)) +
        beVal (msbBit p) (8 * i + (8 - k)) n * 2 ^ r) % 2 ^ 32 / 2 ^ r := by
  fun_induction combineBitsLengthFrom data i k n vi with
  | case1 i k n vi hlt ih =>
      rw [holds_here h hk0 hn]
      obtain ⟨v, hv, hval⟩ := ih (p i) (by decide) le_rfl (by omega) (by omega) (holds_next h hk hlt)
      refine ⟨v, hv, ?_⟩
      have hpow : n + r + (8 - k) = 8 + (n - k + r) := by omega
      rw [hval, push_octet vi (p i) hk, beVal_step p i hk hlt, mod_push, hpow, Nat.sub_self,
        Nat.add_zero]
      congr 2
      ring
  | case2 i k n vi hle =>
      have hrest : r = k - n := by omega
      have hmask := and_midMask (p i) hk (Nat.sub_le k n)
      rw [Nat.sub_sub_self (by omega)] at hmask
      have hlt : (p i &&& UInt8.ofNat (0xff >>> (8 - k) &&& 0xff <<< (k - n))).toUInt32.toNat <
          2 ^ (8 : UInt32).toNat := by
        rw [UInt8.toNat_toUInt32]
        exact UInt8.toNat_lt _
      rw [holds_here h hk0 hn]
      refine ⟨_, rfl, ?_⟩
      have hplace : (UInt32.ofNat (k - n)).toNat % 32 = k - n := by
        rw [UInt32.toNat_ofNat']
        omega
      have hpow : n + r + (8 - k) = 8 := by omega
      rw [UInt32.toNat_shiftRight, hplace, Nat.shiftRight_eq_div_pow, shift_or vi _ 8 (by decide) hlt,
        UInt8.toNat_toUInt32, hmask, ← beVal_in_octet p i hk (by omega), hpow, hrest]
      rfl

theorem combineBitsRangeFrom_eq {e eb : Nat} (vi : UInt32) (hk0 : 0 < k) (hk : k ≤ 8) (heb0 : 0 < eb)
    (heb : eb ≤ 8) (hn : 0 < n) (hend : 8 * e + (8 - eb) + 1 = 8 * i + (8 - k) + n) :
    combineBitsRangeFrom data i k e eb vi = combineBitsLengthFrom data i k n vi := by
  fun_induction combineBitsLengthFrom data i k n vi with
  | case1 i k n vi hlt ih =>
      rw [combineBitsRangeFrom, if_pos (by omega)]
      refine congrArg _ (funext fun d => ?_)
      exact ih d (by decide) le_rfl (by omega) (by omega)
  | case2 i k n vi hle =>
      have hlast : eb - 1 = k - n := by omega
      rw [combineBitsRangeFrom, if_neg (by omega), hlast]

theorem partOctets_eq (vi : UInt32) (hk0 : 0 < k) (hk : k ≤ 8) (hn : 0 < n)
    (hvi : vi = 0 ∨ k = 8) (h : Holds data p (8 * i + (8 - k)) n) :
    ∃ v, partOctets data i k n vi = some v ∧
      v.toNat = (vi.toNat * 2 ^ n + beVal (msbBit p) (8 * i + (8 - k)) n) % 2 ^ 32 := by
  fun_induction partOctets data i k n vi with
  | case1 i k n vi hlt ih =>
      rw [holds_here h hk0 hn]
      obtain ⟨v, hv, hval⟩ := ih (p i) (by decide) le_rfl (by omega) (.inr rfl) (holds_next h hk hlt)
      refine ⟨v, hv, ?_⟩
      have hfirst : vi.toNat * 2 ^ 8 * 2 ^ (n - k) = vi.toNat * 2 ^ n := by
        rcases hvi with rfl | rfl
        · rw [UInt32.toNat_zero, Nat.zero_mul, Nat.zero_mul, Nat.zero_mul]
        · rw [Nat.mul_assoc, ← pow_add, Nat.add_sub_cancel' hlt.le]
      rw [hval, push_octet vi (p i) hk, beVal_step p i hk hlt, mod_push, Nat.add_mul, hfirst,
        Nat.add_assoc]
  | case2 i k n vi hle =>
      have hmask := and_midMask (p i) hk (Nat.sub_le k n)
      rw [Nat.sub_sub_self (by omega)] at hmask
      have hplace : (UInt8.ofNat (k - n)).toNat % 8 = k - n := by
        rw [UInt8.toNat_ofNat']
        omega
      have hlow : ((p i &&& UInt8.ofNat (0xff >>> (8 - k) &&& 0xff <<< (k - n))) >>>
          UInt8.ofNat (k - n)).toUInt32.toNat = beVal (msbBit p) (8 * i + (8 - k)) n := by
        rw [UInt8.toNat_toUInt32, UInt8.toNat_shiftRight, hplace, hmask, Nat.shiftRight_eq_div_pow,
          Nat.mul_div_cancel _ (Nat.two_pow_pos _), beVal_in_octet p i hk (by omega)]
      have hshift : (UInt32.ofNat n).toNat = n := by
        rw [UInt32.toNat_ofNat']
        omega
      rw [holds_here h hk0 hn]
      refine ⟨_, rfl, ?_⟩
      rw [shift_or vi _ _ (by omega), hshift, hlow]
      rw [hshift, hlow]
      exact beVal_lt _ _ n

theorem wholeOctets_eq (vi : UInt32) (h : Holds data p (8 * i) n) :
    ∃ v, wholeOctets data i n vi = some v ∧
      v.toNat = (vi.toNat * 2 ^ n + beVal (msbBit p) (8 * i) n) % 2 ^ 32 := by
  fun_induction wholeOctets data i n vi with
  | case1 i n vi hle ih =>
      have hoctet : ((p i).toUInt32).toNat < 2 ^ (8 : UInt32).toNat := by
        rw [UInt8.toNat_toUInt32]
        exact UInt8.toNat_lt _
      have hsplit := beVal_add (msbBit p) (8 * i) 8 (n - 8)
      have hfirst : beVal (msbBit p) (8 * i) 8 = (p i).toNat := by
        have hin := @beVal_in_octet 8 8 p i le_rfl le_rfl
        rw [Nat.sub_self, Nat.add_zero, Nat.shiftRight_zero, Nat.mod_eq_of_lt (UInt8.toNat_lt _)] at hin
        exact hin
      rw [Nat.add_sub_cancel' hle, hfirst] at hsplit
      rw [h.octet (i := i) (by omega) (by omega)]
      obtain ⟨v, hv, hval⟩ := ih (p i) (h.part (by omega) (by omega))
      refine ⟨v, hv, ?_⟩
      have hpow : 2 ^ n = 2 ^ 8 * 2 ^ (n - 8) := by rw [← pow_add, Nat.add_sub_cancel' hle]
      rw [hval, shift_or vi _ 8 (by decide) hoctet, UInt8.toNat_toUInt32, mod_push, hsplit, hpow]
      congr 1
      have hone : (8 : UInt32).toNat = 8 := rfl
      rw [hone, Nat.mul_add 8 i 1]
      ring
  | case2 i n vi hlt hpos =>
      have hplace : (UInt8.ofNat (8 - n)).toNat % 8 = 8 - n := by
        rw [UInt8.toNat_ofNat']
        omega
      have hin := @beVal_in_octet n 8 p i le_rfl (by omega)
      have hsmall : (p i).toNat >>> (8 - n) < 2 ^ n := by
        rw [Nat.shiftRight_eq_div_pow]
        refine Nat.div_lt_of_lt_mul ?_
        rw [← pow_add, Nat.sub_add_cancel (by omega)]
        exact UInt8.toNat_lt _
      rw [Nat.sub_self, Nat.add_zero, Nat.mod_eq_of_lt hsmall] at hin
      have hlow : (p i >>> UInt8.ofNat (8 - n)).toUInt32.toNat = beVal (msbBit p) (8 * i) n := by
        rw [UInt8.toNat_toUInt32, UInt8.toNat_shiftRight, hplace, hin]
      have hshift : (UInt32.ofNat n).toNat = n := by
        rw [UInt32.toNat_ofNat']
        omega
      rw [h.octet (i := i) (by omega) hpos]
      refine ⟨_, rfl, ?_⟩
      rw [shift_or vi _ _ (by omega), hshift, hlow]
      rw [hshift, hlow]
      exact beVal_lt _ _ n
  | case3 i n vi hlt hpos =>
      obtain rfl : n = 0 := by omega
      refine ⟨vi, rfl, ?_⟩
      rw [beVal, pow_zero, Nat.mul_one, Nat.add_zero, Nat.mod_eq_of_lt (UInt32.toNat_lt _)]

theorem and_seven (j : Nat) : j &&& 0x07 = j % 8 := Nat.and_two_pow_sub_one_eq_mod j 3

theorem shift_three (j : Nat) : j >>> 3 = j / 8 := Nat.shiftRight_eq_div_pow j 3

theorem combineBitsBE_eq (hk0 : 0 < k) (hk : k ≤ 8) (hn : 0 < n)
    (h : Holds data p (8 * i + (8 - k)) n) : ∃ v, combineBitsBE data (8 * i + (k - 1)) n = some v ∧
      v.toNat = beVal (msbBit p) (8 * i + (8 - k)) n % 2 ^ 32 := by
  have hsbyte : (8 * i + (k - 1)) >>> 3 = i := by
    rw [shift_three]
    omega
  have hsbit : ((8 * i + (k - 1)) &&& 0x07) + 1 = k := by
    rw [and_seven]
    omega
  rw [combineBitsBE, hsbyte, hsbit]
  split
  · rename_i he
    subst he
    rw [Nat.sub_self, Nat.add_zero] at h ⊢
    have hwhole := wholeOctets_eq 0 h
    rwa [UInt32.toNat_zero, Nat.zero_mul, Nat.zero_add] at hwhole
  · have hpart := partOctets_eq 0 hk0 hk hn (.inl rfl) h
    rwa [UInt32.toNat_zero, Nat.zero_mul, Nat.zero_add] at hpart

/-- How many bits of the octet that a field ends in lie behind it. -/
def behind (s n : Nat) : Nat := 7 - (s + n - 1) % 8

/-- All readers give the number of the field that starts at bit k of octet b. -/
def Agree (data : Nat → Option UInt8) (p : Nat → UInt8) (b k n : Nat) : Prop :=
  let s := 8 * b + (8 - k)
  (combineBitsLength data b k n).map UInt32.toNat = some (beVal (msbBit p) s n) ∧
    combineBitsRange data b k ((s + n - 1) / 8) (8 - (s + n - 1) % 8) = combineBitsLength data b k n ∧
    combineBitsLength data b k n = combineBitsBE data (8 * b + (k - 1)) n

/-- The shifts by whole octets lose the first bits of a field when it ends too far from the end of
its last octet. -/
theorem combine_bits_agree_iff {b : Nat} (hk0 : 0 < k) (hk : k ≤ 8) (hn : 0 < n) (hn32 : n ≤ 32)
    (h : Holds data p (8 * b + (8 - k)) n) : Agree data p b k n ↔
      ∀ j, j + 32 < n + behind (8 * b + (8 - k)) n → msbBit p (8 * b + (8 - k) + j) = false := by
  simp only [Agree]
  generalize hs : 8 * b + (8 - k) = s at h
  generalize hr : behind s n = r
  have hr8 : r < 8 := by
    rw [← hr, behind]
    omega
  obtain ⟨v, hv, hval⟩ := combineBitsLengthFrom_eq (i := b) hr8 0 hk0 hk hn
    (by rw [← hr, behind]; omega) (by rwa [hs])
  obtain ⟨w, hw, hwal⟩ := combineBitsBE_eq (i := b) hk0 hk hn (by rwa [hs])
  have hrange : combineBitsRangeFrom data b k ((s + n - 1) / 8) (8 - (s + n - 1) % 8) 0 =
      combineBitsLengthFrom data b k n 0 :=
    combineBitsRangeFrom_eq 0 hk0 hk (by omega) (by omega) hn (by omega)
  have hlt := beVal_lt (msbBit p) s n
  have hpow : (2 : Nat) ^ 32 = 2 ^ (32 - r) * 2 ^ r := by rw [← pow_add, Nat.sub_add_cancel (by omega)]
  have hfit : beVal (msbBit p) s n < 2 ^ 32 := hlt.trans_le (Nat.pow_le_pow_right (by decide) hn32)
  rw [hs, UInt32.toNat_zero, Nat.zero_mul, Nat.zero_add, hpow, Nat.mul_mod_mul_right,
    Nat.mul_div_cancel _ (Nat.two_pow_pos r)] at hval
  rw [hs, Nat.mod_eq_of_lt hfit] at hwal
  have hkeeps : beVal (msbBit p) s n < 2 ^ (32 - r) ↔
      ∀ j, j + 32 < n + r → msbBit p (s + j) = false := by
    by_cases hlong : 32 ≤ n + r
    · have hiff := beVal_lt_iff (b := msbBit p) (s := s) (show n + r - 32 ≤ n by omega)
      rw [show n - (n + r - 32) = 32 - r by omega] at hiff
      rw [hiff]
      exact forall_congr' fun j => by rw [Nat.lt_sub_iff_add_lt]
    · refine iff_of_true (hlt.trans_le (Nat.pow_le_pow_right (by decide) (by omega))) fun j hj => ?_
      omega
  rw [← hkeeps, combineBitsRange, hrange, combineBitsLength, hv, hw]
  constructor
  · rintro ⟨hnum, -, -⟩
    rw [← Option.some.inj hnum, hval]
    exact Nat.mod_lt _ (Nat.two_pow_pos _)
  · intro hsmall
    rw [Nat.mod_eq_of_lt hsmall] at hval
    exact ⟨congrArg some hval, rfl, congrArg some (UInt32.toNat.inj (hval.trans hwal.symm))⟩

/-- The memory with all octets of a string. -/
def whole (p : Nat → UInt8) : Nat → Option UInt8 := fun i => some (p i)

theorem holds_whole (p : Nat → UInt8) (s n : Nat) : Holds (whole p) p s n := fun _ _ _ => rfl

theorem combine_bits_agree_octet : Agree (whole fun _ => 0xa5) (fun _ => 0xa5) 2 5 12 ↔
    ∀ j, j + 32 < 12 + behind (8 * 2 + (8 - 5)) 12 → msbBit (fun _ => 0xa5) (8 * 2 + (8 - 5) + j) = false :=
  combine_bits_agree_iff (by decide) (by decide) (by decide) (by decide) (holds_whole _ _ _)

/-- The first of 32 bits that start at the last bit of an octet is lost. -/
theorem first_bit_lost : ¬ ∀ (data : Nat → Option UInt8) (p : Nat → UInt8) (b k n : Nat), 0 < k → k ≤ 8 →
    0 < n → n ≤ 32 → Holds data p (8 * b + (8 - k)) n → Agree data p b k n := by
  intro h
  let p : Nat → UInt8 := fun i => if i = 0 then 1 else 0
  have hagree := h (whole p) p 0 1 32 (by decide) (by decide) (by decide) (by decide) (holds_whole _ _ _)
  have hbit := (combine_bits_agree_iff (by decide) (by decide) (by decide) (by decide)
    (holds_whole _ _ _)).mp hagree 0 (by decide)
  exact absurd hbit (by decide)

theorem rmask_eq : ∀ k ≤ 8, rmask.getD k 0 = UInt8.ofNat (0xff >>> (8 - k)) := by decide

theorem lmask_testBit : ∀ l ≤ 8, ∀ j < l, (lmask.getD l 0).toNat.testBit (j + (8 - l)) = true := by
  decide

theorem lmask_octet {a l : Nat} (d : UInt8) (h : a + l ≤ 8) :
    (d.toNat <<< (8 - (a + l)) &&& (lmask.getD l 0).toNat) >>> (8 - l) = d.toNat >>> a % 2 ^ l := by
  apply Nat.eq_of_testBit_eq
  intro j
  rw [Nat.testBit_shiftRight, Nat.testBit_and, Nat.testBit_shiftLeft, Nat.testBit_mod_two_pow,
    Nat.testBit_shiftRight, Nat.add_comm (8 - l) j]
  by_cases hj : j < l
  · have hplace : j + (8 - l) - (8 - (a + l)) = a + j := by omega
    rw [lmask_testBit l (by omega) j hj, hplace]
    simp only [hj, decide_true, Bool.true_and, Bool.and_true]
    exact decide_eq_true (show j + (8 - l) ≥ 8 - (a + l) by omega) ▸ Bool.true_and _
  · have hpast : (lmask.getD l 0).toNat.testBit (j + (8 - l)) = false :=
      Nat.testBit_lt_two_pow
        ((UInt8.toNat_lt _).trans_le (Nat.pow_le_pow_right (by decide) (by omega)))
    rw [hpast, Bool.and_false, decide_eq_false hj, Bool.false_and]

theorem leVal_step (p : Nat → UInt8) {i e : Nat} (he : e ≤ 8) (hs : s ≤ 8 * i) :
    leVal (lsbBit p) s (8 * i + e - s) =
      leVal (lsbBit p) s (8 * i - s) + 2 ^ (8 * i - s) * ((p i).toNat % 2 ^ e) := by
  have hadd := leVal_add (lsbBit p) s (8 * i - s) e
  have hlen : 8 * i - s + e = 8 * i + e - s := by omega
  have hin := @leVal_in_octet e p i 0 (by omega)
  rw [Nat.add_zero, Nat.shiftRight_zero] at hin
  rwa [hlen, Nat.add_sub_cancel' hs, hin] at hadd

theorem combineBitsLEFrom_eq {a e ei : Nat} (vi : UInt32) (ha : a < 8) (he0 : 0 < e) (he : e ≤ 8)
    (hvi : vi = 0 ∨ e = 8) (hse : 8 * i + a < 8 * ei + e)
    (h : Holds data p (8 * i + a) (8 * ei + e - (8 * i + a))) :
    ∃ v, combineBitsLEFrom data i (a + 1) ei e vi = some v ∧
      v.toNat = (vi.toNat * 2 ^ (8 * ei + e - (8 * i + a)) +
        leVal (lsbBit p) (8 * i + a) (8 * ei + e - (8 * i + a))) % 2 ^ 32 := by
  fun_induction combineBitsLEFrom data i (a + 1) ei e vi with
  | case1 ei e vi hlt ih =>
      have hnext : 8 * (ei - 1) + 8 = 8 * ei := by omega
      have hpush := push_octet vi (p ei) he
      rw [h ei (by omega) (by omega)]
      simp only [rmask_eq e he, hnext] at ih ⊢
      obtain ⟨v, hv, hval⟩ := ih (p ei) (by decide) le_rfl (.inr trivial) (by omega)
        (h.part le_rfl (by omega))
      refine ⟨v, hv, ?_⟩
      have hfirst : vi.toNat * 2 ^ 8 * 2 ^ (8 * ei - (8 * i + a)) =
          vi.toNat * 2 ^ (8 * ei + e - (8 * i + a)) := by
        rcases hvi with rfl | rfl
        · rw [UInt32.toNat_zero, Nat.zero_mul, Nat.zero_mul, Nat.zero_mul]
        · rw [Nat.mul_assoc, ← pow_add]
          congr 2
          omega
      rw [hval, hpush, mod_push, Nat.add_mul, hfirst, leVal_step p he (by omega), Nat.add_assoc,
        Nat.mul_comm ((p ei).toNat % 2 ^ e), Nat.add_comm (leVal _ _ _)]
  | case2 ei e vi hle lbits =>
      obtain rfl : ei = i := by omega
      have hlbits : lbits = e - a := by
        change e - (a + 1) + 1 = e - a
        omega
      have hlen : 8 * ei + e - (8 * ei + a) = e - a := by omega
      have hlow := lmask_octet (a := a) (l := e - a) (p ei) (by omega)
      rw [Nat.add_sub_cancel' (by omega)] at hlow
      have hin := @leVal_in_octet (e - a) p ei a (by omega)
      have hsmall := leVal_lt (lsbBit p) (8 * ei + a) (e - a)
      have hshift : (UInt32.ofNat (e - a)).toNat = e - a := by
        rw [UInt32.toNat_ofNat']
        omega
      have hword : (UInt32.ofNat (leVal (lsbBit p) (8 * ei + a) (e - a))).toNat =
          leVal (lsbBit p) (8 * ei + a) (e - a) := by
        rw [UInt32.toNat_ofNat', Nat.mod_eq_of_lt]
        exact hsmall.trans_le (Nat.pow_le_pow_right (by decide) (by omega))
      rw [h ei (by omega) (by omega), hlen]
      refine ⟨_, rfl, ?_⟩
      simp only [hlbits]
      rw [hlow, ← hin, shift_or vi _ _ (by omega), hshift, hword]
      rwa [hshift, hword]

theorem combineBitsLE_eq (hn : 0 < n) (h : Holds data p s n) : ∃ v, combineBitsLE data s n = some v ∧
    v.toNat = leVal (lsbBit p) s n % 2 ^ 32 := by
  have hs : 8 * (s / 8) + s % 8 = s := Nat.div_add_mod s 8
  have he : 8 * ((s + n - 1) / 8) + ((s + n - 1) % 8 + 1) = s + n := by omega
  have hle := @combineBitsLEFrom_eq data p (s / 8) (s % 8) ((s + n - 1) % 8 + 1) ((s + n - 1) / 8) 0
    (by omega) (by omega) (by omega) (.inl rfl) (by omega)
  rw [hs, he, Nat.add_sub_cancel_left, UInt32.toNat_zero, Nat.zero_mul, Nat.zero_add] at hle
  rw [combineBitsLE, if_neg (by omega)]
  simp only [shift_three, and_seven]
  exact hle h

theorem countBitsOctet_eq {bs : Nat → Bool} {d : UInt8} (hd : d.toNat = beVal bs s n) :
    countBitsOctet d = ones bs s n := by
  induction n generalizing d with
  | zero =>
      have hzero : d = 0 := UInt8.toNat.inj hd
      rw [countBitsOctet, dif_pos hzero]
      rfl
  | succ n ih =>
      have hbit := Bool.toNat_lt (bs (s + n))
      rw [beVal] at hd
      have hhalf : (d >>> 1).toNat = beVal bs s n := by
        rw [UInt8.toNat_shiftRight, show (1 : UInt8).toNat % 8 = 1 from rfl, Nat.shiftRight_one]
        omega
      rw [ones_succ, ← ih hhalf, countBitsOctet]
      split
      · rename_i hzero
        subst hzero
        have hno : (bs (s + n)).toNat = 0 := by
          have : (0 : UInt8).toNat = 0 := rfl
          omega
        rw [hno, show (0 : UInt8) >>> 1 = 0 from rfl, countBitsOctet, dif_pos rfl]
      · have hlow : (d &&& 0x01).toNat = (bs (s + n)).toNat := by
          rw [UInt8.toNat_and, show (0x01 : UInt8).toNat = 2 ^ 1 - 1 from rfl,
            Nat.and_two_pow_sub_one_eq_mod]
          omega
        rw [Nat.add_comm]
        congr 1
        cases hb : bs (s + n) with
        | false =>
            rw [hb] at hlow
            exact if_pos (UInt8.toNat.inj hlow)
        | true =>
            rw [hb] at hlow
            refine if_neg fun hzero => ?_
            rw [hzero] at hlow
            cases hlow

theorem countBitsLengthFrom_eq (count : Nat) (hk0 : 0 < k) (hk : k ≤ 8) (hn : 0 < n)
    (h : Holds data p (8 * i + (8 - k)) n) :
    countBitsLengthFrom data i k n count = some (count + ones (msbBit p) (8 * i + (8 - k)) n) := by
  fun_induction countBitsLengthFrom data i k n count with
  | case1 i k n count hlt ih =>
      have hadd := ones_add (msbBit p) (8 * i + (8 - k)) k (n - k)
      have hnext : 8 * i + (8 - k) + k = 8 * (i + 1) + (8 - 8) := by omega
      have hin := beVal_in_octet p i hk le_rfl
      rw [Nat.sub_self, Nat.shiftRight_zero, ← and_lowMask (p i) hk] at hin
      rw [Nat.add_sub_cancel' hlt.le, hnext, ← countBitsOctet_eq hin.symm] at hadd
      rw [holds_here h hk0 hn]
      refine (ih (p i) (by decide) le_rfl (by omega) (holds_next h hk hlt)).trans ?_
      rw [hadd, Nat.add_assoc]
  | case2 i k n count hle =>
      have hmask := and_midMask (p i) hk (Nat.sub_le k n)
      rw [Nat.sub_sub_self (by omega)] at hmask
      -- the octet is the number of the field and of as many bits that are not set
      let bs : Nat → Bool := fun j => decide (j < 8 * i + (8 - k) + n) && msbBit p j
      have hsame : ∀ j < n, bs (8 * i + (8 - k) + j) = msbBit p (8 * i + (8 - k) + j) := fun j hj => by
        simp only [bs, Nat.add_lt_add_iff_left, hj, decide_true, Bool.true_and]
      obtain ⟨hzero, hnone⟩ := @zeros bs (8 * i + (8 - k) + n) (k - n) fun j _ => by
        have hpast : ¬ 8 * i + (8 - k) + n + j < 8 * i + (8 - k) + n := by omega
        simp only [bs, hpast, decide_false, Bool.false_and]
      have hval := beVal_add bs (8 * i + (8 - k)) n (k - n)
      have hones := ones_add bs (8 * i + (8 - k)) n (k - n)
      rw [hzero, Nat.add_zero, beVal_congr hsame, beVal_in_octet p i hk (by omega), ← hmask] at hval
      rw [hnone, Nat.add_zero, ones_congr hsame, ← countBitsOctet_eq hval.symm] at hones
      rw [holds_here h hk0 hn, ← hones]
      rfl

theorem bitPlace_eq {b m : Nat} (hm : 0 < m) : bitPlace b m = (b + (m - 1) / 8, (m - 1) % 8 + 1) := by
  fun_induction bitPlace b m with
  | case1 b m hlt ih =>
      rw [ih (by omega)]
      congr 1 <;> omega
  | case2 b m hle =>
      congr 1 <;> omega

theorem queryBit_eq (hk : k ≤ 8) {j : Nat} (hj : 0 < j)
    (h : Holds data p (8 * i + (8 - k) + (j - 1)) 1) :
    queryBit data i k j = some (msbBit p (8 * i + (8 - k) + (j - 1))).toNat := by
  have hplace : i + (j + (8 - k) - 1) / 8 = (8 * i + (8 - k) + (j - 1)) / 8 := by omega
  have hbit : 8 - ((j + (8 - k) - 1) % 8 + 1) = 7 - (8 * i + (8 - k) + (j - 1)) % 8 := by omega
  rw [queryBit, bitPlace_eq (by omega)]
  simp only [hplace, hbit, h.octet rfl Nat.one_pos, Option.bind_eq_bind, Option.bind_some]
  rw [msbBit, Nat.testBit, Nat.and_comm]
  congr 1
  generalize 0x01 &&& (p ((8 * i + (8 - k) + (j - 1)) / 8)).toNat >>> (7 - (8 * i + (8 - k) + (j - 1)) % 8) = x
  cases x <;> rfl

/-- Every reader that does not shift by whole octets gives the bits of the field, and reads no octet
but those that the field lies in. -/
theorem bit_fields_read (hn : 0 < n) (hn32 : n ≤ 32) :
    (∀ b k, 0 < k → k ≤ 8 → Holds data p (8 * b + (8 - k)) n →
      (combineBitsBE data (8 * b + (k - 1)) n).map UInt32.toNat =
          some (beVal (msbBit p) (8 * b + (8 - k)) n) ∧
        countBitsLength data b k n = some (ones (msbBit p) (8 * b + (8 - k)) n) ∧
        ∀ j, 0 < j → j ≤ n → queryBit data b k j = some (msbBit p (8 * b + (8 - k) + (j - 1))).toNat) ∧
    ∀ s, Holds data p s n → (combineBitsLE data s n).map UInt32.toNat = some (leVal (lsbBit p) s n) := by
  have hfit (x : Nat) (hx : x < 2 ^ n) : x % 2 ^ 32 = x :=
    Nat.mod_eq_of_lt (hx.trans_le (Nat.pow_le_pow_right (by decide) hn32))
  refine ⟨fun b k hk0 hk h => ⟨?_, ?_, fun j hj hjn => ?_⟩, fun s h => ?_⟩
  · obtain ⟨v, hv, hval⟩ := combineBitsBE_eq hk0 hk hn h
    rw [hv, Option.map_some, hval, hfit _ (beVal_lt _ _ _)]
  · rw [countBitsLength, countBitsLengthFrom_eq 0 hk0 hk hn h, Nat.zero_add]
  · exact queryBit_eq hk hj (h.part (by omega) (by omega))
  · obtain ⟨v, hv, hval⟩ := combineBitsLE_eq hn h
    rw [hv, Option.map_some, hval, hfit _ (leVal_lt _ _ _)]

theorem bit_fields_read_octet :
    (combineBitsBE (whole fun _ => 0xa5) (8 * 2 + (5 - 1)) 12).map UInt32.toNat =
      some (beVal (msbBit fun _ => 0xa5) (8 * 2 + (8 - 5)) 12) :=
  ((bit_fields_read (by decide) (by decide)).1 2 5 (by decide) (by decide) (holds_whole _ _ _)).1

end OiAmc.CombineBits

import Mathlib.Data.UInt
import Mathlib.Logic.Function.Basic

namespace OiAmc.ByteOrder

open Function

/-- Memory, counted from some address on. -/
abbrev Octets := Nat → UInt8

/-- Which octet of a number a host keeps first. -/
inductive Endian
  | little
  | big

def load16 : Endian → Octets → Nat → UInt16
  | .little, p, a => .ofNat ((p a).toNat + 256 * (p (a + 1)).toNat)
  | .big, p, a => .ofNat (256 * (p a).toNat + (p (a + 1)).toNat)

def store16 : Endian → Octets → Nat → UInt16 → Octets
  | .little, p, a, v => update (update p a (.ofNat v.toNat)) (a + 1) (.ofNat (v.toNat / 256))
  | .big, p, a, v => update (update p a (.ofNat (v.toNat / 256))) (a + 1) (.ofNat v.toNat)

def load32 : Endian → Octets → Nat → UInt32
  | .little, p, a =>
      .ofNat ((p a).toNat + 256 * ((p (a + 1)).toNat +
        256 * ((p (a + 2)).toNat + 256 * (p (a + 3)).toNat)))
  | .big, p, a =>
      .ofNat (256 * (256 * (256 * (p a).toNat + (p (a + 1)).toNat) + (p (a + 2)).toNat) +
        (p (a + 3)).toNat)

def store32 : Endian → Octets → Nat → UInt32 → Octets
  | .little, p, a, v =>
      update (update (update (update p a (.ofNat v.toNat)) (a + 1) (.ofNat (v.toNat / 256)))
        (a + 2) (.ofNat (v.toNat / 65536))) (a + 3) (.ofNat (v.toNat / 16777216))
  | .big, p, a, v =>
      update (update (update (update p a (.ofNat (v.toNat / 16777216)))
        (a + 1) (.ofNat (v.toNat / 65536))) (a + 2) (.ofNat (v.toNat / 256)))
        (a + 3) (.ofNat v.toNat)

/-- Between host order and network order; the same function in both directions. -/
def swap16 : Endian → UInt16 → UInt16
  | .little, v => .ofNat (256 * (v.toNat % 256) + v.toNat / 256)
  | .big, v => v

def swap32 : Endian → UInt32 → UInt32
  | .little, v =>
      .ofNat (16777216 * (v.toNat % 256) + 65536 * (v.toNat / 256 % 256) +
        256 * (v.toNat / 65536 % 256) + v.toNat / 16777216)
  | .big, v => v

/-- A number in network order, read octet by octet. -/
def be16 (p : Octets) (a : Nat) : UInt16 := load16 .big p a

def be32 (p : Octets) (a : Nat) : UInt32 := load32 .big p a

def putBe16 (p : Octets) (a : Nat) (v : UInt16) : Octets := store16 .big p a v

def putBe32 (p : Octets) (a : Nat) (v : UInt32) : Octets := store32 .big p a v

variable (h : Endian) (p : Octets) (a : Nat)

theorem toNat_be16 : (be16 p a).toNat = 256 * (p a).toNat + (p (a + 1)).toNat := by
  have h0 : (p a).toNat < 256 := (p a).toNat_lt
  have h1 : (p (a + 1)).toNat < 256 := (p (a + 1)).toNat_lt
  rw [be16, load16, UInt16.toNat_ofNat']
  omega

theorem toNat_be32 : (be32 p a).toNat =
    256 * (256 * (256 * (p a).toNat + (p (a + 1)).toNat) + (p (a + 2)).toNat) +
      (p (a + 3)).toNat := by
  have h0 : (p a).toNat < 256 := (p a).toNat_lt
  have h1 : (p (a + 1)).toNat < 256 := (p (a + 1)).toNat_lt
  have h2 : (p (a + 2)).toNat < 256 := (p (a + 2)).toNat_lt
  have h3 : (p (a + 3)).toNat < 256 := (p (a + 3)).toNat_lt
  rw [be32, load32, UInt32.toNat_ofNat']
  omega

theorem swap16_load16 : swap16 h (load16 h p a) = be16 p a := by
  cases h with
  | big => rfl
  | little =>
      have h0 : (p a).toNat < 256 := (p a).toNat_lt
      have h1 : (p (a + 1)).toNat < 256 := (p (a + 1)).toNat_lt
      have hl : (load16 .little p a).toNat = (p a).toNat + 256 * (p (a + 1)).toNat := by
        rw [load16, UInt16.toNat_ofNat']
        omega
      apply UInt16.toNat.inj
      rw [toNat_be16, swap16, UInt16.toNat_ofNat', hl, Nat.add_mul_mod_self_left,
        Nat.mod_eq_of_lt h0, Nat.add_mul_div_left _ _ (by omega), Nat.div_eq_of_lt h0]
      omega

theorem swap32_load32 : swap32 h (load32 h p a) = be32 p a := by
  cases h with
  | big => rfl
  | little =>
      have h0 : (p a).toNat < 256 := (p a).toNat_lt
      have h1 : (p (a + 1)).toNat < 256 := (p (a + 1)).toNat_lt
      have h2 : (p (a + 2)).toNat < 256 := (p (a + 2)).toNat_lt
      have h3 : (p (a + 3)).toNat < 256 := (p (a + 3)).toNat_lt
      have hl : (load32 .little p a).toNat = (p a).toNat + 256 * ((p (a + 1)).toNat +
          256 * ((p (a + 2)).toNat + 256 * (p (a + 3)).toNat)) := by
        rw [load32, UInt32.toNat_ofNat']
        omega
      have hlow : (load32 .little p a).toNat % 256 = (p a).toNat := by omega
      have hmid : (load32 .little p a).toNat / 256 % 256 = (p (a + 1)).toNat := by omega
      have hhigh : (load32 .little p a).toNat / 65536 % 256 = (p (a + 2)).toNat := by omega
      have htop : (load32 .little p a).toNat / 16777216 = (p (a + 3)).toNat := by omega
      apply UInt32.toNat.inj
      rw [toNat_be32, swap32, UInt32.toNat_ofNat', hlow, hmid, hhigh, htop]
      omega

theorem ofNat_eq_of_mod {m n : Nat} (hmn : m % 256 = n % 256) : UInt8.ofNat m = UInt8.ofNat n := by
  apply UInt8.toNat.inj
  rw [UInt8.toNat_ofNat', UInt8.toNat_ofNat']
  exact hmn

theorem toNat_swap16_little (v : UInt16) :
    (swap16 .little v).toNat = 256 * (v.toNat % 256) + v.toNat / 256 := by
  have hv : v.toNat < 65536 := v.toNat_lt
  rw [swap16, UInt16.toNat_ofNat']
  omega

theorem toNat_swap32_little (v : UInt32) :
    (swap32 .little v).toNat = 16777216 * (v.toNat % 256) + 65536 * (v.toNat / 256 % 256) +
      256 * (v.toNat / 65536 % 256) + v.toNat / 16777216 := by
  have hv : v.toNat < 4294967296 := v.toNat_lt
  rw [swap32, UInt32.toNat_ofNat']
  omega

theorem store16_swap16 (v : UInt16) : store16 h p a (swap16 h v) = putBe16 p a v := by
  cases h with
  | big => rfl
  | little =>
      have hv : v.toNat < 65536 := v.toNat_lt
      have hx : v.toNat / 256 < 256 := by omega
      have hw := toNat_swap16_little v
      have h0 : UInt8.ofNat (swap16 .little v).toNat = .ofNat (v.toNat / 256) :=
        ofNat_eq_of_mod (by omega)
      have h1 : UInt8.ofNat ((swap16 .little v).toNat / 256) = .ofNat v.toNat := by
        rw [hw, Nat.mul_add_div (by omega), Nat.div_eq_of_lt hx, Nat.add_zero]
        exact ofNat_eq_of_mod (Nat.mod_mod _ _)
      rw [store16, h0, h1]
      rfl

theorem store32_swap32 (v : UInt32) : store32 h p a (swap32 h v) = putBe32 p a v := by
  cases h with
  | big => rfl
  | little =>
      have hv : v.toNat < 4294967296 := v.toNat_lt
      have hx : v.toNat / 16777216 < 256 := by omega
      have hy : v.toNat / 65536 % 256 < 256 := Nat.mod_lt _ (by omega)
      have hz : v.toNat / 256 % 256 < 256 := Nat.mod_lt _ (by omega)
      have hw := toNat_swap32_little v
      have h0 : UInt8.ofNat (swap32 .little v).toNat = .ofNat (v.toNat / 16777216) :=
        ofNat_eq_of_mod (by omega)
      have h1 : UInt8.ofNat ((swap32 .little v).toNat / 256) = .ofNat (v.toNat / 65536) := by
        have hdiv : (swap32 .little v).toNat / 256 = 65536 * (v.toNat % 256) +
            256 * (v.toNat / 256 % 256) + v.toNat / 65536 % 256 := by omega
        exact ofNat_eq_of_mod (by omega)
      have h2 : UInt8.ofNat ((swap32 .little v).toNat / 65536) = .ofNat (v.toNat / 256) := by
        have hdiv : (swap32 .little v).toNat / 65536 =
            256 * (v.toNat % 256) + v.toNat / 256 % 256 := by omega
        exact ofNat_eq_of_mod (by omega)
      have h3 : UInt8.ofNat ((swap32 .little v).toNat / 16777216) = .ofNat v.toNat := by
        have hdiv : (swap32 .little v).toNat / 16777216 = v.toNat % 256 := by omega
        exact ofNat_eq_of_mod (by omega)
      rw [store32, h0, h1, h2, h3]
      rfl

theorem putBe16_of_outside (v : UInt16) {i : Nat} (hi : i < a ∨ a + 2 ≤ i) : putBe16 p a v i = p i := by
  rw [putBe16, store16, update_of_ne (by omega), update_of_ne (by omega)]

theorem putBe32_of_outside (v : UInt32) {i : Nat} (hi : i < a ∨ a + 4 ≤ i) : putBe32 p a v i = p i := by
  rw [putBe32, store32, update_of_ne (by omega), update_of_ne (by omega), update_of_ne (by omega),
    update_of_ne (by omega)]

theorem be16_putBe16 (v : UInt16) : be16 (putBe16 p a v) a = v := by
  have hv : v.toNat < 65536 := v.toNat_lt
  apply UInt16.toNat.inj
  rw [toNat_be16, putBe16, store16, update_self, update_of_ne (by omega), update_self,
    UInt8.toNat_ofNat', UInt8.toNat_ofNat']
  omega

theorem be32_putBe32 (v : UInt32) : be32 (putBe32 p a v) a = v := by
  have hv : v.toNat < 4294967296 := v.toNat_lt
  apply UInt32.toNat.inj
  rw [toNat_be32, putBe32, store32]
  simp only [update_self, ne_eq, Nat.left_eq_add, OfNat.ofNat_ne_zero, one_ne_zero,
    not_false_eq_true, update_of_ne, Nat.add_left_cancel_iff, Nat.reduceEqDiff,
    UInt8.toNat_ofNat']
  omega

theorem be16_congr {p q : Octets} (h0 : p a = q a) (h1 : p (a + 1) = q (a + 1)) :
    be16 p a = be16 q a := by
  rw [be16, load16, h0, h1, be16, load16]

theorem be32_congr {p q : Octets} (hpq : ∀ i < 4, p (a + i) = q (a + i)) : be32 p a = be32 q a := by
  have h0 : p a = q a := hpq 0 (by omega)
  rw [be32, load32, h0, hpq 1 (by omega), hpq 2 (by omega), hpq 3 (by omega), be32, load32]

section Bits

variable {b c m v x y : UInt8}

theorem eq_of_bits (h : ∀ i < 8, x.toBitVec.getLsbD i = y.toBitVec.getLsbD i) : x = y :=
  UInt8.eq_of_toBitVec_eq (BitVec.eq_of_getLsbD_eq h)

theorem bits_and (x y : UInt8) (i : Nat) :
    (x &&& y).toBitVec.getLsbD i = (x.toBitVec.getLsbD i && y.toBitVec.getLsbD i) := by
  rw [UInt8.toBitVec_and, BitVec.getLsbD_and]

theorem bits_or (x y : UInt8) (i : Nat) :
    (x ||| y).toBitVec.getLsbD i = (x.toBitVec.getLsbD i || y.toBitVec.getLsbD i) := by
  rw [UInt8.toBitVec_or, BitVec.getLsbD_or]

theorem bits_not (x : UInt8) {i : Nat} (hi : i < 8) :
    (~~~x).toBitVec.getLsbD i = !x.toBitVec.getLsbD i := by
  rw [UInt8.toBitVec_not, BitVec.getLsbD_not, decide_eq_true hi, Bool.true_and]

theorem bits_congr (h : x = y) (i : Nat) : x.toBitVec.getLsbD i = y.toBitVec.getLsbD i := by rw [h]

theorem and_eq_of_apart (h : b &&& c = 0) (hxy : x &&& ~~~b = y &&& ~~~b) : x &&& c = y &&& c := by
  apply eq_of_bits
  intro i hi
  have h0 := bits_congr h i
  have h1 := bits_congr hxy i
  rw [bits_and] at h0
  rw [bits_and, bits_and, bits_not b hi] at h1
  rw [bits_and, bits_and]
  cases hb : b.toBitVec.getLsbD i with
  | true =>
      rw [hb, Bool.true_and] at h0
      rw [h0]
      simp
  | false =>
      rw [hb] at h1
      simp only [Bool.not_false, Bool.and_true] at h1
      rw [h1]

theorem and_eq_of_or_left (h : x &&& (b ||| c) = y &&& (b ||| c)) : x &&& b = y &&& b := by
  have hb : (b ||| c) &&& b = b := by
    apply eq_of_bits
    intro i _
    rw [bits_and, bits_or]
    cases b.toBitVec.getLsbD i <;> simp
  have hx := congrArg (· &&& b) h
  simp only [UInt8.and_assoc, hb] at hx
  exact hx

theorem and_eq_of_or_right (h : x &&& (b ||| c) = y &&& (b ||| c)) : x &&& c = y &&& c :=
  and_eq_of_or_left (by rw [UInt8.or_comm c b]; exact h)

theorem and_not_or (h : x &&& ~~~b = y &&& ~~~b) : x &&& ~~~(b ||| c) = y &&& ~~~(b ||| c) := by
  apply and_eq_of_apart _ h
  apply eq_of_bits
  intro i hi
  rw [bits_and, bits_not _ hi, bits_or]
  cases b.toBitVec.getLsbD i <;> simp

theorem put_and_mask (x v m : UInt8) : (x &&& ~~~m ||| v &&& m) &&& m = v &&& m := by
  apply eq_of_bits
  intro i hi
  simp only [bits_and, bits_or, bits_not _ hi]
  cases m.toBitVec.getLsbD i <;> simp

theorem put_and_not_mask (x v m : UInt8) : (x &&& ~~~m ||| v &&& m) &&& ~~~m = x &&& ~~~m := by
  apply eq_of_bits
  intro i hi
  simp only [bits_and, bits_or, bits_not _ hi]
  cases m.toBitVec.getLsbD i <;> simp

theorem or_and_mask (x m : UInt8) : (x ||| m) &&& m = m := by
  apply eq_of_bits
  intro i _
  rw [bits_and, bits_or]
  cases m.toBitVec.getLsbD i <;> simp

theorem or_and_not_mask (x m : UInt8) : (x ||| m) &&& ~~~m = x &&& ~~~m := by
  apply eq_of_bits
  intro i hi
  simp only [bits_and, bits_or, bits_not _ hi]
  cases m.toBitVec.getLsbD i <;> simp

theorem not_mask_and_mask (x m : UInt8) : x &&& ~~~m &&& m = 0 := by
  rw [UInt8.and_assoc, UInt8.and_comm (~~~m), UInt8.and_not_self, UInt8.and_zero]

theorem not_mask_and_not_mask (x m : UInt8) : x &&& ~~~m &&& ~~~m = x &&& ~~~m := by
  rw [UInt8.and_assoc, UInt8.and_self]

end Bits

end OiAmc.ByteOrder

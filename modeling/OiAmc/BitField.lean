import Mathlib.Algebra.BigOperators.Group.Finset.Basic
import Mathlib.Data.UInt
import Mathlib.Tactic.Ring

namespace OiAmc.BitField

open Finset

variable {b b' : Nat → Bool} {s s' m n k r : Nat} {d : UInt8}

/-- The number that the n bits from s on form, the first one highest. -/
def beVal (b : Nat → Bool) (s : Nat) : Nat → Nat
  | 0 => 0
  | n + 1 => 2 * beVal b s n + (b (s + n)).toNat

/-- The number that the n bits from s on form, the first one lowest. -/
def leVal (b : Nat → Bool) (s n : Nat) : Nat := ∑ i ∈ range n, (b (s + i)).toNat * 2 ^ i

/-- How many of the n bits from s on are set. -/
def ones (b : Nat → Bool) (s n : Nat) : Nat := (List.range n).countP fun i => b (s + i)

/-- The bits of a string of octets, that go to lower bits and then to the next octet. -/
def msbBit (p : Nat → UInt8) (j : Nat) : Bool := (p (j / 8)).toNat.testBit (7 - j % 8)

/-- The bits of a string of octets, that go to higher bits and then to the next octet. -/
def lsbBit (p : Nat → UInt8) (j : Nat) : Bool := (p (j / 8)).toNat.testBit (j % 8)

/-- A memory with the octets that the n bits from s on lie in. -/
def Holds (data : Nat → Option UInt8) (p : Nat → UInt8) (s n : Nat) : Prop :=
  ∀ i, s / 8 ≤ i → 8 * i < s + n → data i = some (p i)

theorem Holds.part {data : Nat → Option UInt8} {p : Nat → UInt8} (h : Holds data p s n)
    (hs : s ≤ s') (hn : s' + m ≤ s + n) : Holds data p s' m := by
  intro i hi hlt
  exact h i ((Nat.div_le_div_right hs).trans hi) (by omega)

theorem Holds.octet {data : Nat → Option UInt8} {p : Nat → UInt8} (h : Holds data p s n) {i : Nat}
    (hi : s / 8 = i) (hn : 0 < n) : data i = some (p i) := h i (by omega) (by omega)

theorem beVal_lt (b : Nat → Bool) (s n : Nat) : beVal b s n < 2 ^ n := by
  induction n with
  | zero => exact Nat.one_pos
  | succ n ih =>
      have hbit := Bool.toNat_lt (b (s + n))
      rw [beVal, pow_succ]
      omega

theorem beVal_add (b : Nat → Bool) (s m n : Nat) :
    beVal b s (m + n) = beVal b s m * 2 ^ n + beVal b (s + m) n := by
  induction n with
  | zero => rw [Nat.add_zero, pow_zero, Nat.mul_one, beVal, Nat.add_zero]
  | succ n ih =>
      rw [← Nat.add_assoc, beVal, ih, beVal, Nat.add_assoc s m n]
      ring

theorem beVal_congr (h : ∀ i < n, b (s + i) = b' (s' + i)) : beVal b s n = beVal b' s' n := by
  induction n with
  | zero => rfl
  | succ n ih => rw [beVal, beVal, ih fun i hi => h i (by omega), h n (by omega)]

theorem beVal_lt_iff (h : m ≤ n) : beVal b s n < 2 ^ (n - m) ↔ ∀ i < m, b (s + i) = false := by
  induction m with
  | zero => exact ⟨fun _ i hi => absurd hi (Nat.not_lt_zero i), fun _ => beVal_lt b s n⟩
  | succ m ih =>
      have hsplit : n = m + (1 + (n - (m + 1))) := by omega
      have hhead := beVal_add b s m (1 + (n - (m + 1)))
      have htail := beVal_add b (s + m) 1 (n - (m + 1))
      have hlow := beVal_lt b (s + m + 1) (n - (m + 1))
      have hone : beVal b (s + m) 1 = (b (s + m)).toNat := by
        rw [beVal, beVal, Nat.mul_zero, Nat.zero_add, Nat.add_zero]
      rw [← hsplit] at hhead
      rw [hone] at htail
      constructor
      · intro hlt i hi
        have hbefore := (ih (by omega)).mp
          (hlt.trans_le (Nat.pow_le_pow_right (by decide) (by omega)))
        rcases Nat.lt_succ_iff_lt_or_eq.mp hi with him | rfl
        · exact hbefore i him
        · cases hb : b (s + i) with
          | false => rfl
          | true =>
              rw [hb, Bool.toNat_true, Nat.one_mul] at htail
              have := Nat.le_add_left (beVal b (s + i) (1 + (n - (i + 1))))
                (beVal b s i * 2 ^ (1 + (n - (i + 1))))
              omega
      · intro hall
        have hzero : beVal b s m = 0 := by
          have hm := (ih (by omega)).mpr fun i hi => hall i (by omega)
          rw [hhead] at hm
          have hn : n - m = 1 + (n - (m + 1)) := by omega
          rw [hn] at hm
          by_contra hne
          have hle := Nat.le_mul_of_pos_left (2 ^ (1 + (n - (m + 1)))) (Nat.pos_of_ne_zero hne)
          omega
        rw [hhead, hzero, htail, hall m (by omega)]
        simpa using hlow

theorem leVal_zero (b : Nat → Bool) (s : Nat) : leVal b s 0 = 0 := rfl

theorem leVal_succ (b : Nat → Bool) (s n : Nat) :
    leVal b s (n + 1) = leVal b s n + (b (s + n)).toNat * 2 ^ n := sum_range_succ _ n

theorem leVal_lt (b : Nat → Bool) (s n : Nat) : leVal b s n < 2 ^ n := by
  induction n with
  | zero => exact Nat.one_pos
  | succ n ih =>
      have hbit := Nat.mul_le_mul_right (2 ^ n) (Nat.le_of_lt_succ (Bool.toNat_lt (b (s + n))))
      rw [leVal_succ, pow_succ]
      omega

theorem leVal_add (b : Nat → Bool) (s m n : Nat) :
    leVal b s (m + n) = leVal b s m + 2 ^ m * leVal b (s + m) n := by
  induction n with
  | zero => rw [Nat.add_zero, leVal_zero, Nat.mul_zero, Nat.add_zero]
  | succ n ih =>
      rw [← Nat.add_assoc, leVal_succ, ih, leVal_succ, Nat.add_assoc s m n, pow_add]
      ring

theorem leVal_testBit (b : Nat → Bool) (s n i : Nat) :
    (leVal b s n).testBit i = (decide (i < n) && b (s + i)) := by
  induction n with
  | zero => rw [leVal_zero, Nat.zero_testBit, decide_eq_false (Nat.not_lt_zero i), Bool.false_and]
  | succ n ih =>
      have hbit : (b (s + n)).toNat.testBit (i - n) = (decide (i = n ∨ i < n) && b (s + n)) ∨ i < n := by
        by_cases hi : i < n
        · exact .inr hi
        · by_cases he : i = n
          · subst he
            cases b (s + i) <;> simp
          · left
            have hpos : i - n = (i - n - 1) + 1 := by omega
            rw [hpos, decide_eq_false (by omega), Bool.false_and]
            cases b (s + n) <;> simp [Nat.testBit_succ]
      rw [leVal_succ, Nat.add_comm, Nat.mul_comm, Nat.testBit_two_pow_mul_add _ (leVal_lt b s n), ih]
      by_cases hi : i < n
      · rw [if_pos hi, decide_eq_true hi, decide_eq_true (Nat.lt_succ_of_lt hi)]
      · rw [if_neg hi, hbit.resolve_right hi]
        by_cases he : i = n
        · subst he
          simp
        · rw [decide_eq_false (by omega), decide_eq_false (by omega), Bool.false_and, Bool.false_and]

theorem leVal_congr (h : ∀ i < n, b (s + i) = b' (s' + i)) : leVal b s n = leVal b' s' n :=
  sum_congr rfl fun i hi => by rw [h i (mem_range.mp hi)]

theorem ones_succ (b : Nat → Bool) (s n : Nat) : ones b s (n + 1) = ones b s n + (b (s + n)).toNat := by
  rw [ones, List.range_succ, List.countP_append, List.countP_singleton, ones]
  cases b (s + n) <;> rfl

theorem ones_add (b : Nat → Bool) (s m n : Nat) :
    ones b s (m + n) = ones b s m + ones b (s + m) n := by
  induction n with
  | zero => rfl
  | succ n ih => rw [← Nat.add_assoc, ones_succ, ih, ones_succ, Nat.add_assoc s m n, Nat.add_assoc]

theorem ones_congr (h : ∀ i < n, b (s + i) = b' (s' + i)) : ones b s n = ones b' s' n :=
  List.countP_congr fun i hi => by rw [h i (List.mem_range.mp hi)]

theorem zeros (h : ∀ i < n, b (s + i) = false) : beVal b s n = 0 ∧ ones b s n = 0 := by
  induction n with
  | zero => exact ⟨rfl, rfl⟩
  | succ n ih =>
      obtain ⟨hval, hones⟩ := ih fun i hi => h i (by omega)
      rw [beVal, ones_succ, hval, hones, h n (by omega)]
      exact ⟨rfl, rfl⟩

theorem beVal_octet (d : UInt8) (hk : k ≤ 8) (hm : m ≤ k) :
    beVal (fun j => d.toNat.testBit (7 - j)) (8 - k) m = d.toNat >>> (k - m) % 2 ^ m := by
  induction m with
  | zero => rw [beVal, pow_zero, Nat.mod_one]
  | succ m ih =>
      have hplace : 7 - (8 - k + m) = k - (m + 1) := by omega
      have hshift : d.toNat >>> (k - m) = d.toNat >>> (k - (m + 1)) / 2 := by
        have hsucc : k - m = k - (m + 1) + 1 := by omega
        rw [hsucc, Nat.shiftRight_succ]
      rw [beVal, ih (by omega), hplace, hshift, pow_succ', Nat.mod_mul, Nat.toNat_testBit,
        Nat.shiftRight_eq_div_pow]
      ring

theorem leVal_octet (d : UInt8) (a m : Nat) :
    leVal (fun j => d.toNat.testBit j) a m = d.toNat >>> a % 2 ^ m := by
  induction m with
  | zero => rw [leVal_zero, pow_zero, Nat.mod_one]
  | succ m ih =>
      rw [leVal_succ, ih, pow_succ, Nat.mod_mul, Nat.toNat_testBit, Nat.shiftRight_eq_div_pow,
        Nat.div_div_eq_div_mul, pow_add]
      ring

theorem beVal_in_octet (p : Nat → UInt8) (i : Nat) (hk : k ≤ 8) (hm : m ≤ k) :
    beVal (msbBit p) (8 * i + (8 - k)) m = (p i).toNat >>> (k - m) % 2 ^ m := by
  rw [← beVal_octet (p i) hk hm]
  refine beVal_congr fun j hj => ?_
  rw [msbBit, show (8 * i + (8 - k) + j) / 8 = i by omega,
    show (8 * i + (8 - k) + j) % 8 = 8 - k + j by omega]

theorem leVal_in_octet (p : Nat → UInt8) (i : Nat) {a : Nat} (h : a + m ≤ 8) :
    leVal (lsbBit p) (8 * i + a) m = (p i).toNat >>> a % 2 ^ m := by
  rw [← leVal_octet (p i) a m]
  refine leVal_congr fun j hj => ?_
  rw [lsbBit, show (8 * i + a + j) / 8 = i by omega, show (8 * i + a + j) % 8 = a + j by omega]

theorem mul_or_of_lt (a c n : Nat) (hc : c < 2 ^ n) : a * 2 ^ n ||| c = a * 2 ^ n + c := by
  rw [Nat.mul_comm, Nat.two_pow_add_eq_or_of_lt hc]

theorem shift_or (v c w : UInt32) (hw : w.toNat < 32) (hc : c.toNat < 2 ^ w.toNat) :
    ((v <<< w) ||| c).toNat = (v.toNat * 2 ^ w.toNat + c.toNat) % 2 ^ 32 := by
  have hpow : (2 : Nat) ^ 32 = 2 ^ (32 - w.toNat) * 2 ^ w.toNat := by
    rw [← pow_add, Nat.sub_add_cancel hw.le]
  have hmod : (v.toNat * 2 ^ w.toNat + c.toNat) % 2 ^ 32 =
      v.toNat * 2 ^ w.toNat % 2 ^ 32 + c.toNat := by
    rw [hpow, Nat.mul_mod_mul_right, Nat.mul_comm (2 ^ (32 - w.toNat)), Nat.mod_mul, Nat.mul_add_mod',
      Nat.mod_eq_of_lt hc, Nat.mul_comm v.toNat, Nat.mul_add_div (Nat.two_pow_pos _),
      Nat.div_eq_of_lt hc, Nat.add_zero]
    ring
  rw [UInt32.toNat_or, UInt32.toNat_shiftLeft, Nat.mod_eq_of_lt hw, Nat.shiftLeft_eq, hmod]
  rw [hpow, Nat.mul_mod_mul_right, mul_or_of_lt _ _ _ hc]

theorem octet_shiftLeft (o : UInt8) {n : Nat} (hn : n ≤ 24) :
    (o.toUInt32 <<< UInt32.ofNat n).toNat = o.toNat * 2 ^ n := by
  have hplace : (UInt32.ofNat n).toNat % 32 = n := by
    rw [UInt32.toNat_ofNat']
    omega
  have hlt : o.toNat * 2 ^ n < 2 ^ 32 := by
    have hpow := Nat.pow_le_pow_right (show 0 < 2 by decide) hn
    have ho := o.toNat_lt
    calc o.toNat * 2 ^ n ≤ o.toNat * 2 ^ 24 := Nat.mul_le_mul_left _ hpow
      _ < 2 ^ 32 := by omega
  rw [UInt32.toNat_shiftLeft, hplace, UInt8.toNat_toUInt32, Nat.shiftLeft_eq, Nat.mod_eq_of_lt hlt]

theorem octets_toNat (o0 o1 o2 o3 : UInt8) :
    (o0.toUInt32 <<< 24 ||| o1.toUInt32 <<< 16 ||| o2.toUInt32 <<< 8 ||| o3.toUInt32).toNat =
      o0.toNat * 2 ^ 24 + o1.toNat * 2 ^ 16 + o2.toNat * 2 ^ 8 + o3.toNat := by
  have h1 := o1.toNat_lt
  have h2 := o2.toNat_lt
  have h3 := o3.toNat_lt
  have hor1 := mul_or_of_lt o0.toNat (o1.toNat * 2 ^ 16) 24 (by omega)
  have hor2 := mul_or_of_lt (o0.toNat * 2 ^ 8 + o1.toNat) (o2.toNat * 2 ^ 8) 16 (by omega)
  have hor3 := mul_or_of_lt (o0.toNat * 2 ^ 16 + o1.toNat * 2 ^ 8 + o2.toNat) o3.toNat 8 (by omega)
  have hgroup2 : o0.toNat * 2 ^ 24 + o1.toNat * 2 ^ 16 = (o0.toNat * 2 ^ 8 + o1.toNat) * 2 ^ 16 := by ring
  have hgroup3 : (o0.toNat * 2 ^ 8 + o1.toNat) * 2 ^ 16 + o2.toNat * 2 ^ 8 =
      (o0.toNat * 2 ^ 16 + o1.toNat * 2 ^ 8 + o2.toNat) * 2 ^ 8 := by ring
  have h24 := @octet_shiftLeft o0 24 (by omega)
  have h16 := @octet_shiftLeft o1 16 (by omega)
  have h8 := @octet_shiftLeft o2 8 (by omega)
  simp only [UInt32.reduceOfNat] at h24 h16 h8
  rw [UInt32.toNat_or, UInt32.toNat_or, UInt32.toNat_or, h24, h16, h8, UInt8.toNat_toUInt32,
    hor1, hgroup2, hor2, hgroup3, hor3, ← hgroup3, ← hgroup2]

theorem lowMask_toNat : ∀ k ≤ 8, (UInt8.ofNat (0xff >>> (8 - k))).toNat = 2 ^ k - 1 := by decide

theorem and_lowMask (d : UInt8) (hk : k ≤ 8) :
    (d &&& UInt8.ofNat (0xff >>> (8 - k))).toNat = d.toNat % 2 ^ k := by
  rw [UInt8.toNat_and, lowMask_toNat k hk, Nat.and_two_pow_sub_one_eq_mod]

theorem midMask_toNat : ∀ k ≤ 8, ∀ r ≤ k, ∀ j < 8,
    (UInt8.ofNat (0xff >>> (8 - k) &&& 0xff <<< r)).toNat.testBit j = decide (r ≤ j ∧ j < k) := by
  decide

theorem and_midMask (d : UInt8) (hk : k ≤ 8) (hr : r ≤ k) :
    (d &&& UInt8.ofNat (0xff >>> (8 - k) &&& 0xff <<< r)).toNat = d.toNat >>> r % 2 ^ (k - r) * 2 ^ r := by
  apply Nat.eq_of_testBit_eq
  intro j
  rw [UInt8.toNat_and, Nat.testBit_and, Nat.testBit_mul_two_pow, Nat.testBit_mod_two_pow,
    Nat.testBit_shiftRight]
  by_cases hj : j < 8
  · rw [midMask_toNat k hk r hr j hj]
    by_cases hrj : r ≤ j
    · rw [Nat.add_sub_cancel' hrj, Bool.and_comm]
      simp only [hrj, true_and, decide_true, Bool.true_and]
      congr 1
      exact decide_eq_decide.mpr (by omega)
    · simp only [hrj, false_and, decide_false, Bool.and_false, Bool.false_and]
  · have hd : d.toNat.testBit j = false :=
      Nat.testBit_lt_two_pow (d.toNat_lt.trans_le (Nat.pow_le_pow_right (by decide) (by omega)))
    have hpast : ¬ j - r < k - r ∨ ¬ r ≤ j := by omega
    rw [hd, Bool.false_and]
    rcases hpast with hpast | hpast
    · rw [decide_eq_false hpast, Bool.false_and, Bool.and_false]
    · rw [decide_eq_false hpast, Bool.false_and]

end OiAmc.BitField

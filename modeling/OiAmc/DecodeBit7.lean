import OiAmc.BitField
import Mathlib.Tactic.IntervalCases

namespace OiAmc.DecodeBit7

open BitField

variable {p : Nat → UInt8} {len i k : Nat}

/-- What has been written to q, and the bits that are carried to the next octet. -/
structure State where
  q : List UInt8
  temp : UInt8

def unpackOctet (p : Nat → UInt8) (s : State) (i : Nat) : State :=
  let q := s.q ++
    [.ofNat (((p i).toNat &&& (1 <<< (8 - i % 7 - 1) - 1)) <<< (i % 7) + s.temp.toNat)]
  let temp := p i >>> .ofNat (8 - i % 7 - 1)
  if i % 7 = 6 then ⟨q ++ [temp], 0⟩ else ⟨q, temp⟩

def decodeBit7 (p : Nat → UInt8) (len : Nat) : List UInt8 :=
  ((List.range len).foldl (unpackOctet p) ⟨[], 0⟩).q ++ [0]

/-- The number of bits 7k to 7k + 6. -/
def septet (b : Nat → Bool) (k : Nat) : UInt8 := .ofNat (leVal b (7 * k) 7)

/-- Septets one behind the other, the lowest bit first. -/
def packedBit (s : List (Fin 128)) (j : Nat) : Bool := (s.getD (j / 7) 0).val.testBit (j % 7)

/-- The packing of septets, and how many octets it takes. -/
def packBit7 (s : List (Fin 128)) (i : Nat) : UInt8 := .ofNat (leVal (packedBit s) (8 * i) 8)

def packedLen (s : List (Fin 128)) : Nat := (7 * s.length + 7) / 8

/-- The octets before octet i are unpacked; i % 7 bits of the last one are carried. -/
structure Unpacked (p : Nat → UInt8) (i : Nat) (s : State) : Prop where
  out : s.q = (List.range (8 * i / 7)).map (septet (lsbBit p))
  carried : s.temp.toNat = leVal (lsbBit p) (8 * i - i % 7) (i % 7)

theorem septets_of_octets (i : Nat) : 8 * i / 7 = i + i / 7 := by omega

theorem lowBits_toNat (d : UInt8) (m : Nat) : d.toNat &&& (1 <<< m - 1) = d.toNat % 2 ^ m := by
  rw [Nat.shiftLeft_eq, Nat.one_mul, Nat.and_two_pow_sub_one_eq_mod]

theorem septet_eq (p : Nat → UInt8) (i : Nat) : septet (lsbBit p) (8 * i / 7) =
    .ofNat (((p i).toNat % 2 ^ (7 - i % 7)) * 2 ^ (i % 7) + leVal (lsbBit p) (8 * i - i % 7) (i % 7)) := by
  have hplace : 7 * (8 * i / 7) = 8 * i - i % 7 := by omega
  have hadd := leVal_add (lsbBit p) (8 * i - i % 7) (i % 7) (7 - i % 7)
  have hin := @leVal_in_octet (7 - i % 7) p i 0 (by omega)
  rw [Nat.add_zero, Nat.shiftRight_zero] at hin
  rw [Nat.add_sub_cancel' (by omega), Nat.sub_add_cancel (by omega), hin] at hadd
  rw [septet, hplace, hadd, Nat.mul_comm (2 ^ (i % 7)), Nat.add_comm]

theorem unpacked_step {s : State} (h : Unpacked p i s) : Unpacked p (i + 1) (unpackOctet p s i) := by
  have hshift : (UInt8.ofNat (8 - i % 7 - 1)).toNat % 8 = 7 - i % 7 := by
    rw [UInt8.toNat_ofNat']
    omega
  have hrest : (p i >>> UInt8.ofNat (8 - i % 7 - 1)).toNat =
      leVal (lsbBit p) (8 * i + (7 - i % 7)) (i % 7 + 1) := by
    have hlt : (p i).toNat >>> (7 - i % 7) < 2 ^ (i % 7 + 1) := by
      rw [Nat.shiftRight_eq_div_pow]
      refine Nat.div_lt_of_lt_mul ?_
      rw [← pow_add, show 7 - i % 7 + (i % 7 + 1) = 8 by omega]
      exact UInt8.toNat_lt _
    rw [leVal_in_octet p i (by omega), Nat.mod_eq_of_lt hlt, UInt8.toNat_shiftRight, hshift]
  have hput : s.q ++ [UInt8.ofNat (((p i).toNat &&& (1 <<< (8 - i % 7 - 1) - 1)) <<< (i % 7) +
      s.temp.toNat)] = (List.range (8 * i / 7 + 1)).map (septet (lsbBit p)) := by
    rw [List.range_succ, List.map_append, List.map_singleton, ← h.out, septet_eq, lowBits_toNat,
      h.carried, Nat.shiftLeft_eq, show 8 - i % 7 - 1 = 7 - i % 7 by omega]
  rw [unpackOctet]
  split
  · -- the octet ends a period: its upper bits are a septet
    rename_i hend
    have hcarry : UInt8.ofNat (leVal (lsbBit p) (7 * (8 * i / 7 + 1)) 7) =
        p i >>> UInt8.ofNat (8 - i % 7 - 1) := by
      have hseven : i % 7 + 1 = 7 := by omega
      rw [hseven] at hrest
      rw [show 7 * (8 * i / 7 + 1) = 8 * i + (7 - i % 7) by omega, ← hrest, UInt8.ofNat_toNat]
    refine ⟨?_, ?_⟩
    · have hcount : 8 * (i + 1) / 7 = 8 * i / 7 + 1 + 1 := by
        rw [septets_of_octets, septets_of_octets]
        omega
      rw [hcount, List.range_succ (n := 8 * i / 7 + 1), List.map_append, List.map_singleton, ← hput,
        ← hcarry]
      rfl
    · rw [show (i + 1) % 7 = 0 by omega]
      rfl
  · refine ⟨?_, ?_⟩
    · have hcount : 8 * (i + 1) / 7 = 8 * i / 7 + 1 := by
        rw [septets_of_octets, septets_of_octets]
        omega
      rw [hput, hcount]
    · rw [hrest]
      congr 1 <;> omega

theorem decodeBit7_eq (p : Nat → UInt8) (len : Nat) :
    decodeBit7 p len = (List.range (8 * len / 7)).map (septet (lsbBit p)) ++ [0] := by
  have hrun : Unpacked p len ((List.range len).foldl (unpackOctet p) ⟨[], 0⟩) := by
    induction len with
    | zero => exact ⟨rfl, rfl⟩
    | succ i ih =>
        rw [List.range_succ, List.foldl_append]
        exact unpacked_step ih
  rw [decodeBit7, hrun.out]

theorem lsbBit_pack (s : List (Fin 128)) (j : Nat) : lsbBit (packBit7 s) j = packedBit s j := by
  have hlt := leVal_lt (packedBit s) (8 * (j / 8)) 8
  rw [lsbBit, packBit7, UInt8.toNat_ofNat', Nat.mod_eq_of_lt hlt, leVal_testBit,
    decide_eq_true (Nat.mod_lt j (by decide)), Bool.true_and, Nat.div_add_mod]

theorem septet_pack (s : List (Fin 128)) (k : Nat) :
    septet (lsbBit (packBit7 s)) k = .ofNat (s.getD k 0).val := by
  have hoctet : (UInt8.ofNat (s.getD k 0).val).toNat = (s.getD k 0).val := by
    have := (s.getD k 0).isLt
    rw [UInt8.toNat_ofNat', Nat.mod_eq_of_lt (by omega)]
  have hval := leVal_octet (UInt8.ofNat (s.getD k 0).val) 0 7
  have hlow : (s.getD k 0).val % 2 ^ 7 = (s.getD k 0).val := Nat.mod_eq_of_lt (s.getD k 0).isLt
  rw [hoctet, Nat.shiftRight_zero, hlow] at hval
  rw [septet, ← hval]
  congr 1
  refine leVal_congr fun j hj => ?_
  rw [lsbBit_pack, packedBit, show (7 * k + j) / 7 = k by omega, show (7 * k + j) % 7 = j by omega,
    Nat.zero_add]

/-- Unpacking gives the septets that lie in the octets, and with them those that were packed. In
seven octets there is room for one more. -/
theorem decode_bit7_unpacks :
    (∀ (p : Nat → UInt8) (len : Nat),
      decodeBit7 p len = (List.range (8 * len / 7)).map (septet (lsbBit p)) ++ [0]) ∧
    ∀ s : List (Fin 128), decodeBit7 (packBit7 s) (packedLen s) =
      s.map (fun x => UInt8.ofNat x.val) ++ (if s.length % 8 = 7 then [0] else []) ++ [0] := by
  refine ⟨decodeBit7_eq, fun s => ?_⟩
  have hmap : (List.range s.length).map (septet (lsbBit (packBit7 s))) =
      s.map fun x => UInt8.ofNat x.val := by
    apply List.ext_getElem?
    intro k
    by_cases hk : k < s.length
    · simp [hk, septet_pack]
    · simp [hk]
  rw [decodeBit7_eq]
  congr 1
  split
  · rw [packedLen, show 8 * ((7 * s.length + 7) / 8) / 7 = s.length + 1 by omega, List.range_succ,
      List.map_append, hmap, List.map_singleton, septet_pack, List.getD_eq_getElem?_getD,
      List.getElem?_eq_none le_rfl]
    rfl
  · rename_i hrest
    have hlen : 8 * ((7 * s.length + 7) / 8) / 7 = s.length := by
      have hdiv := Nat.div_add_mod s.length 8
      have hmod := Nat.mod_lt s.length (show 0 < 8 by decide)
      generalize s.length % 8 = e at hrest hdiv hmod
      interval_cases e <;> omega
    rw [packedLen, hlen, hmap, List.append_nil]

end OiAmc.DecodeBit7

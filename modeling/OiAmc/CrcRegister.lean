import Mathlib.Data.BitVec
import Mathlib.Logic.Function.Iterate

namespace OiAmc.CrcRegister

open BitVec

structure Register (w : Nat) where
  shift : BitVec w → BitVec w
  feed : BitVec w
  shift_xor : ∀ a b, shift (a ^^^ b) = shift a ^^^ shift b

variable {w n : Nat} {R : Register w} {poly c x y : BitVec w} {pos : Nat → Nat}

def Register.take (R : Register w) (c : BitVec w) (b : Bool) : BitVec w :=
  R.shift (if b then c ^^^ R.feed else c)

def Register.run (R : Register w) (c : BitVec w) (bits : List Bool) : BitVec w := bits.foldl R.take c

theorem run_append (R : Register w) (c : BitVec w) (xs ys : List Bool) :
    R.run c (xs ++ ys) = R.run (R.run c xs) ys := List.foldl_append

theorem shifts_xor (R : Register w) (n : Nat) (a b : BitVec w) :
    R.shift^[n] (a ^^^ b) = R.shift^[n] a ^^^ R.shift^[n] b := by
  induction n generalizing a b with
  | zero => rfl
  | succ n ih => rw [Function.iterate_succ_apply, R.shift_xor, ih, Function.iterate_succ_apply,
      Function.iterate_succ_apply]

theorem xor_shift_comm (a b p : BitVec w) : a ^^^ p ^^^ (b ^^^ p) = a ^^^ b := by
  rw [BitVec.xor_assoc, BitVec.xor_comm b p, ← BitVec.xor_assoc p, BitVec.xor_self, BitVec.zero_xor]

theorem shift_add {s : BitVec w → BitVec w} {test : BitVec w → Bool} {poly : BitVec w}
    (hs : ∀ a b, s (a ^^^ b) = s a ^^^ s b) (ht : ∀ a b, test (a ^^^ b) = xor (test a) (test b))
    (a b : BitVec w) : (if test (a ^^^ b) then s (a ^^^ b) ^^^ poly else s (a ^^^ b)) =
      (if test a then s a ^^^ poly else s a) ^^^ (if test b then s b ^^^ poly else s b) := by
  rw [ht, hs]
  cases test a <;> cases test b
  · rfl
  · simp only [Bool.false_xor, Bool.false_eq_true, if_true, if_false, BitVec.xor_assoc]
  · simp only [Bool.xor_false, Bool.false_eq_true, if_true, if_false]
    rw [BitVec.xor_assoc, BitVec.xor_comm (s b), BitVec.xor_assoc]
  · simp only [Bool.xor_self, Bool.false_eq_true, if_true, if_false, xor_shift_comm]

/-- The register that goes down: the lowest bit is the next one to come out. -/
def reflected (poly : BitVec w) : Register w where
  shift c := if c.getLsbD 0 then c >>> 1 ^^^ poly else c >>> 1
  feed := twoPow w 0
  shift_xor := @shift_add w (fun c => c >>> 1) (fun c => c.getLsbD 0) poly
    (fun a b => ushiftRight_xor_distrib a b 1) fun _ _ => getLsbD_xor

/-- The register that goes up: the highest bit is the next one to come out. -/
def forward (poly : BitVec w) : Register w where
  shift c := if c.msb then c <<< 1 ^^^ poly else c <<< 1
  feed := twoPow w (w - 1)
  shift_xor := @shift_add w (fun c => c <<< 1) (fun c => c.msb) poly
    (fun a b => shiftLeft_xor_distrib a b 1) fun _ _ => msb_xor

/-- The bits of a word at the first n of some places. -/
def picked (x : BitVec w) (pos : Nat → Nat) : Nat → BitVec w
  | 0 => 0#w
  | n + 1 => picked x pos n ^^^ if x.getLsbD (pos n) then twoPow w (pos n) else 0#w

theorem picked_getLsbD (x : BitVec w) (hinj : ∀ i < n, ∀ j < n, pos i = pos j → i = j) (j : Nat) :
    (picked x pos n).getLsbD j = (decide (∃ i < n, pos i = j) && x.getLsbD j) := by
  induction n with
  | zero => simp [picked]
  | succ n ih =>
      rw [picked, getLsbD_xor, ih fun i hi k hk => hinj i (by omega) k (by omega)]
      by_cases hlast : pos n = j
      · have hbefore : ¬ ∃ i < n, pos i = j := fun ⟨i, hi, he⟩ =>
          hi.ne (hinj i (by omega) n (by omega) (he.trans hlast.symm))
        have hhere : ∃ i < n + 1, pos i = j := ⟨n, n.lt_succ_self, hlast⟩
        rw [decide_eq_false hbefore, decide_eq_true hhere, Bool.false_and, Bool.false_xor, Bool.true_and,
          hlast]
        cases hx : x.getLsbD j with
        | false => simp
        | true => simp [lt_of_getLsbD hx]
      · have hsame : (∃ i < n + 1, pos i = j) ↔ ∃ i < n, pos i = j :=
          ⟨fun ⟨i, hi, he⟩ => ⟨i, (Nat.lt_succ_iff_lt_or_eq.mp hi).resolve_right
            (by rintro rfl; exact hlast he), he⟩, fun ⟨i, hi, he⟩ => ⟨i, by omega, he⟩⟩
        rw [decide_eq_decide.mpr hsame]
        split
        · rw [getLsbD_twoPow, decide_eq_false hlast, Bool.and_false, Bool.xor_false]
        · rw [getLsbD_zero, Bool.xor_false]

theorem picked_eq (hinj : ∀ i < n, ∀ j < n, pos i = pos j → i = j)
    (hall : ∀ j, x.getLsbD j = true → ∃ i < n, pos i = j) : picked x pos n = x := by
  apply BitVec.eq_of_getLsbD_eq
  intro j _
  rw [picked_getLsbD x hinj]
  cases hx : x.getLsbD j with
  | false => rw [Bool.and_false]
  | true => rw [decide_eq_true (hall j hx), Bool.and_true]

/-- Bits that are taken one after the other may be added all at once, each where it comes to
the place of feed in time. -/
theorem run_picked (R : Register w) (c x : BitVec w)
    (h : ∀ i < n, R.shift^[i] (twoPow w (pos i)) = R.feed) :
    R.run c ((List.range n).map fun i => x.getLsbD (pos i)) = R.shift^[n] (c ^^^ picked x pos n) := by
  induction n with
  | zero => simp [picked, Register.run]
  | succ n ih =>
      rw [List.range_succ, List.map_append, run_append, ih fun i hi => h i (by omega),
        Function.iterate_succ_apply', picked, ← BitVec.xor_assoc, shifts_xor R n (c ^^^ picked x pos n)]
      simp only [Register.run, List.map_cons, List.map_nil, List.foldl_cons, List.foldl_nil, Register.take]
      congr 1
      split
      · rw [h n (by omega)]
      · have hzero : R.shift^[n] 0#w = 0#w := by
          have hself := shifts_xor R n 0#w 0#w
          rwa [BitVec.xor_self, BitVec.xor_self] at hself
        rw [hzero, BitVec.xor_zero]

theorem reflected_twoPow (poly : BitVec w) {i : Nat} (hi : i < w) :
    (reflected poly).shift^[i] (twoPow w i) = (reflected poly).feed := by
  induction i with
  | zero => rfl
  | succ i ih =>
      have hlow : (twoPow w (i + 1)).getLsbD 0 = false := by simp [getLsbD_twoPow]
      have hstep : (reflected poly).shift (twoPow w (i + 1)) = twoPow w i := by
        simp only [reflected, hlow, Bool.false_eq_true, if_false]
        apply BitVec.eq_of_getLsbD_eq
        intro j _
        simp only [getLsbD_ushiftRight, getLsbD_twoPow]
        congr 1 <;> exact decide_eq_decide.mpr (by omega)
      rw [Function.iterate_succ_apply, hstep, ih (by omega)]

theorem forward_twoPow (poly : BitVec w) {i : Nat} (hi : i < w) :
    (forward poly).shift^[i] (twoPow w (w - 1 - i)) = (forward poly).feed := by
  induction i with
  | zero => rfl
  | succ i ih =>
      have hhigh : (twoPow w (w - 1 - (i + 1))).msb = false := by
        rw [msb_eq_getLsbD_last, getLsbD_twoPow, Bool.and_eq_false_iff]
        exact .inr (decide_eq_false (by omega))
      have hstep : (forward poly).shift (twoPow w (w - 1 - (i + 1))) = twoPow w (w - 1 - i) := by
        have hsucc : w - 1 - i = w - 1 - (i + 1) + 1 := by omega
        simp only [forward, hhigh, Bool.false_eq_true, if_false]
        rw [hsucc, twoPow, twoPow, BitVec.shiftLeft_add]
      rw [Function.iterate_succ_apply, hstep, ih (by omega)]

/-- The lowest bits of a word in the order in which the reflected register takes them. -/
def lsbBits (n : Nat) {m : Nat} (x : BitVec m) : List Bool := (List.range n).map x.getLsbD

theorem lsbBits_add {m k : Nat} (x : BitVec m) : lsbBits (k + n) x = lsbBits k x ++ lsbBits n (x >>> k) := by
  rw [lsbBits, List.range_add, List.map_append, List.map_map, lsbBits, lsbBits]
  congr 1
  exact List.map_congr_left fun i _ => (getLsbD_ushiftRight x k i).symm

theorem lsbBits_setWidth {m k : Nat} (x : BitVec m) (h : n ≤ k) :
    lsbBits n (x.setWidth k) = lsbBits n x := by
  refine List.map_congr_left fun i hi => ?_
  rw [getLsbD_setWidth, decide_eq_true ((List.mem_range.mp hi).trans_le h), Bool.true_and]

def msbBits {m : Nat} (x : BitVec m) : List Bool := (List.range m).map fun i => x.getLsbD (m - 1 - i)

theorem reflected_run {m : Nat} (poly c : BitVec w) (x : BitVec m) (hm : m ≤ w) :
    (reflected poly).run c (lsbBits m x) = (reflected poly).shift^[m] (c ^^^ x.setWidth w) := by
  have hpicked : picked (x.setWidth w) (fun i => i) m = x.setWidth w := by
    refine picked_eq (fun i _ j _ he => he) fun j hj => ⟨j, ?_, rfl⟩
    rw [getLsbD_setWidth, Bool.and_eq_true] at hj
    exact lt_of_getLsbD hj.2
  have hbits : lsbBits m x = (List.range m).map fun i => (x.setWidth w).getLsbD i := by
    refine List.map_congr_left fun i hi => ?_
    have hi := List.mem_range.mp hi
    rw [getLsbD_setWidth, decide_eq_true (by omega), Bool.true_and]
  rw [hbits, run_picked _ _ _ fun i hi => reflected_twoPow poly (by omega), hpicked]

theorem forward_run (poly c x : BitVec w) :
    (forward poly).run c (msbBits x) = (forward poly).shift^[w] (c ^^^ x) := by
  have hpicked : picked x (fun i => w - 1 - i) w = x :=
    picked_eq (fun i hi j hj he => by omega) fun j hj =>
      ⟨w - 1 - j, by have := lt_of_getLsbD hj; omega, by have := lt_of_getLsbD hj; omega⟩
  rw [msbBits, run_picked _ _ _ fun i hi => forward_twoPow poly hi, hpicked]

theorem reflected_high (poly : BitVec w) (h : ∀ i < n, y.getLsbD i = false) :
    (reflected poly).shift^[n] y = y >>> n := by
  induction n with
  | zero => simp
  | succ n ih =>
      have hlow : (y >>> n).getLsbD 0 = false := by
        rw [getLsbD_ushiftRight]
        exact h n n.lt_succ_self
      rw [Function.iterate_succ_apply', ih fun i hi => h i (by omega)]
      simp only [reflected, hlow, Bool.false_eq_true, if_false]
      rw [← BitVec.shiftRight_add]

theorem reflected_octet (poly x : BitVec w) :
    (reflected poly).shift^[8] x = x >>> 8 ^^^ (reflected poly).shift^[8] (x &&& 255#w) := by
  have hbit (i : Nat) : (255#w).getLsbD i = decide (i < w ∧ i < 8) := by
    rw [getLsbD_ofNat, show (255 : Nat) = 2 ^ 8 - 1 from rfl, Nat.testBit_two_pow_sub_one,
      Bool.decide_and]
  have hsplit : x = (x &&& ~~~255#w) ^^^ (x &&& 255#w) := by
    apply BitVec.eq_of_getLsbD_eq
    intro i hi
    simp only [getLsbD_xor, getLsbD_and, getLsbD_not, hi, decide_true, Bool.true_and]
    cases x.getLsbD i <;> cases (255#w).getLsbD i <;> rfl
  have hclear : ∀ i < 8, (x &&& ~~~255#w).getLsbD i = false := by
    intro i hi
    rw [getLsbD_and, getLsbD_not, hbit]
    by_cases hw : i < w <;> simp [hw, hi]
  have hmove : (x &&& ~~~255#w) >>> 8 = x >>> 8 := by
    apply BitVec.eq_of_getLsbD_eq
    intro i _
    rw [getLsbD_ushiftRight, getLsbD_ushiftRight, getLsbD_and, getLsbD_not, hbit]
    by_cases hw : 8 + i < w
    · simp [hw]
    · rw [getLsbD_of_ge x _ (by omega), Bool.false_and]
  conv_lhs => rw [hsplit]
  rw [shifts_xor, reflected_high poly hclear, hmove]

def octetTable (R : Register w) : List (BitVec w) :=
  (List.range 256).map fun i => R.shift^[8] (BitVec.ofNat w i)

theorem octetTable_getD {α : Type} (f : α → BitVec w) (t : List α) (a : α) (h : t.map f = octetTable R)
    {i : Nat} (hi : i < 256) : f (t.getD i a) = R.shift^[8] (BitVec.ofNat w i) := by
  have hget := congrArg (·[i]?) h
  simp only [octetTable, List.getElem?_map, List.getElem?_range hi, Option.map_some] at hget
  obtain ⟨x, hx, hval⟩ := Option.map_eq_some_iff.mp hget
  rw [List.getD_eq_getElem?_getD, hx, Option.getD_some, hval]

theorem table_run (poly c : BitVec w) (hw : 8 ≤ w) {table : Nat → BitVec w}
    (htable : ∀ i < 256, table i = (reflected poly).shift^[8] (BitVec.ofNat w i)) (d : BitVec 8) :
    c >>> 8 ^^^ table ((c ^^^ d.setWidth w) &&& 255#w).toNat = (reflected poly).run c (lsbBits 8 d) := by
  have hlow : ((c ^^^ d.setWidth w) &&& 255#w).toNat < 256 := by
    rw [toNat_and, toNat_ofNat]
    exact Nat.lt_of_le_of_lt (Nat.and_le_right.trans (Nat.mod_le _ _)) (by decide)
  have hout : d.setWidth w >>> 8 = 0#w := by
    apply BitVec.eq_of_getLsbD_eq
    intro i _
    rw [getLsbD_ushiftRight, getLsbD_setWidth, getLsbD_of_ge d _ (by omega), Bool.and_false,
      getLsbD_zero]
  rw [reflected_run poly c d hw, reflected_octet, htable _ hlow, ofNat_toNat, setWidth_eq,
    ushiftRight_xor_distrib, hout, BitVec.xor_zero]

theorem complement_run (poly c : BitVec w) :
    (reflected poly).run c (lsbBits w (~~~c)) = (reflected poly).shift^[w] (allOnes w) := by
  rw [reflected_run poly c (~~~c) le_rfl, setWidth_eq]
  congr 1
  apply BitVec.eq_of_getLsbD_eq
  intro i hi
  simp [hi]

end OiAmc.CrcRegister

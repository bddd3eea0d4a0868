import Mathlib.Algebra.Order.Ring.Int
import Mathlib.Data.Nat.Digits.Defs

/-! Numbers in a text, as `strtol`, `atoi` and the `%d` of `sscanf` read them and `%u` writes
them. A text is a list of characters, a `long` has 64 bits and an `int` 32. -/

namespace OiAmc.Numerals

abbrev Text := List Char

def isSpace (c : Char) : Bool := c = ' ' || ('\t' ≤ c && c ≤ '\r')

/-- The value of a digit or a letter, 36 for any other character. -/
def digit (c : Char) : Nat :=
  if '0' ≤ c ∧ c ≤ '9' then c.toNat - '0'.toNat
  else if 'a' ≤ c ∧ c ≤ 'z' then c.toNat - 'a'.toNat + 10
  else if 'A' ≤ c ∧ c ≤ 'Z' then c.toNat - 'A'.toNat + 10
  else 36

def isDigit (base : Nat) (c : Char) : Bool := digit c < base

def value (base : Nat) (ds : Text) : Nat := ds.foldl (fun v c => base * v + digit c) 0

def sign : Text → Bool × Text
  | '-' :: s => (true, s)
  | '+' :: s => (false, s)
  | s => (false, s)

/-- The base of a numeral and its digits, where base 0 leaves it to the prefix. -/
def baseOf (base : Nat) (s : Text) : Nat × Text :=
  if base ≠ 0 then (base, s)
  else match s with
    | '0' :: x :: c :: t =>
        if (x = 'x' ∨ x = 'X') ∧ isDigit 16 c then (16, c :: t) else (8, s)
    | '0' :: _ => (8, s)
    | _ => (10, s)

def LONG_MAX : Int := 2 ^ 63 - 1

def LONG_MIN : Int := -2 ^ 63

def clamp (x : Int) : Int := max LONG_MIN (min LONG_MAX x)

def numeral (base : Nat) (s : Text) : Option (Int × Text) :=
  let (negative, t) := sign (s.dropWhile isSpace)
  let (base, t) := baseOf base t
  let ds := t.takeWhile (isDigit base)
  if ds = [] then none
  else
    let v : Int := value base ds
    some (clamp (if negative then -v else v), t.dropWhile (isDigit base))

/-- Without a numeral the value is zero and nothing is read. -/
def strtol (base : Nat) (s : Text) : Int × Text := (numeral base s).getD (0, s)

def toInt (x : Int) : Int := x.bmod (2 ^ 32)

def atoi (s : Text) : Int := toInt (strtol 10 s).1

/-- The `%d` of `sscanf`. -/
def scanInt (s : Text) : Option (Int × Text) := (numeral 10 s).map fun r => (toInt r.1, r.2)

/-- A character of the format that is neither a blank nor part of a conversion. -/
def scanChar (c : Char) : Text → Option Text
  | [] => none
  | d :: s => if d = c then some s else none

/-- The `%u` of `printf`. -/
def decimal (n : Nat) : Text := Nat.toDigits 10 n

/-- The `%d` of `printf`. -/
def signed (x : Int) : Text := if x < 0 then '-' :: decimal x.natAbs else decimal x.natAbs

section

variable {c : Char} {n base : Nat} {s t : Text}

theorem toInt_of_bounds {x : Int} (h1 : -2 ^ 31 ≤ x) (h2 : x < 2 ^ 31) : toInt x = x := by
  rw [toInt, Int.bmod_eq_of_le] <;> omega

theorem clamp_of_lt (h : n < 2 ^ 63) : clamp n = n := by
  rw [clamp, LONG_MAX, LONG_MIN]
  omega

theorem digit_of_isDigit (h : c.isDigit) : digit c = c.toNat - '0'.toNat ∧ digit c < 10 := by
  obtain ⟨h0, h9⟩ : '0' ≤ c ∧ c ≤ '9' := by
    rw [Char.isDigit, Bool.and_eq_true, decide_eq_true_eq, decide_eq_true_eq] at h
    exact h
  have hc : digit c = c.toNat - '0'.toNat := by rw [digit, if_pos ⟨h0, h9⟩]
  have h9' : c.toNat ≤ '9'.toNat := h9
  refine ⟨hc, ?_⟩
  rw [hc]
  have e0 : '0'.toNat = 48 := rfl
  have e9 : '9'.toNat = 57 := rfl
  omega

theorem isDigit_decimal (hc : c ∈ decimal n) : c.isDigit :=
  Nat.isDigit_of_mem_toDigits (by decide) (by decide) hc

theorem decimal_ne_nil : decimal n ≠ [] := Nat.toDigits_ne_nil

theorem value_decimal (n : Nat) : value 10 (decimal n) = n := by
  have hfold : ∀ (ds : Text) (v : Nat), (∀ c ∈ ds, c.isDigit) →
      ds.foldl (fun v c => 10 * v + digit c) v = Nat.ofDigitChars 10 ds v := by
    intro ds
    induction ds with
    | nil => intro v _; rfl
    | cons c ds ih =>
        intro v h
        rw [List.foldl_cons, Nat.ofDigitChars_cons, (digit_of_isDigit (h c (by simp))).1]
        exact ih _ fun d hd => h d (by simp [hd])
  rw [value, hfold _ _ fun c => isDigit_decimal, decimal, Nat.ofDigitChars_ten_toDigits]

theorem not_isSpace_of_isDigit (h : c.isDigit) : isSpace c = false := by
  obtain ⟨h0, -⟩ : '0' ≤ c ∧ c ≤ '9' := by
    rw [Char.isDigit, Bool.and_eq_true, decide_eq_true_eq, decide_eq_true_eq] at h
    exact h
  have h0' : '0'.toNat ≤ c.toNat := h0
  have e0 : '0'.toNat = 48 := rfl
  have hne : c ≠ ' ' := by rintro rfl; exact absurd h0 (by decide)
  have hr : ¬c ≤ '\r' := fun hr => by
    have hr' : c.toNat ≤ '\r'.toNat := hr
    have er : '\r'.toNat = 13 := rfl
    omega
  simp [isSpace, hne, hr]

theorem sign_of_isDigit (h : c.isDigit) : sign (c :: s) = (false, c :: s) := by
  rw [sign]
  · rintro s' ⟨⟩; exact absurd h (by decide)
  · rintro s' ⟨⟩; exact absurd h (by decide)

end

section

variable {c : Char} {n : Nat} {s : Text}

theorem takeWhile_decimal (hs : ∀ d ∈ s.head?, isDigit 10 d = false) :
    (decimal n ++ s).takeWhile (isDigit 10) = decimal n := by
  rw [List.takeWhile_append_of_pos fun c hc => ?_]
  · cases s with
    | nil => simp
    | cons d s => rw [List.takeWhile_cons_of_neg (by simp [hs d (by simp)]), List.append_nil]
  · exact decide_eq_true (digit_of_isDigit (isDigit_decimal hc)).2

theorem dropWhile_decimal (hs : ∀ d ∈ s.head?, isDigit 10 d = false) :
    (decimal n ++ s).dropWhile (isDigit 10) = s := by
  have h := List.takeWhile_append_dropWhile (p := isDigit 10) (l := decimal n ++ s)
  rw [takeWhile_decimal hs] at h
  exact List.append_cancel_left h

theorem decimal_cons (n : Nat) : ∃ c ds, decimal n = c :: ds ∧ c.isDigit := by
  cases hn : decimal n with
  | nil => exact absurd hn decimal_ne_nil
  | cons c ds => exact ⟨c, ds, rfl, isDigit_decimal (n := n) (by rw [hn]; simp)⟩

theorem sign_decimal (n : Nat) (s : Text) :
    sign ((decimal n ++ s).dropWhile isSpace) = (false, decimal n ++ s) := by
  obtain ⟨c, ds, hn, hc⟩ := decimal_cons n
  rw [hn, List.cons_append, List.dropWhile_cons_of_neg (by simp [not_isSpace_of_isDigit hc]),
    sign_of_isDigit hc]

theorem numeral_written {base : Nat} (hb : baseOf base (decimal n ++ s) = (10, decimal n ++ s))
    (hn : n < 2 ^ 63) (hs : ∀ d ∈ s.head?, isDigit 10 d = false) :
    numeral base (decimal n ++ s) = some ((n : Int), s) := by
  rw [numeral, sign_decimal]
  dsimp only
  rw [hb]
  dsimp only
  rw [takeWhile_decimal hs, dropWhile_decimal hs, if_neg decimal_ne_nil, value_decimal]
  simp [clamp_of_lt hn]

theorem numeral_decimal (hn : n < 2 ^ 63) (hs : ∀ d ∈ s.head?, isDigit 10 d = false) :
    numeral 10 (decimal n ++ s) = some ((n : Int), s) :=
  numeral_written rfl hn hs

theorem atoi_decimal (hn : n < 2 ^ 31) : atoi (decimal n) = n := by
  have h := numeral_decimal (n := n) (s := []) (by omega) (by simp)
  rw [List.append_nil] at h
  rw [atoi, strtol, h, Option.getD_some, toInt_of_bounds] <;> omega

end

theorem head_decimal {n : Nat} (hn : 0 < n) : (decimal n).head? ≠ some '0' := by
  induction n using Nat.strong_induction_on with
  | _ n ih =>
      rcases Nat.lt_or_ge n 10 with h | h
      · rw [decimal, Nat.toDigits_of_lt_base h]
        have hd : ∀ d < 10, 0 < d → [Nat.digitChar d].head? ≠ some '0' := by decide
        exact hd n h hn
      · have hne : decimal (n / 10) ≠ [] := decimal_ne_nil
        have hq := ih (n / 10) (by omega) (by omega)
        rw [decimal, Nat.toDigits_of_base_le (by decide) h, List.head?_append]
        cases hd : decimal (n / 10) with
        | nil => exact absurd hd hne
        | cons c ds =>
            rw [hd] at hq
            rw [decimal] at hd
            rw [hd]
            exact hq

theorem baseOf_decimal {n : Nat} (hn : 0 < n) (s : Text) :
    baseOf 0 (decimal n ++ s) = (10, decimal n ++ s) := by
  obtain ⟨c, ds, hc, -⟩ := decimal_cons n
  have h0 : c ≠ '0' := by
    have h := head_decimal hn
    rw [hc] at h
    simpa using h
  rw [hc, List.cons_append, baseOf]
  · rfl
  · intro x d t h
    exact h0 (List.cons.inj h).1
  · intro t h
    exact h0 (List.cons.inj h).1

theorem strtol_zero_decimal {n : Nat} {s : Text} (hn : 0 < n) (hn' : n < 2 ^ 63)
    (hs : ∀ d ∈ s.head?, isDigit 10 d = false) : strtol 0 (decimal n ++ s) = ((n : Int), s) := by
  rw [strtol, numeral_written (baseOf_decimal hn s) hn' hs, Option.getD_some]

theorem strtol_zero_written {n : Nat} (hn : n < 2 ^ 63) : (strtol 0 (decimal n)).1 = n := by
  rcases Nat.eq_zero_or_pos n with rfl | hpos
  · rfl
  · have h := strtol_zero_decimal (s := []) hpos hn nofun
    rw [List.append_nil] at h
    rw [h]

theorem strtol_blank (base : Nat) (s : Text) : (strtol base (' ' :: s)).1 = (strtol base s).1 := by
  have hsign : sign ((' ' :: s).dropWhile isSpace) = sign (s.dropWhile isSpace) := rfl
  have hnumeral : numeral base (' ' :: s) = numeral base s := by
    rw [numeral, hsign, numeral]
  rw [strtol, strtol, hnumeral]
  cases numeral base s with
  | none => rfl
  | some r => rfl

theorem atoi_signed {x : Int} (h1 : -2 ^ 31 ≤ x) (h2 : x < 2 ^ 31) : atoi (signed x) = x := by
  rw [signed]
  split
  · rename_i hneg
    have hds : (decimal x.natAbs).takeWhile (isDigit 10) = decimal x.natAbs := by
      have h := takeWhile_decimal (n := x.natAbs) (s := []) nofun
      rwa [List.append_nil] at h
    have hsign : sign (('-' :: decimal x.natAbs).dropWhile isSpace) = (true, decimal x.natAbs) := rfl
    have hclamp : clamp (-(x.natAbs : Int)) = x := by
      rw [clamp, LONG_MAX, LONG_MIN]
      omega
    rw [atoi, strtol, numeral, hsign]
    dsimp only
    rw [show baseOf 10 (decimal x.natAbs) = (10, decimal x.natAbs) from rfl]
    dsimp only
    rw [hds, if_neg decimal_ne_nil, value_decimal, if_pos rfl, hclamp, Option.getD_some, toInt_of_bounds h1 h2]
  · rename_i hpos
    rw [atoi_decimal (by omega)]
    omega

theorem length_decimal_le {n k : Nat} (hk : 0 < k) (hn : n < 10 ^ k) : (decimal n).length ≤ k :=
  (Nat.length_toDigits_le_iff (by decide) hk).mpr hn

end OiAmc.Numerals

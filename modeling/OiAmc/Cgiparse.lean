import Mathlib.Data.List.Basic
import Mathlib.Data.UInt

/-! The values of a form, as `cgiparse_getvalue_urlencoded` looks for them. A string is a list of octets without its
terminator. -/

namespace OiAmc.Cgiparse

abbrev Octets := List UInt8

def ampersand : UInt8 := '&'.toUInt8

def equals : UInt8 := '='.toUInt8

def plus : UInt8 := '+'.toUInt8

def percent : UInt8 := '%'.toUInt8

def space : UInt8 := ' '.toUInt8

def isxdigit (c : UInt8) : Bool :=
  '0'.toUInt8 ≤ c && c ≤ '9'.toUInt8 || 'A'.toUInt8 ≤ c && c ≤ 'F'.toUInt8 || 'a'.toUInt8 ≤ c && c ≤ 'f'.toUInt8

def hexDigit (hex : UInt8) : UInt8 :=
  if hex ≥ 'A'.toUInt8 ∧ hex ≤ 'F'.toUInt8 then hex - 'A'.toUInt8 + 10
  else if hex ≥ 'a'.toUInt8 ∧ hex ≤ 'f'.toUInt8 then hex - 'a'.toUInt8 + 10
  else hex - '0'.toUInt8

def parseHex (hex1 hex2 : UInt8) : Option UInt8 :=
  if !isxdigit hex1 || !isxdigit hex2 then none else some (hexDigit hex1 * 16 + hexDigit hex2)

/-- A place in a string: the octet in front of it, if it is not the start, and the string from there on. -/
structure Ptr where
  before : Option UInt8
  rest : Octets

def strstrFrom (needle : Octets) : Option UInt8 → Octets → Option Ptr
  | b, [] => if needle = [] then some ⟨b, []⟩ else none
  | b, c :: s => if needle <+: c :: s then some ⟨b, c :: s⟩ else strstrFrom needle (some c) s

def strstr (v : Ptr) (needle : Octets) : Option Ptr := strstrFrom needle v.before v.rest

theorem strstrFrom_length {needle s : Octets} {b : Option UInt8} {p : Ptr} (h : strstrFrom needle b s = some p) :
    p.rest.length ≤ s.length := by
  induction s generalizing b with
  | nil =>
      rw [strstrFrom] at h
      split at h
      · obtain rfl := Option.some.inj h
        exact Nat.le_refl _
      · cases h
  | cons c s ih =>
      rw [strstrFrom] at h
      split at h
      · obtain rfl := Option.some.inj h
        exact Nat.le_refl _
      · exact Nat.le_succ_of_le (ih h)

/-- The place behind the name and its `=`, of the one with number seq. -/
def search (fieldname : Octets) (seq cnt : Nat) (v : Ptr) : Option Octets :=
  if v.rest = [] then none
  else match h : strstr v fieldname with
    | none => none
    | some ⟨_, []⟩ => none
    | some ⟨before, c :: s⟩ =>
        if (before ≠ none ∧ before ≠ some ampersand) ∨ (c :: s)[fieldname.length]? ≠ some equals then
          search fieldname seq cnt ⟨some c, s⟩
        else if cnt + 1 = seq then some ((c :: s).drop (fieldname.length + 1))
        else search fieldname seq (cnt + 1) ⟨some c, s⟩
termination_by v.rest.length
decreasing_by
  · exact strstrFrom_length h
  · exact strstrFrom_length h

/-- A write into tmpvalue; none outside of it. -/
def putTmp (tmpvalue : Octets) (v : Nat) (c : UInt8) : Option Octets :=
  if v < tmpvalue.length then some (tmpvalue.set v c) else none

/-- tmpvalue after the loop; the inner none is a return of -1. -/
def decodeLoop (tmpvalue : Octets) (v : Nat) : Octets → Option (Option Octets)
  | [] => some (some tmpvalue)
  | c :: p =>
      if c = ampersand then some (some tmpvalue)
      else if c = percent then
        match p with
        | hex1 :: hex2 :: p =>
            match parseHex hex1 hex2 with
            | none => some none
            | some x => (putTmp tmpvalue v x).bind fun tmpvalue => decodeLoop tmpvalue (v + 1) p
        -- the end of the string is no digit
        | _ => some none
      else (putTmp tmpvalue v (if c = plus then space else c)).bind fun tmpvalue => decodeLoop tmpvalue (v + 1) p

/-- A string at the start of a buffer; none where it has no end there. -/
def cString (buf : Octets) : Option Octets := if 0 ∈ buf then some (buf.takeWhile (· ≠ 0)) else none

/-- `strcpy`; none when the buffer is too small. -/
def strcpy (value s : Octets) : Option Octets :=
  if s.length < value.length then some (s ++ 0 :: value.drop (s.length + 1)) else none

/-- What a call returns, the buffer after it, and what is printed when there is none. -/
structure Result where
  ret : Int
  value : Option Octets
  printed : Octets
  deriving DecidableEq

def getvalueUrlencoded (data fieldname : Octets) (value : Option Octets) (size : Int) (seq : Nat) : Option Result :=
  match search fieldname seq 0 ⟨none, data⟩ with
  | none => some ⟨-1, value, []⟩
  | some p => do
      let decoded ← decodeLoop (List.replicate data.length 0) 0 p
      match decoded with
      | none => pure ⟨-1, value, []⟩
      | some tmpvalue => do
          let s ← cString tmpvalue
          if s.length > 0 then
            match value with
            | none => pure ⟨s.length, none, s ++ ['\n'.toUInt8]⟩
            | some value =>
                if (s.length : Int) ≥ size then pure ⟨-1, some value, []⟩
                else do
                  let value ← strcpy value s
                  pure ⟨s.length, some value, []⟩
          else pure ⟨s.length, value, []⟩

/-- The raw value of a piece of the form `name=raw`. -/
def rawOf (fieldname piece : Octets) : Option Octets :=
  if fieldname ++ [equals] <+: piece then some (piece.drop (fieldname.length + 1)) else none

def raws (fieldname : Octets) (pieces : List Octets) : List Octets := pieces.filterMap (rawOf fieldname)

/-- The decoded form, when its escapes are well-formed. -/
def decode : Octets → Option Octets
  | [] => some []
  | c :: p =>
      if c = percent then
        match p with
        | hex1 :: hex2 :: p => (parseHex hex1 hex2).bind fun x => (decode p).map (x :: ·)
        | _ => none
      else (decode p).map ((if c = plus then space else c) :: ·)

def piecesFrom (b : Option UInt8) (s : Octets) : List Octets :=
  if b = none ∨ b = some ampersand then s.splitOn ampersand else (s.splitOn ampersand).tail

variable {fieldname raw s p tmpvalue : Octets} {b : Option UInt8} {c : UInt8} {cnt seq v : Nat}

theorem splitOn_cons (c : UInt8) (s : Octets) : (c :: s).splitOn ampersand =
    if c = ampersand then [] :: s.splitOn ampersand else (s.splitOn ampersand).modifyHead (c :: ·) := by
  rw [List.splitOn, List.splitOnP_cons_eq_if_modifyHead]
  simp only [beq_iff_eq]
  rfl

theorem piecesFrom_cons (c : UInt8) (s : Octets) : piecesFrom (some c) s = ((c :: s).splitOn ampersand).tail := by
  rw [splitOn_cons, piecesFrom]
  by_cases hc : c = ampersand
  · rw [if_pos (.inr (congrArg some hc)), if_pos hc, List.tail_cons]
  · rw [if_neg (fun h => h.elim nofun fun h => hc (Option.some.inj h)), if_neg hc, List.tail_modifyHead]

theorem head_splitOn (s : Octets) : (s.splitOn ampersand).head? = some (s.takeWhile (· ≠ ampersand)) := by
  induction s with
  | nil => rfl
  | cons c s ih =>
      rw [splitOn_cons]
      by_cases hc : c = ampersand
      · rw [if_pos hc, List.takeWhile_cons_of_neg (by simpa using hc)]
        rfl
      · rw [if_neg hc, List.takeWhile_cons_of_pos (by simpa using hc), List.head?_modifyHead, ih]
        rfl

theorem prefix_takeWhile (hname : ampersand ∉ raw) : raw <+: s.takeWhile (· ≠ ampersand) ↔ raw <+: s := by
  constructor
  · exact fun h => h.trans (List.takeWhile_prefix _)
  · rintro ⟨t, rfl⟩
    have hne : ∀ a ∈ raw, decide (a ≠ ampersand) = true := by
      intro a ha
      apply decide_eq_true
      rintro rfl
      exact hname ha
    rw [List.takeWhile_append_of_pos hne]
    exact List.prefix_append raw _

theorem prefix_equals (h : fieldname <+: s) : fieldname ++ [equals] <+: s ↔ s[fieldname.length]? = some equals := by
  obtain ⟨t, rfl⟩ := h
  rw [List.prefix_append_right_inj, List.getElem?_append_right (Nat.le_refl _), Nat.sub_self]
  cases t with
  | nil => exact iff_of_false (fun h => nomatch List.prefix_nil.mp h) nofun
  | cons c t =>
      rw [List.getElem?_cons_zero, Option.some_inj, List.cons_prefix_cons]
      exact ⟨fun h => h.1.symm, fun h => ⟨h.symm, List.nil_prefix⟩⟩

theorem name_equals (hname : ampersand ∉ fieldname) : ampersand ∉ fieldname ++ [equals] := by
  intro h
  rcases List.mem_append.mp h with h | h
  · exact hname h
  · exact absurd (List.mem_singleton.mp h) (by decide)

theorem raws_cons (hname : ampersand ∉ fieldname) (b : Option UInt8) (c : UInt8) (s : Octets) :
    raws fieldname (piecesFrom b (c :: s)) =
      if (b = none ∨ b = some ampersand) ∧ fieldname ++ [equals] <+: c :: s then
        ((c :: s).takeWhile (· ≠ ampersand)).drop (fieldname.length + 1) :: raws fieldname (piecesFrom (some c) s)
      else raws fieldname (piecesFrom (some c) s) := by
  rw [piecesFrom_cons, piecesFrom]
  by_cases hb : b = none ∨ b = some ampersand
  · have hsplit : (c :: s).splitOn ampersand =
        (c :: s).takeWhile (· ≠ ampersand) :: ((c :: s).splitOn ampersand).tail :=
      (List.cons_head?_tail (head_splitOn (c :: s))).symm
    rw [if_pos hb, hsplit, List.tail_cons]
    by_cases hstart : fieldname ++ [equals] <+: c :: s
    · rw [if_pos ⟨hb, hstart⟩]
      exact List.filterMap_cons_some (if_pos ((prefix_takeWhile (name_equals hname)).mpr hstart))
    · rw [if_neg fun h => hstart h.2]
      exact List.filterMap_cons_none (if_neg (mt (prefix_takeWhile (name_equals hname)).mp hstart))
  · rw [if_neg hb, if_neg fun h => hb h.1]

theorem strstrFrom_raws (hname : ampersand ∉ fieldname) :
    (strstrFrom fieldname b s = none → raws fieldname (piecesFrom b s) = []) ∧
    ∀ q, strstrFrom fieldname b s = some q → fieldname <+: q.rest ∧
      raws fieldname (piecesFrom b s) = raws fieldname (piecesFrom q.before q.rest) := by
  induction s generalizing b with
  | nil =>
      rw [strstrFrom]
      split
      · rename_i hnil
        refine ⟨nofun, fun q hq => ?_⟩
        obtain rfl := Option.some.inj hq
        exact ⟨hnil ▸ List.nil_prefix, rfl⟩
      · refine ⟨fun _ => ?_, nofun⟩
        have hraw : rawOf fieldname [] = none :=
          if_neg fun h => List.append_ne_nil_of_right_ne_nil fieldname (List.cons_ne_nil _ _) (List.prefix_nil.mp h)
        rw [piecesFrom]
        split
        · exact List.filterMap_cons_none hraw
        · rfl
  | cons c s ih =>
      rw [strstrFrom]
      split
      · rename_i hstart
        refine ⟨nofun, fun q hq => ?_⟩
        obtain rfl := Option.some.inj hq
        exact ⟨hstart, rfl⟩
      · rename_i hstart
        rw [raws_cons hname, if_neg fun h => hstart ((List.prefix_append _ _).trans h.2)]
        exact ih

theorem search_raws (hne : fieldname ≠ []) (hname : ampersand ∉ fieldname) (hseq : cnt < seq) :
    (search fieldname seq cnt ⟨b, s⟩).map (fun p => p.takeWhile (· ≠ ampersand)) =
      (raws fieldname (piecesFrom b s))[seq - cnt - 1]? := by
  induction h : s.length using Nat.strong_induction_on generalizing b s cnt with
  | _ n ih =>
      obtain ⟨hnone, hsome⟩ := strstrFrom_raws (s := s) (b := b) hname
      rw [search]
      split
      · rename_i hnil
        obtain rfl : s = [] := hnil
        have hstr : strstrFrom fieldname b [] = none := if_neg hne
        rw [hnone hstr]
        rfl
      · split
        · rename_i hstr
          rw [hnone hstr]
          rfl
        · rename_i before hstr
          exact absurd (List.prefix_nil.mp (hsome _ hstr).1) hne
        · rename_i before c s' hstr
          obtain ⟨hstart, hraws⟩ := hsome _ hstr
          have hlen : s'.length < n := h ▸ strstrFrom_length hstr
          have hname' : ∀ a ∈ fieldname ++ [equals], decide (a ≠ ampersand) = true := by
            intro a ha
            apply decide_eq_true
            rintro rfl
            exact name_equals hname ha
          have hat : ¬ ((before ≠ none ∧ before ≠ some ampersand) ∨ (c :: s')[fieldname.length]? ≠ some equals) ↔
              (before = none ∨ before = some ampersand) ∧ fieldname ++ [equals] <+: c :: s' := by
            rw [prefix_equals hstart, not_or, not_and_or, not_not, not_not, not_not]
          rw [hraws, raws_cons hname]
          split
          · rename_i hother
            rw [if_neg fun h => hat.mpr h hother]
            exact ih _ hlen hseq rfl
          · rename_i hstart
            have hmatch := hat.mp hstart
            rw [if_pos hmatch]
            split
            · rename_i hlast
              obtain ⟨t, ht⟩ := hmatch.2
              have hskip : ∀ t : Octets, (fieldname ++ [equals] ++ t).drop (fieldname.length + 1) = t :=
                fun t => List.drop_left' List.length_append
              have hdrop : (c :: s').drop (fieldname.length + 1) = t := by
                rw [← ht, hskip]
              have htake : ((c :: s').takeWhile (· ≠ ampersand)).drop (fieldname.length + 1) =
                  t.takeWhile (· ≠ ampersand) := by
                rw [← ht, List.takeWhile_append_of_pos hname', hskip]
              rw [Option.map_some, hdrop, htake, show seq - cnt - 1 = 0 by omega, List.getElem?_cons_zero]
            · rename_i hmore
              rw [show seq - cnt - 1 = seq - (cnt + 1) - 1 + 1 by omega, List.getElem?_cons_succ]
              exact ih _ hlen (by omega) rfl

theorem putTmp_lt (hv : v < tmpvalue.length) (c : UInt8) : putTmp tmpvalue v c = some (tmpvalue.set v c) := if_pos hv

theorem set_decoded (hv : v < tmpvalue.length) (x : UInt8) (d : Octets) :
    (tmpvalue.set v x).take (v + 1) ++ d ++ (tmpvalue.set v x).drop (v + 1 + d.length) =
      tmpvalue.take v ++ x :: d ++ tmpvalue.drop (v + (x :: d).length) := by
  rw [List.take_succ_eq_append_getElem (by rwa [List.length_set]), List.getElem_set_self,
    List.take_set_of_le (Nat.le_refl v), List.drop_set_of_lt (by omega), List.append_assoc (tmpvalue.take v),
    List.singleton_append, List.length_cons, Nat.add_right_comm v, Nat.add_assoc v]

theorem decodeLoop_ampersand : decodeLoop tmpvalue v (ampersand :: p) = some (some tmpvalue) := by
  rcases p with _ | ⟨hex1, _ | ⟨hex2, p⟩⟩
  · exact if_pos rfl
  · exact if_pos rfl
  · exact if_pos rfl

theorem decodeLoop_plain (hamp : c ≠ ampersand) (hpercent : c ≠ percent) : decodeLoop tmpvalue v (c :: p) =
    (putTmp tmpvalue v (if c = plus then space else c)).bind fun tmpvalue => decodeLoop tmpvalue (v + 1) p := by
  rcases p with _ | ⟨hex1, _ | ⟨hex2, p⟩⟩
  · exact (if_neg hamp).trans (if_neg hpercent)
  · exact (if_neg hamp).trans (if_neg hpercent)
  · exact (if_neg hamp).trans (if_neg hpercent)

theorem decodeLoop_percent (hex1 hex2 : UInt8) : decodeLoop tmpvalue v (percent :: hex1 :: hex2 :: p) =
    match parseHex hex1 hex2 with
    | none => some none
    | some x => (putTmp tmpvalue v x).bind fun tmpvalue => decodeLoop tmpvalue (v + 1) p := rfl

theorem decode_plain (hpercent : c ≠ percent) :
    decode (c :: p) = (decode p).map ((if c = plus then space else c) :: ·) := by
  rcases p with _ | ⟨hex1, _ | ⟨hex2, p⟩⟩
  · exact if_neg hpercent
  · exact if_neg hpercent
  · exact if_neg hpercent

theorem decode_percent (hex1 hex2 : UInt8) : decode (percent :: hex1 :: hex2 :: p) =
    (parseHex hex1 hex2).bind fun x => (decode p).map (x :: ·) := rfl

theorem parseHex_ampersand (hex : UInt8) : parseHex ampersand hex = none ∧ parseHex hex ampersand = none := by
  have hamp : isxdigit ampersand = false := by decide
  rw [parseHex, parseHex, hamp, Bool.not_false, Bool.true_or, Bool.or_true]
  exact ⟨rfl, rfl⟩

theorem decodeLoop_eq (h : v + p.length ≤ tmpvalue.length) : decodeLoop tmpvalue v p =
    some ((decode (p.takeWhile (· ≠ ampersand))).map fun d => tmpvalue.take v ++ d ++ tmpvalue.drop (v + d.length)) := by
  induction hn : p.length using Nat.strong_induction_on generalizing p v tmpvalue with
  | _ n ih =>
      cases p with
      | nil =>
          rw [decodeLoop, List.takeWhile_nil, decode, Option.map_some, List.append_nil, List.length_nil, Nat.add_zero,
            List.take_append_drop]
      | cons c p =>
          rw [List.length_cons] at h hn
          have hv : v < tmpvalue.length := by omega
          -- what an octet and the rest come to
          have hnext : ∀ (x : UInt8) (q : Octets), q.length ≤ p.length →
              ((putTmp tmpvalue v x).bind fun tmpvalue => decodeLoop tmpvalue (v + 1) q) =
                some (((decode (q.takeWhile (· ≠ ampersand))).map (x :: ·)).map fun d =>
                  tmpvalue.take v ++ d ++ tmpvalue.drop (v + d.length)) := by
            intro x q hq
            rw [putTmp_lt hv, Option.bind_some, ih q.length (by omega) (by rw [List.length_set]; omega) rfl,
              Option.map_map]
            congr 2
            funext d
            exact set_decoded hv x d
          by_cases hamp : c = ampersand
          · rw [hamp, decodeLoop_ampersand, List.takeWhile_cons_of_neg (by simp), decode, Option.map_some,
              List.append_nil, List.length_nil, Nat.add_zero, List.take_append_drop]
          · rw [List.takeWhile_cons_of_pos (by simpa using hamp)]
            by_cases hpercent : c = percent
            · rw [hpercent]
              rcases p with _ | ⟨hex1, _ | ⟨hex2, p⟩⟩
              · rfl
              · -- one digit in front of the end
                have hshort : decode (percent :: [hex1].takeWhile (· ≠ ampersand)) = none := by
                  rw [List.takeWhile_cons]
                  split
                  · rfl
                  · rfl
                rw [hshort]
                rfl
              · rw [decodeLoop_percent]
                by_cases h1 : hex1 = ampersand
                · rw [h1, (parseHex_ampersand hex2).1, List.takeWhile_cons_of_neg (by simp)]
                  rfl
                · rw [List.takeWhile_cons_of_pos (by simpa using h1)]
                  by_cases h2 : hex2 = ampersand
                  · rw [h2, (parseHex_ampersand hex1).2, List.takeWhile_cons_of_neg (by simp)]
                    rfl
                  · rw [List.takeWhile_cons_of_pos (by simpa using h2), decode_percent]
                    cases parseHex hex1 hex2 with
                    | none => rfl
                    | some x => exact hnext x p (Nat.le_of_succ_le (Nat.le_succ _))
            · rw [decodeLoop_plain hamp hpercent, decode_plain hpercent]
              exact hnext _ p (Nat.le_refl _)

theorem search_length {t : Ptr} (h : search fieldname seq cnt t = some p) : p.length < t.rest.length := by
  induction hn : t.rest.length using Nat.strong_induction_on generalizing t cnt with
  | _ n ih =>
      rw [search] at h
      split at h
      · cases h
      · split at h
        · cases h
        · cases h
        · rename_i before c s hstr
          have hlen : s.length < n := hn ▸ strstrFrom_length hstr
          split at h
          · exact Nat.lt_trans (ih s.length hlen h rfl) hlen
          · split at h
            · obtain rfl := Option.some.inj h
              rw [List.length_drop, List.length_cons]
              omega
            · exact Nat.lt_trans (ih s.length hlen h rfl) hlen

theorem decode_length {d : Octets} (h : decode raw = some d) : d.length ≤ raw.length := by
  induction hn : raw.length using Nat.strong_induction_on generalizing raw d with
  | _ n ih =>
      have hcons : ∀ (x : UInt8) (q : Octets), q.length < n → (decode q).map (x :: ·) = some d →
          d.length ≤ q.length + 1 := by
        intro x q hq hd
        obtain ⟨d', hd', rfl⟩ := Option.map_eq_some_iff.mp hd
        exact Nat.succ_le_succ (ih q.length hq hd' rfl)
      cases raw with
      | nil =>
          obtain rfl := Option.some.inj h
          exact Nat.zero_le n
      | cons c p =>
          rw [List.length_cons] at hn
          by_cases hpercent : c = percent
          · rw [hpercent] at h
            rcases p with _ | ⟨hex1, _ | ⟨hex2, p⟩⟩
            · cases h
            · cases h
            · rw [List.length_cons, List.length_cons] at hn
              obtain ⟨x, -, hd⟩ := Option.bind_eq_some_iff.mp h
              have hlen := hcons x p (by omega) hd
              omega
          · rw [decode_plain hpercent] at h
            have hlen := hcons _ p (by omega) h
            omega

theorem cString_padded {d : Octets} (hd : 0 ∉ d) {n : Nat} (hn : 0 < n) : cString (d ++ List.replicate n 0) = some d := by
  obtain ⟨m, rfl⟩ := Nat.exists_eq_succ_of_ne_zero (Nat.ne_of_gt hn)
  have hne : ∀ a ∈ d, decide (a ≠ 0) = true := by
    intro a ha
    apply decide_eq_true
    rintro rfl
    exact hd ha
  rw [List.replicate_succ, cString, if_pos (List.mem_append_right d List.mem_cons_self),
    List.takeWhile_append_of_pos hne, List.takeWhile_cons_of_neg (by simp), List.append_nil]

/-- The decoded value of the piece of a name with a number, as the string splits into pieces. -/
def fieldValue (data fieldname : Octets) (seq : Nat) : Option Octets :=
  (raws fieldname (data.splitOn ampersand))[seq - 1]?.bind decode

variable {data value : Octets} {size : Int}

theorem getvalue_eq (hne : fieldname ≠ []) (hname : ampersand ∉ fieldname) (hseq : 1 ≤ seq)
    (hsize : value.length = size.toNat) (hzero : ∀ d ∈ fieldValue data fieldname seq, 0 ∉ d) :
    getvalueUrlencoded data fieldname (some value) size seq = some (match fieldValue data fieldname seq with
      | none => ⟨-1, some value, []⟩
      | some d =>
          if d = [] then ⟨0, some value, []⟩
          else if (d.length : Int) ≥ size then ⟨-1, some value, []⟩
          else ⟨d.length, some (d ++ 0 :: value.drop (d.length + 1)), []⟩) := by
  have hsearch := search_raws (b := none) (s := data) hne hname hseq
  rw [Nat.sub_zero, piecesFrom, if_pos (.inl rfl)] at hsearch
  rw [getvalueUrlencoded]
  cases hp : search fieldname seq 0 ⟨none, data⟩ with
  | none =>
      rw [hp, Option.map_none] at hsearch
      rw [fieldValue, ← hsearch]
      rfl
  | some p =>
      rw [hp, Option.map_some] at hsearch
      have hlen := search_length hp
      have hroom : 0 + p.length ≤ (List.replicate data.length (0 : UInt8)).length := by
        rw [Nat.zero_add, List.length_replicate]
        exact Nat.le_of_lt hlen
      have hloop := decodeLoop_eq hroom
      have hvalue : fieldValue data fieldname seq = decode (p.takeWhile (· ≠ ampersand)) := by
        rw [fieldValue, ← hsearch, Option.bind_some]
      rw [hvalue] at hzero ⊢
      dsimp only
      rw [hloop]
      cases hd : decode (p.takeWhile (· ≠ ampersand)) with
      | none => rfl
      | some d =>
          have hd0 : 0 ∉ d := hzero d hd
          have hdlen : d.length ≤ p.length := (decode_length hd).trans (List.takeWhile_prefix _).length_le
          have hshort : d.length < data.length := Nat.lt_of_le_of_lt hdlen hlen
          have hstring := cString_padded hd0 (show 0 < data.length - d.length by omega)
          rw [Option.map_some, List.take_zero, List.nil_append, Nat.zero_add, List.drop_replicate]
          simp only [Option.bind_eq_bind, Option.bind_some, hstring, List.length_pos_iff, ne_eq, pure]
          by_cases hnil : d = []
          · rw [if_neg (not_not.mpr hnil), if_pos hnil, hnil]
            rfl
          · rw [if_pos hnil, if_neg hnil]
            by_cases hbig : (d.length : Int) ≥ size
            · rw [if_pos hbig, if_pos hbig]
            · rw [if_neg hbig, if_neg hbig, strcpy, if_pos (by omega)]
              rfl

/-- What a lookup with a buffer is to do: it stays inside of its buffers, is successful when there is a value that fits,
and then leaves the value with its terminator at the start of the buffer. -/
def Meets (data fieldname value : Octets) (size : Int) (seq : Nat) : Prop :=
  ∃ r, getvalueUrlencoded data fieldname (some value) size seq = some r ∧
    (0 ≤ r.ret ↔ ∃ d ∈ fieldValue data fieldname seq, (d.length : Int) < size) ∧
    ∀ d ∈ fieldValue data fieldname seq, (d.length : Int) < size →
      r.ret = d.length ∧ r.value = some (d ++ 0 :: value.drop (d.length + 1))

/-- A lookup does what it is to do unless the value is empty and the buffer does not start with a terminator. -/
theorem urlencoded_iff (hne : fieldname ≠ []) (hname : ampersand ∉ fieldname ∧ equals ∉ fieldname) (hseq : 1 ≤ seq)
    (hsize : value.length = size.toNat) (hzero : ∀ d ∈ fieldValue data fieldname seq, 0 ∉ d) :
    Meets data fieldname value size seq ↔
      (fieldValue data fieldname seq = some [] → 0 < size ∧ value.head? = some 0) := by
  rw [Meets, getvalue_eq hne hname.1 hseq hsize hzero]
  cases fieldValue data fieldname seq with
  | none =>
      refine iff_of_true ⟨_, rfl, ?_, nofun⟩ nofun
      exact iff_of_false (show ¬ (0 : Int) ≤ -1 by decide) fun ⟨_, hd, _⟩ => nomatch hd
  | some d =>
      have hmem : ∀ P : Octets → Prop, (∃ d' ∈ some d, P d') ↔ P d := fun P =>
        ⟨fun ⟨d', hd', h⟩ => Option.some.inj hd' ▸ h, fun h => ⟨d, rfl, h⟩⟩
      have hall : ∀ P : Octets → Prop, (∀ d' ∈ some d, P d') ↔ P d := fun P =>
        ⟨fun h => h d rfl, fun h d' hd' => Option.some.inj hd' ▸ h⟩
      simp only [Option.some_inj, exists_eq_left', hmem, hall]
      by_cases hnil : d = []
      · rw [if_pos hnil, hnil]
        simp only [List.length_nil, Nat.cast_zero, List.nil_append, Nat.zero_add, true_and, true_implies]
        constructor
        · rintro ⟨hpos, hvalue⟩
          have hsize := hpos.mp (le_refl 0)
          refine ⟨hsize, ?_⟩
          rw [Option.some.inj (hvalue hsize)]
          rfl
        · rintro ⟨hpos, hhead⟩
          obtain ⟨rest, rfl⟩ : ∃ rest, value = 0 :: rest := by
            cases value with
            | nil => cases hhead
            | cons c rest => exact ⟨rest, congrArg (· :: rest) (Option.some.inj hhead)⟩
          exact ⟨iff_of_true (le_refl 0) hpos, fun _ => rfl⟩
      · rw [if_neg hnil]
        by_cases hbig : (d.length : Int) ≥ size
        · rw [if_pos hbig]
          refine iff_of_true ⟨?_, fun h => absurd h (Int.not_lt.mpr hbig)⟩ fun h => absurd h hnil
          exact iff_of_false (show ¬ (0 : Int) ≤ -1 by decide) (Int.not_lt.mpr hbig)
        · rw [if_neg hbig]
          have hfits := Int.not_le.mp hbig
          exact iff_of_true ⟨iff_of_true (Int.natCast_nonneg _) hfits, fun _ => ⟨rfl, rfl⟩⟩ fun h => absurd h hnil

/-- `a=` -/
def emptyField : Octets := ['a'.toUInt8, equals]

/-- `b=1&a=%41+` -/
def twoFields : Octets := ['b', '=', '1', '&', 'a', '=', '%', '4', '1', '+'].map Char.toUInt8

theorem urlencoded_twoFields : Meets twoFields ['a'.toUInt8] [1, 2, 3] 3 1 ↔
    (fieldValue twoFields ['a'.toUInt8] 1 = some [] → (0 : Int) < 3 ∧ [(1 : UInt8), 2, 3].head? = some 0) := by
  have hvalue : fieldValue twoFields ['a'.toUInt8] 1 = some ['A'.toUInt8, space] := by decide
  refine urlencoded_iff (by decide) (by decide) (Nat.le_refl 1) rfl fun d hd => ?_
  rw [hvalue] at hd
  obtain rfl := Option.some.inj hd
  decide

/-- An empty value is found, but the buffer is left as it was. -/
theorem empty_not_written : ¬ ∀ (data fieldname value : Octets) (size : Int) (seq : Nat), fieldname ≠ [] →
    ampersand ∉ fieldname ∧ equals ∉ fieldname → 1 ≤ seq → value.length = size.toNat →
    (∀ d ∈ fieldValue data fieldname seq, 0 ∉ d) → Meets data fieldname value size seq := by
  intro h
  have hvalue : fieldValue emptyField ['a'.toUInt8] 1 = some [] := by decide
  have hzero : ∀ d ∈ fieldValue emptyField ['a'.toUInt8] 1, 0 ∉ d := by
    intro d hd
    rw [hvalue] at hd
    obtain rfl := Option.some.inj hd
    exact List.not_mem_nil
  obtain ⟨r, hr, -, hread⟩ := h emptyField ['a'.toUInt8] [1, 2, 3] 3 1 (by decide) (by decide) (Nat.le_refl 1) rfl hzero
  obtain ⟨-, hwritten⟩ := hread [] hvalue (by decide)
  rw [getvalue_eq (by decide) (by decide) (Nat.le_refl 1) rfl hzero, hvalue] at hr
  obtain rfl := Option.some.inj hr
  exact absurd hwritten (by decide)

end OiAmc.Cgiparse

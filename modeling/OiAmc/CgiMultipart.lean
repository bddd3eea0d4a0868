import Mathlib.Data.List.Infix
import OiAmc.Cgiparse

/-! The parts of a form, as `cgiparse_getvalue_multipart` scans for them. A pointer is the memory from it to the end of
the data, the terminator at `data[contentlen]` included. -/

namespace OiAmc.CgiMultipart

open Cgiparse (Octets Result)

def cr : UInt8 := 13

def lf : UInt8 := 10

def dash : UInt8 := 45

def quote : UInt8 := 34

def disposition : Octets :=
  ['C', 'o', 'n', 't', 'e', 'n', 't', '-', 'D', 'i', 's', 'p', 'o', 's', 'i', 't', 'i', 'o', 'n', ':', ' ',
    'f', 'o', 'r', 'm', '-', 'd', 'a', 't', 'a', ';', ' ', 'n', 'a', 'm', 'e', '='].map Char.toUInt8 ++ [quote]

/-- `return -1`, or a read behind the end of the memory. -/
inductive Fault
  | refused
  | outside
  deriving DecidableEq

abbrev Scan := Except Fault

/-- `if (*v++ != c) return -1;` -/
def expect (c : UInt8) : Octets → Scan Octets
  | [] => .error .outside
  | d :: v => if d ≠ c then .error .refused else .ok v

/-- `if (*v == 0) return -1;` -/
def nonZero : Octets → Scan Octets
  | [] => .error .outside
  | c :: v => if c = 0 then .error .refused else .ok (c :: v)

def skipDashes : Octets → Scan Octets
  | [] => .error .outside
  | c :: v => if c = dash then skipDashes v else .ok (c :: v)

def strncmp : Octets → Octets → Scan Bool
  | _, [] => .ok true
  | [], _ :: _ => .error .outside
  | c :: v, d :: s => if c = d then strncmp v s else .ok false

def expectText (s v : Octets) : Scan Octets := do
  if ← strncmp v s then .ok (v.drop s.length) else .error .refused

/-- What is in front of a stop, and the place behind it. -/
def skipTo (stop : UInt8) : Octets → Scan (Octets × Octets)
  | [] => .error .outside
  | c :: v =>
      if c = stop then .ok ([], v)
      else if c = 0 then .error .refused
      else do
        let (text, rest) ← skipTo stop v
        .ok (c :: text, rest)

def lineEnd (v : Octets) : Scan Octets := do
  let v ← expect lf v
  nonZero v

def restOfLine (v : Octets) : Scan Octets := do
  let (_, v) ← skipTo cr v
  lineEnd v

/-- What holds of the outcome of a scan, when a read outside shows that the memory has no end. -/
def Scans {α : Type} (ended : Prop) (P : α → Prop) : Scan α → Prop
  | .ok a => P a
  | .error .refused => True
  | .error .outside => ¬ ended

/-- The memory ends with the terminator. -/
def Ended (v : Octets) : Prop := v.getLast? = some 0

def Within (ended : Prop) (n : Nat) (v : Octets) : Prop := v.length ≤ n ∧ (ended → Ended v)

section Scans

variable {α β : Type} {e : Prop} {P : α → Prop} {Q : β → Prop} {x : Scan α} {f : α → Scan β}

theorem Scans.bind (hx : Scans e P x) (hf : ∀ a, P a → Scans e Q (f a)) : Scans e Q (x >>= f) := by
  cases x with
  | ok a => exact hf a hx
  | error fault =>
      cases fault with
      | refused => trivial
      | outside => exact hx

theorem Scans.imp {R : α → Prop} (hx : Scans e P x) (h : ∀ a, x = .ok a → P a → R a) : Scans e R x := by
  cases x with
  | ok a => exact h a rfl hx
  | error fault =>
      cases fault with
      | refused => trivial
      | outside => exact hx

theorem Scans.mono {R : α → Prop} (hx : Scans e P x) (h : ∀ a, P a → R a) : Scans e R x := hx.imp fun a _ => h a

theorem Scans.with_ok (hx : Scans e P x) : Scans e (fun a => x = .ok a ∧ P a) x := hx.imp fun _ h ha => ⟨h, ha⟩

theorem Scans.of_ok {a : α} (hx : Scans e P x) (h : x = .ok a) : P a := by
  subst h
  exact hx

theorem Scans.inside (hx : Scans e P x) (he : e) : x ≠ .error .outside := by
  rintro rfl
  exact hx he

end Scans

variable {e : Prop} {n : Nat} {v s : Octets} {c stop : UInt8}

theorem ended_nil : ¬ Ended [] := nofun

theorem ended_cons : Ended (c :: v) ↔ (v = [] ∧ c = 0) ∨ Ended v := by
  cases v with
  | nil => simp [Ended]
  | cons d v => simp [Ended]

theorem Within.refl : Within False v.length v := ⟨Nat.le_refl _, False.elim⟩

theorem Within.succ (hv : Within e n v) : Within e (n + 1) v := ⟨Nat.le_succ_of_le hv.1, hv.2⟩

theorem Within.outside (hv : Within e n []) : ¬ e := fun he => ended_nil (hv.2 he)

theorem Within.tail (hv : Within e (n + 1) (c :: v)) (hc : c ≠ 0) : Within e n v :=
  ⟨Nat.le_of_succ_le_succ hv.1, fun he => (ended_cons.mp (hv.2 he)).resolve_left fun h => hc h.2⟩

theorem Within.next (hv : Within e n (c :: v)) (hc : c ≠ 0) : Within e n v := (hv.succ.tail hc)

theorem scans_expect (hc : c ≠ 0) (hv : Within e (n + 1) v) : Scans e (Within e n) (expect c v) := by
  cases v with
  | nil => exact hv.outside
  | cons d v =>
      rw [expect]
      split_ifs with hd
      · trivial
      · exact hv.tail (not_not.mp hd ▸ hc)

theorem scans_nonZero (hv : Within e n v) : Scans e (Within e n) (nonZero v) := by
  cases v with
  | nil => exact hv.outside
  | cons d v =>
      rw [nonZero]
      split_ifs
      · trivial
      · exact hv

theorem scans_skipDashes (hv : Within e n v) : Scans e (Within e n) (skipDashes v) := by
  induction v with
  | nil => exact hv.outside
  | cons d v ih =>
      rw [skipDashes]
      split_ifs with hd
      · exact ih (hv.next (hd ▸ by decide))
      · exact hv

theorem strncmp_nil : strncmp v [] = .ok true := by cases v <;> rfl

theorem scans_strncmp (hs : 0 ∉ s) (hv : Within e n v) :
    Scans e (fun same => same = true → Within e n (v.drop s.length)) (strncmp v s) := by
  induction s generalizing v with
  | nil =>
      rw [strncmp_nil]
      exact fun _ => hv
  | cons d s ih =>
      cases v with
      | nil => exact hv.outside
      | cons c v =>
          have hd := List.ne_and_not_mem_of_not_mem_cons hs
          rw [strncmp]
          split_ifs with hc
          · exact ih hd.2 (hv.next (hc ▸ hd.1.symm))
          · exact nofun

theorem scans_expectText (hs : 0 ∉ s) (hv : Within e n v) : Scans e (Within e n) (expectText s v) := by
  apply (scans_strncmp hs hv).bind
  intro same hsame
  cases same with
  | true => exact hsame rfl
  | false => trivial

theorem scans_skipTo (hstop : stop ≠ 0) (hv : Within e (n + 1) v) :
    Scans e (fun r => Within e n r.2) (skipTo stop v) := by
  induction v with
  | nil => exact hv.outside
  | cons c v ih =>
      rw [skipTo]
      split_ifs with hc h0
      · exact hv.tail (hc ▸ hstop)
      · trivial
      · exact (ih (hv.next h0)).bind fun _ hr => hr

theorem scans_lineEnd (hv : Within e (n + 1) v) : Scans e (Within e n) (lineEnd v) :=
  (scans_expect (by decide) hv).bind fun _ => scans_nonZero

theorem scans_restOfLine (hv : Within e (n + 1) v) : Scans e (Within e n) (restOfLine v) :=
  (scans_skipTo (by decide) hv).bind fun _ hr => scans_lineEnd hr.succ

/-- The lines up to an empty one, and the place behind its 0x0d. -/
def headerLines : Octets → Scan Octets
  | [] => .error .outside
  | c :: v =>
      if c = cr then .ok v
      else match h : restOfLine (c :: v) with
        | .error fault => .error fault
        | .ok v' => headerLines v'
termination_by v => v.length
decreasing_by exact Nat.lt_succ_of_le ((scans_restOfLine Within.refl).of_ok h).1

theorem headerLines_cons (hc : c ≠ cr) : headerLines (c :: v) = restOfLine (c :: v) >>= headerLines := by
  rw [headerLines, if_neg hc]
  split <;> rename_i h <;> rw [h] <;> rfl

theorem scans_headerLines_step (hnext : ∀ w, Within e n w → Scans e (Within e n) (headerLines w))
    (hv : Within e (n + 1) v) : Scans e (Within e n) (headerLines v) := by
  cases v with
  | nil =>
      rw [headerLines]
      exact hv.outside
  | cons c v =>
      by_cases hc : c = cr
      · rw [headerLines, if_pos hc]
        exact hv.tail (hc ▸ by decide)
      · rw [headerLines_cons hc]
        exact (scans_restOfLine hv).bind hnext

theorem scans_headerLines (hv : Within e (n + 1) v) : Scans e (Within e n) (headerLines v) := by
  induction n generalizing v with
  | zero =>
      refine scans_headerLines_step (fun w hw => ?_) hv
      obtain rfl := List.eq_nil_of_length_eq_zero (Nat.le_zero.mp hw.1)
      rw [headerLines]
      exact hw.outside
  | succ n ih => exact scans_headerLines_step (fun w hw => (ih hw).mono fun _ => Within.succ) hv

/-- `(flen == (p - v)) && (strncmp(v, fieldname, flen) == 0)` -/
def sameName (fieldname name v : Octets) : Scan Bool :=
  if fieldname.length = name.length then strncmp v fieldname else .ok false

/-- The directives of a part: whether it has the name, and the place of its value. -/
def valueStart (boundary fieldname v : Octets) : Scan (Bool × Octets) := do
  let v ← skipDashes v
  let v ← expectText boundary v
  let v ← expect cr v
  let v ← expect lf v
  let v ← expectText disposition v
  let v ← nonZero v
  let (name, p) ← skipTo quote v
  let same ← sameName fieldname name v
  let v ← restOfLine p
  let v ← headerLines v
  let v ← lineEnd v
  .ok (same, v)

def strstr (needle : Octets) : Octets → Scan (Option Octets)
  | [] => .error .outside
  | c :: v =>
      if c = 0 then .ok none
      else do
        if ← strncmp (c :: v) needle then .ok (some (c :: v)) else strstr needle v

/-- `v += strlen(v);` -/
def skipString : Octets → Scan Octets
  | [] => .error .outside
  | c :: v => if c = 0 then .ok (c :: v) else skipString v

/-- `while ((v < end) && (*v == 0)) v++;` -/
def skipZeros : Octets → Octets
  | c :: d :: v => if c = 0 then skipZeros (d :: v) else c :: d :: v
  | v => v

theorem within_skipZeros (hv : Within e n v) : Within e n (skipZeros v) := by
  induction v with
  | nil => exact hv
  | cons c v ih =>
      cases v with
      | nil => exact hv
      | cons d v =>
          rw [skipZeros]
          split_ifs with hc
          · exact ih ⟨Nat.le_of_succ_le hv.1, fun he => (ended_cons.mp (hv.2 he)).resolve_left nofun⟩
          · exact hv

theorem scans_strstr (hs : 0 ∉ s) (hv : Within e n v) :
    Scans e (fun p => ∀ b ∈ p, Within e n b) (strstr s v) := by
  induction v with
  | nil => exact hv.outside
  | cons c v ih =>
      rw [strstr]
      split_ifs with hc
      · exact nofun
      · refine (scans_strncmp hs hv).bind fun same _ => ?_
        cases same with
        | true =>
            intro b hb
            exact Option.some.inj hb ▸ hv
        | false => exact ih (hv.next hc)

theorem scans_skipString (hv : Within e n v) : Scans e (Within e n) (skipString v) := by
  induction v with
  | nil => exact hv.outside
  | cons c v ih =>
      rw [skipString]
      split_ifs with hc
      · exact hv
      · exact ih (hv.next hc)

theorem length_skipZeros_lt {w : Octets} (hv : 1 < v.length) (h : skipString v = .ok w) :
    (skipZeros w).length < v.length := by
  cases v with
  | nil => cases h
  | cons c v =>
      rw [skipString] at h
      split_ifs at h with hc
      · obtain rfl := Except.ok.inj h
        cases v with
        | nil => exact absurd hv (Nat.lt_irrefl 1)
        | cons d v =>
            rw [skipZeros, if_pos hc]
            exact Nat.lt_succ_of_le (within_skipZeros Within.refl).1
      · have hw := (scans_skipString Within.refl).of_ok h
        exact Nat.lt_succ_of_le ((within_skipZeros hw).1)

def memstr (needle v : Octets) : Scan (Option Octets) :=
  if hv : v.length ≤ 1 then .ok none
  else do
    match ← strstr needle v with
    | some p => .ok (some p)
    | none =>
        match h : skipString v with
        | .error fault => .error fault
        | .ok w => memstr needle (skipZeros w)
termination_by v.length
decreasing_by exact length_skipZeros_lt (Nat.lt_of_not_le hv) h

/-- `while ((p > v) && (*p == '-')) p--;`, where the count is of the octets up to `*p`. -/
def skipBack (v : Octets) : Nat → Scan Nat
  | k + 2 =>
      match v[k + 1]? with
      | none => .error .outside
      | some c => if c = dash then skipBack v (k + 1) else .ok (k + 2)
  | k => .ok k

def valueLength (v : Octets) : Nat → Scan Nat
  | k + 2 =>
      match v[k + 1]?, v[k]? with
      | some c, some d => if c ≠ lf then .error .refused else if d ≠ cr then .error .refused else .ok k
      | _, _ => .error .outside
  -- `p <= v`
  | _ => .error .refused

def valueEnd (boundary v : Octets) : Scan (Octets × Octets) := do
  match ← memstr boundary v with
  | none => .error .refused
  | some b =>
      let k ← skipBack v (v.length - b.length)
      let qlen ← valueLength v k
      .ok (v.take qlen, b)

/-- A part of the body, and the place of the boundary behind it. -/
structure Scanned where
  same : Bool
  value : Octets
  next : Octets

def part (boundary fieldname v : Octets) : Scan Scanned := do
  let (same, v) ← valueStart boundary fieldname v
  let (value, b) ← valueEnd boundary v
  .ok ⟨same, value, b⟩

theorem memstr_eq (hv : 1 < v.length) : memstr s v = strstr s v >>= fun
    | some p => .ok (some p)
    | none => skipString v >>= fun w => memstr s (skipZeros w) := by
  rw [memstr, dif_neg (Nat.not_le_of_lt hv)]
  congr 1
  funext p
  cases p with
  | some p => rfl
  | none =>
      dsimp only
      split <;> rename_i h <;> rw [h] <;> rfl

theorem scans_memstr (hs : 0 ∉ s) (hv : Within e n v) : Scans e (fun p => ∀ b ∈ p, Within e n b) (memstr s v) := by
  induction hlen : v.length using Nat.strong_induction_on generalizing v with
  | _ len ih =>
      subst hlen
      by_cases hshort : v.length ≤ 1
      · rw [memstr, dif_pos hshort]
        exact nofun
      · rw [memstr_eq (Nat.lt_of_not_le hshort)]
        refine (scans_strstr hs hv).bind fun p hp => ?_
        cases p with
        | some p => exact hp
        | none =>
            refine (scans_skipString hv).with_ok.bind fun w hw => ?_
            exact ih _ (length_skipZeros_lt (Nat.lt_of_not_le hshort) hw.1) (within_skipZeros hw.2) rfl

theorem scans_skipBack {k : Nat} (hk : k ≤ v.length) : Scans e (· ≤ v.length) (skipBack v k) := by
  induction k with
  | zero => exact hk
  | succ k ih =>
      cases k with
      | zero => exact hk
      | succ k =>
          rw [skipBack, List.getElem?_eq_getElem hk]
          show Scans e _ (ite _ _ _)
          split_ifs
          · exact ih (Nat.le_of_succ_le hk)
          · exact hk

theorem scans_valueLength {k : Nat} (hk : k ≤ v.length) : Scans e (· ≤ v.length) (valueLength v k) := by
  match k with
  | 0 => trivial
  | 1 => trivial
  | k + 2 =>
      rw [valueLength, List.getElem?_eq_getElem hk, List.getElem?_eq_getElem (Nat.lt_of_succ_lt hk)]
      show Scans e _ (ite _ _ _)
      split_ifs
      · trivial
      · trivial
      · exact Nat.le_of_lt (Nat.lt_of_succ_lt hk)

theorem scans_valueEnd (hs : 0 ∉ s) (hv : Within e n v) : Scans e (fun r => Within e n r.2) (valueEnd s v) := by
  refine (scans_memstr hs hv).bind fun p hp => ?_
  cases p with
  | none => trivial
  | some b =>
      refine (scans_skipBack (Nat.sub_le v.length b.length)).bind fun k hk => ?_
      exact (scans_valueLength hk).bind fun _ _ => hp b rfl

theorem scans_valueStart {fieldname : Octets} (hs : 0 ∉ s) (hname : 0 ∉ fieldname) (hv : Within e (n + 1) v) :
    Scans e (fun r => Within e n r.2) (valueStart s fieldname v) := by
  refine (scans_skipDashes hv).bind fun v hv => ?_
  refine (scans_expectText hs hv).bind fun v hv => ?_
  refine (scans_expect (by decide) hv).bind fun v hv => ?_
  refine (scans_expect (by decide) hv.succ).bind fun v hv => ?_
  refine (scans_expectText (by decide) hv).bind fun v hv => ?_
  refine (scans_nonZero hv).bind fun v hv => ?_
  refine (scans_skipTo (by decide) hv.succ).bind fun r hr => ?_
  refine Scans.bind (P := fun _ => True) ?_ fun same _ => ?_
  · rw [sameName]
    split_ifs
    · exact (scans_strncmp hname hv).mono fun _ _ => trivial
    · trivial
  refine (scans_restOfLine hr.succ).bind fun v hv => ?_
  refine (scans_headerLines hv.succ).bind fun v hv => ?_
  exact (scans_lineEnd hv.succ).bind fun v hv => hv

theorem scans_part {fieldname : Octets} (hs : 0 ∉ s) (hname : 0 ∉ fieldname) (hv : Within e (n + 1) v) :
    Scans e (fun p => Within e n p.next) (part s fieldname v) :=
  (scans_valueStart hs hname hv).bind fun _ hr => (scans_valueEnd hs hr).bind fun _ hb => hb

abbrev CString := {s : Octets // 0 ∉ s}

def answer (value : Option Octets) (size : Int) (v : Octets) : Scan Result :=
  if v.length = 0 then .ok ⟨0, value, []⟩
  else match value with
    | some buf =>
        if (v.length : Int) ≥ size then .error .refused
        -- a `memcpy` behind the end of the buffer
        else if buf.length < v.length then .error .outside
        else .ok ⟨v.length, some (v ++ buf.drop v.length), []⟩
    | none => .ok ⟨v.length, none, v⟩

def loop (boundary fieldname : CString) (value : Option Octets) (size : Int) (seq cnt : Nat) : Octets → Scan Result
  | [] => .error .outside
  | c :: v =>
      if c = 0 then .ok ⟨0, value, []⟩
      else match h : part boundary fieldname (c :: v) with
        | .error fault => .error fault
        | .ok p =>
            if p.same ∧ cnt + 1 = seq then answer value size p.value
            else loop boundary fieldname value size seq (if p.same then cnt + 1 else cnt) p.next
termination_by v => v.length
decreasing_by exact Nat.lt_succ_of_le ((scans_part boundary.2 fieldname.2 Within.refl).of_ok h).1

/-- The call for the octets of a body; none for an access outside of its buffers. -/
def getvalueMultipart (boundary : CString) (data : Octets) (fieldname : CString) (value : Option Octets) (size : Int)
    (seq : Nat) : Option Result :=
  match loop boundary fieldname value size seq 0 (data ++ [0]) with
  | .ok r => some r
  | .error .refused => some ⟨-1, value, []⟩
  | .error .outside => none

variable {boundary fieldname : CString} {value : Option Octets} {size : Int} {seq cnt : Nat}

theorem loop_cons (hc : c ≠ 0) : loop boundary fieldname value size seq cnt (c :: v) =
    part boundary fieldname (c :: v) >>= fun p =>
      if p.same ∧ cnt + 1 = seq then answer value size p.value
      else loop boundary fieldname value size seq (if p.same then cnt + 1 else cnt) p.next := by
  rw [loop, if_neg hc]
  split <;> rename_i h <;> rw [h] <;> rfl

theorem scans_answer (hsize : ∀ buf ∈ value, buf.length = size.toNat) :
    Scans True (fun _ => True) (answer value size v) := by
  cases value with
  | none =>
      rw [answer]
      split_ifs <;> trivial
  | some buf =>
      have hbuf := hsize buf rfl
      rw [answer]
      split_ifs with hv hbig hout
      · trivial
      · trivial
      · omega
      · trivial

theorem scans_loop (hsize : ∀ buf ∈ value, buf.length = size.toNat) (hv : Ended v) (boundary fieldname : CString)
    (seq cnt : Nat) : Scans True (fun _ => True) (loop boundary fieldname value size seq cnt v) := by
  induction hlen : v.length using Nat.strong_induction_on generalizing v cnt with
  | _ len ih =>
      subst hlen
      cases v with
      | nil => exact absurd hv ended_nil
      | cons c v =>
          by_cases hc : c = 0
          · rw [loop, if_pos hc]
            trivial
          · rw [loop_cons hc]
            refine (scans_part (n := v.length) boundary.2 fieldname.2 ⟨Nat.le_refl _, fun _ => hv⟩).bind fun p hp => ?_
            by_cases hfound : p.same ∧ cnt + 1 = seq
            · rw [if_pos hfound]
              exact scans_answer hsize
            · rw [if_neg hfound]
              exact ih _ (Nat.lt_succ_of_le hp.1) (hp.2 trivial) _ rfl

theorem getvalueMultipart_isSome (hsize : ∀ buf ∈ value, buf.length = size.toNat) (data : Octets) :
    (getvalueMultipart boundary data fieldname value size seq).isSome := by
  have hv : Ended (data ++ [0]) := List.getLast?_concat
  have hin := (scans_loop hsize hv boundary fieldname seq 0).inside trivial
  rw [getvalueMultipart]
  split <;> first | rfl | contradiction

section Search

theorem strncmp_eq (hs : 0 ∉ s) (hv : Ended v) : strncmp v s = .ok (decide (s <+: v)) := by
  induction s generalizing v with
  | nil => rw [strncmp_nil, decide_eq_true List.nil_prefix]
  | cons d s ih =>
      cases v with
      | nil => exact absurd hv ended_nil
      | cons c v =>
          have hd := List.ne_and_not_mem_of_not_mem_cons hs
          rw [strncmp]
          split_ifs with hc
          · subst hc
            rw [ih hd.2 ((ended_cons.mp hv).resolve_left fun h => hd.1 h.2.symm)]
            simp only [List.cons_prefix_cons, true_and]
          · rw [decide_eq_false fun h => hc (List.cons_prefix_cons.mp h).1.symm]

/-- The first place of the memory with the needle, zeros or not. -/
def firstSuffix (needle : Octets) : Octets → Option Octets
  | [] => none
  | c :: v => if needle <+: c :: v then some (c :: v) else firstSuffix needle v

theorem not_prefix_zero (hs : 0 ∉ s) (hne : s ≠ []) : ¬ s <+: 0 :: v := by
  intro h
  cases s with
  | nil => exact hne rfl
  | cons c s => exact hs (List.mem_cons.mpr (.inl (List.cons_prefix_cons.mp h).1.symm))

theorem firstSuffix_skipZeros (hs : 0 ∉ s) (hne : s ≠ []) : firstSuffix s (skipZeros v) = firstSuffix s v := by
  induction v with
  | nil => rfl
  | cons c v ih =>
      cases v with
      | nil => rfl
      | cons d v =>
          rw [skipZeros]
          split_ifs with hc
          · rw [ih, firstSuffix.eq_def s (c :: _)]
            exact (if_neg (hc ▸ not_prefix_zero hs hne)).symm
          · rfl

theorem strstr_cases (hs : 0 ∉ s) (hv : Ended v) :
    (∃ p, strstr s v = .ok (some p) ∧ firstSuffix s v = some p) ∨
      (strstr s v = .ok none ∧ ∃ w, skipString v = .ok w ∧ firstSuffix s w = firstSuffix s v ∧ Ended w) := by
  induction v with
  | nil => exact absurd hv ended_nil
  | cons c v ih =>
      rw [strstr, skipString, firstSuffix, strncmp_eq hs hv]
      by_cases hc : c = 0
      · rw [if_pos hc, if_pos hc]
        exact .inr ⟨rfl, _, rfl, rfl, hv⟩
      · rw [if_neg hc, if_neg hc]
        by_cases hp : s <+: c :: v
        · rw [if_pos hp, decide_eq_true hp]
          exact .inl ⟨_, rfl, rfl⟩
        · rw [if_neg hp, decide_eq_false hp]
          exact ih ((ended_cons.mp hv).resolve_left fun h => hc h.2)

theorem ended_skipZeros (hv : Ended v) : Ended (skipZeros v) :=
  (within_skipZeros (e := True) ⟨Nat.le_refl _, fun _ => hv⟩).2 trivial

theorem memstr_firstSuffix (hs : 0 ∉ s) (hne : s ≠ []) (hv : Ended v) : memstr s v = .ok (firstSuffix s v) := by
  induction hlen : v.length using Nat.strong_induction_on generalizing v with
  | _ len ih =>
      subst hlen
      by_cases hshort : v.length ≤ 1
      · rw [memstr, dif_pos hshort]
        cases v with
        | nil => rfl
        | cons c v =>
            obtain rfl := List.eq_nil_of_length_eq_zero (Nat.le_zero.mp (Nat.le_of_succ_le_succ hshort))
            obtain ⟨-, rfl⟩ := (ended_cons.mp hv).resolve_right ended_nil
            rw [firstSuffix, if_neg (not_prefix_zero hs hne)]
            rfl
      · have hlong := Nat.lt_of_not_le hshort
        rw [memstr_eq hlong]
        rcases strstr_cases hs hv with ⟨p, hp, hfirst⟩ | ⟨hp, w, hw, hfirst, hended⟩
        · rw [hp, hfirst]
          rfl
        · rw [hp, ← hfirst, ← firstSuffix_skipZeros hs hne]
          show skipString v >>= _ = _
          rw [hw]
          exact ih _ (length_skipZeros_lt hlong hw) (ended_skipZeros hended) rfl

theorem firstSuffix_append {pre post : Octets} (h : ∀ i < pre.length, ¬ s <+: (pre ++ post).drop i) (hp : s <+: post)
    (hne : post ≠ []) : firstSuffix s (pre ++ post) = some post := by
  induction pre with
  | nil =>
      cases post with
      | nil => exact absurd rfl hne
      | cons c post => exact if_pos hp
  | cons c pre ih =>
      have h0 : ¬ s <+: c :: (pre ++ post) := h 0 (Nat.succ_pos _)
      rw [List.cons_append, firstSuffix, if_neg h0]
      exact ih fun i hi => h (i + 1) (Nat.succ_lt_succ hi)

theorem skipBack_dashes {k m : Nat} (hstop : v[k + 1]? = some lf)
    (hdash : ∀ i, k + 2 ≤ i → i < k + 2 + m → v[i]? = some dash) : skipBack v (k + 2 + m) = .ok (k + 2) := by
  induction m with
  | zero =>
      rw [Nat.add_zero, skipBack, hstop]
      exact if_neg (by decide)
  | succ m ih =>
      have hlast := hdash (k + m + 2) (by omega) (by omega)
      have ih := ih fun i hi hm => hdash i hi (Nat.lt_succ_of_lt hm)
      rw [show k + 2 + (m + 1) = k + m + 1 + 2 by omega, skipBack, hlast]
      show ite _ _ _ = _
      rw [if_pos rfl, ← ih]
      congr 1
      omega

end Search

def crlf : Octets := [cr, lf]

structure Part (boundary : CString) where
  name : Octets
  /-- The rest of the first line. -/
  params : Octets
  headers : List Octets
  value : Octets
  dashes : Nat
  name_quote : quote ∉ name
  params_cr : cr ∉ params
  headers_cr : ∀ line ∈ headers, line ≠ [] ∧ cr ∉ line
  value_boundary : ¬ boundary.1 <:+: value

namespace Part

variable {boundary : CString}

def lines (p : Part boundary) : Octets := p.headers.flatMap (· ++ crlf)

def text (p : Part boundary) (rest : Octets) : Octets :=
  cr :: lf :: (disposition ++ (p.name ++ quote :: (p.params ++ (crlf ++ (p.lines ++ (crlf ++
    (p.value ++ (crlf ++ (List.replicate p.dashes dash ++ (boundary.1 ++ rest)))))))))) 

/-- No zero is where the scan takes one for the end of the data. -/
def Readable (p : Part boundary) : Prop :=
  0 ∉ p.name ∧ 0 ∉ p.params ∧ (∀ line ∈ p.headers, 0 ∉ line) ∧ p.value.head? ≠ some 0

instance (p : Part boundary) : Decidable p.Readable :=
  inferInstanceAs (Decidable (_ ∧ _ ∧ (∀ line ∈ p.headers, 0 ∉ line) ∧ _))

/-- The value, its line end and the dashes have the boundary nowhere in front of its place. -/
def Delimited (p : Part boundary) : Prop :=
  ∀ i < (p.value ++ (crlf ++ List.replicate p.dashes dash)).length,
    ¬ boundary.1 <+: (p.value ++ (crlf ++ List.replicate p.dashes dash) ++ boundary.1).drop i

end Part

section Layout

variable {rest text : Octets} {k : Nat}

theorem ok_bind {α β : Type} (a : α) (f : α → Scan β) : (Except.ok a >>= f) = f a := rfl

theorem refused_bind {α β : Type} (f : α → Scan β) : (Except.error .refused >>= f) = .error .refused := rfl

theorem expect_cons : expect c (c :: v) = .ok v := if_neg (not_not.mpr rfl)

theorem skipDashes_replicate (hne : v ≠ []) (hhead : v.head? ≠ some dash) :
    skipDashes (List.replicate k dash ++ v) = .ok v := by
  induction k with
  | zero =>
      cases v with
      | nil => exact absurd rfl hne
      | cons c v => exact if_neg fun hc => hhead (congrArg some hc)
  | succ k ih =>
      rw [List.replicate_succ, List.cons_append, skipDashes, if_pos rfl]
      exact ih

theorem strncmp_append : strncmp (s ++ v) s = .ok true := by
  induction s with
  | nil => exact strncmp_nil
  | cons c s ih =>
      rw [List.cons_append, strncmp, if_pos rfl]
      exact ih

theorem expectText_append : expectText s (s ++ v) = .ok v := by
  rw [expectText, strncmp_append]
  exact congrArg Except.ok List.drop_left

theorem sameName_append {fieldname name : Octets} :
    sameName fieldname name (name ++ rest) = .ok (decide (name = fieldname)) := by
  rw [sameName]
  split_ifs with hlen
  · induction name generalizing fieldname with
    | nil =>
        obtain rfl := List.eq_nil_of_length_eq_zero hlen
        exact strncmp_nil
    | cons c name ih =>
        cases fieldname with
        | nil => cases hlen
        | cons d fieldname =>
            rw [List.cons_append, strncmp]
            split_ifs with hc
            · rw [ih (Nat.succ.inj hlen), hc]
              simp only [List.cons.injEq, true_and]
            · rw [decide_eq_false fun h => hc (List.cons.inj h).1]
  · rw [decide_eq_false fun h => hlen (congrArg List.length h.symm)]

theorem skipTo_append (hstop : stop ∉ text) : skipTo stop (text ++ stop :: rest) =
    if 0 ∈ text then .error .refused else .ok (text, rest) := by
  induction text with
  | nil =>
      rw [List.nil_append, skipTo, if_pos rfl]
      rfl
  | cons c text ih =>
      have hc := List.ne_and_not_mem_of_not_mem_cons hstop
      rw [List.cons_append, skipTo, if_neg hc.1.symm, ih hc.2]
      by_cases h0 : c = 0
      · rw [if_pos h0, if_pos (List.mem_cons.mpr (.inl h0.symm))]
      · rw [if_neg h0]
        by_cases hmem : 0 ∈ text
        · rw [if_pos hmem, if_pos (List.mem_cons_of_mem c hmem)]
          rfl
        · rw [if_neg hmem, if_neg fun h => (List.mem_cons.mp h).elim (fun h => h0 h.symm) hmem]
          rfl

theorem restOfLine_append (htext : cr ∉ text) : restOfLine (text ++ (crlf ++ rest)) =
    if 0 ∈ text then .error .refused else nonZero rest := by
  show skipTo cr (text ++ cr :: lf :: rest) >>= _ = _
  rw [skipTo_append htext]
  split_ifs
  · rfl
  · show lineEnd (lf :: rest) = _
    rw [lineEnd, expect_cons]
    rfl

theorem nonZero_headerLines : nonZero v >>= headerLines = headerLines v := by
  cases v with
  | nil =>
      rw [headerLines]
      rfl
  | cons c v =>
      by_cases hc : c = 0
      · rw [headerLines_cons (hc ▸ by decide), nonZero, if_pos hc, hc]
        rfl
      · rw [nonZero, if_neg hc]
        rfl

theorem headerLines_append {headers : List Octets} (hlines : ∀ line ∈ headers, line ≠ [] ∧ cr ∉ line) :
    headerLines (headers.flatMap (· ++ crlf) ++ (crlf ++ rest)) =
      if ∀ line ∈ headers, 0 ∉ line then .ok (lf :: rest) else .error .refused := by
  induction headers with
  | nil =>
      show headerLines (cr :: lf :: rest) = _
      rw [headerLines, if_pos rfl]
      rfl
  | cons line headers ih =>
      obtain ⟨hline, hrest⟩ := List.forall_mem_cons.mp hlines
      obtain ⟨hne, hcr⟩ := hline
      cases line with
      | nil => exact absurd rfl hne
      | cons c line =>
          have hc := List.ne_and_not_mem_of_not_mem_cons hcr
          rw [List.flatMap_cons, List.append_assoc, List.append_assoc]
          rw [show (c :: line) ++ _ = c :: (line ++ _) from rfl, headerLines_cons hc.1.symm]
          rw [← List.cons_append, restOfLine_append hcr]
          by_cases h0 : 0 ∈ c :: line
          · rw [if_pos h0, if_neg fun h => h _ List.mem_cons_self h0]
            rfl
          · rw [if_neg h0, nonZero_headerLines, ih hrest]
            exact if_congr ⟨fun h => List.forall_mem_cons.mpr ⟨h0, h⟩, fun h => (List.forall_mem_cons.mp h).2⟩ rfl rfl

theorem linesEnd_append {α : Type} {params : Octets} {headers : List Octets} {f : Octets → Scan α} (hparams : cr ∉ params)
    (hlines : ∀ line ∈ headers, line ≠ [] ∧ cr ∉ line) :
    (restOfLine (params ++ (crlf ++ (headers.flatMap (· ++ crlf) ++ (crlf ++ rest)))) >>= fun v =>
      headerLines v >>= fun v => lineEnd v >>= f) =
      if 0 ∉ params ∧ ∀ line ∈ headers, 0 ∉ line then nonZero rest >>= f else .error .refused := by
  rw [restOfLine_append hparams]
  by_cases h0 : 0 ∈ params
  · rw [if_pos h0, if_neg fun h => h.1 h0]
    rfl
  · rw [if_neg h0, ← bind_assoc, nonZero_headerLines, headerLines_append hlines]
    by_cases hzero : ∀ line ∈ headers, 0 ∉ line
    · rw [if_pos hzero, if_pos ⟨h0, hzero⟩]
      show lineEnd (lf :: rest) >>= f = _
      rw [lineEnd, expect_cons]
      rfl
    · rw [if_neg hzero, if_neg fun h => hzero h.2]
      rfl

theorem nonZero_of_head {d : UInt8} (hd : v.head? = some d) : nonZero v = if d = 0 then .error .refused else .ok v := by
  cases v with
  | nil => cases hd
  | cons c v =>
      obtain rfl := Option.some.inj hd
      rfl

theorem head?_append_crlf : (text ++ (crlf ++ rest)).head? = some (text.headD cr) := by cases text <;> rfl

theorem nonZero_skipTo {α : Type} {f : Octets → Octets × Octets → Scan α} (h0 : stop ≠ 0) (hstop : stop ∉ text) :
    (nonZero (text ++ stop :: rest) >>= fun v => skipTo stop v >>= f v) =
      if 0 ∈ text then .error .refused else f (text ++ stop :: rest) (text, rest) := by
  have hok : ∀ x : Scan (Octets × Octets), x = skipTo stop (text ++ stop :: rest) →
      x >>= f (text ++ stop :: rest) = if 0 ∈ text then .error .refused else f (text ++ stop :: rest) (text, rest) := by
    rintro x rfl
    rw [skipTo_append hstop]
    split_ifs <;> rfl
  cases text with
  | nil =>
      rw [List.nil_append, nonZero, if_neg h0, ok_bind]
      exact hok _ rfl
  | cons c text =>
      rw [List.cons_append, nonZero]
      by_cases hc : c = 0
      · rw [if_pos hc, if_pos (List.mem_cons.mpr (.inl hc.symm)), refused_bind]
      · rw [if_neg hc, ok_bind]
        exact hok _ rfl

theorem headD_eq_zero : text.headD cr = 0 ↔ text.head? = some 0 := by
  cases text with
  | nil => exact iff_of_false (by decide) nofun
  | cons c text => exact (Option.some_inj).symm

theorem valueStart_text (p : Part boundary) (hne : boundary.1 ≠ []) (hdash : boundary.1.head? ≠ some dash)
    (name : Octets) : valueStart boundary.1 name (List.replicate k dash ++ (boundary.1 ++ p.text rest)) =
      if p.Readable then .ok (decide (p.name = name),
        p.value ++ (crlf ++ (List.replicate p.dashes dash ++ (boundary.1 ++ rest))))
      else .error .refused := by
  have hhead : (boundary.1 ++ p.text rest).head? ≠ some dash := by
    rw [List.head?_append_of_ne_nil _ hne]
    exact hdash
  rw [valueStart, skipDashes_replicate (List.append_ne_nil_of_left_ne_nil hne _) hhead, ok_bind, expectText_append,
    ok_bind, Part.text, expect_cons, ok_bind, expect_cons, ok_bind, expectText_append, ok_bind]
  rw [nonZero_skipTo (by decide) p.name_quote]
  by_cases hname : 0 ∈ p.name
  · rw [if_pos hname, if_neg fun h => h.1 hname]
  · rw [if_neg hname]
    dsimp only
    rw [sameName_append, ok_bind, Part.lines, linesEnd_append p.params_cr p.headers_cr]
    by_cases hlines : 0 ∉ p.params ∧ ∀ line ∈ p.headers, 0 ∉ line
    · rw [if_pos hlines, nonZero_of_head head?_append_crlf]
      by_cases hvalue : p.value.head? = some 0
      · rw [if_pos (headD_eq_zero.mpr hvalue), if_neg fun h => h.2.2.2 hvalue, refused_bind]
      · rw [if_neg fun h => hvalue (headD_eq_zero.mp h), if_pos ⟨hname, hlines.1, hlines.2, hvalue⟩, ok_bind]
    · rw [if_neg hlines, if_neg fun h => hlines ⟨h.2.1, h.2.2.1⟩]

theorem getElem?_delimiter {d : Octets} {m : Nat} : (d ++ (crlf ++ (List.replicate m dash ++ v)))[d.length]? = some cr ∧
    (d ++ (crlf ++ (List.replicate m dash ++ v)))[d.length + 1]? = some lf ∧
    ∀ i, d.length + 2 ≤ i → i < d.length + 2 + m →
      (d ++ (crlf ++ (List.replicate m dash ++ v)))[i]? = some dash := by
  refine ⟨?_, ?_, fun i hi hm => ?_⟩
  · rw [List.getElem?_append_right (Nat.le_refl _), Nat.sub_self]
    rfl
  · rw [List.getElem?_append_right (Nat.le_add_right _ 1), Nat.add_sub_cancel_left]
    rfl
  · obtain ⟨j, rfl⟩ := Nat.exists_eq_add_of_le hi
    have hj : j < m := by omega
    rw [List.getElem?_append_right (by omega), show d.length + 2 + j - d.length = 2 + j by omega,
      List.getElem?_append_right (Nat.le_add_right 2 j), show 2 + j - crlf.length = j from Nat.add_sub_cancel_left 2 j]
    rw [List.getElem?_append_left (by rwa [List.length_replicate]), List.getElem?_replicate, if_pos hj]

theorem ended_append (hv : Ended v) : Ended (s ++ v) := by
  induction s with
  | nil => exact hv
  | cons c s ih => exact ended_cons.mpr (.inr ih)

theorem Part.Delimited.firstSuffix {p : Part boundary} (hp : p.Delimited) (hne : boundary.1 ≠ []) :
    firstSuffix boundary.1 (p.value ++ (crlf ++ List.replicate p.dashes dash) ++ (boundary.1 ++ rest)) =
      some (boundary.1 ++ rest) := by
  apply firstSuffix_append _ (List.prefix_append _ _) (List.append_ne_nil_of_left_ne_nil hne _)
  intro i hi hstart
  apply hp i hi
  rw [← List.append_assoc _ boundary.1, List.drop_append_of_le_length (by rw [List.length_append]; omega)] at hstart
  apply List.prefix_of_prefix_length_le hstart (List.prefix_append _ _)
  rw [List.length_drop, List.length_append]
  omega

theorem valueEnd_text (p : Part boundary) (hne : boundary.1 ≠ []) (hp : p.Delimited) (hrest : Ended rest) :
    valueEnd boundary.1 (p.value ++ (crlf ++ (List.replicate p.dashes dash ++ (boundary.1 ++ rest)))) =
      .ok (p.value, boundary.1 ++ rest) := by
  have hv : p.value ++ (crlf ++ (List.replicate p.dashes dash ++ (boundary.1 ++ rest))) =
      p.value ++ (crlf ++ List.replicate p.dashes dash) ++ (boundary.1 ++ rest) := by
    rw [List.append_assoc, List.append_assoc]
  obtain ⟨hcr, hlf, hdash⟩ := getElem?_delimiter (v := boundary.1 ++ rest) (d := p.value) (m := p.dashes)
  have hlength : (p.value ++ (crlf ++ (List.replicate p.dashes dash ++ (boundary.1 ++ rest)))).length -
      (boundary.1 ++ rest).length = p.value.length + 2 + p.dashes := by
    rw [hv, List.length_append, Nat.add_sub_cancel, List.length_append, List.length_append, List.length_replicate]
    exact (Nat.add_assoc _ _ _).symm
  have hended := ended_append (s := p.value ++ (crlf ++ List.replicate p.dashes dash)) (ended_append (s := boundary.1) hrest)
  have hmem := memstr_firstSuffix boundary.2 hne hended
  rw [hp.firstSuffix hne, ← hv] at hmem
  rw [valueEnd, hmem, ok_bind]
  dsimp only
  rw [hlength, skipBack_dashes hlf hdash, ok_bind, valueLength, hlf, hcr]
  show Except.ok (List.take _ _, _) = _
  rw [List.take_left]

theorem part_text (p : Part boundary) (hne : boundary.1 ≠ []) (hdash : boundary.1.head? ≠ some dash) (hp : p.Delimited)
    (hrest : Ended rest) (name : Octets) :
    part boundary.1 name (List.replicate k dash ++ (boundary.1 ++ p.text rest)) =
      if p.Readable then .ok ⟨decide (p.name = name), p.value, boundary.1 ++ rest⟩ else .error .refused := by
  rw [part, valueStart_text p hne hdash]
  split_ifs
  · rw [ok_bind]
    dsimp only
    rw [valueEnd_text p hne hp hrest]
    rfl
  · rfl

theorem expectText_refused (hs : 0 ∉ s) (hv : Ended v) (h : ¬ s <+: v) : expectText s v = .error .refused := by
  rw [expectText, strncmp_eq hs hv, decide_eq_false h]
  rfl

theorem prefix_of_terminated (hs : 0 ∉ s) (h : s <+: v ++ [0]) : s <+: v := by
  rcases List.prefix_concat_iff.mp h with h | h
  · exact absurd (h ▸ List.mem_append_right v List.mem_cons_self) hs
  · exact h

theorem expectLine_refused {α : Type} {f : Octets → Scan α} (h : ¬ cr :: lf :: disposition <+: rest) :
    (expect cr (rest ++ [0]) >>= fun v => expect lf v >>= fun v => expectText disposition v >>= f) =
      .error .refused := by
  cases rest with
  | nil => rfl
  | cons c rest =>
      by_cases hc : c = cr
      · subst hc
        rw [List.cons_append, expect_cons, ok_bind]
        cases rest with
        | nil => rfl
        | cons d rest =>
            by_cases hd : d = lf
            · subst hd
              rw [List.cons_append, expect_cons, ok_bind, expectText_refused (by decide) List.getLast?_concat]
              · rfl
              · intro hstart
                have htext := prefix_of_terminated (by decide) hstart
                exact h (List.cons_prefix_cons.mpr ⟨rfl, List.cons_prefix_cons.mpr ⟨rfl, htext⟩⟩)
            · exact congrArg (· >>= fun v => expectText disposition v >>= f) (if_pos hd)
      · exact congrArg (· >>= fun v => expect lf v >>= fun v => expectText disposition v >>= f) (if_pos hc)

theorem part_close (hne : boundary.1 ≠ []) (hdash : boundary.1.head? ≠ some dash)
    (hclose : ¬ cr :: lf :: disposition <+: rest) (name : Octets) :
    part boundary.1 name (List.replicate k dash ++ (boundary.1 ++ (rest ++ [0]))) = .error .refused := by
  have hhead : (boundary.1 ++ (rest ++ [0])).head? ≠ some dash := by
    rw [List.head?_append_of_ne_nil _ hne]
    exact hdash
  rw [part, valueStart, skipDashes_replicate (List.append_ne_nil_of_left_ne_nil hne _) hhead, ok_bind,
    expectText_append, ok_bind, expectLine_refused hclose]
  rfl

end Layout

def multipartFormData : Octets :=
  ['m', 'u', 'l', 't', 'i', 'p', 'a', 'r', 't', '/', 'f', 'o', 'r', 'm', '-', 'd', 'a', 't', 'a', ';'].map Char.toUInt8

def boundaryKey : Octets := ['b', 'o', 'u', 'n', 'd', 'a', 'r', 'y', '='].map Char.toUInt8

/-- The boundary that `parse_content_type` takes from the content type; none when it is not supported. -/
def parseContentType (str : Octets) : Option Octets :=
  if multipartFormData <+: str then
    match firstSuffix boundaryKey str with
    | none => none
    | some ptr =>
        if firstSuffix boundaryKey ptr.tail ≠ none ∨ ptr.drop 9 = [] then none
        else
          let ptr := (ptr.drop 9).dropWhile (· = dash)
          if ptr = [] then none else some ptr
  else none

structure Boundary where
  text : CString
  not_nil : text.1 ≠ []
  no_dash : text.1.head? ≠ some dash

theorem firstSuffix_suffix {needle p : Octets} (h : firstSuffix needle v = some p) : p <:+ v := by
  induction v with
  | nil => cases h
  | cons c v ih =>
      rw [firstSuffix] at h
      split_ifs at h
      · obtain rfl := Option.some.inj h
        exact List.suffix_rfl
      · exact (ih h).trans (List.suffix_cons c v)

theorem parseContentType_boundary (str : CString) {b : Octets} (h : parseContentType str.1 = some b) :
    ∃ boundary : Boundary, boundary.text.1 = b := by
  rw [parseContentType] at h
  split_ifs at h
  cases hptr : firstSuffix boundaryKey str.1 with
  | none =>
      rw [hptr] at h
      cases h
  | some ptr =>
      rw [hptr] at h
      dsimp only at h
      split_ifs at h with hbad hnil
      obtain rfl := Option.some.inj h
      have hsuffix := ((List.dropWhile_suffix (· = dash)).trans (List.drop_suffix 9 ptr)).trans (firstSuffix_suffix hptr)
      refine ⟨⟨⟨_, fun h0 => str.2 (hsuffix.subset h0)⟩, hnil, fun hhead => ?_⟩, rfl⟩
      have hdash := List.head?_dropWhile_not (fun c => decide (c = dash)) (ptr.drop 9)
      rw [hhead] at hdash
      exact absurd hdash (by decide)

structure Body (boundary : Boundary) where
  dashes : Nat
  parts : List (Part boundary.text)
  close : Octets
  close_part : ¬ cr :: lf :: disposition <+: close

def Body.octets {boundary : Boundary} (body : Body boundary) : Octets :=
  List.replicate body.dashes dash ++ (boundary.text.1 ++ body.parts.foldr Part.text body.close)

section Body

variable {boundary : Boundary} {name : CString} {parts : List (Part boundary.text)} {k : Nat} {close : Octets}

def fieldValue (parts : List (Part boundary.text)) (name : Octets) (seq : Nat) : Option Octets :=
  ((parts.filter (·.name = name)).map Part.value)[seq - 1]?

def upTo (name : Octets) : Nat → List (Part boundary.text) → List (Part boundary.text)
  | _, [] => []
  | seq, p :: parts =>
      if p.name = name ∧ seq = 1 then [p] else p :: upTo name (if p.name = name then seq - 1 else seq) parts

theorem fieldValue_cons (p : Part boundary.text) (parts : List (Part boundary.text)) (name : Octets) (hseq : 1 ≤ seq) :
    fieldValue (p :: parts) name seq = if p.name = name ∧ seq = 1 then some p.value
      else fieldValue parts name (if p.name = name then seq - 1 else seq) := by
  rw [fieldValue, fieldValue, List.filter_cons]
  by_cases hname : p.name = name
  · rw [if_pos (decide_eq_true hname), List.map_cons, if_pos hname]
    by_cases hone : seq = 1
    · rw [if_pos ⟨hname, hone⟩, hone]
      rfl
    · rw [if_neg fun h => hone h.2]
      obtain ⟨m, rfl⟩ := Nat.exists_eq_add_of_le' (show 2 ≤ seq by omega)
      rfl
  · rw [if_neg fun h => hname (of_decide_eq_true h), if_neg fun h => hname h.1, if_neg hname]

theorem loop_eq {v : Octets} {c : UInt8} (hhead : v.head? = some c) (hc : c ≠ 0) :
    loop boundary.text name value size seq cnt v = part boundary.text name v >>= fun p =>
      if p.same ∧ cnt + 1 = seq then answer value size p.value
      else loop boundary.text name value size seq (if p.same then cnt + 1 else cnt) p.next := by
  cases v with
  | nil => cases hhead
  | cons d v => exact loop_cons (Option.some.inj hhead ▸ hc)

theorem head_boundary (boundary : Boundary) (k : Nat) (v : Octets) :
    ∃ c ≠ 0, (List.replicate k dash ++ (boundary.text.1 ++ v)).head? = some c := by
  cases k with
  | zero =>
      obtain ⟨c, s, hs⟩ := List.exists_cons_of_ne_nil boundary.not_nil
      refine ⟨c, ?_, by rw [hs]; rfl⟩
      rintro rfl
      exact boundary.text.2 (hs ▸ List.mem_cons_self)
  | succ k => exact ⟨dash, by decide, rfl⟩

theorem ended_foldr : Ended (parts.foldr Part.text (close ++ [0])) := by
  induction parts with
  | nil => exact List.getLast?_concat
  | cons p parts ih =>
      have hv := ended_append (s := p.lines) (ended_append (s := crlf) (ended_append (s := p.value) (ended_append (s := crlf)
        (ended_append (s := List.replicate p.dashes dash) (ended_append (s := boundary.text.1) ih)))))
      have hname := ended_append (s := disposition) (ended_append (s := p.name) (ended_append (s := [quote])
        (ended_append (s := p.params) (ended_append (s := crlf) hv))))
      exact ended_append (s := crlf) hname

theorem upTo_cons (p : Part boundary.text) (parts : List (Part boundary.text)) (name : Octets) (seq : Nat) :
    upTo name seq (p :: parts) = if p.name = name ∧ seq = 1 then [p]
      else p :: upTo name (if p.name = name then seq - 1 else seq) parts := rfl

theorem mem_upTo_cons {p : Part boundary.text} {name : Octets} {seq : Nat} : p ∈ upTo name seq (p :: parts) := by
  rw [upTo_cons]
  split_ifs <;> exact List.mem_cons_self

theorem loop_parts (hclose : ¬ cr :: lf :: disposition <+: close) (hseq : cnt < seq)
    (hp : ∀ p ∈ upTo name.1 (seq - cnt) parts, p.Delimited) :
    loop boundary.text name value size seq cnt
        (List.replicate k dash ++ (boundary.text.1 ++ parts.foldr Part.text (close ++ [0]))) =
      if ∀ p ∈ upTo name.1 (seq - cnt) parts, p.Readable then
        match fieldValue parts name.1 (seq - cnt) with
        | some d => answer value size d
        | none => .error .refused
      else .error .refused := by
  induction parts generalizing k cnt with
  | nil =>
      obtain ⟨c, hc, hhead⟩ := head_boundary boundary k (close ++ [0])
      rw [List.foldr_nil, loop_eq hhead hc, part_close boundary.not_nil boundary.no_dash hclose, refused_bind]
      split_ifs <;> rfl
  | cons p parts ih =>
      obtain ⟨c, hc, hhead⟩ := head_boundary boundary k ((p :: parts).foldr Part.text (close ++ [0]))
      rw [loop_eq hhead hc, List.foldr_cons, part_text p boundary.not_nil boundary.no_dash (hp p mem_upTo_cons) ended_foldr]
      by_cases hread : p.Readable
      · rw [if_pos hread, ok_bind, fieldValue_cons p parts _ (Nat.sub_pos_of_lt hseq)]
        dsimp only
        by_cases hfound : p.name = name.1 ∧ cnt + 1 = seq
        · have hone : seq - cnt = 1 := by omega
          have hall : ∀ q ∈ upTo name.1 (seq - cnt) (p :: parts), q.Readable := by
            intro q hq
            rw [upTo_cons, if_pos ⟨hfound.1, hone⟩, List.mem_singleton] at hq
            exact hq ▸ hread
          rw [if_pos ⟨decide_eq_true hfound.1, hfound.2⟩, if_pos hall, if_pos ⟨hfound.1, hone⟩]
        · have hmore : ¬ (p.name = name.1 ∧ seq - cnt = 1) := fun h => hfound ⟨h.1, by omega⟩
          have hcnt : seq - (if decide (p.name = name.1) then cnt + 1 else cnt) =
              if p.name = name.1 then seq - cnt - 1 else seq - cnt := by
            by_cases hname : p.name = name.1
            · rw [if_pos (decide_eq_true hname), if_pos hname, Nat.sub_sub]
            · rw [if_neg fun h => hname (of_decide_eq_true h), if_neg hname]
          have hlt : (if decide (p.name = name.1) then cnt + 1 else cnt) < seq := by
            by_cases hname : p.name = name.1
            · rw [if_pos (decide_eq_true hname)]
              exact Nat.lt_of_le_of_ne hseq fun h => hfound ⟨hname, h⟩
            · rwa [if_neg fun h => hname (of_decide_eq_true h)]
          rw [upTo_cons, if_neg hmore] at hp
          have ih := ih (k := 0) hlt (by rw [hcnt]; exact fun q hq => hp q (List.mem_cons_of_mem p hq))
          rw [if_neg fun h => hfound ⟨of_decide_eq_true h.1, h.2⟩, if_neg hmore]
          rw [hcnt] at ih
          refine ih.trans (if_congr ?_ rfl rfl)
          rw [upTo_cons, if_neg hmore, List.forall_mem_cons]
          exact (and_iff_right hread).symm
      · rw [if_neg hread, refused_bind, if_neg fun h => hread (h p mem_upTo_cons)]

theorem text_append (p : Part boundary.text) (rest s : Octets) : p.text rest ++ s = p.text (rest ++ s) := by
  simp only [Part.text, List.cons_append, List.append_assoc]

theorem Body.octets_terminated (body : Body boundary) : body.octets ++ [0] = List.replicate body.dashes dash ++
    (boundary.text.1 ++ body.parts.foldr Part.text (body.close ++ [0])) := by
  have hparts : ∀ parts : List (Part boundary.text),
      parts.foldr Part.text body.close ++ [0] = parts.foldr Part.text (body.close ++ [0]) := by
    intro parts
    induction parts with
    | nil => rfl
    | cons p parts ih => rw [List.foldr_cons, List.foldr_cons, text_append, ih]
  rw [Body.octets, List.append_assoc, List.append_assoc, hparts]

/-- A value has room with its terminator, which is not written; an empty one needs none. -/
def Fits (value : Option Octets) (size : Int) (d : Octets) : Prop :=
  d = [] ∨ value = none ∨ (d.length : Int) < size

instance (value : Option Octets) (size : Int) (d : Octets) : Decidable (Fits value size d) :=
  inferInstanceAs (Decidable (_ ∨ _ ∨ _))

/-- What a call is to return, with the octets of the value in the buffer, or printed when there is none. -/
def expected (value : Option Octets) (size : Int) : Option Octets → Result
  | none => ⟨-1, value, []⟩
  | some d =>
      if Fits value size d then
        ⟨d.length, value.map fun buf => d ++ buf.drop d.length, if value = none then d else []⟩
      else ⟨-1, value, []⟩

def Meets (body : Body boundary) (name : CString) (value : Option Octets) (size : Int) (seq : Nat) : Prop :=
  getvalueMultipart boundary.text body.octets name value size seq =
    some (expected value size (fieldValue body.parts name.1 seq))

theorem answer_eq {d : Octets} (hsize : ∀ buf ∈ value, buf.length = size.toNat) : answer value size d =
    if Fits value size d then .ok (expected value size (some d)) else .error .refused := by
  cases d with
  | nil =>
      rw [if_pos (.inl rfl), expected, if_pos (.inl rfl), ite_self]
      cases value <;> rfl
  | cons c d =>
      cases value with
      | none =>
          rw [if_pos (.inr (.inl rfl)), expected, if_pos (.inr (.inl rfl))]
          rfl
      | some buf =>
          have hbuf := hsize buf rfl
          rw [answer, if_neg (show (c :: d).length ≠ 0 from Nat.succ_ne_zero _)]
          by_cases hfits : ((c :: d).length : Int) < size
          · rw [if_neg (Int.not_le.mpr hfits), if_neg (by omega), if_pos (.inr (.inr hfits)), expected,
              if_pos (.inr (.inr hfits))]
            rfl
          · rw [if_pos (Int.not_lt.mp hfits), if_neg]
            rintro (h | h | h)
            · cases h
            · cases h
            · exact hfits h

/-- The boundary has no line end that the one in front of it could be taken for. -/
def OneLine (boundary : Boundary) : Prop := cr ∉ boundary.text.1 ∧ boundary.text.1.head? ≠ some lf

theorem cr_mem_of_starts {b d v : Octets} (hb : ¬ b <:+: d) (h : b <+: d ++ cr :: v) : cr ∈ b := by
  have hd : d ++ [cr] <+: d ++ cr :: v := ⟨v, by rw [List.append_assoc]; rfl⟩
  by_cases hlen : b.length ≤ d.length
  · exact absurd (List.prefix_of_prefix_length_le h (List.prefix_append _ _) hlen).isInfix hb
  · have hcr := List.prefix_of_prefix_length_le hd h (by rw [List.length_append, List.length_singleton]; omega)
    exact hcr.subset (List.mem_append_right d List.mem_cons_self)

theorem head?_of_starts {b v : Octets} (hb : b ≠ []) (h : b <+: c :: v) : b.head? = some c := by
  cases b with
  | nil => exact absurd rfl hb
  | cons d b => exact congrArg some (List.cons_prefix_cons.mp h).1

theorem OneLine.delimited (h : OneLine boundary) (p : Part boundary.text) : p.Delimited := by
  intro i hi hstart
  have hlen : (p.value ++ (crlf ++ List.replicate p.dashes dash)).length = p.value.length + (2 + p.dashes) := by
    rw [List.length_append, List.length_append, List.length_replicate]
    rfl
  rw [hlen] at hi
  rw [List.append_assoc] at hstart
  by_cases hvalue : i ≤ p.value.length
  · rw [List.drop_append_of_le_length hvalue] at hstart
    refine h.1 (cr_mem_of_starts (fun hin => ?_) hstart)
    exact p.value_boundary (hin.trans (List.drop_suffix i p.value).isInfix)
  · obtain ⟨j, rfl⟩ := Nat.exists_eq_add_of_lt (Nat.lt_of_not_le hvalue)
    rw [show p.value.length + j + 1 = p.value.length + (j + 1) from rfl, List.drop_length_add_append] at hstart
    cases j with
    | zero => exact h.2 (head?_of_starts boundary.not_nil hstart)
    | succ j =>
        obtain ⟨m, hm⟩ := Nat.exists_eq_add_of_lt (show j < p.dashes by omega)
        have hdrop : ((crlf ++ List.replicate p.dashes dash) ++ boundary.text.1).drop (j + 1 + 1) =
            dash :: (List.replicate m dash ++ boundary.text.1) := by
          show (List.replicate p.dashes dash ++ boundary.text.1).drop j = _
          rw [hm, Nat.add_assoc, List.replicate_add, List.append_assoc, List.drop_left' List.length_replicate]
          rfl
        rw [hdrop] at hstart
        exact boundary.no_dash (head?_of_starts boundary.not_nil hstart)

theorem getvalueMultipart_eq {body : Body boundary} (hseq : 1 ≤ seq) (hsize : ∀ buf ∈ value, buf.length = size.toNat)
    (hp : ∀ p ∈ upTo name.1 seq body.parts, p.Delimited) :
    getvalueMultipart boundary.text body.octets name value size seq =
      some (if ∀ p ∈ upTo name.1 seq body.parts, p.Readable then expected value size (fieldValue body.parts name.1 seq)
        else ⟨-1, value, []⟩) := by
  rw [getvalueMultipart, Body.octets_terminated, loop_parts body.close_part hseq hp]
  rw [show seq - 0 = seq from rfl]
  split_ifs
  · cases fieldValue body.parts name.1 seq with
    | none => rfl
    | some d =>
        dsimp only
        rw [answer_eq hsize, expected]
        split_ifs <;> rfl
  · rfl

/-- A call stays inside of its buffers for any data. For a body of parts, it does what it is to do unless the value fits
and a zero stands in a part up to it where the scan takes it for the end of the data. -/
theorem multipart_iff (boundary : Boundary) (name : CString) (value : Option Octets) (size : Int) (seq : Nat)
    (hseq : 1 ≤ seq) (hsize : ∀ buf ∈ value, buf.length = size.toNat) :
    (∀ data, (getvalueMultipart boundary.text data name value size seq).isSome) ∧
      (OneLine boundary → ∀ p : Part boundary.text, p.Delimited) ∧
      ∀ body : Body boundary, (∀ p ∈ upTo name.1 seq body.parts, p.Delimited) →
        (Meets body name value size seq ↔ ((∃ d ∈ fieldValue body.parts name.1 seq, Fits value size d) →
          ∀ p ∈ upTo name.1 seq body.parts, p.Readable)) := by
  refine ⟨getvalueMultipart_isSome hsize, OneLine.delimited, fun body hp => ?_⟩
  rw [Meets, getvalueMultipart_eq hseq hsize hp, Option.some_inj]
  by_cases hread : ∀ p ∈ upTo name.1 seq body.parts, p.Readable
  · rw [if_pos hread]
    exact iff_of_true rfl fun _ => hread
  · rw [if_neg hread, imp_iff_not hread]
    cases fieldValue body.parts name.1 seq with
    | none => exact iff_of_true rfl nofun
    | some d =>
        rw [expected]
        by_cases hfits : Fits value size d
        · rw [if_pos hfits]
          refine iff_of_false (fun h => ?_) fun h => h ⟨d, rfl, hfits⟩
          exact absurd (congrArg Result.ret h) (by dsimp only; omega)
        · rw [if_neg hfits]
          refine iff_of_true rfl ?_
          rintro ⟨d', hd', hfits'⟩
          exact hfits (Option.some.inj hd' ▸ hfits')

end Body

def shortBoundary : Boundary := ⟨⟨['x'.toUInt8], by decide⟩, nofun, by decide⟩

def onePart (value : Octets) (h : ¬ shortBoundary.text.1 <:+: value) : Part shortBoundary.text :=
  ⟨['a'.toUInt8], [], [], value, 2, by decide, nofun, nofun, h⟩

def oneBody (p : Part shortBoundary.text) : Body shortBoundary := ⟨2, [p], [dash, dash], by decide⟩

def fieldA : CString := ⟨['a'.toUInt8], by decide⟩

theorem oneLine_short : OneLine shortBoundary := ⟨by decide, by decide⟩

theorem multipart_innerZero :
    Meets (oneBody (onePart [dash, 0] (by decide))) fieldA (some [1, 2, 3]) 3 1 := by
  have hsize : ∀ buf ∈ some [(1 : UInt8), 2, 3], buf.length = (3 : Int).toNat := fun buf hbuf => Option.some.inj hbuf ▸ rfl
  have hall := multipart_iff shortBoundary fieldA (some [1, 2, 3]) 3 1 (Nat.le_refl 1) hsize
  apply (hall.2.2 _ fun p _ => oneLine_short.delimited p).mpr
  intro _ p hp
  obtain rfl := List.mem_singleton.mp hp
  decide

/-- A zero at the start of a value is taken for the end of the data. -/
theorem leadingZero_lost : ¬ ∀ (boundary : Boundary) (name : CString) (value : Option Octets) (size : Int) (seq : Nat),
    1 ≤ seq → (∀ buf ∈ value, buf.length = size.toNat) → OneLine boundary →
      ∀ body : Body boundary, Meets body name value size seq := by
  intro h
  have hsize : ∀ buf ∈ some [(1 : UInt8), 2, 3], buf.length = (3 : Int).toNat := fun buf hbuf => Option.some.inj hbuf ▸ rfl
  have hmeets := h shortBoundary fieldA (some [1, 2, 3]) 3 1 (Nat.le_refl 1) hsize oneLine_short
    (oneBody (onePart [0] (by decide)))
  rw [Meets, getvalueMultipart_eq (Nat.le_refl 1) hsize fun p _ => oneLine_short.delimited p] at hmeets
  have hunreadable : ¬ ∀ p ∈ upTo fieldA.1 1 (oneBody (onePart [0] (by decide))).parts, p.Readable := by
    intro hread
    exact absurd (hread _ List.mem_cons_self) (by decide)
  rw [if_neg hunreadable] at hmeets
  exact absurd (Option.some.inj hmeets) (by decide)

end OiAmc.CgiMultipart

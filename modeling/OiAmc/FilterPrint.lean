import OiAmc.ByteOrder
import OiAmc.Filter
import OiAmc.Numerals
import OiAmc.PartialLists

namespace OiAmc.FilterPrint

open ByteBuffer ByteOrder PartialLists OiAmc.Filter

variable {host : Endian} {n : Nat} {f : Fields} {text bs : List UInt8}

def octets (s : List Char) : List UInt8 := s.map fun c => UInt8.ofNat c.toNat

def str (s : String) : List UInt8 := octets s.toList

/-- A table of names ends in NULL. -/
def operString : List (Option (List UInt8)) :=
  (["---INVALID---", "==", "!=", "<", "<=", ">", ">=", "STRCMP", "STRNCMP", "OCTCMP", "OCTNCMP"].map fun s =>
    some (str s)) ++ [none]

def typeString : List (Option (List UInt8)) :=
  (["---INVALID---", "IMEI", "IMSI", "TMSI", "DLCI", "BVCI", "SRC_IP_ADDR", "DST_IP_ADDR", "CDR_TYPE",
    "CDR_RESULT", "OPC", "DPC", "OPP_NO", "SRC_LAC", "SRC_CI", "DST_LAC", "DST_CI", "TS", "CDRID", "DEVICE",
    "CHANNEL", "OGT", "DGT", "OPCODE", "SVRID", "SMS_CENTER", "MTP_SIO"].map fun s => some (str s)) ++ [none]

def sizeofPointer : Nat := 8

/-- The check is against the size of the table in octets, and past its end nothing is read. -/
def getString (table : List (Option (List UInt8))) (i : Nat) : Option (Option (List UInt8)) :=
  if sizeofPointer * table.length < i then some none else table[i]?

def filterGetOper (op : UInt8) : Option (Option (List UInt8)) := getString operString op.toNat

def filterGetType (type : UInt16) : Option (Option (List UInt8)) := getString typeString type.toNat

/-- Text for an array of size cap, that has to take the octet behind it too. -/
def sprintf (cap : Nat) (text : List UInt8) : Option (List UInt8) :=
  if text.length < cap then some text else none

/-- A name that is NULL is not printed. -/
def sprintfTmp (f : Fields) (value : List UInt8) : Option (List UInt8) := do
  let type ← (filterGetType f.optionType).join
  let oper ← (filterGetOper f.op).join
  sprintf 128 (type ++ [0x20] ++ oper ++ [0x20] ++ value)

def hex (a : UInt8) : List UInt8 := octets (Nat.toDigits 16 a.toNat)

def soctOf (f : Fields) : Option (List UInt8) :=
  (List.range f.valueLen.toNat).foldlM (fun soct i => f.value[i]?.bind fun a => sprintf 64 (soct ++ hex a)) []

def widthOf (valueType : UInt8) : Option Nat :=
  if valueType = DataType.byte1 then some 1
  else if valueType = DataType.byte2 then some 2
  else if valueType = DataType.byte4 then some 4
  else if valueType = DataType.byte8 then some 8
  else none

def numberOf (host : Endian) (value : List UInt8) (n : Nat) : Option Nat :=
  if value.length < n then none
  else some <| match host with
    | .little => Nat.ofDigits 256 ((value.take n).map UInt8.toNat)
    | .big => Nat.ofDigits 256 ((value.take n).reverse.map UInt8.toNat)

def tmpOf (host : Endian) (f : Fields) : Option (Option (List UInt8)) :=
  if f.valueType = DataType.charString then do
    let n ← strlen f.value
    return some (← sprintfTmp f (f.value.take n))
  else if f.valueType = DataType.octetString then do
    let soct ← soctOf f
    return some (← sprintfTmp f soct)
  else
    match widthOf f.valueType with
    | none => some none
    | some n => do
        let value ← numberOf host f.value n
        return some (← sprintfTmp f (octets (Numerals.decimal value)))

structure Out where
  buf : Nat → UInt8
  len : Nat
  size : Int

/-- The buffer of size cap is written from p on. A write past its end has no outcome. -/
def filterSingleLogic (host : Endian) (cap : Nat) (f : Fields) (p : Nat) (s : Out) : Option Out :=
  if s.size < 30 then some s
  else do
    let buf ← put cap s.buf p [0x28]
    match ← tmpOf host f with
    | none => return { s with buf := buf }
    | some tmp =>
        let slot := 1 + tmp.length
        let buf ← if (slot : Int) ≤ s.size then put cap buf (p + 1) tmp else some buf
        if (slot : Int) + 1 ≤ s.size then
          let buf ← put cap buf (p + slot) [0x29]
          return ⟨buf, slot + 1, s.size - (slot + 1)⟩
        else return ⟨buf, slot, s.size - slot⟩

/-- Both children are printed when there is a left one. -/
def filterComposeLogic (cap : Nat) (op : UInt8) (lchild : Bool) (left right : Nat → Out → Option Out)
    (p : Nat) (s : Out) : Option Out := do
  let buf ← put cap s.buf p [0x28]
  let s ← if lchild then left (p + 1) { s with buf := buf } else some { s with buf := buf }
  let slot := 1 + s.len
  let buf ← put cap s.buf (p + slot) [0x20, op, op, 0x20]
  let slot := slot + 4
  let s ← if lchild then right (p + slot) { s with buf := buf } else some { s with buf := buf }
  let slot := slot + s.len
  let buf ← put cap s.buf (p + slot) [0x29]
  return { s with buf := buf, len := slot + 1 }

def filterOrLogic (cap : Nat) := filterComposeLogic cap 0x7c

def filterAndLogic (cap : Nat) := filterComposeLogic cap 0x26

def nonLen (f : Fields) : Nat := if f.non = 1 then 1 else 0

def filterTraversalLogic (host : Endian) (cap : Nat) : SFilter → Nat → Out → Option Out
  | .null, _, s => some s
  | .node f lchild rchild, p, s => do
      let buf ← if f.non = 1 then put cap s.buf p [0x21] else some s.buf
      let i := nonLen f
      let s := { s with buf := buf }
      let s ←
        if f.type = FilterType.single then filterSingleLogic host cap f (p + i) s
        else if f.type = FilterType.compositeOr then
          filterOrLogic cap (lchild ≠ .null) (fun p s => filterTraversalLogic host cap lchild p s)
            (fun p s => filterTraversalLogic host cap rchild p s) (p + i) s
        else if f.type = FilterType.compositeAnd then
          filterAndLogic cap (lchild ≠ .null) (fun p s => filterTraversalLogic host cap lchild p s)
            (fun p s => filterTraversalLogic host cap rchild p s) (p + i) s
        else some s
      return { s with len := s.len + i, size := s.size - i }

def filterGetExpression (host : Endian) (filter : SFilter) (buf : Nat → UInt8) (size : Nat) :
    Option (Nat → UInt8) := do
  let s ← filterTraversalLogic host size filter 0 ⟨buf, 0, size⟩
  put size s.buf s.len [0]

def valueText (host : Endian) (f : Fields) : Option (List UInt8) :=
  if f.valueType = DataType.charString then (strlen f.value).map f.value.take
  else if f.valueType = DataType.octetString then
    if f.value.length < f.valueLen.toNat then none else some ((f.value.take f.valueLen.toNat).flatMap hex)
  else (widthOf f.valueType).bind fun n => (numberOf host f.value n).map fun v => octets (Numerals.decimal v)

def simpleText (host : Endian) (f : Fields) : Option (List UInt8) := do
  let type ← typeString[f.optionType.toNat]?.join
  let oper ← operString[f.op.toNat]?.join
  let value ← valueText host f
  return type ++ [0x20] ++ oper ++ [0x20] ++ value

def nonText (f : Fields) : List UInt8 := if f.non = 1 then [0x21] else []

/-- The full textual expression of a filter. There is none where a code has no name or a value
is not all there. -/
def fullText (host : Endian) : SFilter → Option (List UInt8)
  | .null => some []
  | .node f lchild rchild =>
      if f.type = FilterType.single then do
        let text ← simpleText host f
        return nonText f ++ [0x28] ++ text ++ [0x29]
      else do
        let op := if f.type = FilterType.compositeOr then 0x7c else 0x26
        let left ← fullText host lchild
        let right ← fullText host rchild
        return nonText f ++ [0x28] ++ left ++ [0x20, op, op, 0x20] ++ right ++ [0x29]

theorem getString_join (table : List (Option (List UInt8))) (i : Nat) :
    (getString table i).join = table[i]?.join := by
  rw [getString]
  split
  · next hlarge =>
      rw [List.getElem?_eq_none (by simp only [sizeofPointer] at hlarge; omega)]
      rfl
  · rfl

def hexText (f : Fields) : List UInt8 := (f.value.take f.valueLen.toNat).flatMap hex

theorem soctOf_eq (h : f.valueLen.toNat ≤ f.value.length) : soctOf f = sprintf 64 (hexText f) := by
  have hloop (m : Nat) (hm : m ≤ f.value.length) :
      (List.range m).foldlM (fun soct i => f.value[i]?.bind fun a => sprintf 64 (soct ++ hex a)) [] =
        sprintf 64 ((f.value.take m).flatMap hex) := by
    induction m with
    | zero => rfl
    | succ m ih =>
        rw [foldlM_range_succ, ih (by omega), ← List.take_append_getElem (show m < f.value.length by omega),
          List.flatMap_append, sprintf]
        split
        · rw [Option.bind_some, List.getElem?_eq_getElem (by omega), Option.bind_some,
            List.flatMap_singleton]
        · next hlong =>
            rw [Option.bind_none, sprintf, if_neg]
            rw [List.length_append]
            omega
  exact hloop _ h

def Tidy (host : Endian) (f : Fields) : Prop :=
  ∀ text, simpleText host f = some text →
    text.length < 128 ∧ (f.valueType = DataType.octetString → (hexText f).length < 64)

theorem sprintfTmp_eq {value : List UInt8} (hv : valueText host f = some value)
    (ht : simpleText host f = some text) : sprintfTmp f value = sprintf 128 text := by
  simp only [simpleText, Option.bind_eq_bind, Option.bind_eq_some_iff] at ht
  obtain ⟨type, htype, oper, hoper, value', hv', ht⟩ := ht
  obtain rfl := Option.some.inj (hv.symm.trans hv')
  obtain rfl := Option.some.inj ht
  simp only [sprintfTmp, filterGetType, filterGetOper, getString_join, htype, hoper, Option.bind_eq_bind,
    Option.bind_some]

theorem valueText_of_simpleText (ht : simpleText host f = some text) :
    ∃ value, valueText host f = some value := by
  simp only [simpleText, Option.bind_eq_bind, Option.bind_eq_some_iff] at ht
  obtain ⟨_, -, _, -, value, hv, -⟩ := ht
  exact ⟨value, hv⟩

theorem tmpOf_eq (ht : simpleText host f = some text) :
    tmpOf host f = if f.valueType = DataType.octetString ∧ 64 ≤ (hexText f).length then none
      else (sprintf 128 text).map some := by
  obtain ⟨value, hv⟩ := valueText_of_simpleText ht
  have hprint := sprintfTmp_eq hv ht
  rw [tmpOf]
  rw [valueText] at hv
  split at hv
  · next hstring =>
      obtain ⟨n, hn, rfl⟩ := Option.map_eq_some_iff.mp hv
      have hne : f.valueType ≠ DataType.octetString := by
        rw [hstring]
        decide
      rw [if_pos hstring, if_neg fun h => hne h.1, hn]
      simp only [Option.bind_eq_bind, Option.bind_some, hprint]
      cases sprintf 128 text <;> rfl
  · next hstring =>
      rw [if_neg hstring]
      split at hv
      · next hoctet =>
          split at hv
          · cases hv
          · next hlong =>
              obtain rfl := Option.some.inj hv
              rw [if_pos hoctet, soctOf_eq (by omega), sprintf]
              by_cases hhex : (hexText f).length < 64
              · rw [if_pos hhex, if_neg fun h => by omega]
                have hprint : sprintfTmp f (hexText f) = sprintf 128 text := hprint
                simp only [Option.bind_eq_bind, Option.bind_some, hprint]
                cases sprintf 128 text <;> rfl
              · rw [if_neg hhex, if_pos ⟨hoctet, by omega⟩]
                rfl
      · next hoctet =>
          obtain ⟨n, hn, hv⟩ := Option.bind_eq_some_iff.mp hv
          obtain ⟨v, hnum, rfl⟩ := Option.map_eq_some_iff.mp hv
          rw [if_neg hoctet, if_neg fun h => hoctet h.1]
          simp only [hn, hnum, Option.bind_eq_bind, Option.bind_some, hprint]
          cases sprintf 128 text <;> rfl

theorem tidy_iff (ht : simpleText host f = some text) :
    Tidy host f ↔ tmpOf host f = some (some text) := by
  have htidy : Tidy host f ↔
      text.length < 128 ∧ (f.valueType = DataType.octetString → (hexText f).length < 64) := by
    constructor
    · exact fun h => h text ht
    · intro h text' ht'
      obtain rfl := Option.some.inj (ht.symm.trans ht')
      exact h
  rw [htidy, tmpOf_eq ht]
  split
  · next h =>
      refine iff_of_false (fun hlt => ?_) (by simp)
      have := hlt.2 h.1
      omega
  · next h =>
      rw [sprintf]
      split
      · next hlt =>
          refine iff_of_true ⟨hlt, fun hoctet => ?_⟩ rfl
          by_contra hge
          exact h ⟨hoctet, by omega⟩
      · next hge => exact iff_of_false (fun h => hge h.1) (by simp)

theorem tmpOf_cases (ht : simpleText host f = some text) {tmp : Option (List UInt8)}
    (h : tmpOf host f = some tmp) : tmp = some text := by
  rw [tmpOf_eq ht] at h
  split at h
  · cases h
  · obtain ⟨tmp', hs, rfl⟩ := Option.map_eq_some_iff.mp h
    rw [sprintf] at hs
    split at hs
    · exact congrArg some (Option.some.inj hs).symm
    · cases hs

def Written (bs : List UInt8) : Prop := ∀ x ∈ bs, x ≠ 0

instance (bs : List UInt8) : Decidable (Written bs) := List.decidableBAll _ bs

theorem typeString_written : ∀ name ∈ typeString, ∀ bs ∈ name, Written bs := by
  decide

theorem operString_written : ∀ name ∈ operString, ∀ bs ∈ name, Written bs := by
  decide

theorem digits_written {base : Nat} (hb : 1 < base) (hle : base ≤ 16) (n : Nat) :
    Written (octets (Nat.toDigits base n)) := by
  have hdigit : ∀ d : Fin 16, UInt8.ofNat (Nat.digitChar d).toNat ≠ 0 := by decide
  induction n using Nat.strongRecOn with
  | ind n ih =>
      by_cases hn : n < base
      · rw [Nat.toDigits_of_lt_base hn]
        exact List.forall_mem_singleton.mpr (hdigit ⟨n, by omega⟩)
      · have hmod := Nat.mod_lt n (by omega : 0 < base)
        rw [Nat.toDigits_of_base_le hb (by omega), octets, List.map_append]
        refine List.forall_mem_append.mpr ⟨ih _ (Nat.div_lt_self (by omega) hb), ?_⟩
        exact List.forall_mem_singleton.mpr (hdigit ⟨n % base, by omega⟩)

theorem strlen_written {v : List UInt8} (h : strlen v = some n) : Written (v.take n) := by
  induction v generalizing n with
  | nil => cases h
  | cons a v ih =>
      rw [strlen] at h
      split at h
      · cases h
        simp [Written]
      · next ha =>
          obtain ⟨m, hm, rfl⟩ := Option.map_eq_some_iff.mp h
          rw [List.take_succ_cons]
          exact List.forall_mem_cons.mpr ⟨ha, ih hm⟩

theorem valueText_written {value : List UInt8} (h : valueText host f = some value) : Written value := by
  rw [valueText] at h
  split at h
  · obtain ⟨n, hn, rfl⟩ := Option.map_eq_some_iff.mp h
    exact strlen_written hn
  split at h
  · split at h
    · cases h
    · cases h
      intro x hx
      obtain ⟨a, -, ha⟩ := List.mem_flatMap.mp hx
      exact digits_written (by decide) (by decide) _ x ha
  · obtain ⟨n, -, h⟩ := Option.bind_eq_some_iff.mp h
    obtain ⟨v, -, rfl⟩ := Option.map_eq_some_iff.mp h
    exact digits_written (by decide) (by decide) v

theorem names_written {table : List (Option (List UInt8))} (ht : ∀ name ∈ table, ∀ bs ∈ name, Written bs)
    {i : Nat} (h : table[i]?.join = some bs) : Written bs := by
  obtain ⟨name, hname, rfl⟩ : ∃ name, table[i]? = some name ∧ name = some bs := by
    simpa [Option.join_eq_some_iff] using h
  exact ht _ (List.mem_of_getElem? hname) bs rfl

theorem simpleText_written (h : simpleText host f = some text) : Written text := by
  simp only [simpleText, Option.bind_eq_bind, Option.bind_eq_some_iff] at h
  obtain ⟨type, htype, oper, hoper, value, hv, h⟩ := h
  obtain rfl := Option.some.inj h
  have hblank : Written [0x20] := by decide
  have h1 := names_written typeString_written htype
  have h2 := names_written operString_written hoper
  have h3 := valueText_written hv
  unfold Written at *
  simp only [List.forall_mem_append]
  exact ⟨⟨⟨⟨h1, hblank⟩, h2⟩, hblank⟩, h3⟩

end OiAmc.FilterPrint

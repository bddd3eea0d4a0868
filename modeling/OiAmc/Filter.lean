import OiAmc.ByteBuffer

namespace OiAmc.Filter

open ByteBuffer

def composeHeadSize : Nat := 4

def singleHeadSize : Nat := 8

namespace FilterType

def single : UInt8 := 1

def compositeAnd : UInt8 := 2

def compositeOr : UInt8 := 3

theorem or_ne_single : compositeOr ≠ single := by decide

theorem and_ne_single : compositeAnd ≠ single := by decide

theorem and_ne_or : compositeAnd ≠ compositeOr := by decide

end FilterType

inductive FilterOption
  | imei
  | imsi
  | tmsi
  | dlci
  | bvci
  | srcIpAddr
  | dstIpAddr
  | cdrType
  | cdrResult
  | opc
  | dpc
  | oppNo
  | srcLac
  | srcCi
  | dstLac
  | dstCi
  | ts
  | cdrid
  | device
  | channel
  | ogt
  | dgt
  | opCode
  | svrid
  | smsCenter
  | mtpSio
  deriving DecidableEq, Repr

def FilterOption.val (o : FilterOption) : UInt16 := UInt16.ofNat (o.ctorIdx + 1)

namespace DataType

def byte1 : UInt8 := 1

def byte2 : UInt8 := 2

def byte4 : UInt8 := 3

def byte8 : UInt8 := 4

def charString : UInt8 := 5

def octetString : UInt8 := 6

end DataType

structure Fields where
  type : UInt8
  non : UInt8
  len : UInt32
  optionType : UInt16
  op : UInt8
  valueType : UInt8
  valueLen : UInt32
  value : List UInt8
  deriving DecidableEq, Repr

inductive SFilter
  | null
  | node (f : Fields) (lchild rchild : SFilter)
  deriving DecidableEq, Repr

namespace SFilter

def len : SFilter → UInt32
  | null => 0
  | node f _ _ => f.len

def non : SFilter → UInt8
  | null => 0
  | node f _ _ => f.non

end SFilter

/-- The length of a character string. There is none when no octet ends the string. -/
def strlen : List UInt8 → Option Nat
  | [] => none
  | a :: as => if a = 0 then some 0 else (strlen as).map (· + 1)

/-- The outcome none is that of a call that reads past its argument, or leaves the
length of its value unset. -/
def valueLenOf (datatype : UInt8) (value : List UInt8) (valueEx : Option UInt32) :
    Option (Option UInt32) :=
  if datatype = DataType.byte1 then some (some 1)
  else if datatype = DataType.byte2 then some (some 2)
  else if datatype = DataType.byte4 then some (some 4)
  else if datatype = DataType.byte8 then some (some 8)
  else if datatype = DataType.charString then
    (strlen value).map fun n => some (UInt32.ofNat n + 1)
  else if datatype = DataType.octetString then some valueEx
  else none

def filterSingle (type : FilterOption) (op datatype : UInt8) (value : List UInt8)
    (valueEx : Option UInt32) : Option SFilter := do
  match ← valueLenOf datatype value valueEx with
  | none => return .null
  | some valueLen =>
      if value.length < valueLen.toNat then none
      else
        let f : Fields :=
          { type := FilterType.single
            non := 0
            len := valueLen + UInt32.ofNat singleHeadSize
            optionType := type.val
            op := op
            valueType := datatype
            valueLen := valueLen
            value := value.take valueLen.toNat }
        return .node f .null .null

def filterNon : SFilter → SFilter
  | .null => .null
  | .node f lchild rchild => .node { f with non := 1 } lchild rchild

/-- A node that memset has cleared before these three fields are set. -/
def compositeFields (type non : UInt8) (len : UInt32) : Fields where
  type := type
  non := non
  len := len
  optionType := 0
  op := 0
  valueType := 0
  valueLen := 0
  value := []

/-- What filter_compose makes of two filters it takes over, and its callers then set. -/
def filterCompose (type : UInt8) (fc1 fc2 : SFilter) : SFilter :=
  if fc1 = .null ∨ fc2 = .null then .null
  else .node (compositeFields type 0 (UInt32.ofNat composeHeadSize + fc1.len + fc2.len)) fc1 fc2

def filterOr (fc1 fc2 : SFilter) : SFilter := filterCompose FilterType.compositeOr fc1 fc2

def filterAnd (fc1 fc2 : SFilter) : SFilter := filterCompose FilterType.compositeAnd fc1 fc2

def headOf (f : Fields) : List UInt8 :=
  [f.type, f.non, (f.len >>> 8).toUInt8, f.len.toUInt8]

/-- The octets of a single node between its len and its value. -/
def singleHeadOf (f : Fields) : List UInt8 :=
  [((f.valueType &&& 0x0f) <<< 4) ||| (f.op &&& 0x0f), (f.optionType >>> 8).toUInt8,
    f.optionType.toUInt8, f.valueLen.toUInt8]

/-- Put octets into an array of size cap, from p on. -/
def put (cap : Nat) (b : Nat → UInt8) (p : Nat) (bs : List UInt8) : Option (Nat → UInt8) :=
  store cap b p bs.length fun i => bs.getD i 0

/-- The array, the sum of the lengths, and whether the result is not NULL. The calls
for the children do not look at theirs. -/
def filterTraversalEncode (cap : Nat) :
    SFilter → (Nat → UInt8) → Nat → UInt32 → Option ((Nat → UInt8) × UInt32 × Bool)
  | .null, _, _, _ => none
  | .node f lchild rchild, buf, p, len =>
      if f.type = FilterType.single then do
        let buf ← put cap buf p (headOf f ++ singleHeadOf f)
        if f.value.length < f.valueLen.toNat then none
        else
          let buf ← put cap buf (p + 8) (f.value.take f.valueLen.toNat)
          return (buf, len + f.len, true)
      else if f.type ≠ FilterType.compositeOr ∧ f.type ≠ FilterType.compositeAnd then
        some (buf, len, false)
      else do
        let buf ← put cap buf p (headOf f)
        let len := len + UInt32.ofNat composeHeadSize
        let (buf, len, _) ←
          if lchild = .null then some (buf, len, true)
          else filterTraversalEncode cap lchild buf (p + composeHeadSize) len
        let (buf, len, _) ←
          if rchild = .null then some (buf, len, true)
          else if lchild = .null then none
          else filterTraversalEncode cap rchild buf (p + lchild.len.toNat + composeHeadSize) len
        return (buf, len, true)

/-- The octets from the result on, none for NULL, and the length. The room reserved in
front of the result is an int that is not negative. -/
def filterEncode (filter : SFilter) (reserved : Fin 0x80000000) :
    Option (Option (Nat → UInt8) × UInt32) :=
  if filter = .null then some (none, 0)
  else do
    let size := UInt32.ofNat reserved + filter.len
    let (buf, len, ok) ← filterTraversalEncode size.toNat filter (fun _ => 0) reserved 0
    return (if ok then some fun i => buf (reserved + i) else none, len)

def lenOf (hi lo : UInt8) : UInt32 := (hi.toUInt32 <<< 8) + lo.toUInt32

def decodeSingle (type non hi lo : UInt8) : List UInt8 → Option (SFilter × UInt32)
  | tb :: o1 :: o0 :: n :: rest =>
      if rest.length < n.toNat then none
      else
        let f : Fields :=
          { type := type
            non := non
            len := lenOf hi lo
            optionType := ((o1.toUInt16 <<< 8) &&& 0xff) ||| (o0.toUInt16 &&& 0xff)
            op := tb &&& 0x0f
            valueType := (tb >>> 4) &&& 0x0f
            valueLen := n.toUInt32
            value := rest.take n.toNat }
        if f.len ≠ f.valueLen + UInt32.ofNat singleHeadSize then some (.null, f.len)
        else some (.node f .null .null, f.len)
  | _ => none

/-- The filter read from the front of some octets, and the length handed back. The
outcome none is that of a read past the last octet. -/
def filterTraversalDecode : List UInt8 → Option (SFilter × UInt32)
  | type :: non :: hi :: lo :: rest =>
      if type = FilterType.single then decodeSingle type non hi lo rest
      else if type = FilterType.compositeOr ∨ type = FilterType.compositeAnd then do
        let (lchild, len) ← filterTraversalDecode rest
        if lchild = .null then return (.null, len)
        else
          let (rchild, len) ← filterTraversalDecode (rest.drop len.toNat)
          if rchild = .null then return (.null, len)
          else if lenOf hi lo ≠ lchild.len + rchild.len + UInt32.ofNat composeHeadSize then
            return (.null, lenOf hi lo)
          else
            let f := compositeFields type non (lenOf hi lo)
            return (.node f lchild rchild, lenOf hi lo)
      else some (.null, 0)
  | _ => none
termination_by bs => bs.length
decreasing_by all_goals simp; try omega

def filterDecode (buf : List UInt8) : Option SFilter :=
  if buf = [] then some .null
  else do
    let (f, flen) ← filterTraversalDecode buf
    if buf.length ≠ flen.toNat then return .null else return f

def truth (b : Bool) : Int := if b then 1 else 0

def applyNon (non : UInt8) (rc : Int) : Int := if non = 1 then truth (rc = 0) else rc

variable {α : Type}

abbrev Compare (α : Type) := α → UInt16 → UInt8 → List UInt8 → UInt32 → Int

def filterLogicResult (arg : α) (compare : Compare α) : SFilter → Int
  | .null => -1
  | .node f lchild rchild =>
      if f.type = FilterType.single then
        applyNon f.non (compare arg f.optionType f.op f.value f.valueLen)
      else if f.type = FilterType.compositeOr then
        if lchild = .null ∨ rchild = .null then 0
        else applyNon f.non (truth (filterLogicResult arg compare lchild ≠ 0 ∨
          filterLogicResult arg compare rchild ≠ 0))
      else if f.type = FilterType.compositeAnd then
        if lchild = .null ∨ rchild = .null then 0
        else applyNon f.non (truth (filterLogicResult arg compare lchild ≠ 0 ∧
          filterLogicResult arg compare rchild ≠ 0))
      else 0

end OiAmc.Filter

namespace OiAmc.FilterLogic

open OiAmc.Filter

variable {α : Type} {arg : α} {compare : Compare α}

/-- Every node has one of the three types, and every composite one both children. -/
def Complete : SFilter → Prop
  | .null => False
  | .node f lchild rchild =>
      f.type = FilterType.single ∨
        (f.type = FilterType.compositeOr ∨ f.type = FilterType.compositeAnd) ∧
          Complete lchild ∧ Complete rchild

def ZeroOne (compare : Compare α) : Prop :=
  ∀ arg option op value len, compare arg option op value len = 0 ∨
    compare arg option op value len = 1

/-- The laws that make the constructors the operations of a Boolean algebra. -/
structure Laws (arg : α) (compare : Compare α) (a b : SFilter) : Prop where
  or : filterLogicResult arg compare (filterOr a b) =
    truth (filterLogicResult arg compare a = 1 ∨ filterLogicResult arg compare b = 1)
  and : filterLogicResult arg compare (filterAnd a b) =
    truth (filterLogicResult arg compare a = 1 ∧ filterLogicResult arg compare b = 1)
  non : filterLogicResult arg compare (filterNon a) =
    truth (¬ filterLogicResult arg compare a = 1)

theorem ne_null_of_complete {a : SFilter} (ha : Complete a) : a ≠ .null := by
  rintro rfl
  exact ha

theorem truth_zero_or_one (b : Bool) : truth b = 0 ∨ truth b = 1 := by
  cases b
  · exact Or.inl rfl
  · exact Or.inr rfl

theorem applyNon_zero (rc : Int) : applyNon 0 rc = rc := rfl

theorem applyNon_zero_or_one {rc : Int} (non : UInt8) (h : rc = 0 ∨ rc = 1) :
    applyNon non rc = 0 ∨ applyNon non rc = 1 := by
  unfold applyNon
  split
  · exact truth_zero_or_one _
  · exact h

theorem result_eq_applyNon (arg : α) (compare : Compare α) {f : Fields} {lchild rchild : SFilter}
    (hcompare : ZeroOne compare) (h : Complete (.node f lchild rchild)) :
    ∃ rc : Int, (rc = 0 ∨ rc = 1) ∧ ∀ non : UInt8,
      filterLogicResult arg compare (.node { f with non := non } lchild rchild) =
        applyNon non rc := by
  by_cases hs : f.type = FilterType.single
  · exact ⟨_, hcompare arg f.optionType f.op f.value f.valueLen,
      fun non => by rw [filterLogicResult, if_pos hs]⟩
  · obtain ⟨ht, hl, hr⟩ := h.resolve_left hs
    have hnull : ¬ (lchild = .null ∨ rchild = .null) :=
      not_or.mpr ⟨ne_null_of_complete hl, ne_null_of_complete hr⟩
    by_cases ho : f.type = FilterType.compositeOr
    · refine ⟨truth (filterLogicResult arg compare lchild ≠ 0 ∨
        filterLogicResult arg compare rchild ≠ 0), truth_zero_or_one _, fun non => ?_⟩
      rw [filterLogicResult, if_neg hs, if_pos ho, if_neg hnull]
    · refine ⟨truth (filterLogicResult arg compare lchild ≠ 0 ∧
        filterLogicResult arg compare rchild ≠ 0), truth_zero_or_one _, fun non => ?_⟩
      rw [filterLogicResult, if_neg hs, if_neg ho, if_pos (ht.resolve_left ho), if_neg hnull]

theorem result_zero_or_one (arg : α) (hcompare : ZeroOne compare) {a : SFilter} (ha : Complete a) :
    filterLogicResult arg compare a = 0 ∨ filterLogicResult arg compare a = 1 := by
  cases a with
  | null => exact absurd rfl (ne_null_of_complete ha)
  | node f lchild rchild =>
      obtain ⟨rc, hrc, h⟩ := result_eq_applyNon arg compare hcompare ha
      have h := h f.non
      rw [h]
      exact applyNon_zero_or_one f.non hrc

theorem truth_congr {p q : Prop} [Decidable p] [Decidable q] (h : p ↔ q) : truth p = truth q := by
  rw [decide_eq_decide.mpr h]

theorem ne_zero_iff (hcompare : ZeroOne compare) {a : SFilter} (ha : Complete a) :
    filterLogicResult arg compare a ≠ 0 ↔ filterLogicResult arg compare a = 1 := by
  have h := result_zero_or_one arg hcompare ha
  omega

theorem result_filterOr (hcompare : ZeroOne compare) {a b : SFilter} (ha : Complete a)
    (hb : Complete b) : filterLogicResult arg compare (filterOr a b) =
      truth (filterLogicResult arg compare a = 1 ∨ filterLogicResult arg compare b = 1) := by
  have hnull : ¬ (a = .null ∨ b = .null) :=
    not_or.mpr ⟨ne_null_of_complete ha, ne_null_of_complete hb⟩
  simp only [filterOr, filterCompose, if_neg hnull, filterLogicResult, compositeFields,
    if_neg FilterType.or_ne_single, ↓reduceIte, applyNon_zero]
  exact truth_congr (or_congr (ne_zero_iff hcompare ha) (ne_zero_iff hcompare hb))

theorem result_filterAnd (hcompare : ZeroOne compare) {a b : SFilter} (ha : Complete a)
    (hb : Complete b) : filterLogicResult arg compare (filterAnd a b) =
      truth (filterLogicResult arg compare a = 1 ∧ filterLogicResult arg compare b = 1) := by
  have hnull : ¬ (a = .null ∨ b = .null) :=
    not_or.mpr ⟨ne_null_of_complete ha, ne_null_of_complete hb⟩
  simp only [filterAnd, filterCompose, if_neg hnull, filterLogicResult, compositeFields,
    if_neg FilterType.and_ne_single, if_neg FilterType.and_ne_or, ↓reduceIte, applyNon_zero]
  exact truth_congr (and_congr (ne_zero_iff hcompare ha) (ne_zero_iff hcompare hb))

theorem result_filterNon (hcompare : ZeroOne compare) {a : SFilter} (ha : Complete a) :
    filterLogicResult arg compare (filterNon a) =
      truth (¬ filterLogicResult arg compare a = 1) ↔ a.non ≠ 1 := by
  cases a with
  | null => exact absurd rfl (ne_null_of_complete ha)
  | node f lchild rchild =>
      obtain ⟨rc, hrc, h⟩ := result_eq_applyNon arg compare hcompare ha
      have hnon : filterLogicResult arg compare (filterNon (.node f lchild rchild)) =
        applyNon 1 rc := h 1
      have hself : filterLogicResult arg compare (.node f lchild rchild) = applyNon f.non rc :=
        h f.non
      rw [hnon, hself, SFilter.non]
      by_cases hf : f.non = 1
      · rw [hf]
        rcases hrc with rfl | rfl <;> decide
      · simp only [applyNon, if_neg hf, if_pos]
        rcases hrc with rfl | rfl <;> simp [hf]

/-- The constructors are the operations of a Boolean algebra exactly on the filters that
are not negated yet. -/
theorem laws_iff_not_negated (arg : α) (compare : Compare α) (hcompare : ZeroOne compare)
    (a b : SFilter) (ha : Complete a) (hb : Complete b) :
    Laws arg compare a b ↔ a.non ≠ 1 := by
  rw [← result_filterNon hcompare ha]
  constructor
  · exact fun h => h.non
  · exact fun h => ⟨result_filterOr hcompare ha hb, result_filterAnd hcompare ha hb, h⟩

def imeiFilter : SFilter :=
  .node ⟨FilterType.single, 0, 9, FilterOption.imei.val, 1, DataType.byte1, 1, [7]⟩ .null .null

theorem laws_iff_not_negated_imei :
    Laws () (fun _ _ _ _ _ => 1) imeiFilter imeiFilter ↔ imeiFilter.non ≠ 1 :=
  laws_iff_not_negated () _ (fun _ _ _ _ _ => Or.inr rfl) _ _ (Or.inl rfl) (Or.inl rfl)

theorem filterNon_twice :
    ¬ ∀ (compare : Compare Unit), ZeroOne compare → ∀ a b, Complete a → Complete b →
      Laws () compare a b := by
  intro h
  have hlaws := h (fun _ _ _ _ _ => 1) (fun _ _ _ _ _ => Or.inr rfl) (filterNon imeiFilter)
    imeiFilter (Or.inl rfl) (Or.inl rfl)
  exact absurd hlaws.non (by decide)

end OiAmc.FilterLogic

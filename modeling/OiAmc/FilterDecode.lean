import OiAmc.Filter

namespace OiAmc.FilterDecode

open OiAmc.Filter

def Sized : SFilter → Prop
  | .null => False
  | .node f lchild rchild =>
      (f.type = FilterType.single ∧ f.len.toNat = f.valueLen.toNat + singleHeadSize) ∨
        (f.type = FilterType.compositeOr ∨ f.type = FilterType.compositeAnd) ∧
          f.len.toNat = lchild.len.toNat + rchild.len.toNat + composeHeadSize ∧
          Sized lchild ∧ Sized rchild

/-- No field of a node is larger than its place in a message. -/
def Representable : SFilter → Prop
  | .null => True
  | .node f lchild rchild =>
      f.len.toNat ≤ 0xffff ∧ f.valueLen.toNat ≤ 0xff ∧ f.op.toNat ≤ 0xf ∧
        Representable lchild ∧ Representable rchild

/-- A message: its length octets are right in every node. -/
inductive Wire : List UInt8 → Prop
  | single {non hi lo tb o1 o0 n : UInt8} {value : List UInt8} (hvalue : value.length = n.toNat)
      (hlen : (lenOf hi lo).toNat = n.toNat + singleHeadSize) :
      Wire (FilterType.single :: non :: hi :: lo :: tb :: o1 :: o0 :: n :: value)
  | composite {type non hi lo : UInt8} {l r : List UInt8}
      (htype : type = FilterType.compositeOr ∨ type = FilterType.compositeAnd)
      (hl : Wire l) (hr : Wire r)
      (hlen : (lenOf hi lo).toNat = l.length + r.length + composeHeadSize) :
      Wire (type :: non :: hi :: lo :: (l ++ r))

/-- The octets that show that there is no message: a node of no type, or one with the
wrong length, comes after nothing but whole nodes. -/
inductive Broken : List UInt8 → Prop
  | type {type non hi lo : UInt8} (hsingle : type ≠ FilterType.single)
      (hcomposite : ¬ (type = FilterType.compositeOr ∨ type = FilterType.compositeAnd)) :
      Broken [type, non, hi, lo]
  | single {non hi lo tb o1 o0 n : UInt8} {value : List UInt8} (hvalue : value.length = n.toNat)
      (hlen : (lenOf hi lo).toNat ≠ n.toNat + singleHeadSize) :
      Broken (FilterType.single :: non :: hi :: lo :: tb :: o1 :: o0 :: n :: value)
  | lchild {type non hi lo : UInt8} {l : List UInt8}
      (htype : type = FilterType.compositeOr ∨ type = FilterType.compositeAnd)
      (hl : Broken l) : Broken (type :: non :: hi :: lo :: l)
  | rchild {type non hi lo : UInt8} {l r : List UInt8}
      (htype : type = FilterType.compositeOr ∨ type = FilterType.compositeAnd)
      (hl : Wire l) (hr : Broken r) : Broken (type :: non :: hi :: lo :: (l ++ r))
  | composite {type non hi lo : UInt8} {l r : List UInt8}
      (htype : type = FilterType.compositeOr ∨ type = FilterType.compositeAnd)
      (hl : Wire l) (hr : Wire r)
      (hlen : (lenOf hi lo).toNat ≠ l.length + r.length + composeHeadSize) :
      Broken (type :: non :: hi :: lo :: (l ++ r))

theorem ne_single_of_composite {type : UInt8}
    (h : type = FilterType.compositeOr ∨ type = FilterType.compositeAnd) :
    type ≠ FilterType.single := by
  rcases h with rfl | rfl
  · exact FilterType.or_ne_single
  · exact FilterType.and_ne_single

theorem ne_null_of_sized {t : SFilter} (h : Sized t) : t ≠ .null := by
  rintro rfl
  exact h

theorem lenOf_toNat (hi lo : UInt8) : (lenOf hi lo).toNat = hi.toNat * 256 + lo.toNat := by
  have hhi := hi.toNat_lt
  have hlo := lo.toNat_lt
  simp only [lenOf, UInt32.toNat_add, UInt32.toNat_shiftLeft, UInt8.toNat_toUInt32,
    Nat.shiftLeft_eq, UInt32.reduceToNat, Nat.reduceMod, Nat.reducePow]
  omega

theorem lenOf_le (hi lo : UInt8) : (lenOf hi lo).toNat ≤ 0xffff := by
  have hhi := hi.toNat_lt
  have hlo := lo.toNat_lt
  rw [lenOf_toNat]
  omega

theorem single_len_iff (hi lo n : UInt8) :
    lenOf hi lo = n.toUInt32 + UInt32.ofNat singleHeadSize ↔
      (lenOf hi lo).toNat = n.toNat + singleHeadSize := by
  have hn := n.toNat_lt
  rw [← UInt32.toNat_inj, UInt32.toNat_add]
  simp only [UInt8.toNat_toUInt32, singleHeadSize, UInt32.reduceOfNat, UInt32.reduceToNat,
    Nat.reducePow]
  omega

theorem composite_len_iff (hi lo : UInt8) {a b : UInt32} (ha : a.toNat ≤ 0xffff)
    (hb : b.toNat ≤ 0xffff) : lenOf hi lo = a + b + UInt32.ofNat composeHeadSize ↔
      (lenOf hi lo).toNat = a.toNat + b.toNat + composeHeadSize := by
  rw [← UInt32.toNat_inj, UInt32.toNat_add, UInt32.toNat_add]
  simp only [composeHeadSize, UInt32.reduceOfNat, UInt32.reduceToNat, Nat.reducePow]
  omega

structure Read (t : SFilter) (len : UInt32) (size : Nat) : Prop where
  sized : Sized t
  representable : Representable t
  len_eq : t.len = len
  size_eq : len.toNat = size

theorem and_low_le (a : UInt8) : (a &&& 0x0f).toNat ≤ 0xf := by
  rw [UInt8.toNat_and]
  exact Nat.and_le_right

theorem decode_single (non hi lo : UInt8) (rest : List UInt8) :
    filterTraversalDecode (FilterType.single :: non :: hi :: lo :: rest) =
      decodeSingle FilterType.single non hi lo rest := by
  rw [filterTraversalDecode, if_pos rfl]

theorem decode_composite {type : UInt8} (non hi lo : UInt8) (rest : List UInt8)
    (htype : type = FilterType.compositeOr ∨ type = FilterType.compositeAnd) :
    filterTraversalDecode (type :: non :: hi :: lo :: rest) = (do
      let (lchild, len) ← filterTraversalDecode rest
      if lchild = .null then return (.null, len)
      else
        let (rchild, len) ← filterTraversalDecode (rest.drop len.toNat)
        if rchild = .null then return (.null, len)
        else if lenOf hi lo ≠ lchild.len + rchild.len + UInt32.ofNat composeHeadSize then
          return (.null, lenOf hi lo)
        else return (.node (compositeFields type non (lenOf hi lo)) lchild rchild, lenOf hi lo)) := by
  rw [filterTraversalDecode, if_neg (ne_single_of_composite htype), if_pos htype]

def singleNode (non hi lo tb o1 o0 n : UInt8) (value : List UInt8) : SFilter :=
  .node
    { type := FilterType.single
      non := non
      len := lenOf hi lo
      optionType := ((o1.toUInt16 <<< 8) &&& 0xff) ||| (o0.toUInt16 &&& 0xff)
      op := tb &&& 0x0f
      valueType := (tb >>> 4) &&& 0x0f
      valueLen := n.toUInt32
      value := value } .null .null

theorem decode_single_whole (non hi lo tb o1 o0 : UInt8) {n : UInt8} {value : List UInt8}
    (hvalue : value.length = n.toNat) (rest : List UInt8) :
    filterTraversalDecode
        (FilterType.single :: non :: hi :: lo :: tb :: o1 :: o0 :: n :: (value ++ rest)) =
      some (if (lenOf hi lo).toNat = n.toNat + singleHeadSize then
        singleNode non hi lo tb o1 o0 n value else .null, lenOf hi lo) := by
  have hlong : ¬ (value ++ rest).length < n.toNat := by simp [hvalue]
  have htake : (value ++ rest).take n.toNat = value := by simp [← hvalue]
  simp only [decode_single, decodeSingle, if_neg hlong, htake, ne_eq, single_len_iff hi lo n]
  by_cases hlen : (lenOf hi lo).toNat = n.toNat + singleHeadSize
  · rw [if_neg (not_not.mpr hlen), if_pos hlen]
    rfl
  · rw [if_pos hlen, if_neg hlen]

theorem read_singleNode {hi lo n : UInt8} (non tb o1 o0 : UInt8) (value : List UInt8)
    (hlen : (lenOf hi lo).toNat = n.toNat + singleHeadSize) :
    Read (singleNode non hi lo tb o1 o0 n value) (lenOf hi lo) (n.toNat + singleHeadSize) := by
  constructor
  · exact Or.inl ⟨rfl, hlen⟩
  · have hn := n.toNat_lt
    exact ⟨lenOf_le hi lo, Nat.le_of_lt_succ hn, and_low_le tb, trivial, trivial⟩
  · rfl
  · exact hlen

theorem len_le_of_representable {t : SFilter} (h : Representable t) : t.len.toNat ≤ 0xffff := by
  cases t with
  | null => exact Nat.zero_le _
  | node f lchild rchild => exact h.1

/-- The front of a message is read as a filter, whatever follows it. -/
def Decodes (w : List UInt8) (t : SFilter) (len : UInt32) : Prop :=
  Read t len w.length ∧ ∀ rest, filterTraversalDecode (w ++ rest) = some (t, len)

theorem decode_after_lchild {type : UInt8} {l : List UInt8} {lchild : SFilter} {llen : UInt32}
    (non hi lo : UInt8) (htype : type = FilterType.compositeOr ∨ type = FilterType.compositeAnd)
    (hl : Decodes l lchild llen) (rest : List UInt8) :
    filterTraversalDecode (type :: non :: hi :: lo :: (l ++ rest)) = (do
      let (rchild, len) ← filterTraversalDecode rest
      if rchild = .null then return (.null, len)
      else if lenOf hi lo ≠ lchild.len + rchild.len + UInt32.ofNat composeHeadSize then
        return (.null, lenOf hi lo)
      else return (.node (compositeFields type non (lenOf hi lo)) lchild rchild, lenOf hi lo)) := by
  obtain ⟨hlread, hldecode⟩ := hl
  have hdrop : (l ++ rest).drop llen.toNat = rest := by rw [hlread.size_eq, List.drop_left]
  simp only [decode_composite non hi lo _ htype, hldecode, hdrop, Option.bind_eq_bind,
    Option.bind_some, if_neg (ne_null_of_sized hlread.sized)]

theorem decode_children {type : UInt8} {l r : List UInt8} {lchild rchild : SFilter}
    {llen rlen : UInt32} (non hi lo : UInt8)
    (htype : type = FilterType.compositeOr ∨ type = FilterType.compositeAnd)
    (hl : Decodes l lchild llen) (hr : Decodes r rchild rlen) (rest : List UInt8) :
    filterTraversalDecode (type :: non :: hi :: lo :: (l ++ (r ++ rest))) =
      some (if (lenOf hi lo).toNat = l.length + r.length + composeHeadSize then
        .node (compositeFields type non (lenOf hi lo)) lchild rchild else .null,
        lenOf hi lo) := by
  have hsum : lenOf hi lo = lchild.len + rchild.len + UInt32.ofNat composeHeadSize ↔
      (lenOf hi lo).toNat = l.length + r.length + composeHeadSize := by
    rw [← hl.1.size_eq, ← hr.1.size_eq, ← hl.1.len_eq, ← hr.1.len_eq]
    exact composite_len_iff hi lo (len_le_of_representable hl.1.representable)
      (len_le_of_representable hr.1.representable)
  simp only [decode_after_lchild non hi lo htype hl, hr.2, Option.bind_eq_bind, Option.bind_some,
    if_neg (ne_null_of_sized hr.1.sized), ne_eq, hsum]
  by_cases hlen : (lenOf hi lo).toNat = l.length + r.length + composeHeadSize
  · rw [if_neg (not_not.mpr hlen), if_pos hlen]
    rfl
  · rw [if_pos hlen, if_neg hlen]
    rfl

theorem decode_wire {w : List UInt8} (hw : Wire w) : ∃ t len, Decodes w t len := by
  induction hw with
  | @single non hi lo tb o1 o0 n value hvalue hlen =>
      refine ⟨singleNode non hi lo tb o1 o0 n value, lenOf hi lo, ?_, fun rest => ?_⟩
      · have hsize : (FilterType.single :: non :: hi :: lo :: tb :: o1 :: o0 :: n :: value).length =
            n.toNat + singleHeadSize := by
          simp only [List.length_cons, hvalue, singleHeadSize]
        rw [hsize]
        exact read_singleNode non tb o1 o0 value hlen
      · have hdecode := decode_single_whole non hi lo tb o1 o0 hvalue rest
        rw [if_pos hlen] at hdecode
        exact hdecode
  | @composite type non hi lo l r htype _ _ hlen ihl ihr =>
      obtain ⟨lchild, llen, hl⟩ := ihl
      obtain ⟨rchild, rlen, hr⟩ := ihr
      refine ⟨.node (compositeFields type non (lenOf hi lo)) lchild rchild, lenOf hi lo, ?_,
        fun rest => ?_⟩
      · constructor
        · refine Or.inr ⟨htype, ?_, hl.1.sized, hr.1.sized⟩
          rw [hl.1.len_eq, hr.1.len_eq, hl.1.size_eq, hr.1.size_eq]
          exact hlen
        · exact ⟨lenOf_le hi lo, Nat.zero_le _, Nat.zero_le _, hl.1.representable,
            hr.1.representable⟩
        · rfl
        · rw [hlen]
          simp only [List.length_cons, List.length_append, composeHeadSize]
      · have hdecode := decode_children non hi lo htype hl hr rest
        rw [if_pos hlen] at hdecode
        rw [List.cons_append, List.cons_append, List.cons_append, List.cons_append,
          List.append_assoc, hdecode]

theorem decode_broken {w : List UInt8} (hw : Broken w) :
    ∃ len, ∀ rest, filterTraversalDecode (w ++ rest) = some (.null, len) := by
  induction hw with
  | @type type non hi lo hsingle hcomposite =>
      refine ⟨0, fun rest => ?_⟩
      simp only [List.cons_append, List.nil_append, filterTraversalDecode, if_neg hsingle,
        if_neg hcomposite]
  | @single non hi lo tb o1 o0 n value hvalue hlen =>
      refine ⟨lenOf hi lo, fun rest => ?_⟩
      have hdecode := decode_single_whole non hi lo tb o1 o0 hvalue rest
      rw [if_neg hlen] at hdecode
      exact hdecode
  | @lchild type non hi lo l htype _ ih =>
      obtain ⟨len, ih⟩ := ih
      refine ⟨len, fun rest => ?_⟩
      simp only [List.cons_append, decode_composite non hi lo _ htype, ih, Option.bind_eq_bind,
        Option.bind_some, ↓reduceIte]
      rfl
  | @rchild type non hi lo l r htype hl _ ih =>
      obtain ⟨lchild, llen, hl⟩ := decode_wire hl
      obtain ⟨len, ih⟩ := ih
      refine ⟨len, fun rest => ?_⟩
      simp only [List.cons_append, List.append_assoc, decode_after_lchild non hi lo htype hl, ih,
        Option.bind_eq_bind, Option.bind_some, ↓reduceIte]
      rfl
  | @composite type non hi lo l r htype hl hr hlen =>
      obtain ⟨lchild, llen, hl⟩ := decode_wire hl
      obtain ⟨rchild, rlen, hr⟩ := decode_wire hr
      refine ⟨lenOf hi lo, fun rest => ?_⟩
      have hdecode := decode_children non hi lo htype hl hr rest
      rw [if_neg hlen] at hdecode
      rw [List.cons_append, List.cons_append, List.cons_append, List.cons_append,
        List.append_assoc, hdecode]

def Settled (bs : List UInt8) : Prop := ∃ w, w <+: bs ∧ (Wire w ∨ Broken w)

theorem settled_single (non hi lo : UInt8) {rest : List UInt8} {r : SFilter × UInt32}
    (h : decodeSingle FilterType.single non hi lo rest = some r) :
    Settled (FilterType.single :: non :: hi :: lo :: rest) := by
  match rest, h with
  | tb :: o1 :: o0 :: n :: value, h =>
      have hlong : ¬ value.length < n.toNat := by
        intro hshort
        rw [decodeSingle, if_pos hshort] at h
        cases h
      have hvalue : (value.take n.toNat).length = n.toNat := List.length_take_of_le (Nat.not_lt.mp hlong)
      refine ⟨FilterType.single :: non :: hi :: lo :: tb :: o1 :: o0 :: n :: value.take n.toNat,
        ?_, ?_⟩
      · simp only [List.cons_prefix_cons, true_and]
        exact List.take_prefix _ _
      · by_cases hlen : (lenOf hi lo).toNat = n.toNat + singleHeadSize
        · exact Or.inl (Wire.single hvalue hlen)
        · exact Or.inr (Broken.single hvalue hlen)

theorem head_of_decode {bs : List UInt8} {r : SFilter × UInt32}
    (h : filterTraversalDecode bs = some r) :
    ∃ type non hi lo rest, bs = type :: non :: hi :: lo :: rest := by
  match bs with
  | type :: non :: hi :: lo :: rest => exact ⟨type, non, hi, lo, rest, rfl⟩
  | [] | [_] | [_, _] | [_, _, _] => simp [filterTraversalDecode] at h

theorem settled_of_decode {bs : List UInt8} {r : SFilter × UInt32}
    (h : filterTraversalDecode bs = some r) : Settled bs := by
  induction hn : bs.length using Nat.strongRecOn generalizing bs r with
  | _ n ih =>
      obtain ⟨type, non, hi, lo, rest, rfl⟩ := head_of_decode h
      simp only [List.length_cons] at hn
      by_cases hsingle : type = FilterType.single
      · subst hsingle
        rw [decode_single] at h
        exact settled_single non hi lo h
      by_cases htype : type = FilterType.compositeOr ∨ type = FilterType.compositeAnd
      · have hdecode := h
        rw [decode_composite non hi lo _ htype] at hdecode
        obtain ⟨left, hleft, _⟩ := Option.bind_eq_some_iff.mp hdecode
        obtain ⟨l, ⟨rest, rfl⟩, hl | hl⟩ := ih rest.length (by omega) hleft rfl
        · obtain ⟨lchild, llen, hlchild⟩ := decode_wire hl
          rw [decode_after_lchild non hi lo htype hlchild] at h
          obtain ⟨right, hright, _⟩ := Option.bind_eq_some_iff.mp h
          rw [List.length_append] at hn
          obtain ⟨r, ⟨rest, rfl⟩, hr | hr⟩ := ih rest.length (by omega) hright rfl
          · refine ⟨type :: non :: hi :: lo :: (l ++ r), ⟨rest, by simp⟩, ?_⟩
            by_cases hlen : (lenOf hi lo).toNat = l.length + r.length + composeHeadSize
            · exact Or.inl (Wire.composite htype hl hr hlen)
            · exact Or.inr (Broken.composite htype hl hr hlen)
          · exact ⟨type :: non :: hi :: lo :: (l ++ r), ⟨rest, by simp⟩,
              Or.inr (Broken.rchild htype hl hr)⟩
        · exact ⟨type :: non :: hi :: lo :: l, ⟨rest, by simp⟩, Or.inr (Broken.lchild htype hl)⟩
      · exact ⟨[type, non, hi, lo], ⟨rest, rfl⟩, Or.inr (Broken.type hsingle htype)⟩

theorem decode_of_settled {bs : List UInt8} (h : Settled bs) :
    ∃ t len, filterTraversalDecode bs = some (t, len) ∧
      (t ≠ .null → Read t len len.toNat) := by
  obtain ⟨w, ⟨rest, rfl⟩, hw | hw⟩ := h
  · obtain ⟨t, len, hread, hdecode⟩ := decode_wire hw
    exact ⟨t, len, hdecode rest, fun _ => ⟨hread.sized, hread.representable, hread.len_eq, rfl⟩⟩
  · obtain ⟨len, hdecode⟩ := decode_broken hw
    exact ⟨.null, len, hdecode rest, fun h => absurd rfl h⟩

/-- The decoder stays inside the octets, and a filter it returns is one whose lengths are
right at every node and add up to theirs. -/
def Robust (bs : List UInt8) : Prop :=
  ∃ t, filterDecode bs = some t ∧ (t = .null ∨ Sized t ∧ t.len.toNat = bs.length)

/-- The decoder is robust exactly on the octets that settle what the message is before
they end. -/
theorem robust_iff_settled (b : UInt8) (bs : List UInt8) : Robust (b :: bs) ↔ Settled (b :: bs) := by
  constructor
  · rintro ⟨t, ht, _⟩
    rw [filterDecode, if_neg (List.cons_ne_nil b bs)] at ht
    obtain ⟨r, hr, _⟩ := Option.bind_eq_some_iff.mp ht
    exact settled_of_decode hr
  · intro h
    obtain ⟨t, len, ht, hread⟩ := decode_of_settled h
    by_cases hlen : (b :: bs).length = len.toNat
    · refine ⟨t, ?_, ?_⟩
      · simp only [filterDecode, if_neg (List.cons_ne_nil b bs), ht, Option.bind_eq_bind,
          Option.bind_some, ne_eq, hlen, not_true_eq_false, ↓reduceIte]
        rfl
      · by_cases hnull : t = .null
        · exact Or.inl hnull
        · have hread := hread hnull
          exact Or.inr ⟨hread.sized, by rw [hread.len_eq, hlen]⟩
    · refine ⟨.null, ?_, Or.inl rfl⟩
      simp only [filterDecode, if_neg (List.cons_ne_nil b bs), ht, Option.bind_eq_bind,
        Option.bind_some, ne_eq, hlen, not_false_eq_true, ↓reduceIte]
      rfl

/-- A message cut off after its first octet. -/
theorem type_octet_alone : ¬ Robust [FilterType.compositeOr] := by
  rintro ⟨t, ht, _⟩
  rw [filterDecode, if_neg (List.cons_ne_nil _ _)] at ht
  obtain ⟨r, hr, _⟩ := Option.bind_eq_some_iff.mp ht
  obtain ⟨type, non, hi, lo, rest, h⟩ := head_of_decode hr
  simp at h

end OiAmc.FilterDecode

import OiAmc.MessageRoundTrip

namespace OiAmc.MessageLayout

open ByteBuffer

variable {F : Type} {type : F → CType F} {m : Message F} {len : Int} {r : Reader F}

def Inside (type : F → CType F) (v : Value F) (f : F) : Prop :=
  match type f with
  | .string size => (v.chars f).length < size
  | .octets n => (v.chars f).length = n
  | .number _ | .buffer _ => True

/-- An item that looks at what is left before it reads. -/
def Get.Checked (type : F → CType F) : Get F → Prop
  | num _ _ => True
  | str f size => type f = .string size
  | octets _ _ | block _ _ => False

def Message.front (m : Message F) : Nat := (m.decode.map Get.width).sum

/-- The int in the last four of the octets in front of a block. -/
def Message.sizeIn (m : Message F) (buf : Octets) : Int :=
  (UInt32.ofNat (fromBe (entries buf (m.front - 4) 4))).toBitVec.toInt

/-- A decoder looks at what is left everywhere but in its last item, which stands behind
nothing but numbers, the last of them the size of a block. -/
def Message.Guarded (type : F → CType F) (m : Message F) : Prop :=
  match m.decode.getLast? with
  | some (.octets f n) => type f = .octets n ∧ ∀ g ∈ m.decode.dropLast, g.num?.isSome
  | some (.block size _) =>
      m.decode.dropLast.getLast? = some (.num size 4) ∧ ∀ g ∈ m.decode.dropLast, g.num?.isSome
  | _ => ∀ g ∈ m.decode, g.Checked type

/-- What the last item takes unasked is there, unless a number in front of it is missing. -/
def Message.Enough (m : Message F) (buf : Octets) (len : Int) : Prop :=
  match m.decode.getLast? with
  | some (.octets _ n) => m.front ≤ len → m.front + n ≤ len
  | some (.block _ guarded) => m.front ≤ len →
      (guarded ∧ m.sizeIn buf ≤ 0) ∨ (0 ≤ m.sizeIn buf ∧ m.front + m.sizeIn buf ≤ len)
  | _ => True

instance (m : Message F) (buf : Octets) (len : Int) : Decidable (m.Enough buf len) := by
  unfold Message.Enough
  split
  all_goals infer_instance

/-- Where a decoder stands that has looked at what is left. -/
structure Reader.Sound (type : F → CType F) (len : Int) (r : Reader F) : Prop where
  left : r.left = len - r.pos
  rest : 0 ≤ r.left
  seen : r.seen ≤ len
  asked : r.asked = []
  data : r.value.data = none
  inside : ∀ f, Inside type r.value f

theorem Reader.Sound.start (htype : ∀ f size, type f = .string size → 0 < size) (hlen : 0 ≤ len) :
    (Reader.start type len).Sound type len where
  left := by simp [Reader.start]
  rest := hlen
  seen := hlen
  asked := rfl
  data := rfl
  inside := by
    intro f
    unfold Inside
    cases hf : type f with
    | string size => simpa [Reader.start, Value.cleared, hf] using htype f size hf
    | octets n => simp [Reader.start, Value.cleared, hf]
    | number k | buffer size => trivial

theorem Reader.Sound.move (hr : r.Sound type len) {k n : Nat} (hk : k ≤ n) (hn : n ≤ r.left)
    {v : Value F} (hdata : v.data = r.value.data) (hv : ∀ f, Inside type v f) :
    Reader.Sound type len { (r.look k).skip n with value := v } where
  left := by
    have hleft := hr.left
    simp only [Reader.skip, Reader.look]
    omega
  rest := by
    have hrest := hr.rest
    simp only [Reader.skip, Reader.look]
    omega
  seen := by
    have hleft := hr.left
    have hseen := hr.seen
    simp only [Reader.skip, Reader.look]
    omega
  asked := hr.asked
  data := hdata.trans hr.data
  inside := hv

section Decide

variable [DecidableEq F]

/-- What a decoder does with len octets: it looks at no others, asks memory for sizes
that are there, leaves every field inside of its array, and returns -1 when an octet is
missing. -/
structure Safe (type : F → CType F) (m : Message F) (buf : Octets) (room : Int → Bool)
    (len : Int) : Prop where
  inside : (read buf room m.decode (.start type len)).2.seen ≤ len
  asked : ∀ a ∈ (read buf room m.decode (.start type len)).2.asked, 0 ≤ a.1 ∧ a.1 ≤ a.2
  fields : ∀ f, Inside type (read buf room m.decode (.start type len)).2.value f
  complete : (read buf room m.decode (.start type len)).1 = true →
    (read buf room m.decode (.start type len)).2.pos ≤ len ∧
      ∀ a ∈ (read buf room m.decode (.start type len)).2.asked,
        (read buf room m.decode (.start type len)).2.pos + a.1 ≤ len

instance (type : F → CType F) (g : Get F) : Decidable (g.Checked type) :=
  g.casesOn (motive := fun g => Decidable (g.Checked type))
    (fun _ _ => isTrue trivial)
    (fun f size => inferInstanceAs (Decidable (type f = .string size)))
    (fun _ _ => isFalse not_false)
    (fun _ _ => isFalse not_false)

instance (type : F → CType F) (m : Message F) : Decidable (m.Guarded type) := by
  unfold Message.Guarded
  split
  all_goals infer_instance

theorem Inside.setNum {v : Value F} {f : F} (h : Inside type v f) (g : F) (n : UInt32) :
    Inside type (v.setNum g n) f := h

theorem Inside.setChars {v : Value F} {f : F} (h : Inside type v f) {g : F} {l : List UInt8}
    (hl : Inside type { v with chars := fun _ => l } g) : Inside type (v.setChars g l) f := by
  by_cases hfg : f = g
  · subst hfg
    unfold Inside at *
    simpa [Value.setChars] using hl
  · unfold Inside at *
    simpa [Value.setChars, hfg] using h

section Check

variable (htype : ∀ f size, type f = .string size → 0 < size) (buf : Octets) (room : Int → Bool)

include htype in
theorem Get.read_checked {g : Get F} (hg : g.Checked type) (hr : r.Sound type len) :
    (g.read buf room r).2.Sound type len := by
  cases g with
  | num f k =>
      rw [Get.read]
      split_ifs with hleft
      · exact hr
      · exact hr.move (le_refl k) (by omega) rfl fun f' => (hr.inside f').setNum _ _
  | str f size =>
      have hsize := htype f size hg
      have hstring {l : List UInt8} (hl : l.length < size) (f' : F) :
          Inside type (r.value.setChars f l) f' := by
        refine (hr.inside f').setChars ?_
        unfold Inside
        rw [show type f = .string size from hg]
        exact hl
      simp only [Get.read]
      split_ifs with hleft hzero hcount
      · exact hr
      · exact hr.move (le_refl 1) (by omega) rfl (hstring hsize)
      · have hone := hr.move (k := 1) (n := 1) (le_refl 1) (by omega) rfl hr.inside
        exact ⟨hr.left, hr.rest, hone.seen, hr.asked, hr.data, hr.inside⟩
      · exact hr.move (by omega) (by omega) rfl (hstring (by rw [length_entries]; omega))
      · exact hr.move (by omega) (by omega) rfl (hstring (by rw [length_entries]; omega))
  | octets f n | block size guarded => exact hg.elim

include htype in
theorem read_checked {gets : List (Get F)} (hgets : ∀ g ∈ gets, g.Checked type)
    (hr : r.Sound type len) : (read buf room gets r).2.Sound type len := by
  induction gets generalizing r with
  | nil => exact hr
  | cons g gets ih =>
      have hstep := Get.read_checked htype buf room (hgets g (.head _)) hr
      rw [read]
      rcases hread : g.read buf room r with ⟨_ | _, r'⟩
      · rw [hread] at hstep
        exact hstep
      · rw [hread] at hstep
        exact ih (fun g hg => hgets g (.tail _ hg)) hstep

theorem read_nums {gets : List (Get F)} (hgets : ∀ g ∈ gets, g.num?.isSome) (hr : r.Sound type len)
    (rest : List (Get F)) :
    (r.left < (gets.map Get.width).sum → (read buf room (gets ++ rest) r).1 = false ∧
      (read buf room (gets ++ rest) r).2.Sound type len) ∧
    ((gets.map Get.width).sum ≤ r.left → ∃ r', read buf room (gets ++ rest) r = read buf room rest r' ∧
      r'.Sound type len ∧ r'.pos = r.pos + (gets.map Get.width).sum) := by
  induction gets generalizing r with
  | nil =>
      refine ⟨fun h => ?_, fun _ => ⟨r, rfl, hr, rfl⟩⟩
      have hrest := hr.rest
      simp only [List.map_nil, List.sum_nil, Nat.cast_zero] at h
      omega
  | cons g gets ih =>
      cases g with
      | num f k =>
          rw [List.map_cons, List.sum_cons, Get.width, List.cons_append, read, Get.read]
          by_cases hleft : r.left < k
          · simp only [if_pos hleft]
            exact ⟨fun _ => ⟨trivial, hr⟩, fun h => by omega⟩
          · simp only [if_neg hleft]
            have hmove := hr.move (le_refl k) (n := k) (by omega) (v := r.value.setNum f
              (.ofNat (fromBe (entries buf r.pos k)))) rfl fun f' => (hr.inside f').setNum _ _
            obtain ⟨hfail, hdone⟩ := ih (fun g hg => hgets g (.tail _ hg)) hmove
            refine ⟨fun h => hfail ?_, fun h => ?_⟩
            · change r.left - k < _
              omega
            · obtain ⟨r', hread, hr', hpos⟩ := hdone (by change _ ≤ r.left - k; omega)
              refine ⟨r', hread, hr', hpos.trans ?_⟩
              change r.pos + k + _ = _
              omega
      | str f size | octets f n | block s b => exact absurd (hgets _ (.head _)) (by simp [Get.num?])

theorem Reader.Sound.safe (h : (read buf room m.decode (.start type len)).2.Sound type len) :
    Safe type m buf room len where
  inside := h.seen
  asked := by
    rw [h.asked]
    intro a ha
    cases ha
  fields := h.inside
  complete := by
    have hleft := h.left
    have hrest := h.rest
    intro _
    refine ⟨by omega, ?_⟩
    rw [h.asked]
    intro a ha
    cases ha

variable (hlen : 0 ≤ len)

include htype hlen

theorem safe_checked (hm : ∀ g ∈ m.decode, g.Checked type) : Safe type m buf room len :=
  (read_checked htype buf room hm (.start htype hlen)).safe

theorem safe_octets {gets : List (Get F)} {f : F} {n : Nat} (hm : m.decode = gets ++ [.octets f n])
    (hf : type f = .octets n) (hgets : ∀ g ∈ gets, g.num?.isSome) :
    Safe type m buf room len ↔ (m.front ≤ len → m.front + n ≤ len) := by
  have hfront : m.front = (gets.map Get.width).sum := by simp [Message.front, hm, Get.width]
  obtain ⟨hfail, hdone⟩ := read_nums buf room hgets (.start htype hlen) [.octets f n]
  rw [← hfront, ← hm] at hfail hdone
  by_cases hle : (m.front : Int) ≤ len
  swap
  · refine iff_of_true ?_ fun h => absurd h hle
    exact (hfail (by change len < _; omega)).2.safe
  obtain ⟨r, hread, hr, hpos⟩ := hdone hle
  have hstart : r.pos = m.front := by rw [hpos]; exact Nat.zero_add _
  have hleft := hr.left
  have hseen := hr.seen
  have hall : read buf room m.decode (.start type len) = (true, { r.look n with
      pos := r.pos + n
      value := r.value.setChars f (entries buf r.pos n) }) := hread
  constructor
  · intro h _
    have hinside := h.inside
    rw [hall] at hinside
    simp only [Reader.look] at hinside
    omega
  · intro h
    have hn := h hle
    refine ⟨?_, ?_, ?_, ?_⟩ <;> rw [hall]
    · simp only [Reader.look]
      omega
    · simp [Reader.look, hr.asked]
    · intro f'
      refine (hr.inside f').setChars ?_
      unfold Inside
      rw [hf]
      exact length_entries _ _ _
    · simp only [Reader.look, hr.asked]
      intro _
      refine ⟨by omega, ?_⟩
      intro a ha
      cases ha

theorem safe_block {gets : List (Get F)} {size : F} {guarded : Bool}
    (hm : m.decode = gets ++ [.num size 4] ++ [.block size guarded])
    (hgets : ∀ g ∈ gets, g.num?.isSome) : Safe type m buf room len ↔
      (m.front ≤ len → (guarded ∧ m.sizeIn buf ≤ 0) ∨
        (0 ≤ m.sizeIn buf ∧ m.front + m.sizeIn buf ≤ len)) := by
  have hfront : m.front = (gets.map Get.width).sum + 4 := by simp [Message.front, hm, Get.width]
  rw [List.append_assoc] at hm
  obtain ⟨hfail, hdone⟩ :=
    read_nums buf room hgets (.start htype hlen) ([.num size 4] ++ [.block size guarded])
  rw [← hm] at hfail hdone
  by_cases hsum : ((gets.map Get.width).sum : Int) ≤ len
  swap
  · refine iff_of_true ?_ fun h => by omega
    exact (hfail (by change len < _; omega)).2.safe
  obtain ⟨r, hread, hr, hpos⟩ := hdone hsum
  have hstart : r.pos = (gets.map Get.width).sum := by rw [hpos]; exact Nat.zero_add _
  have hleft := hr.left
  by_cases hfour : r.left < 4
  · have hall : read buf room m.decode (.start type len) = (false, r) := by
      rw [hread, List.singleton_append, read, Get.read, Nat.cast_ofNat, if_pos hfour]
    refine iff_of_true ?_ fun h => by omega
    refine Reader.Sound.safe buf room ?_
    rw [hall]
    exact hr
  set r' : Reader F := { (r.look 4).skip 4 with
    value := r.value.setNum size (.ofNat (fromBe (entries buf r.pos 4))) } with hr'
  have hsound : r'.Sound type len :=
    hr.move (le_refl 4) (by omega) rfl fun f' => (hr.inside f').setNum _ _
  have hsize : r'.value.int size = m.sizeIn buf := by
    rw [Message.sizeIn, hfront, Nat.add_sub_cancel, ← hstart]
    simp [hr', Value.int, Value.setNum]
  have hall : read buf room m.decode (.start type len) = read buf room [.block size guarded] r' := by
    rw [hread, List.singleton_append, read, Get.read, Nat.cast_ofNat, if_neg hfour]
  have hpos' : (r'.pos : Int) = m.front := by
    have : r'.pos = r.pos + 4 := rfl
    omega
  have hleft' := hsound.left
  have hrest' := hsound.rest
  have hle : (m.front : Int) ≤ len := by omega
  rw [read, Get.read, hsound.data, hsize] at hall
  simp only [Option.isSome_none, Bool.false_eq_true, if_false] at hall
  by_cases hskip : guarded = true ∧ m.sizeIn buf ≤ 0
  · refine iff_of_true ?_ fun _ => .inl hskip
    refine Reader.Sound.safe buf room ?_
    rw [hall, if_pos hskip]
    exact hsound
  rw [if_neg hskip] at hall
  have hasked : (read buf room m.decode (.start type len)).2.asked = [(m.sizeIn buf, r'.left)] := by
    rw [hall]
    split_ifs <;> simp [read, Reader.look, hsound.asked]
  constructor
  · intro h _
    have ha := h.asked
    rw [hasked, List.forall_mem_singleton] at ha
    simp only at ha
    exact .inr (by omega)
  · intro h
    have hin := (h hle).resolve_left hskip
    have hstand : (read buf room m.decode (.start type len)).2.pos = r'.pos := by
      rw [hall]
      split_ifs <;> rfl
    refine ⟨?_, ?_, ?_, ?_⟩
    · have hseen := hsound.seen
      rw [hall]
      split_ifs
      · simp only [read, Reader.look]
        omega
      · exact hseen
    · rw [hasked, List.forall_mem_singleton]
      simp only
      omega
    · rw [hall]
      split_ifs <;> exact hsound.inside
    · rw [hasked, hstand, List.forall_mem_singleton]
      intro _
      simp only
      omega

/-- A decoder of a guarded message is safe on just the octets that are enough for its
last item. -/
theorem Message.Guarded.safe_iff (hm : m.Guarded type) :
    Safe type m buf room len ↔ m.Enough buf len := by
  unfold Message.Guarded at hm
  unfold Message.Enough
  rcases hlast : m.decode.getLast? with _ | g
  · rw [hlast] at hm
    exact iff_of_true (safe_checked htype buf room hlen hm) trivial
  obtain ⟨gets, hdecode⟩ := List.getLast?_eq_some_iff.mp hlast
  rw [hlast] at hm
  cases g with
  | octets f n =>
      rw [hdecode, List.dropLast_concat] at hm
      exact safe_octets htype buf room hlen hdecode hm.1 hm.2
  | block size guarded =>
      rw [hdecode, List.dropLast_concat] at hm
      obtain ⟨init, rfl⟩ := List.getLast?_eq_some_iff.mp hm.1
      exact safe_block htype buf room hlen hdecode fun g hg => hm.2 g (List.mem_append_left _ hg)
  | num f k | str f size => exact iff_of_true (safe_checked htype buf room hlen hm) trivial

end Check

theorem read_append (buf : Octets) (room : Int → Bool) (gets rest : List (Get F)) (r : Reader F) :
    read buf room (gets ++ rest) r =
      if (read buf room gets r).1 then read buf room rest (read buf room gets r).2
      else (false, (read buf room gets r).2) := by
  induction gets generalizing r with
  | nil => rfl
  | cons g gets ih =>
      rw [List.cons_append, read, read]
      rcases g.read buf room r with ⟨_ | _, r'⟩
      · rfl
      · exact ih r'

theorem Get.read_data {g : Get F} (hg : g.block? = none) (buf : Octets) (room : Int → Bool)
    (r : Reader F) : (g.read buf room r).2.value.data = r.value.data := by
  cases g with
  | num f k =>
      rw [Get.read]
      split_ifs <;> rfl
  | str f size =>
      simp only [Get.read]
      split_ifs <;> rfl
  | octets f n => rfl
  | block size guarded => cases hg

theorem read_data {gets : List (Get F)} (hgets : ∀ g ∈ gets, g.block? = none) (buf : Octets)
    (room : Int → Bool) (r : Reader F) : (read buf room gets r).2.value.data = r.value.data := by
  induction gets generalizing r with
  | nil => rfl
  | cons g gets ih =>
      have hstep := Get.read_data (hgets g (.head _)) buf room r
      rw [read]
      rcases hread : g.read buf room r with ⟨_ | _, r'⟩
      · rw [hread] at hstep
        exact hstep
      · rw [hread] at hstep
        exact (ih (fun g hg => hgets g (.tail _ hg)) r').trans hstep

theorem read_block_last (hm : ∀ g ∈ m.decode.dropLast, g.block? = none) (buf : Octets)
    (room : Int → Bool) (len : Int)
    (h : (read buf room m.decode (.start type len)).2.value.data.isSome) :
    (read buf room m.decode (.start type len)).1 = true ∧ ∃ t ∈ m.blocks,
      room ((read buf room m.decode (.start type len)).2.value.int t.1) = true := by
  rcases hlast : m.decode.getLast? with _ | g
  · rw [List.getLast?_eq_none_iff.mp hlast] at h
    cases h
  obtain ⟨gets, hdecode⟩ := List.getLast?_eq_some_iff.mp hlast
  rw [hdecode, List.dropLast_concat] at hm
  have hnone := read_data hm buf room (.start type len)
  rw [hdecode, read_append] at h ⊢
  cases hread : (read buf room gets (.start type len)).1 with
  | false =>
      simp only [hread, Bool.false_eq_true, if_false] at h
      rw [hnone] at h
      cases h
  | true =>
      simp only [hread, if_true] at h ⊢
      set r := (read buf room gets (.start type len)).2
      cases hg : g.block? with
      | none =>
          have hsame : ∀ g' ∈ [g], g'.block? = none := by simpa using hg
          have hlast := read_data hsame buf room r
          rw [hlast, hnone] at h
          cases h
      | some t =>
          obtain ⟨size, guarded⟩ := t
          have hblock : g = .block size guarded := by
            cases g <;> simp_all [Get.block?]
          subst hblock
          have hmem : (size, guarded) ∈ m.blocks := by
            rw [Message.blocks, hdecode]
            simp [Get.block?]
          have hdata : r.value.data = none := hnone
          simp only [read, Get.read, hdata, Option.isSome_none, Bool.false_eq_true, if_false] at h ⊢
          split_ifs at h ⊢ with hskip hroom
          · rw [hdata] at h
            cases h
          · exact ⟨rfl, (size, guarded), hmem, hroom⟩
          · simp only [hdata] at h
            cases h

end Decide

def Put.most (type : F → CType F) : Put F → Nat
  | num _ k => k
  | str f =>
      match type f with
      | .string size => size
      | _ => 0
  | octets _ n => n
  | block _ => 0

/-- An item that writes a string of the structure, or one of the other plain ones. -/
def Put.Plain (type : F → CType F) (fields : List F) : Put F → Prop
  | num _ _ | octets _ _ => True
  | str f =>
      match type f with
      | .string _ => f ∈ fields
      | _ => False
  | block _ => False

instance [DecidableEq F] (type : F → CType F) (fields : List F) (p : Put F) :
    Decidable (p.Plain type fields) := by
  cases p
  case str f =>
    unfold Put.Plain
    dsimp only
    split
    all_goals infer_instance
  all_goals
    unfold Put.Plain
    infer_instance

theorem Put.Plain.length_write_le {p : Put F} {v : Value F} (hp : p.Plain type m.fields)
    (hv : ∀ f ∈ m.fields, InRange type v f) : (p.write v).length ≤ p.most type := by
  cases p with
  | num f k => exact Nat.le_of_eq (length_be _ _)
  | str f =>
      unfold Put.Plain at hp
      unfold Put.most
      cases htype : type f with
      | string size =>
          simp only [htype] at hp ⊢
          have hrange := hv f hp
          rw [InRange, htype] at hrange
          have hsize := hrange.1
          rw [Put.write]
          split_ifs
          · exact Nat.one_le_of_lt hsize
          · exact hsize
      | number k | octets n | buffer size =>
          simp only [htype] at hp
  | octets f n => exact List.length_take_le _ _
  | block size => exact hp.elim

theorem length_write_le_sum {puts : List (Put F)} {v : Value F}
    (hputs : ∀ p ∈ puts, p.Plain type m.fields) (hv : ∀ f ∈ m.fields, InRange type v f) :
    (write puts v).length ≤ (puts.map (Put.most type)).sum := by
  induction puts with
  | nil => exact Nat.le_refl _
  | cons p puts ih =>
      have hp := (hputs p (.head _)).length_write_le hv
      have hrest := ih fun p hp => hputs p (.tail _ hp)
      rw [write_cons, List.length_append, List.map_cons, List.sum_cons]
      omega

theorem length_encode_le {v : Value F} (hv : ∀ f ∈ m.fields, InRange type v f)
    (hinit : ∀ p ∈ m.encode.dropLast, p.Plain type m.fields)
    (hlast : ∀ p ∈ m.encode.getLast?, p.Plain type m.fields ∨ ∃ size, p = .block size) :
    (write m.encode v).length ≤ (m.encode.map (Put.most type)).sum + v.octets.length := by
  rcases h : m.encode.getLast? with _ | p
  · rw [List.getLast?_eq_none_iff.mp h]
    exact Nat.zero_le _
  obtain ⟨puts, hencode⟩ := List.getLast?_eq_some_iff.mp h
  rw [hencode, List.dropLast_concat] at hinit
  have hputs := length_write_le_sum hinit hv
  have hp : (p.write v).length ≤ p.most type + v.octets.length := by
    rcases hlast p h with hplain | ⟨size, rfl⟩
    · exact (hplain.length_write_le hv).trans (Nat.le_add_right _ _)
    · rw [Put.write]
      exact (List.length_take_le' _ _).trans (Nat.le_add_left _ _)
  have hone : (write [p] v).length = (p.write v).length := by simp [write]
  rw [hencode, write, List.flatMap_append, List.length_append, List.map_append, List.sum_append]
  change (write puts v).length + (write [p] v).length ≤ _
  rw [hone]
  simp only [List.map_cons, List.map_nil, List.sum_cons, List.sum_nil]
  omega

end OiAmc.MessageLayout

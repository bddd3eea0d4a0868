import Mathlib.Algebra.GroupWithZero.Nat
import OiAmc.MessageLayout

namespace OiAmc.MessageLayout

open ByteBuffer

variable {F : Type} {type : F → CType F} {m : Message F} {v w : Value F}

/-- A field has a value of its type: a string ends inside of its array, and a buffer has
as many octets as its size says. -/
def InRange (type : F → CType F) (v : Value F) (f : F) : Prop :=
  match type f with
  | .number k => (v.num f).toNat < 256 ^ k
  | .string size => (v.chars f).length < size ∧ 0 ∉ v.chars f
  | .octets n => (v.chars f).length = n
  | .buffer size => (v.octets.length : Int) = v.int size

def FieldEq (type : F → CType F) (v w : Value F) (f : F) : Prop :=
  match type f with
  | .number _ => v.num f = w.num f
  | .string _ | .octets _ => v.chars f = w.chars f
  | .buffer _ => v.octets = w.octets

def Get.num? : Get F → Option F
  | num f _ => some f
  | _ => none

def Get.text? : Get F → Option F
  | str f _ | octets f _ => some f
  | _ => none

def Get.block? : Get F → Option (F × Bool)
  | block size guarded => some (size, guarded)
  | _ => none

/-- How many octets a number takes. -/
def Get.width : Get F → Nat
  | num _ k => k
  | _ => 0

def CType.size? : CType F → Option F
  | buffer size => some size
  | _ => none

/-- Whether a decoder reads a field. -/
def Carries (type : F → CType F) (gets : List (Get F)) (f : F) : Prop :=
  match type f with
  | .number _ => f ∈ gets.filterMap Get.num?
  | .string _ | .octets _ => f ∈ gets.filterMap Get.text?
  | .buffer size => size ∈ (gets.filterMap Get.block?).map Prod.fst

/-- A plain item reads a field as the structure has it. -/
def Get.Typed (type : F → CType F) (fields : List F) : Get F → Prop
  | num f k => f ∈ fields ∧ type f = .number k ∧ 0 < k ∧ k ≤ 8
  | str f size => f ∈ fields ∧ type f = .string size ∧ size ≤ 256
  | octets f n => f ∈ fields ∧ type f = .octets n ∧ n ≤ 256
  | block _ _ => False

namespace Message

def heads (m : Message F) : List (Get F) := m.decode.filter fun g => g.block?.isNone

def blocks (m : Message F) : List (F × Bool) := m.decode.filterMap Get.block?

/-- Both functions go through the same items: plain ones, and in the end perhaps the one
buffer of the structure, behind nothing but numbers, one of which is its size. -/
def Regular (type : F → CType F) (m : Message F) : Prop :=
  m.encode = m.decode.map Get.put ∧
    m.decode = m.heads ++ m.blocks.map (fun t => .block t.1 t.2) ∧ m.blocks.length ≤ 1 ∧
    (∀ g ∈ m.heads, g.Typed type m.fields) ∧ m.heads.length ≤ 100 ∧
    ∀ t ∈ m.blocks, (∀ g ∈ m.heads, g.num?.isSome) ∧ t.1 ∈ m.heads.filterMap Get.num? ∧
      m.fields.filterMap (fun f => (type f).size?) = [t.1]

/-- The octets of the numbers in front of a block. -/
def width (m : Message F) : Nat := (m.heads.map Get.width).sum

end Message

/-- A structure that the functions keep whole: what they leave out is 0 or empty, the
count of the octets is an int, and there is room for the buffer. -/
def Faithful (type : F → CType F) (m : Message F) (room : Int → Bool) (v : Value F) : Prop :=
  (∀ f ∈ m.fields, Carries type m.decode f ∨ FieldEq type v (.cleared type) f) ∧
    ∀ t ∈ m.blocks, m.width + v.int t.1 ≤ 0x7fffffff ∧ (v.int t.1 = 0 ∨ room (v.int t.1))

theorem Get.Typed.fits {g : Get F} (hg : g.Typed type m.fields)
    (hv : ∀ f ∈ m.fields, InRange type v f) : g.Fits v := by
  cases g with
  | num f k =>
      obtain ⟨hf, htype, -⟩ := hg
      have h := hv f hf
      rwa [InRange, htype] at h
  | str f size =>
      obtain ⟨hf, htype, hsize⟩ := hg
      have h := hv f hf
      rw [InRange, htype] at h
      exact ⟨h.1, hsize⟩
  | octets f n =>
      obtain ⟨hf, htype, -⟩ := hg
      have h := hv f hf
      rwa [InRange, htype] at h
  | block size guarded => exact hg.elim

theorem Get.Typed.length_write {g : Get F} (hg : g.Typed type m.fields) (hv : g.Fits v) :
    (g.put.write v).length ≤ 256 := by
  cases g with
  | num f k =>
      rw [put, Put.write, length_be]
      exact hg.2.2.2.trans (by omega)
  | str f size =>
      rw [put, Put.write]
      split
      · simp
      · have h := hv.1
        have hsize := hg.2.2
        rw [List.length_cons]
        omega
  | octets f n => exact (List.length_take_le _ _).trans hg.2.2
  | block size guarded => exact hg.elim

theorem length_write_le {gets : List (Get F)} (h : ∀ g ∈ gets, (g.put.write v).length ≤ 256) :
    (write (gets.map Get.put) v).length ≤ 256 * gets.length := by
  induction gets with
  | nil => simp [write]
  | cons g gets ih =>
      have hhead := h g (.head _)
      have htail := ih fun g hg => h g (.tail _ hg)
      rw [List.map_cons, write_cons, List.length_append, List.length_cons]
      omega

theorem length_write_nums {gets : List (Get F)} (h : ∀ g ∈ gets, g.num?.isSome) :
    (write (gets.map Get.put) v).length = (gets.map Get.width).sum := by
  induction gets with
  | nil => rfl
  | cons g gets ih =>
      have hhead : (g.put.write v).length = g.width := by
        cases g with
        | num f k => exact length_be _ _
        | str f size | octets f n | block size guarded => exact absurd (h _ (.head _)) (by simp [Get.num?])
      rw [List.map_cons, write_cons, List.length_append, hhead,
        ih fun g hg => h g (.tail _ hg), List.map_cons, List.sum_cons]

theorem returned_of_le {n : Nat} (h : n ≤ 0x7fffffff) : returned n = n := by
  apply Int.bmod_eq_of_le
  · omega
  · omega

theorem returned_neg {n : Nat} (h : 0x7fffffff < n) (hn : n < 0x100000000) : returned n < 0 := by
  have hwrap : returned n = n - 0x100000000 :=
    (Int.bmod_eq_iff (by decide)).mpr ⟨by omega, by omega, -1, by omega⟩
  omega

namespace Message.Regular

variable (hm : m.Regular type) (hv : ∀ f ∈ m.fields, InRange type v f)

section

include hm

theorem filterMap_decode {α : Type} (get : Get F → Option α)
    (hget : ∀ size guarded, get (.block size guarded) = none) :
    m.decode.filterMap get = m.heads.filterMap get := by
  have hblocks : (m.blocks.map fun t => Get.block t.1 t.2).filterMap get = [] := by
    rw [List.filterMap_eq_nil_iff]
    intro g hg
    obtain ⟨t, -, rfl⟩ := List.mem_map.mp hg
    exact hget t.1 t.2
  rw [hm.2.1, List.filterMap_append, hblocks, List.append_nil]

theorem carries_iff {f : F} (hf : (type f).size? = none) :
    Carries type m.decode f ↔ Carries type m.heads f := by
  unfold Carries
  cases htype : type f with
  | number k => simp only [hm.filterMap_decode Get.num? fun _ _ => rfl]
  | string size | octets n => simp only [hm.filterMap_decode Get.text? fun _ _ => rfl]
  | buffer size =>
      rw [htype] at hf
      cases hf

theorem write_encode : write m.encode v =
    write (m.heads.map Get.put) v ++ write (m.blocks.map fun t => .block t.1) v := by
  have hputs : m.encode =
      m.heads.map Get.put ++ m.blocks.map fun t => .block t.1 := by
    rw [hm.1, hm.2.1, List.map_append, List.map_map]
    rfl
  rw [hputs, write, List.flatMap_append]
  rfl

include hv

theorem fits : ∀ g ∈ m.heads, g.Fits v := fun g hg => (hm.2.2.2.1 g hg).fits hv

theorem length_heads_le : (write (m.heads.map Get.put) v).length ≤ 25600 := by
  have h := length_write_le (v := v) fun g hg => (hm.2.2.2.1 g hg).length_write (hm.fits hv g hg)
  have hlen := hm.2.2.2.2.1
  omega

end

section Block

variable {size : F} {guarded : Bool} (hblocks : m.blocks = [(size, guarded)])

include hm hblocks

theorem nums : ∀ g ∈ m.heads, g.num?.isSome := by
  have h := hm.2.2.2.2.2 (size, guarded)
  rw [hblocks] at h
  exact (h (.head _)).1

theorem size_mem : size ∈ m.heads.filterMap Get.num? := by
  have h := hm.2.2.2.2.2 (size, guarded)
  rw [hblocks] at h
  exact (h (.head _)).2.1

theorem sizes : m.fields.filterMap (fun f => (type f).size?) = [size] := by
  have h := hm.2.2.2.2.2 (size, guarded)
  rw [hblocks] at h
  exact (h (.head _)).2.2

theorem buffer_of_size {f : F} (hf : f ∈ m.fields) {s : F} (h : (type f).size? = some s) :
    type f = .buffer size := by
  have hmem : s ∈ m.fields.filterMap fun f => (type f).size? := List.mem_filterMap.mpr ⟨f, hf, h⟩
  rw [hm.sizes hblocks, List.mem_singleton] at hmem
  cases htype : type f <;> simp_all [CType.size?]

theorem exists_buffer : ∃ f ∈ m.fields, type f = .buffer size := by
  have hmem : size ∈ m.fields.filterMap fun f => (type f).size? := by
    rw [hm.sizes hblocks]
    exact .head _
  obtain ⟨f, hf, h⟩ := List.mem_filterMap.mp hmem
  exact ⟨f, hf, hm.buffer_of_size hblocks hf h⟩

include hv

theorem length_octets : (v.octets.length : Int) = v.int size := by
  obtain ⟨f, hf, htype⟩ := hm.exists_buffer hblocks
  have h := hv f hf
  rwa [InRange, htype] at h

theorem write_block : write m.encode v = write (m.heads.map Get.put) v ++ v.octets := by
  have hlen := hm.length_octets hv hblocks
  rw [hm.write_encode, hblocks]
  apply congrArg (write (m.heads.map Get.put) v ++ ·)
  rw [List.map_singleton, write_cons, Put.write, List.take_of_length_le (by simp only; omega)]
  exact List.append_nil _

theorem length_write : ((write m.encode v).length : Int) = m.width + v.int size := by
  rw [hm.write_block hv hblocks, List.length_append, length_write_nums (hm.nums hblocks), ← hm.length_octets hv hblocks]
  rfl

end Block

end Message.Regular

section Decide

variable [DecidableEq F]

instance (type : F → CType F) (fields : List F) (g : Get F) : Decidable (g.Typed type fields) := by
  cases g
  all_goals
    unfold Get.Typed
    infer_instance

instance (type : F → CType F) (m : Message F) : Decidable (m.Regular type) := by
  unfold Message.Regular
  infer_instance

/-- What the encoder wrote is decoded to an equal structure, up to its last octet. The
octets behind it may be any. -/
def RoundTrips (type : F → CType F) (m : Message F) (room : Int → Bool) (v : Value F) : Prop :=
  ∀ buf : Octets, entries buf 0 (write m.encode v).length = write m.encode v →
    let result := read buf room m.decode (.start type (returned (write m.encode v).length))
    result.1 = true ∧ (∀ f ∈ m.fields, FieldEq type v result.2.value f) ∧
      result.2.seen = (write m.encode v).length

section Stored

variable (v w : Value F) (gets : List (Get F)) (f : F)

theorem ite_store {α : Type} (x : F → α) (y : α) (f f' : F) (P : Prop) [Decidable P] :
    (if P then x f else if f = f' then x f' else y) = if f = f' ∨ P then x f else y := by
  by_cases hf : f = f'
  · simp [hf]
  · simp [hf]

theorem foldl_store_num : (gets.foldl (fun w g => g.store v w) w).num f =
    if f ∈ gets.filterMap Get.num? then v.num f else w.num f := by
  induction gets generalizing w with
  | nil => rfl
  | cons g gets ih =>
      rw [List.foldl_cons, ih]
      cases g with
      | num f' k =>
          simp only [Get.store, Value.setNum, List.filterMap_cons, Get.num?, List.mem_cons]
          exact ite_store v.num _ f f' _
      | str f' size | octets f' n | block size guarded => rfl

theorem foldl_store_chars : (gets.foldl (fun w g => g.store v w) w).chars f =
    if f ∈ gets.filterMap Get.text? then v.chars f else w.chars f := by
  induction gets generalizing w with
  | nil => rfl
  | cons g gets ih =>
      rw [List.foldl_cons, ih]
      cases g with
      | str f' size | octets f' n =>
          simp only [Get.store, Value.setChars, List.filterMap_cons, Get.text?, List.mem_cons]
          exact ite_store v.chars _ f f' _
      | num f' k | block size guarded => rfl

theorem foldl_store_data : (gets.foldl (fun w g => g.store v w) w).data = w.data := by
  induction gets generalizing w with
  | nil => rfl
  | cons g gets ih =>
      rw [List.foldl_cons, ih]
      cases g <;> rfl

theorem fieldEq_stored (hf : (type f).size? = none) :
    FieldEq type v (gets.foldl (fun w g => g.store v w) (.cleared type)) f ↔
      Carries type gets f ∨ FieldEq type v (.cleared type) f := by
  unfold FieldEq Carries
  cases htype : type f with
  | number k =>
      simp only [foldl_store_num]
      split_ifs with h <;> simp [h]
  | string size | octets n =>
      simp only [foldl_store_chars]
      split_ifs with h <;> simp [h]
  | buffer size =>
      rw [htype] at hf
      cases hf

end Stored

namespace Message.Regular

variable (hm : m.Regular type) (hv : ∀ f ∈ m.fields, InRange type v f)

include hm hv

theorem read_heads (buf : Octets) (room : Int → Bool) (len : Int)
    (hbuf : entries buf 0 (write (m.heads.map Get.put) v).length = write (m.heads.map Get.put) v)
    (hle : (write (m.heads.map Get.put) v).length ≤ len) :
    ∃ r, (∀ rest, read buf room (m.heads ++ rest) (.start type len) = read buf room rest r) ∧
      r.pos = (write (m.heads.map Get.put) v).length ∧ r.seen = r.pos ∧
      r.value = m.heads.foldl (fun w g => g.store v w) (.cleared type) := by
  obtain ⟨r, hread, hpos, hseen, -, -, hvalue⟩ :=
    read_write (hm.fits hv) buf room (r := .start type len) hbuf hle rfl
  exact ⟨r, hread, by rw [hpos]; exact Nat.zero_add _, hseen, hvalue⟩

theorem roundTrips_plain (hblocks : m.blocks = []) (room : Int → Bool) :
    RoundTrips type m room v ↔
      ∀ f ∈ m.fields, Carries type m.decode f ∨ FieldEq type v (.cleared type) f := by
  have hdecode : m.decode = m.heads ++ [] := by
    have h := hm.2.1
    rwa [hblocks] at h
  have hwrite : write m.encode v = write (m.heads.map Get.put) v := by
    rw [hm.write_encode, hblocks]
    exact List.append_nil _
  have hlen : (write m.encode v).length ≤ 0x7fffffff := by
    rw [hwrite]
    exact (hm.length_heads_le hv).trans (by omega)
  have hfield (f : F) : FieldEq type v (m.heads.foldl (fun w g => g.store v w) (.cleared type)) f ↔
      Carries type m.decode f ∨ FieldEq type v (.cleared type) f := by
    cases hsize : (type f).size? with
    | none => rw [fieldEq_stored v m.heads f hsize, hm.carries_iff hsize]
    | some size =>
        have htype : type f = .buffer size := by
          cases h : type f <;> simp_all [CType.size?]
        simp only [FieldEq, Carries, htype, Value.octets, foldl_store_data]
        change _ ↔ size ∈ m.blocks.map Prod.fst ∨ _
        rw [hblocks]
        simp
  have hresult (buf : Octets) (hbuf : entries buf 0 (write m.encode v).length = write m.encode v) :
      ∃ r, read buf room m.decode (.start type (returned (write m.encode v).length)) = (true, r) ∧
        r.seen = (write m.encode v).length ∧
        r.value = m.heads.foldl (fun w g => g.store v w) (.cleared type) := by
    rw [returned_of_le hlen]
    rw [hwrite] at hbuf ⊢
    obtain ⟨r, hread, hpos, hseen, hvalue⟩ := hm.read_heads hv buf room _ hbuf (le_refl _)
    rw [hdecode, hread]
    exact ⟨r, rfl, hseen.trans hpos, hvalue⟩
  constructor
  · intro h f hf
    have hbuf : entries (fun i => (write m.encode v).getD i 0) 0 (write m.encode v).length =
        write m.encode v := by
      simp only [entries, Nat.zero_add]
      exact map_getD_range _ _
    obtain ⟨r, hread, -, hvalue⟩ := hresult _ hbuf
    have hround := (h _ hbuf).2.1 f hf
    rw [hread, hvalue] at hround
    exact (hfield f).mp hround
  · intro h buf hbuf
    obtain ⟨r, hread, hseen, hvalue⟩ := hresult buf hbuf
    rw [hread]
    refine ⟨rfl, fun f hf => ?_, hseen⟩
    rw [hvalue]
    exact (hfield f).mpr (h f hf)

end Message.Regular

def memory (l : List UInt8) : Octets := fun i => l.getD i 0

theorem entries_memory (l : List UInt8) : entries (memory l) 0 l.length = l := by
  simp only [entries, memory, Nat.zero_add]
  exact map_getD_range _ _

theorem read_block (buf : Octets) (room : Int → Bool) (size : F) (guarded : Bool) {r : Reader F}
    (hdata : r.value.data = none) (hseen : r.seen = r.pos) (hsize : 0 ≤ r.value.int size) :
    ∃ r', read buf room [.block size guarded] r = (true, r') ∧ r'.value.num = r.value.num ∧
      r'.value.chars = r.value.chars ∧
      (r.value.int size = 0 ∨ room (r.value.int size) →
        r'.value.octets = entries buf r.pos (r.value.int size).toNat ∧
          r'.seen = r.pos + (r.value.int size).toNat) ∧
      (¬(r.value.int size = 0 ∨ room (r.value.int size)) → r'.value.octets = []) := by
  have hnone : r.value.octets = [] := by rw [Value.octets, hdata]; rfl
  simp only [read, Get.read, hdata, Option.isSome_none, Bool.false_eq_true, if_false]
  by_cases hguard : guarded ∧ r.value.int size ≤ 0
  · have hzero : r.value.int size = 0 := by omega
    simp only [if_pos hguard]
    refine ⟨r, rfl, rfl, rfl, fun _ => ?_, fun h => absurd (.inl hzero) h⟩
    rw [hnone, hzero]
    exact ⟨rfl, hseen⟩
  · simp only [if_neg hguard]
    by_cases hroom : room (r.value.int size) = true
    · simp only [if_pos hroom]
      refine ⟨_, rfl, rfl, rfl, fun _ => ⟨rfl, ?_⟩, fun h => absurd (.inr hroom) h⟩
      exact Nat.max_eq_right (by omega)
    · simp only [if_neg hroom]
      refine ⟨_, rfl, rfl, rfl, ?_, fun _ => hnone⟩
      rintro (hzero | h)
      · rw [hzero]
        exact ⟨hnone, hseen⟩
      · exact absurd h hroom

namespace Message.Regular

variable (hm : m.Regular type) (hv : ∀ f ∈ m.fields, InRange type v f) {size : F} {guarded : Bool}
  (hblocks : m.blocks = [(size, guarded)])

include hm hblocks

theorem read_neg (buf : Octets) (room : Int → Bool) {len : Int} (hlen : len < 0) :
    (read buf room m.decode (.start type len)).1 = false := by
  have hnums := hm.nums hblocks
  have hsize := hm.size_mem hblocks
  rw [hm.2.1]
  cases hheads : m.heads with
  | nil =>
      rw [hheads] at hsize
      cases hsize
  | cons g gets =>
      rw [hheads] at hnums
      cases g with
      | num f k =>
          have hleft : (Reader.start type len).left < (k : Int) := by
            change len < k
            omega
          simp only [List.cons_append, read, Get.read, if_pos hleft]
      | str f size | octets f n | block s g => exact absurd (hnums _ (.head _)) (by simp [Get.num?])

include hv

theorem read_all (buf : Octets) (room : Int → Bool) (hle : m.width + v.int size ≤ 0x7fffffff)
    (hbuf : entries buf 0 (write m.encode v).length = write m.encode v) :
    ∃ r, read buf room m.decode (.start type (returned (write m.encode v).length)) = (true, r) ∧
      (∀ f ∈ m.fields, (type f).size? = none →
        (FieldEq type v r.value f ↔ Carries type m.decode f ∨ FieldEq type v (.cleared type) f)) ∧
      (v.int size = 0 ∨ room (v.int size) →
        r.value.octets = v.octets ∧ r.seen = (write m.encode v).length) ∧
      (¬(v.int size = 0 ∨ room (v.int size)) → r.value.octets = []) := by
  have hcount := hm.length_write hv hblocks
  have hoctets := hm.length_octets hv hblocks
  rw [returned_of_le (by omega)]
  have hwrite := hm.write_block hv hblocks
  rw [hwrite, List.length_append, entries_append] at hbuf
  obtain ⟨hhead, htail⟩ := List.append_inj hbuf (length_entries _ _ _)
  obtain ⟨r, hread, hpos, hseen, hvalue⟩ := hm.read_heads hv buf room
    (write m.encode v).length hhead (by rw [hwrite, List.length_append]; omega)
  have hdata : r.value.data = none := by rw [hvalue, foldl_store_data]; rfl
  have hint : r.value.int size = v.int size := by
    rw [Value.int, Value.int, hvalue, foldl_store_num, if_pos (hm.size_mem hblocks)]
  obtain ⟨r', hblock, hnum, hchars, hgood, hbad⟩ :=
    read_block buf room size guarded hdata hseen (by omega)
  rw [hint] at hgood hbad
  refine ⟨r', ?_, fun f _ hf => ?_, fun h => ?_, hbad⟩
  · rw [hm.2.1, hblocks, hread]
    exact hblock
  · rw [hm.carries_iff hf, ← fieldEq_stored v m.heads f hf, ← hvalue]
    unfold FieldEq
    cases htype : type f with
    | number k => simp only [hnum]
    | string n | octets n => simp only [hchars]
    | buffer s =>
        rw [htype] at hf
        cases hf
  · obtain ⟨hdata', hseen'⟩ := hgood h
    rw [hdata', hseen', hpos, ← hoctets, Int.toNat_natCast]
    refine ⟨?_, ?_⟩
    · rw [Nat.zero_add] at htail
      exact htail
    · rw [hwrite, List.length_append]

theorem roundTrips_block (room : Int → Bool) : RoundTrips type m room v ↔ Faithful type m room v := by
  have hcount := hm.length_write hv hblocks
  have hoctets := hm.length_octets hv hblocks
  obtain ⟨f₀, hf₀, htype₀⟩ := hm.exists_buffer hblocks
  have hcarried {f : F} (hf : f ∈ m.fields) {s : F} (hs : (type f).size? = some s) :
      Carries type m.decode f := by
    have htype := hm.buffer_of_size hblocks hf hs
    simp only [Carries, htype]
    change size ∈ m.blocks.map Prod.fst
    rw [hblocks]
    exact .head _
  rw [Faithful, hblocks, List.forall_mem_singleton]
  constructor
  · intro h
    have hround := h _ (entries_memory _)
    have hle : m.width + v.int size ≤ 0x7fffffff := by
      by_contra hgt
      have hhead := hm.length_heads_le hv
      have hwidth := length_write_nums (v := v) (hm.nums hblocks)
      have hint : v.int size < 2 ^ 31 := BitVec.toInt_lt
      change _ = m.width at hwidth
      have hneg := returned_neg (n := (write m.encode v).length) (by omega) (by omega)
      exact Bool.false_ne_true ((hm.read_neg hblocks _ room hneg).symm.trans hround.1)
    obtain ⟨r, hread, hfields, -, hbad⟩ := hm.read_all hv hblocks _ room hle (entries_memory _)
    rw [hread] at hround
    refine ⟨fun f hf => ?_, hle, ?_⟩
    · cases hs : (type f).size? with
      | none => exact (hfields f hf hs).mp (hround.2.1 f hf)
      | some s => exact .inl (hcarried hf hs)
    · by_contra hroom
      have heq := hround.2.1 f₀ hf₀
      rw [FieldEq, htype₀] at heq
      simp only [hbad hroom] at heq
      rw [heq] at hoctets
      exact hroom (.inl hoctets.symm)
  · rintro ⟨hfaithful, hle, hroom⟩ buf hbuf
    obtain ⟨r, hread, hfields, hgood, -⟩ := hm.read_all hv hblocks buf room hle hbuf
    rw [hread]
    refine ⟨rfl, fun f hf => ?_, (hgood hroom).2⟩
    cases hs : (type f).size? with
    | none => exact (hfields f hf hs).mpr (hfaithful f hf)
    | some s =>
        rw [FieldEq, hm.buffer_of_size hblocks hf hs]
        exact (hgood hroom).1.symm

omit hblocks in
theorem roundTrips_iff (room : Int → Bool) : RoundTrips type m room v ↔ Faithful type m room v := by
  cases hblocks : m.blocks with
  | nil =>
      rw [hm.roundTrips_plain hv hblocks, Faithful, hblocks]
      simp
  | cons t ts =>
      have hlen := hm.2.2.1
      rw [hblocks, List.length_cons] at hlen
      obtain rfl : ts = [] := List.length_eq_zero_iff.mp (by omega)
      exact hm.roundTrips_block hv hblocks room

end Message.Regular

theorem not_roundTrips {puts : List (Put F)} (hm : m.encode = m.decode.map Get.put ++ puts)
    (htyped : ∀ g ∈ m.decode, g.Typed type m.fields) (hv : ∀ f ∈ m.fields, InRange type v f)
    (hle : (write m.encode v).length ≤ 0x7fffffff) (hputs : write puts v ≠ []) (room : Int → Bool) :
    ¬RoundTrips type m room v := by
  intro h
  obtain ⟨-, -, hseen⟩ := h _ (entries_memory _)
  have hwrite : write m.encode v = write (m.decode.map Get.put) v ++ write puts v := by
    rw [hm, write, List.flatMap_append]
    rfl
  have hbuf := entries_memory (write m.encode v)
  have hlen := congrArg List.length hwrite
  rw [List.length_append] at hlen
  rw [hlen, hwrite, entries_append] at hbuf
  obtain ⟨hhead, -⟩ := List.append_inj hbuf (length_entries _ _ _)
  rw [← hwrite] at hhead
  have hleft : ((write (m.decode.map Get.put) v).length : Int) ≤ (write m.encode v).length := by omega
  obtain ⟨r, hread, hpos, hseen', -⟩ := read_write (fun g hg => (htyped g hg).fits hv) _ room
    (r := .start type (write m.encode v).length) hhead hleft rfl
  have hall := hread []
  rw [List.append_nil] at hall
  rw [returned_of_le hle, hall] at hseen
  have hpos' : r.pos = (write (m.decode.map Get.put) v).length := by
    rw [hpos]
    exact Nat.zero_add _
  have hmore := List.length_pos_iff.mpr hputs
  have hstop : r.seen = (write m.encode v).length := hseen
  omega

end Decide

end OiAmc.MessageLayout

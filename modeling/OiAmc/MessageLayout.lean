import Mathlib.Data.UInt
import OiAmc.ByteBuffer

namespace OiAmc.MessageLayout

open ByteBuffer

abbrev Octets := Nat → UInt8

variable {F : Type}

/-- The C type of a field. A buffer is a pointer to as many octets as the field of its
size says. -/
inductive CType (F : Type)
  | number (octets : Nat)
  | string (size : Nat)
  | octets (n : Nat)
  | buffer (size : F)
  deriving DecidableEq

/-- The fields of a structure. The characters of a string are those in front of the NUL. -/
structure Value (F : Type) where
  num : F → UInt32
  chars : F → List UInt8
  data : Option (List UInt8)

def Value.cleared (type : F → CType F) : Value F where
  num := fun _ => 0
  chars := fun f =>
    match type f with
    | .octets n => List.replicate n 0
    | _ => []
  data := none

def Value.int (v : Value F) (f : F) : Int := (v.num f).toBitVec.toInt

def Value.octets (v : Value F) : List UInt8 := v.data.getD []

inductive Put (F : Type)
  | num (f : F) (k : Nat)
  | str (f : F)
  | octets (f : F) (n : Nat)
  | block (size : F)
  deriving DecidableEq

/-- What a decoder reads next. `octets` does not look at what is left, nor does
`block`, which allocates as much as the size says; one that is guarded does
nothing for a size of 0 or less. -/
inductive Get (F : Type)
  | num (f : F) (k : Nat)
  | str (f : F) (size : Nat)
  | octets (f : F) (n : Nat)
  | block (size : F) (guarded : Bool)
  deriving DecidableEq

structure Message (F : Type) where
  fields : List F
  encode : List (Put F)
  decode : List (Get F)

/-- What an encoder writes for a decoder to read it back. -/
def Get.put : Get F → Put F
  | num f k => .num f k
  | str f _ => .str f
  | octets f n => .octets f n
  | block size _ => .block size

/-- The k low octets of a number, the highest first. -/
def be : Nat → Nat → List UInt8
  | 0, _ => []
  | k + 1, v => be k (v / 256) ++ [.ofNat v]

def fromBe (l : List UInt8) : Nat := l.foldl (fun a o => 256 * a + o.toNat) 0

@[simp] theorem length_be (k v : Nat) : (be k v).length = k := by
  induction k generalizing v with
  | zero => rfl
  | succ k ih => rw [be, List.length_append, ih, List.length_singleton]

theorem fromBe_be (k v : Nat) : fromBe (be k v) = v % 256 ^ k := by
  induction k generalizing v with
  | zero => simp [be, fromBe, Nat.mod_one]
  | succ k ih =>
      have hlast : (UInt8.ofNat v).toNat = v % 256 := UInt8.toNat_ofNat'
      have hrest := ih (v / 256)
      rw [fromBe] at hrest
      rw [be, fromBe, List.foldl_append, List.foldl_cons, List.foldl_nil, hrest, hlast,
        Nat.pow_succ', Nat.mod_mul]
      omega

def Put.write (v : Value F) : Put F → List UInt8
  | num f k => be k (v.num f).toNat
  | str f => if v.chars f = [] then [0] else .ofNat (v.chars f).length :: v.chars f
  | octets f n => (v.chars f).take n
  | block size => v.octets.take (v.int size).toNat

def write (puts : List (Put F)) (v : Value F) : List UInt8 := puts.flatMap fun p => p.write v

theorem write_cons (p : Put F) (puts : List (Put F)) (v : Value F) :
    write (p :: puts) v = p.write v ++ write puts v := List.flatMap_cons

theorem entries_of_cons {buf : Octets} {a : Nat} {o : UInt8} {l : List UInt8}
    (h : entries buf a (o :: l).length = o :: l) :
    buf a = o ∧ entries buf (a + 1) l.length = l := by
  rw [List.length_cons, Nat.add_comm, entries_append] at h
  exact List.cons.inj h

/-- The number of octets as a function returns it, an int. -/
def returned (n : Nat) : Int := (n : Int).bmod 0x100000000

/-- Where a decoder stands: how far it went, what it holds to be left, the octets it
looked at, and the sizes it asked memory for, each with what was left then. -/
structure Reader (F : Type) where
  pos : Nat
  left : Int
  seen : Nat
  asked : List (Int × Int)
  value : Value F

/-- At the start of len octets, with a cleared structure to fill. -/
def Reader.start (type : F → CType F) (len : Int) : Reader F := ⟨0, len, 0, [], .cleared type⟩

def Reader.look (r : Reader F) (n : Nat) : Reader F := { r with seen := max r.seen (r.pos + n) }

/-- Go on behind n octets, which are no longer left. -/
def Reader.skip (r : Reader F) (n : Nat) : Reader F :=
  { r with
    pos := r.pos + n
    left := r.left - n }

section Decode

variable [DecidableEq F]

def Value.setNum (v : Value F) (f : F) (n : UInt32) : Value F :=
  { v with num := fun g => if g = f then n else v.num g }

def Value.setChars (v : Value F) (f : F) (l : List UInt8) : Value F :=
  { v with chars := fun g => if g = f then l else v.chars g }

/-- `room`: whether malloc finds room for a size. -/
def Get.read (buf : Octets) (room : Int → Bool) (r : Reader F) : Get F → Bool × Reader F
  | num f k =>
      if r.left < k then (false, r)
      else (true, { (r.look k).skip k with
                    value := r.value.setNum f (.ofNat (fromBe (entries buf r.pos k))) })
  | str f size =>
      if r.left < 1 then (false, r)
      else
        let n := (buf r.pos).toNat
        if n = 0 then (true, { (r.look 1).skip 1 with value := r.value.setChars f [] })
        else if r.left < n + 1 then (false, r.look 1)
        else
          let copied := if size ≤ n then size - 1 else n
          (true, { (r.look (1 + copied)).skip (n + 1) with
                   value := r.value.setChars f (entries buf (r.pos + 1) copied) })
  | octets f n =>
      (true, { r.look n with
               pos := r.pos + n
               value := r.value.setChars f (entries buf r.pos n) })
  | block size guarded =>
      if r.value.data.isSome then (true, r)
      else
        let n := r.value.int size
        if guarded ∧ n ≤ 0 then (true, r)
        else if room n then
          (true, { r.look n.toNat with
                   asked := r.asked ++ [(n, r.left)]
                   value := { r.value with data := some (entries buf r.pos n.toNat) } })
        else (true, { r with asked := r.asked ++ [(n, r.left)] })

/-- The result, false for -1, and where the decoder then stands. -/
def read (buf : Octets) (room : Int → Bool) : List (Get F) → Reader F → Bool × Reader F
  | [], r => (true, r)
  | g :: gs, r =>
      match g.read buf room r with
      | (true, r) => read buf room gs r
      | (false, r) => (false, r)

def Get.store (v : Value F) (w : Value F) : Get F → Value F
  | num f _ => w.setNum f (v.num f)
  | str f _ | octets f _ => w.setChars f (v.chars f)
  | block _ _ => w

/-- A plain item: its field is such that it can be read back. -/
def Get.Fits (v : Value F) : Get F → Prop
  | num f k => (v.num f).toNat < 256 ^ k
  | str f size => (v.chars f).length < size ∧ size ≤ 256
  | octets f n => (v.chars f).length = n
  | block _ _ => False

theorem Get.read_put {g : Get F} {v : Value F} (hfits : g.Fits v) (buf : Octets)
    (room : Int → Bool) {r : Reader F}
    (hbuf : entries buf r.pos (g.put.write v).length = g.put.write v)
    (hleft : ((g.put.write v).length : Int) ≤ r.left) (hseen : r.seen ≤ r.pos) :
    ∃ r', g.read buf room r = (true, r') ∧ r'.pos = r.pos + (g.put.write v).length ∧
      r'.seen = r'.pos ∧ r.left - (g.put.write v).length ≤ r'.left ∧ r'.asked = r.asked ∧
      r'.value = g.store v r.value := by
  cases g with
  | num f k =>
      simp only [put, Put.write, length_be] at hbuf hleft ⊢
      have hvalue : UInt32.ofNat (fromBe (entries buf r.pos k)) = v.num f := by
        rw [hbuf, fromBe_be, Nat.mod_eq_of_lt hfits, UInt32.ofNat_toNat]
      refine ⟨_, if_neg (by omega), rfl, ?_, le_refl _, rfl, ?_⟩
      · exact Nat.max_eq_right (by omega)
      · rw [hvalue]
        rfl
  | str f size =>
      obtain ⟨hlength, hsize⟩ := hfits
      by_cases hnil : v.chars f = []
      · simp only [put, Put.write, if_pos hnil] at hbuf hleft ⊢
        have hzero : (buf r.pos).toNat = 0 := by rw [(entries_of_cons hbuf).1]; rfl
        refine ⟨{ (r.look 1).skip 1 with value := r.value.setChars f [] }, ?_, rfl, ?_, le_refl _, rfl, ?_⟩
        · rw [Get.read, if_neg (by simpa using hleft), hzero]
          rfl
        · exact Nat.max_eq_right (by omega)
        · rw [store, hnil]
      · simp only [put, Put.write, if_neg hnil, List.length_cons] at hbuf hleft ⊢
        obtain ⟨hfirst, hrest⟩ := entries_of_cons hbuf
        have hpos : 0 < (v.chars f).length := List.length_pos_iff.mpr hnil
        have hcount : (buf r.pos).toNat = (v.chars f).length := by
          rw [hfirst, UInt8.toNat_ofNat']
          omega
        refine ⟨{ (r.look (1 + (v.chars f).length)).skip ((v.chars f).length + 1) with
                  value := r.value.setChars f (v.chars f) }, ?_, rfl, ?_, le_refl _, rfl, rfl⟩
        · rw [Get.read, if_neg (by omega), hcount]
          simp only [if_neg (Nat.ne_of_gt hpos)]
          rw [if_neg (by omega), if_neg (by omega), hrest]
        · exact (Nat.max_eq_right (by omega)).trans (by rw [Nat.add_comm 1]; rfl)
  | octets f n =>
      have htake : (v.chars f).take n = v.chars f := List.take_of_length_le (Nat.le_of_eq hfits)
      simp only [put, Put.write, htake] at hbuf hleft ⊢
      rw [show (v.chars f).length = n from hfits] at hbuf hleft ⊢
      have hshort : r.left - (n : Int) ≤ r.left := by omega
      refine ⟨_, rfl, rfl, ?_, hshort, rfl, ?_⟩
      · exact Nat.max_eq_right (by omega)
      · rw [hbuf]
        rfl
  | block size guarded => exact hfits.elim

theorem read_write {gets : List (Get F)} {v : Value F} (hfits : ∀ g ∈ gets, g.Fits v) (buf : Octets)
    (room : Int → Bool) {r : Reader F}
    (hbuf : entries buf r.pos (write (gets.map Get.put) v).length = write (gets.map Get.put) v)
    (hleft : ((write (gets.map Get.put) v).length : Int) ≤ r.left) (hseen : r.seen = r.pos) :
    ∃ r', (∀ rest, read buf room (gets ++ rest) r = read buf room rest r') ∧
      r'.pos = r.pos + (write (gets.map Get.put) v).length ∧ r'.seen = r'.pos ∧
      r.left - (write (gets.map Get.put) v).length ≤ r'.left ∧ r'.asked = r.asked ∧
      r'.value = gets.foldl (fun w g => g.store v w) r.value := by
  induction gets generalizing r with
  | nil => exact ⟨r, fun _ => rfl, rfl, hseen, by simp [write], rfl, rfl⟩
  | cons g gets ih =>
      rw [List.map_cons, write_cons, List.length_append] at hbuf hleft ⊢
      rw [entries_append] at hbuf
      obtain ⟨hhead, htail⟩ := List.append_inj hbuf (length_entries _ _ _)
      obtain ⟨r₁, hread, hpos, hseen₁, hleft₁, hasked, hvalue⟩ :=
        Get.read_put (hfits g (.head _)) buf room hhead (by omega) (Nat.le_of_eq hseen)
      rw [← hpos] at htail
      obtain ⟨r', hrest, hpos', hseen', hleft', hasked', hvalue'⟩ :=
        ih (fun g hg => hfits g (.tail _ hg)) htail (by omega) hseen₁
      refine ⟨r', ?_, by omega, hseen', by omega, hasked'.trans hasked, ?_⟩
      · intro rest
        rw [List.cons_append, read, hread]
        exact hrest rest
      · rw [hvalue', hvalue, List.foldl_cons]

end Decode

end OiAmc.MessageLayout

import Mathlib.Data.List.Basic
import Mathlib.Logic.Function.Basic
import Mathlib.Data.Nat.Digits.Defs
import Mathlib.Tactic.Ring
import Mathlib.Data.List.Nodup

namespace OiAmc.ByteBuffer

variable {α : Type} {cap a n : Nat} {b b' src : Nat → α}

/-- The n entries from a on of an array of size cap. A view past the end has no
outcome. -/
def view (cap : Nat) (b : Nat → α) (a n : Nat) : Option (Nat → α) :=
  if a + n ≤ cap then some fun i => b (a + i) else none

def overlay (b : Nat → α) (a n : Nat) (src : Nat → α) : Nat → α :=
  fun i => if a ≤ i ∧ i < a + n then src (i - a) else b i

/-- Copy n entries to an array of size cap, from a on. A copy past the end has no
outcome. -/
def store (cap : Nat) (b : Nat → α) (a n : Nat) (src : Nat → α) : Option (Nat → α) :=
  if a + n ≤ cap then some (overlay b a n src) else none

theorem view_of_le (h : a + n ≤ cap) : view cap b a n = some fun i => b (a + i) := if_pos h

theorem view_zero (h : n ≤ cap) : view cap b 0 n = some b := by
  rw [view_of_le (by omega)]
  exact congrArg some (funext fun i => by rw [Nat.zero_add])

theorem store_of_le (h : a + n ≤ cap) : store cap b a n src = some (overlay b a n src) := if_pos h

theorem store_eq_some : store cap b a n src = some b' ↔ a + n ≤ cap ∧ b' = overlay b a n src := by
  rw [store, Option.ite_none_right_eq_some, Option.some.injEq, eq_comm (a := b')]

theorem overlay_overlay (m : Nat) (src' : Nat → α) :
    overlay (overlay b a n src) (a + n) m src' =
      overlay b a (n + m) fun i => if i < n then src i else src' (i - n) := by
  funext i
  simp only [overlay]
  by_cases h1 : a + n ≤ i ∧ i < a + n + m
  · rw [if_pos h1, if_pos (by omega), if_neg (by omega), Nat.sub_sub]
  · rw [if_neg h1]
    by_cases h2 : a ≤ i ∧ i < a + n
    · rw [if_pos h2, if_pos (by omega), if_pos (by omega)]
    · rw [if_neg h2, if_neg (by omega)]

theorem overlay_congr {src' : Nat → α} (h : ∀ i < n, src i = src' i) :
    overlay b a n src = overlay b a n src' := by
  funext i
  simp only [overlay]
  split
  · exact h _ (by omega)
  · rfl

def entries (b : Nat → α) (a n : Nat) : List α := (List.range n).map fun i => b (a + i)

@[simp] theorem length_entries (b : Nat → α) (a n : Nat) : (entries b a n).length = n := by
  rw [entries, List.length_map, List.length_range]

theorem getElem_entries (b : Nat → α) (a n : Nat) {i : Nat} (h : i < (entries b a n).length) :
    (entries b a n)[i] = b (a + i) := by
  simp only [entries, List.getElem_map, List.getElem_range]

theorem drop_entries (b : Nat → α) (a n k : Nat) : (entries b a n).drop k = entries b (a + k) (n - k) := by
  apply List.ext_getElem
  · simp only [List.length_drop, length_entries]
  · intro i h h'
    rw [List.getElem_drop, getElem_entries, getElem_entries, Nat.add_assoc]

theorem take_entries (b : Nat → α) (a : Nat) {n k : Nat} (h : k ≤ n) :
    (entries b a n).take k = entries b a k := by
  apply List.ext_getElem
  · simp only [List.length_take, length_entries, Nat.min_eq_left h]
  · intro i hi h'
    rw [List.getElem_take, getElem_entries, getElem_entries]

theorem entries_append (b : Nat → α) (a n m : Nat) :
    entries b a (n + m) = entries b a n ++ entries b (a + n) m := by
  rw [entries, List.range_add, List.map_append, List.map_map, entries, entries]
  apply congrArg ((List.range n).map (fun i => b (a + i)) ++ ·)
  apply List.map_congr_left
  intro i _
  rw [Function.comp_apply, Nat.add_assoc]

theorem entries_congr {a' : Nat} (h : ∀ i < n, b (a + i) = b' (a' + i)) :
    entries b a n = entries b' a' n :=
  List.map_congr_left fun i hi => h i (List.mem_range.mp hi)

theorem entries_overlay (b : Nat → α) (a n : Nat) (src : Nat → α) :
    entries (overlay b a n src) a n = (List.range n).map src := by
  apply List.map_congr_left
  intro i hi
  have hn := List.mem_range.mp hi
  rw [overlay, if_pos ⟨Nat.le_add_right a i, by omega⟩, Nat.add_sub_cancel_left]

theorem entries_overlay_of_le {c m : Nat} (b : Nat → α) (n : Nat) (src : Nat → α) (h : c + m ≤ a) :
    entries (overlay b a n src) c m = entries b c m := by
  apply entries_congr
  intro i hi
  rw [overlay, if_neg (by omega)]

theorem map_getD_range (u : List α) (d : α) : ((List.range u.length).map fun i => u.getD i d) = u := by
  apply List.ext_getElem
  · rw [List.length_map, List.length_range]
  · intro i _ hi
    rw [List.getElem_map, List.getElem_range, List.getD_eq_getElem?_getD, List.getElem?_eq_getElem hi,
      Option.getD_some]

end OiAmc.ByteBuffer

namespace OiAmc.PtrWords

open ByteBuffer

/-- How a host keeps an address of 64 bits in eight octets. -/
structure PtrRep where
  octets : Nat → List UInt8
  address : List UInt8 → Nat
  address_octets : ∀ p < 0x10000000000000000, address (octets p) = p
  length_octets : ∀ p, (octets p).length = 8

variable {rep : PtrRep} {mem mem' : Nat → UInt8} {a b n p : Nat} {l : List Nat}

def load (rep : PtrRep) (mem : Nat → UInt8) (a : Nat) : Nat := rep.address (entries mem a 8)

def store (rep : PtrRep) (mem : Nat → UInt8) (a p : Nat) : Nat → UInt8 :=
  overlay mem a 8 fun i => (rep.octets p).getD i 0

theorem load_store (hp : p < 0x10000000000000000) : load rep (store rep mem a p) a = p := by
  have hall := map_getD_range (rep.octets p) 0
  rw [rep.length_octets] at hall
  rw [load, store, entries_overlay, hall, rep.address_octets p hp]

theorem load_overlay {src : Nat → UInt8} (h : a + 8 ≤ b ∨ b + n ≤ a) :
    load rep (overlay mem b n src) a = load rep mem a := by
  rw [load, load]
  apply congrArg
  apply entries_congr
  intro i hi
  rw [overlay, if_neg (by omega)]

theorem load_store_of_apart (h : a + 8 ≤ b ∨ b + 8 ≤ a) :
    load rep (store rep mem b p) a = load rep mem a := load_overlay h

/-- A list of blocks, each with the address of the next one in its first word, and a null address
in the last one. -/
inductive Thread (rep : PtrRep) (mem : Nat → UInt8) : Nat → List Nat → Prop
  | nil : Thread rep mem 0 []
  | cons {a : Nat} {l : List Nat} (ha : a ≠ 0) (h : Thread rep mem (load rep mem a) l) :
      Thread rep mem a (a :: l)

theorem Thread.congr (h : Thread rep mem a l) (hl : ∀ b ∈ l, load rep mem' b = load rep mem b) :
    Thread rep mem' a l := by
  induction h with
  | nil => exact .nil
  | cons ha _ ih =>
      refine .cons ha ?_
      rw [hl _ List.mem_cons_self]
      exact ih fun b hb => hl b (List.mem_cons_of_mem _ hb)

theorem Thread.nil_iff (h : Thread rep mem a l) : a = 0 ↔ l = [] := by
  cases h with
  | nil => exact iff_of_true rfl rfl
  | cons ha _ => exact iff_of_false ha nofun

theorem Thread.push (h : Thread rep mem a l) (hb : b ≠ 0) (ha : a < 0x10000000000000000)
    (hapart : ∀ c ∈ l, c + 8 ≤ b ∨ b + 8 ≤ c) : Thread rep (store rep mem b a) b (b :: l) := by
  refine .cons hb ?_
  rw [load_store ha]
  exact h.congr fun c hc => load_store_of_apart (hapart c hc)

def littleEndian : PtrRep where
  octets p := (List.range 8).map fun i => .ofNat (p / 256 ^ i)
  address u := Nat.ofDigits 256 (u.map UInt8.toNat)
  address_octets p hp := by
    simp only [List.range, List.range.loop, List.map_cons, List.map_nil, Nat.ofDigits_cons,
      Nat.ofDigits_nil, UInt8.toNat_ofNat', pow_zero, Nat.div_one]
    norm_num
    omega
  length_octets p := by rw [List.length_map, List.length_range]

end OiAmc.PtrWords

namespace OiAmc.WriteList

open Function

variable {κ α : Type} [DecidableEq κ]

/-- A memory after a list of writes. -/
def store (m : κ → α) (ws : List (κ × α)) : κ → α := ws.foldl (fun m w => update m w.1 w.2) m

theorem store_append (m : κ → α) (ws ws' : List (κ × α)) :
    store m (ws ++ ws') = store (store m ws) ws' := List.foldl_append

theorem store_of_not_mem (m : κ → α) {ws : List (κ × α)} {k : κ} (h : k ∉ ws.map Prod.fst) :
    store m ws k = m k := by
  induction ws generalizing m with
  | nil => rfl
  | cons w ws ih =>
      rw [List.map_cons, List.mem_cons, not_or] at h
      exact (ih _ h.2).trans (update_of_ne h.1 _ _)

theorem store_of_mem (m : κ → α) {ws : List (κ × α)} (hnodup : (ws.map Prod.fst).Nodup) {k : κ}
    {v : α} (h : (k, v) ∈ ws) : store m ws k = v := by
  induction ws generalizing m with
  | nil => cases h
  | cons w ws ih =>
      obtain ⟨hnot, hnodup⟩ := List.nodup_cons.mp hnodup
      rcases List.mem_cons.mp h with rfl | h
      · exact (store_of_not_mem _ hnot).trans (update_self _ _ _)
      · exact ih _ hnodup h

theorem store_eq_self {m : κ → α} {ws : List (κ × α)} (hnodup : (ws.map Prod.fst).Nodup) :
    store m ws = m ↔ ∀ w ∈ ws, m w.1 = w.2 := by
  constructor
  · intro h w hw
    rw [← store_of_mem m hnodup hw, h]
  · intro h
    funext k
    by_cases hk : k ∈ ws.map Prod.fst
    · obtain ⟨w, hw, rfl⟩ := List.mem_map.mp hk
      rw [store_of_mem m hnodup hw, h w hw]
    · exact store_of_not_mem m hk

theorem store_of_written (m m' : κ → α) {ws : List (κ × α)} {k : κ} (h : k ∈ ws.map Prod.fst) :
    store m ws k = store m' ws k := by
  induction ws generalizing m m' with
  | nil => cases h
  | cons w ws ih =>
      by_cases hk : k ∈ ws.map Prod.fst
      · exact ih _ _ hk
      · have hw := (List.mem_cons.mp h).resolve_right hk
        calc store m (w :: ws) k = update m w.1 w.2 k := store_of_not_mem _ hk
          _ = update m' w.1 w.2 k := by rw [hw, update_self, update_self]
          _ = store m' (w :: ws) k := (store_of_not_mem _ hk).symm

theorem store_comm (m : κ → α) {ws ws' : List (κ × α)} (h : ∀ k ∈ ws.map Prod.fst, k ∉ ws'.map Prod.fst) :
    store (store m ws) ws' = store (store m ws') ws := by
  funext k
  by_cases hk : k ∈ ws.map Prod.fst
  · rw [store_of_not_mem _ (h k hk)]
    exact store_of_written _ _ hk
  · rw [store_of_not_mem (store m ws') hk]
    by_cases hk' : k ∈ ws'.map Prod.fst
    · exact store_of_written _ _ hk'
    · rw [store_of_not_mem _ hk', store_of_not_mem _ hk', store_of_not_mem _ hk]

end OiAmc.WriteList

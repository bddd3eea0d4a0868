import OiAmc.Arena
import OiAmc.Filter

namespace OiAmc.FilterCopy

open Arena
open OiAmc.Filter hiding filterCompose filterOr filterAnd

/-- A pointer to a filter in memory: the address of each node, and of the block of its value. -/
inductive Located
  | null
  | node (addr : Nat) (f : Fields) (value : Option Nat) (lchild rchild : Located)
  deriving DecidableEq

/-- The sizes of the blocks, and the number of the calls of malloc so far. -/
structure Mem where
  heap : Pool Nat
  calls : Nat

namespace Located

def erase : Located → SFilter
  | null => .null
  | node _ f _ lchild rchild => .node f lchild.erase rchild.erase

def blocks : Located → List Nat
  | null => []
  | node addr _ value lchild rchild => addr :: value.toList ++ lchild.blocks ++ rchild.blocks

/-- Reading fc->len. -/
def lenIn : Located → Mem → Option UInt32
  | null, _ => none
  | node addr f _ _ _, m => if (m.heap.get addr).isSome then some f.len else none

end Located

open Located

/-- sizeof(sFilter), with pointers of so many octets: value, lchild and rchild stand behind
16 octets. -/
def sizeOfFilter (ptr : Nat) : Nat := 16 + 3 * ptr

/-- room: whether a call of malloc, by its number, finds memory. -/
def Mem.malloc (room : Nat → Bool) (m : Mem) (n : Nat) : Option Nat × Mem :=
  if room m.calls then (some m.heap.next, ⟨m.heap.alloc n, m.calls + 1⟩)
  else (none, { m with calls := m.calls + 1 })

def Mem.free (m : Mem) (p : Nat) : Option Mem := (m.heap.free p).map fun heap => { m with heap := heap }

def freeValue (f : Fields) (value : Option Nat) (m : Mem) : Option Mem :=
  match value with
  | some v => if f.type = FilterType.single then m.free v else some m
  | none => some m

def filterRelease : Located → Mem → Option Mem
  | null, m => some m
  | node addr f value lchild rchild, m => do
      let m ← freeValue f value m
      let m ← filterRelease lchild m
      let m ← filterRelease rchild m
      m.free addr

/-- filter_release of a copy without a value of its own. Its block has len octets, and it points
to the children of the original. -/
def releaseCopy (ptr copy : Nat) (f : Fields) (lchild rchild : Located) (m : Mem) : Option Mem :=
  if f.len.toNat < sizeOfFilter ptr then none
  else do
    let m ← filterRelease lchild m
    let m ← filterRelease rchild m
    m.free copy

/-- What filter_compose_nr does with two pointers, by what it does with each. -/
def composeBoth (fc1 fc2 : Located) (copy1 copy2 : Mem → Option (Mem × Int)) (m : Mem) :
    Option (Mem × Int) :=
  if fc1 = null ∧ fc2 = null then some (m, -1)
  else do
    let (m, rc) ← copy1 m
    if rc < 0 then return (m, -1) else copy2 m

/-- The half of filter_compose_nr for one of its pointers. The copy has a block of len octets, a
pointer that is not inside of it has no value, and nothing points to the copy afterwards. -/
def copyNode (ptr : Nat) (room : Nat → Bool) : Located → Mem → Option (Mem × Int)
  | null, m => some (m, 0)
  | node addr f value lchild rchild, m => do
      let size ← m.heap.get addr
      match m.malloc room f.len.toNat with
      | (none, m) => return (m, -1)
      | (some copy, m) =>
          if size < f.len.toNat ∨ f.len = 0 then none
          else if f.type = FilterType.single then
            if f.len.toNat < 16 + ptr then none
            else
              match m.malloc room f.valueLen.toNat with
              | (none, m) => do
                  let m ← releaseCopy ptr copy f lchild rchild m
                  return (m, -1)
              | (some _, m) => do
                  let n ← m.heap.get (← value)
                  if n < f.valueLen.toNat then none else return (m, 0)
          else if f.len.toNat < sizeOfFilter ptr then none
          else do
            let (m, rc) ← composeBoth lchild rchild (copyNode ptr room lchild) (copyNode ptr room rchild) m
            if rc < 0 then
              let m ← releaseCopy ptr copy f lchild rchild m
              return (m, -1)
            else return (m, 0)

/-- Its parameters fl and fr are copies of pointers, so what it stores in them is lost. -/
def filterComposeNr (ptr : Nat) (room : Nat → Bool) (fc1 fc2 : Located) (m : Mem) : Option (Mem × Int) :=
  composeBoth fc1 fc2 (copyNode ptr room fc1) (copyNode ptr room fc2) m

def releaseBoth (fc1 fc2 : Located) (m : Mem) : Option Mem := do
  let m ← filterRelease fc1 m
  filterRelease fc2 m

def filterCompose (ptr : Nat) (room : Nat → Bool) (type : UInt8) (fc1 fc2 : Located) (release : Int)
    (m : Mem) : Option (Mem × Located) :=
  let given (m : Mem) := if release > 0 then releaseBoth fc1 fc2 m else some m
  if fc1 = null ∨ fc2 = null then (given m).map fun m => (m, null)
  else
    match m.malloc room (sizeOfFilter ptr) with
    | (none, m) => (given m).map fun m => (m, null)
    | (some cps, m) => do
        let f := compositeFields type 0 (UInt32.ofNat composeHeadSize + (← fc1.lenIn m) + (← fc2.lenIn m))
        if release > 0 then return (m, node cps f none fc1 fc2)
        else
          let (m, rc) ← filterComposeNr ptr room fc1 fc2 m
          if rc < 0 then
            let m ← releaseBoth fc1 fc2 m
            let m ← m.free cps
            return (m, null)
          else return (m, node cps f none null null)

def filterOr (ptr : Nat) (room : Nat → Bool) := filterCompose ptr room FilterType.compositeOr

def filterAnd (ptr : Nat) (room : Nat → Bool) := filterCompose ptr room FilterType.compositeAnd

variable {ptr : Nat} {room : Nat → Bool} {type : UInt8} {a b t : Located} {m m' : Mem} {p : Nat}

theorem free_none (h : m.free p = some m') {q : Nat} (hq : q = p ∨ m.heap.get q = none) :
    m'.heap.get q = none := by
  obtain ⟨heap, hfree, rfl⟩ := Option.map_eq_some_iff.mp h
  obtain ⟨-, hget, -⟩ := free_eq_some.mp hfree
  by_cases hqp : q = p
  · rw [hget, hqp, Function.update_self]
  · rw [hget, Function.update_of_ne hqp]
    exact hq.resolve_left hqp

theorem filterRelease_node {addr : Nat} {f : Fields} {value : Option Nat} {lchild rchild : Located}
    (h : filterRelease (node addr f value lchild rchild) m = some m') :
    ∃ m1 m2 m3, freeValue f value m = some m1 ∧ filterRelease lchild m1 = some m2 ∧
      filterRelease rchild m2 = some m3 ∧ m3.free addr = some m' := by
  simp only [filterRelease, Option.bind_eq_bind, Option.bind_eq_some_iff] at h
  obtain ⟨m1, h1, m2, h2, m3, h3, h4⟩ := h
  exact ⟨m1, m2, m3, h1, h2, h3, h4⟩

theorem filterRelease_none (h : filterRelease t m = some m') (hp : m.heap.get p = none) :
    m'.heap.get p = none := by
  induction t generalizing m m' with
  | null =>
      cases h
      exact hp
  | node addr f value lchild rchild ihl ihr =>
      obtain ⟨m1, m2, m3, h1, h2, h3, h4⟩ := filterRelease_node h
      have hp1 : m1.heap.get p = none := by
        unfold freeValue at h1
        split at h1
        · split at h1
          · exact free_none h1 (.inr hp)
          · cases h1
            exact hp
        · cases h1
          exact hp
      exact free_none h4 (.inr (ihr h3 (ihl h2 hp1)))

theorem filterRelease_root {f : Fields} {value : Option Nat} {lchild rchild : Located}
    (h : filterRelease (node p f value lchild rchild) m = some m') : m'.heap.get p = none := by
  obtain ⟨m1, m2, m3, -, -, -, h4⟩ := filterRelease_node h
  exact free_none h4 (.inl rfl)

def Held (m : Mem) (t : Located) : Prop := ∀ p ∈ t.blocks, m.heap.get p ≠ none

/-- A call returns the filter that it should or NULL, and its operands are as they were. -/
def Agrees (m : Mem) (a b : Located) (owned : SFilter) (r : Option (Mem × Located)) : Prop :=
  ∃ m' t, r = some (m', t) ∧ (∀ p ∈ a.blocks ++ b.blocks, m'.heap.get p = m.heap.get p) ∧
    (t ≠ null → t.erase = owned)

theorem alloc_keeps {heap : Pool Nat} {n : Nat} (hp : heap.get p ≠ none) :
    (heap.alloc n).get p = heap.get p := by
  have hlt := lt_next hp
  rw [alloc_get, Function.update_of_ne (by omega)]

theorem lenIn_held {m : Mem} (ha : a ≠ null) (hm : ∀ p ∈ a.blocks, m.heap.get p ≠ none) :
    a.lenIn m = some a.erase.len := by
  cases a with
  | null => exact absurd rfl ha
  | node addr f value lchild rchild =>
      have haddr : m.heap.get addr ≠ none := hm addr (by simp [blocks])
      rw [lenIn, if_pos (Option.isSome_iff_ne_none.mpr haddr)]
      rfl

theorem erase_ne_null (ha : a ≠ null) : a.erase ≠ .null := by
  cases a with
  | null => exact absurd rfl ha
  | node addr f value lchild rchild => exact SFilter.noConfusion

theorem filterCompose_owning (ha : a ≠ null) (hb : b ≠ null) (hma : Held m a) (hmb : Held m b)
    (hroom : room m.calls = true) : ∃ m' t, filterCompose ptr room type a b 1 m = some (m', t) ∧
      t.erase = Filter.filterCompose type a.erase b.erase ∧
      ∀ p, m.heap.get p ≠ none → m'.heap.get p = m.heap.get p := by
  have hlive : ∀ p, m.heap.get p ≠ none → (m.heap.alloc (sizeOfFilter ptr)).get p ≠ none :=
    fun p hp => by rwa [alloc_keeps hp]
  have hla := @lenIn_held a ⟨m.heap.alloc (sizeOfFilter ptr), m.calls + 1⟩ ha fun p hp => hlive p (hma p hp)
  have hlb := @lenIn_held b ⟨m.heap.alloc (sizeOfFilter ptr), m.calls + 1⟩ hb fun p hp => hlive p (hmb p hp)
  refine ⟨⟨m.heap.alloc (sizeOfFilter ptr), m.calls + 1⟩, node m.heap.next (compositeFields type 0
    (UInt32.ofNat composeHeadSize + a.erase.len + b.erase.len)) none a b, ?_, ?_, fun p hp => alloc_keeps hp⟩
  · simp [filterCompose, not_or.mpr ⟨ha, hb⟩, Mem.malloc, hroom, hla, hlb]
  · simp [Filter.filterCompose, erase_ne_null ha, erase_ne_null hb, erase]

/-- Where the node for the composition is there, a copying call releases its operands or returns
it without children. -/
theorem filterCompose_copying (ha : a ≠ null) (hb : b ≠ null) (hroom : room m.calls = true)
    (h : filterCompose ptr room type a b 0 m = some (m', t)) :
    (∃ m1 m2 cps, filterRelease a m1 = some m2 ∧
      (filterRelease b m2).bind (fun m => m.free cps) = some m') ∨
    ∃ cps f, t = node cps f none null null := by
  have hnull : ¬(a = null ∨ b = null) := not_or.mpr ⟨ha, hb⟩
  simp only [filterCompose, hnull, if_false, Mem.malloc, hroom, if_true] at h
  obtain ⟨l1, -, h⟩ := Option.bind_eq_some_iff.mp h
  obtain ⟨l2, -, h⟩ := Option.bind_eq_some_iff.mp h
  rw [if_neg (by decide)] at h
  obtain ⟨⟨m1, rc⟩, -, h⟩ := Option.bind_eq_some_iff.mp h
  split at h
  · obtain ⟨m3, hboth, h⟩ := Option.bind_eq_some_iff.mp h
    obtain ⟨m4, hfree, h⟩ := Option.bind_eq_some_iff.mp h
    obtain ⟨m2, h1, h2⟩ := Option.bind_eq_some_iff.mp hboth
    obtain ⟨rfl, -⟩ := Prod.mk.inj (Option.some.inj h)
    exact .inl ⟨m1, m2, _, h1, by rw [h2]; exact hfree⟩
  · obtain ⟨-, rfl⟩ := Prod.mk.inj (Option.some.inj h)
    exact .inr ⟨_, _, rfl⟩

theorem agrees_iff (ha : a ≠ null) (hb : b ≠ null) (hma : Held m a) :
    Agrees m a b (Filter.filterCompose type a.erase b.erase) (filterCompose ptr room type a b 0 m) ↔
      room m.calls = false := by
  have hnull : ¬(a = null ∨ b = null) := not_or.mpr ⟨ha, hb⟩
  cases hroom : room m.calls with
  | false =>
      refine iff_of_true ⟨{ m with calls := m.calls + 1 }, null, ?_, fun _ _ => rfl, fun h => absurd rfl h⟩ rfl
      simp [filterCompose, hnull, Mem.malloc, hroom]
  | true =>
      refine iff_of_false ?_ (by decide)
      rintro ⟨m', t, hr, hintact, hagrees⟩
      rcases filterCompose_copying ha hb hroom hr with ⟨m1, m2, cps, h1, h2⟩ | ⟨cps, f, rfl⟩
      · -- the first block of the first operand is gone
        cases a with
        | null => exact ha rfl
        | node addr f value lchild rchild =>
            obtain ⟨m3, h2, h3⟩ := Option.bind_eq_some_iff.mp h2
            have hgone := free_none h3 (.inr (filterRelease_none h2 (filterRelease_root h1)))
            have hmem : addr ∈ (node addr f value lchild rchild).blocks := by simp [blocks]
            rw [hintact addr (List.mem_append_left _ hmem)] at hgone
            exact hma addr hmem hgone
      · have hsame := hagrees (fun h => Located.noConfusion h)
        rw [Filter.filterCompose, if_neg (not_or.mpr ⟨erase_ne_null ha, erase_ne_null hb⟩)] at hsame
        exact erase_ne_null ha (SFilter.node.inj hsame).2.1.symm

/-- What copies its operands agrees with what owns them just where there is no memory for the
node on top. -/
theorem filter_copy_iff (ptr : Nat) (room : Nat → Bool) (m : Mem) (a b : Located) (ha : a ≠ null)
    (hb : b ≠ null) (hma : Held m a) (_hmb : Held m b) :
    (Agrees m a b (Filter.filterOr a.erase b.erase) (filterOr ptr room a b 0 m) ↔ room m.calls = false) ∧
    (Agrees m a b (Filter.filterAnd a.erase b.erase) (filterAnd ptr room a b 0 m) ↔
      room m.calls = false) :=
  ⟨agrees_iff ha hb hma, agrees_iff ha hb hma⟩

/-- A filter for a string of 19 characters, in two blocks from an address on. -/
def stringFilter (addr : Nat) : Located :=
  node addr ⟨FilterType.single, 0, 28, 2, 1, DataType.charString, 20, List.replicate 19 49 ++ [0]⟩
    (some (addr + 1)) null null

def twoFilters : Mem := ⟨(((Pool.empty.alloc 40).alloc 20).alloc 40).alloc 20, 0⟩

theorem twoFilters_held : Held twoFilters (stringFilter 0) ∧ Held twoFilters (stringFilter 2) := by
  constructor
  all_goals
    intro p hp
    simp only [stringFilter, blocks, Option.toList_some, List.append_nil, List.mem_cons, List.not_mem_nil,
      or_false] at hp
    rcases hp with rfl | rfl
  all_goals decide

theorem filter_copy_no_memory :
    (Agrees twoFilters (stringFilter 0) (stringFilter 2)
      (Filter.filterOr (stringFilter 0).erase (stringFilter 2).erase)
      (filterOr 8 (fun _ => false) (stringFilter 0) (stringFilter 2) 0 twoFilters) ↔ false = false) ∧
    (Agrees twoFilters (stringFilter 0) (stringFilter 2)
      (Filter.filterAnd (stringFilter 0).erase (stringFilter 2).erase)
      (filterAnd 8 (fun _ => false) (stringFilter 0) (stringFilter 2) 0 twoFilters) ↔ false = false) :=
  filter_copy_iff 8 (fun _ => false) twoFilters (stringFilter 0) (stringFilter 2) (by decide) (by decide)
    twoFilters_held.1 twoFilters_held.2

/-- With memory for all blocks the call returns a node that has no children. -/
theorem copy_without_children :
    (filterOr 8 (fun _ => true) (stringFilter 0) (stringFilter 2) 0 twoFilters).map (fun r => r.2.erase) =
      some (.node (compositeFields FilterType.compositeOr 0 60) .null .null) ∧
    ¬∀ (ptr : Nat) (room : Nat → Bool) (m : Mem) (a b : Located), a ≠ null → b ≠ null → Held m a → Held m b →
      Agrees m a b (Filter.filterOr a.erase b.erase) (filterOr ptr room a b 0 m) ∧
      Agrees m a b (Filter.filterAnd a.erase b.erase) (filterAnd ptr room a b 0 m) := by
  refine ⟨by decide, fun h => ?_⟩
  have hor := (h 8 (fun _ => true) twoFilters (stringFilter 0) (stringFilter 2) (by decide) (by decide)
    twoFilters_held.1 twoFilters_held.2).1
  exact Bool.noConfusion ((agrees_iff (by decide) (by decide) twoFilters_held.1).mp hor)

end OiAmc.FilterCopy

import OiAmc.RbtreeWalks
import OiAmc.UtimerDelivery

namespace OiAmc.UtimerTree

open GotoLoop LeftmostTree PartialMachine RbTree RedBlack Rbtree StableOrder TimerLog TimerOrder Utimer
open UtimerDelivery (Reached expireTime startTime)
open TimerMgr (Clock carryNs timeDiff)

/-- A timer list with the nodes of its tree in memory. A timer and its node are one piece of memory, and
are allocated and freed together. -/
structure TimerHeap where
  type : UInt32
  mem : Mem Nat
  timers : Nat → Option UtimerEntry
  first : Option Nat
  lastS : UInt32
  lastNs : UInt32
  numAdd : UInt64
  numAddCompare : UInt64
  count : UInt32
  fresh : Nat

def utimerOpen (type : UInt32) : TimerHeap :=
  ⟨type, ⟨fun _ => none, none⟩, fun _ => none, none, 0, 0, 0, 0, 0, 0⟩

/-- More rounds than any loop over the tree takes. -/
def TimerHeap.rounds (u : TimerHeap) : Nat := 2 * Nat.log 2 (u.fresh + 1) + 2

/-- What a new node holds before it is linked is not read. -/
def malloc (u : TimerHeap) (entry : UtimerEntry) : TimerHeap :=
  { u with
    mem := { u.mem with nodes := Function.update u.mem.nodes entry.addr (some ⟨none, .red, none, none⟩) }
    timers := Function.update u.timers entry.addr (some entry)
    fresh := u.fresh + 1 }

def free (u : TimerHeap) (addr : Nat) : TimerHeap :=
  { u with
    mem := { u.mem with nodes := Function.update u.mem.nodes addr none }
    timers := Function.update u.timers addr none }

def utimerAdd (u : TimerHeap) (alloc : Bool) (expireS expireNs : UInt32) (data : Nat) :
    Option (TimerHeap × Option UtimerEntry) :=
  if alloc then do
    let entry := ⟨u.fresh, expireS, expireNs, data⟩
    let u := malloc u entry
    let later (i : Nat) := (u.timers i).map fun current =>
      decide (timeDiff current.expireS current.expireNs expireS expireNs < 0)
    let (mem, w) ← addNode u.rounds later u.mem entry.addr
    some ({ u with
      mem := mem
      first := if w.leftmost then some entry.addr else u.first
      numAdd := u.numAdd + 1
      numAddCompare := u.numAddCompare + UInt64.ofNat w.compares
      count := u.count + 1 }, some entry)
  else some (u, none)

def utimerAddByOffset (u : TimerHeap) (alloc : Bool) (expireS expireNs : UInt32) (data : Nat) :
    Option (TimerHeap × Option UtimerEntry) :=
  let (s, ns) := carryNs 4 (u.lastS + expireS) (u.lastNs + expireNs)
  utimerAdd u alloc s ns data

/-- The first timer moves on if it is the one that goes. -/
def unlinkTimer (u : TimerHeap) (node : Nat) : Option TimerHeap := do
  let first ← (if u.first = some node then rbNext u.rounds u.mem node else some u.first)
  let mem ← rbErase u.rounds u.mem node
  some { u with first := first, mem := mem }

def utimerDelete (u : TimerHeap) (timer : Nat) : Option TimerHeap := do
  let u ← unlinkTimer u timer
  some (free { u with count := u.count - 1 } timer)

def runTime (u : TimerHeap) (clock : Clock) (s ns : UInt32) : Clock :=
  if u.type &&& utimerInternalTimesource = utimerInternalTimesource then clock else ⟨s, ns⟩

structure HeapState where
  heap : TimerHeap
  control : Control

def utimerRun (u : TimerHeap) (clock : Clock) (s ns : UInt32) : HeapState × Event UtimerEntry Clock :=
  let now := runTime u clock s ns
  if now.ns = u.lastNs ∧ now.s = u.lastS then (⟨u, .idle⟩, .skipped now)
  else (⟨{ u with lastS := now.s, lastNs := now.ns }, .looping now⟩, .started now)

def runRound (u : TimerHeap) (now : Clock) : Option (HeapState × Event UtimerEntry Clock) :=
  match u.first with
  | none => some (⟨u, .idle⟩, .ended)
  | some node => do
      let entry ← u.timers node
      if 0 < timeDiff now.s now.ns entry.expireS entry.expireNs then some (⟨u, .idle⟩, .ended)
      else
        let u ← unlinkTimer u node
        some (⟨u, .calling now entry⟩, .fired entry)

def callbackReturns (u : TimerHeap) (now : Clock) (entry : UtimerEntry) : HeapState × Event UtimerEntry Clock :=
  let u := free u entry.addr
  (⟨{ u with count := u.count - 1 }, .looping now⟩, .returned entry)

def heapStep (st : HeapState) : Act → Option (HeapState × Event UtimerEntry Clock)
  | .add alloc expireS expireNs data => (utimerAdd st.heap alloc expireS expireNs data).map fun r =>
      (⟨r.1, st.control⟩, addedEvent (.at ⟨expireS, expireNs⟩) r.2)
  | .addByOffset alloc expireS expireNs data => (utimerAddByOffset st.heap alloc expireS expireNs data).map fun r =>
      (⟨r.1, st.control⟩, addedEvent (.offset ⟨expireS, expireNs⟩) r.2)
  | .delete timer => (st.heap.timers timer).bind fun entry => (utimerDelete st.heap timer).map fun u =>
      (⟨u, st.control⟩, .deleted entry)
  | .run clock s ns => some (utimerRun st.heap clock s ns)
  | .round =>
      match st.control with
      | .looping now => runRound st.heap now
      | _ => none
  | .callbackReturns =>
      match st.control with
      | .calling now entry => some (callbackReturns st.heap now entry)
      | _ => none

/-- The rounds of utimer_close, which free every timer that is left. -/
def closeRound (u : TimerHeap) : Option (TimerHeap ⊕ TimerHeap) :=
  match u.first with
  | none => some (.inr u)
  | some node => do
      let u ← unlinkTimer u node
      some (.inl (free { u with count := u.count - 1 } node))

def utimerClose (rounds : Nat) (u : TimerHeap) : Option TimerHeap := loop closeRound rounds u

-- The list in memory, and the list that it stands for.

abbrev ops : UtimerOps := rbtreeOps UtimerEntry.addr

/-- The timer whose callback has not returned. -/
def firing : Control → Option UtimerEntry
  | .calling _ entry => some entry
  | _ => none

/-- The memory holds the timers of a list and those that were taken from it, and no others. -/
structure Stands (u : TimerHeap) (out : List UtimerEntry) (ut : UtimerHd) : Prop where
  type : u.type = ut.type
  first : u.first = ut.first
  last : u.lastS = ut.lastS ∧ u.lastNs = ut.lastNs
  count : u.count = ut.count
  fresh : u.fresh = ut.fresh
  holds : Holds UtimerEntry.addr u.mem.nodes u.mem ut.rbtree
  redBlack : IsRedBlack ut.rbtree
  timers : ∀ i e, u.timers i = some e ↔ e.addr = i ∧ (e ∈ ut.rbtree.inorder ∨ e ∈ out)
  nodes : ∀ i, (u.mem.nodes i).isSome = (u.timers i).isSome
  fired : ∀ e ∈ out, e.addr ∉ addrs UtimerEntry.addr ut.rbtree
  apart : (out.map UtimerEntry.addr).Nodup
  below : ∀ i, (u.timers i).isSome → i < u.fresh
  compares : u.numAddCompare.toNat ≤ u.fresh * (2 * Nat.log 2 (u.fresh + 1))

variable {u : TimerHeap} {out : List UtimerEntry} {ut : UtimerHd} {x e : UtimerEntry} {st : State} {hst : HeapState}

theorem Stands.timer (h : Stands u out ut) (hx : x ∈ ut.rbtree.inorder) : u.timers x.addr = some x :=
  (h.timers _ _).mpr ⟨rfl, .inl hx⟩

theorem Stands.length_le (h : Stands u out ut) : ut.rbtree.inorder.length ≤ u.fresh := by
  have hsub : addrs UtimerEntry.addr ut.rbtree ⊆ List.range u.fresh := by
    intro i hi
    obtain ⟨x, hx, rfl⟩ := List.mem_map.mp hi
    refine List.mem_range.mpr (h.below _ ?_)
    rw [h.timer hx]
    rfl
  have hle := (List.subperm_of_subset h.holds.apart hsub).length_le
  rwa [addrs, List.length_map, List.length_range] at hle

theorem Stands.log_le (h : Stands u out ut) :
    2 * Nat.log 2 (ut.rbtree.inorder.length + 1) ≤ 2 * Nat.log 2 (u.fresh + 1) :=
  Nat.mul_le_mul_left 2 (Nat.log_mono_right (Nat.succ_le_succ h.length_le))

theorem unlinkTimer_stands (h : Stands u out ut) (hx : x ∈ ut.rbtree.inorder) : ∃ mem v,
    unlinkTimer u x.addr = some { u with
      first := if ut.first = some x.addr then ops.next ut.rbtree x.addr else ut.first
      mem := mem } ∧
    Holds UtimerEntry.addr (Function.update u.mem.nodes x.addr (some v)) mem (ops.erase ut.rbtree x.addr) := by
  have hlog := h.log_le
  have hheight := h.redBlack.height_le
  obtain ⟨mem, v, e, h'⟩ := rbErase_tree h.redBlack h.holds hx
    (show _ < u.rounds by rw [TimerHeap.rounds]; omega)
  refine ⟨mem, v, ?_, h'⟩
  obtain ⟨xs, ys, hsplit⟩ := List.append_of_mem hx
  have hnext := (neighbours_in_order h.holds (show _ < u.rounds by rw [TimerHeap.rounds]; omega) hsplit).1
  rw [← ops.next_eq _ xs x ys hsplit h.holds.apart] at hnext
  rw [unlinkTimer, h.first, hnext, e]
  split <;> rfl

theorem mem_erase (h : Stands u out ut) (hx : x ∈ ut.rbtree.inorder) :
    e ∈ (ops.erase ut.rbtree x.addr).inorder ↔ e ∈ ut.rbtree.inorder ∧ e.addr ≠ x.addr := by
  rw [ops.inorder_erase _ x hx h.holds.apart, List.mem_filter, decide_eq_true_eq]

theorem addrs_erase (h : Stands u out ut) (hx : x ∈ ut.rbtree.inorder) {i : Nat} :
    i ∈ addrs UtimerEntry.addr (ops.erase ut.rbtree x.addr) ↔ i ∈ addrs UtimerEntry.addr ut.rbtree ∧ i ≠ x.addr := by
  simp only [addrs, List.mem_map, mem_erase h hx]
  constructor
  · rintro ⟨e, ⟨he, hne⟩, rfl⟩
    exact ⟨⟨e, he, rfl⟩, hne⟩
  · rintro ⟨⟨e, he, rfl⟩, hne⟩
    exact ⟨e, ⟨he, hne⟩, rfl⟩

theorem nodes_erase (h : Stands u out ut) (hx : x ∈ ut.rbtree.inorder) {mem : Mem Nat} {v : RbNode Nat}
    (h' : Holds UtimerEntry.addr (Function.update u.mem.nodes x.addr (some v)) mem (ops.erase ut.rbtree x.addr))
    (i : Nat) : (mem.nodes i).isSome = (u.timers i).isSome := by
  by_cases hi : i ∈ addrs UtimerEntry.addr (ops.erase ut.rbtree x.addr)
  · obtain ⟨e, he, rfl⟩ := List.mem_map.mp ((addrs_erase h hx).mp hi).1
    rw [h'.owns.isSome hi, h.timer he]
    rfl
  · rw [h'.rest i hi]
    by_cases hix : i = x.addr
    · rw [hix, Function.update_self, h.timer hx]
      rfl
    · rw [Function.update_of_ne hix, h.nodes]

theorem unlink_stands (h : Stands u out ut) (hx : x ∈ ut.rbtree.inorder) :
    ∃ u', unlinkTimer u x.addr = some u' ∧ Stands u' (x :: out) { ut with
      first := if ut.first = some x.addr then ops.next ut.rbtree x.addr else ut.first
      rbtree := ops.erase ut.rbtree x.addr } := by
  obtain ⟨mem, v, e, h'⟩ := unlinkTimer_stands h hx
  have hkept : ∀ y ∈ out, y.addr ≠ x.addr := fun y hy he =>
    h.fired y hy (he ▸ List.mem_map_of_mem hx)
  refine ⟨_, e, h.type, rfl, h.last, h.count, h.fresh, h'.outside fun _ _ => rfl, erase_redBlack h.redBlack hx,
    fun i e => ?_, nodes_erase h hx h', ?_, ?_, h.below, h.compares⟩
  · rw [mem_erase h hx]
    refine (h.timers i e).trans (and_congr_right fun _ => ?_)
    rw [List.mem_cons]
    constructor
    · rintro (he | hout)
      · by_cases hex : e = x
        · exact .inr (.inl hex)
        · exact .inl ⟨he, fun haddr => hex (List.inj_on_of_nodup_map h.holds.apart he hx haddr)⟩
      · exact .inr (.inr hout)
    · rintro (⟨he, _⟩ | rfl | hout)
      · exact .inl he
      · exact .inl hx
      · exact .inr hout
  · intro e hout hmem
    obtain ⟨hin, hne⟩ := (addrs_erase h hx).mp hmem
    rcases List.mem_cons.mp hout with rfl | hout
    · exact hne rfl
    · exact h.fired e hout hin
  · refine List.nodup_cons.mpr ⟨fun hmem => ?_, h.apart⟩
    obtain ⟨y, hy, he⟩ := List.mem_map.mp hmem
    exact hkept y hy he

theorem free_stands (h : Stands u (x :: out) ut) :
    Stands { free u x.addr with count := u.count - 1 } out { ut with count := ut.count - 1 } := by
  have hfree := h.fired x List.mem_cons_self
  obtain ⟨hx, hapart⟩ := List.nodup_cons.mp h.apart
  refine ⟨h.type, h.first, h.last, congrArg (· - 1) h.count, h.fresh, ?_, h.redBlack, fun i e => ?_, fun i => ?_,
    fun e he => h.fired e (List.mem_cons_of_mem x he), hapart, ?_, h.compares⟩
  · exact h.holds.outside fun i hi => Function.update_of_ne (ne_of_mem_of_not_mem hi hfree) _ _
  · change Function.update u.timers x.addr none i = some e ↔ _
    by_cases hi : i = x.addr
    · rw [hi, Function.update_self]
      refine iff_of_false (by simp) ?_
      rintro ⟨he, hmem | hout⟩
      · exact hfree (he ▸ List.mem_map_of_mem hmem)
      · exact hx (he ▸ List.mem_map_of_mem hout)
    · rw [Function.update_of_ne hi, h.timers, List.mem_cons]
      refine and_congr_right fun he => or_congr_right (or_iff_right ?_)
      rintro rfl
      exact hi he.symm
  · change (Function.update u.mem.nodes x.addr none i).isSome = (Function.update u.timers x.addr none i).isSome
    by_cases hi : i = x.addr
    · rw [hi, Function.update_self, Function.update_self]
      rfl
    · rw [Function.update_of_ne hi, Function.update_of_ne hi]
      exact h.nodes i
  · intro i hi
    refine h.below i ?_
    change (Function.update u.timers x.addr none i).isSome = true at hi
    by_cases hix : i = x.addr
    · rw [hix, Function.update_self] at hi
      cases hi
    · rwa [Function.update_of_ne hix] at hi

theorem delete_stands (h : Stands u out ut) (hx : x ∈ ut.rbtree.inorder) :
    ∃ u', UtimerTree.utimerDelete u x.addr = some u' ∧ Stands u' out (Utimer.utimerDelete ops ut x.addr) := by
  obtain ⟨u', e, h'⟩ := unlink_stands h hx
  exact ⟨_, by rw [UtimerTree.utimerDelete, e]; rfl, free_stands h'⟩

theorem fire_stands (h : Stands u [] ut) (hx : x ∈ ut.rbtree.inorder) (hfirst : ut.first = some x.addr) :
    ∃ u', unlinkTimer u x.addr = some u' ∧ Stands u' [x]
      { ut with first := ops.next ut.rbtree x.addr, rbtree := ops.erase ut.rbtree x.addr } := by
  have h' := unlink_stands h hx
  rwa [if_pos hfirst] at h'

def later (s ns : UInt32) (current : UtimerEntry) : Bool :=
  decide (timeDiff current.expireS current.expireNs s ns < 0)

theorem add_holds (h : Stands u out ut) (hout : u.fresh ∉ addrs UtimerEntry.addr ut.rbtree) (hx : x.addr = u.fresh) :
    ∃ mem w, addNode (malloc u x).rounds
        (fun i => ((malloc u x).timers i).map fun current =>
          decide (timeDiff current.expireS current.expireNs x.expireS x.expireNs < 0)) (malloc u x).mem x.addr =
        some (mem, w) ∧
      Holds UtimerEntry.addr (malloc u x).mem.nodes mem
        (ops.insertColor (ut.rbtree.link (later x.expireS x.expireNs) x).1 x.addr) ∧
      w.leftmost = (ut.rbtree.link (later x.expireS x.expireNs) x).2 ∧
      w.compares ≤ 2 * Nat.log 2 (u.fresh + 1) := by
  have hlog := h.log_le
  have hlog' : Nat.log 2 (u.fresh + 1) ≤ Nat.log 2 (u.fresh + 1 + 1) := Nat.log_mono_right (Nat.le_succ _)
  rw [← hx] at hout
  have hmalloc : Holds UtimerEntry.addr (malloc u x).mem.nodes (malloc u x).mem ut.rbtree :=
    h.holds.outside fun i hi => Function.update_of_ne (ne_of_mem_of_not_mem hi hout) _ _
  have hcmp : Compared UtimerEntry.addr (fun i => ((malloc u x).timers i).map fun current =>
      decide (timeDiff current.expireS current.expireNs x.expireS x.expireNs < 0)) (later x.expireS x.expireNs)
      ut.rbtree := by
    intro y hy
    have hy' : (malloc u x).timers y.addr = some y :=
      (Function.update_of_ne (ne_of_mem_of_not_mem (List.mem_map_of_mem hy) hout) _ _).trans (h.timer hy)
    simp only [hy', Option.map_some, later]
  have halloc : (malloc u x).mem.nodes x.addr = some ⟨none, .red, none, none⟩ := Function.update_self ..
  obtain ⟨mem, w, e, h', hleft, _, hcompares⟩ := addNode_holds h.redBlack hmalloc hout
    (by rw [halloc]; rfl) hcmp (show _ < (malloc u x).rounds by simp only [TimerHeap.rounds, malloc]; omega)
  exact ⟨mem, w, e, h', hleft, hcompares.trans hlog⟩

theorem add_stands (h : Stands u out ut) (s ns : UInt32) (data : Nat) :
    ∃ u', UtimerTree.utimerAdd u true s ns data = some (u', some ⟨u.fresh, s, ns, data⟩) ∧
      Stands u' out (Utimer.utimerAdd ops ut true s ns data).1 := by
  have hfree : u.timers u.fresh = none := by
    cases ht : u.timers u.fresh with
    | none => rfl
    | some e => exact absurd (h.below u.fresh (by rw [ht]; rfl)) (Nat.lt_irrefl _)
  have hout : u.fresh ∉ addrs UtimerEntry.addr ut.rbtree := by
    intro hmem
    obtain ⟨x, hx, haddr⟩ := List.mem_map.mp hmem
    rw [← haddr, h.timer hx] at hfree
    cases hfree
  obtain ⟨mem, w, e, h', hleft, hcompares⟩ := add_holds h hout (x := ⟨u.fresh, s, ns, data⟩) rfl
  have hmem (e : UtimerEntry) :
      e ∈ (ops.insertColor (ut.rbtree.link (later s ns) ⟨u.fresh, s, ns, data⟩).1 u.fresh).inorder ↔ e = ⟨u.fresh, s, ns, data⟩ ∨ e ∈ ut.rbtree.inorder := by
    have hlink := link_perm (later s ns) ⟨u.fresh, s, ns, data⟩ ut.rbtree
    have hnew := ops.inorder_insertColor _ ⟨u.fresh, s, ns, data⟩ (hlink.mem_iff.mpr List.mem_cons_self)
    rw [hnew, hlink.mem_iff, List.mem_cons]
  refine ⟨{ malloc u ⟨u.fresh, s, ns, data⟩ with
      mem := mem
      first := if w.leftmost then some u.fresh else u.first
      numAdd := u.numAdd + 1
      numAddCompare := u.numAddCompare + UInt64.ofNat w.compares
      count := u.count + 1 }, ?_, ?_⟩
  · rw [UtimerTree.utimerAdd, if_pos rfl]
    simp only at e
    simp only [Option.bind_eq_bind, e, Option.bind_some]
    rfl
  simp only [Utimer.utimerAdd, if_true, ← h.fresh]
  refine ⟨h.type, ?_, h.last, congrArg (· + 1) h.count, rfl, ?_, ?_, fun i e => ?_, fun i => ?_, ?_, h.apart, ?_, ?_⟩
  · simp only [hleft, h.first]
    rfl
  · exact ⟨h'.root, h'.owns, h'.apart, fun _ _ => rfl⟩
  · exact insert_redBlack (later s ns) h.redBlack hout
  · change Function.update u.timers u.fresh (some ⟨u.fresh, s, ns, data⟩) i = some e ↔
      e.addr = i ∧ (e ∈ (ops.insertColor (ut.rbtree.link (later s ns) _).1 u.fresh).inorder ∨ _)
    rw [hmem]
    by_cases hi : i = u.fresh
    · rw [hi, Function.update_self, Option.some.injEq]
      constructor
      · rintro rfl
        exact ⟨rfl, .inl (.inl rfl)⟩
      · rintro ⟨he, (rfl | hold) | hfire⟩
        · rfl
        · exact absurd (he ▸ List.mem_map_of_mem hold) hout
        · have hnone := (h.timers _ e).mpr ⟨he, .inr hfire⟩
          rw [hfree] at hnone
          cases hnone
    · rw [Function.update_of_ne hi, h.timers]
      refine and_congr_right fun he => or_congr_left ?_
      constructor
      · exact .inr
      · rintro (rfl | hold)
        · exact absurd he.symm hi
        · exact hold
  · change (mem.nodes i).isSome = (Function.update u.timers u.fresh (some ⟨u.fresh, s, ns, data⟩) i).isSome
    by_cases hi : i ∈ addrs UtimerEntry.addr
      (ops.insertColor (ut.rbtree.link (later s ns) ⟨u.fresh, s, ns, data⟩).1 u.fresh)
    · obtain ⟨e, he, rfl⟩ := List.mem_map.mp hi
      rw [h'.owns.isSome hi]
      rcases (hmem e).mp he with rfl | hold
      · rw [Function.update_self]
        rfl
      · rw [Function.update_of_ne (ne_of_mem_of_not_mem (List.mem_map_of_mem hold) hout), h.timer hold]
        rfl
    · have hne : i ≠ u.fresh := fun he =>
        hi (List.mem_map.mpr ⟨⟨u.fresh, s, ns, data⟩, (hmem _).mpr (.inl rfl), he.symm⟩)
      rw [h'.rest i hi, Function.update_of_ne hne]
      exact (congrArg Option.isSome (Function.update_of_ne hne _ _)).trans (h.nodes i)
  · intro e hfire hnew
    obtain ⟨e', he', haddr⟩ := List.mem_map.mp hnew
    rcases (hmem e').mp he' with rfl | hold
    · have hsome := (h.timers _ e).mpr ⟨haddr.symm, .inr hfire⟩
      rw [hfree] at hsome
      cases hsome
    · exact h.fired e hfire (haddr ▸ List.mem_map_of_mem hold)
  · intro i hi
    change (Function.update u.timers u.fresh _ i).isSome = true at hi
    change i < u.fresh + 1
    by_cases hif : i = u.fresh
    · rw [hif]
      exact Nat.lt_succ_self _
    · rw [Function.update_of_ne hif] at hi
      exact (h.below i hi).trans (Nat.lt_succ_self _)
  · have hlog : 2 * Nat.log 2 (u.fresh + 1) ≤ 2 * Nat.log 2 (u.fresh + 1 + 1) :=
      Nat.mul_le_mul_left 2 (Nat.log_mono_right (Nat.le_succ _))
    have hadd : (u.numAddCompare + UInt64.ofNat w.compares).toNat ≤ u.numAddCompare.toNat + w.compares := by
      rw [UInt64.toNat_add, UInt64.toNat_ofNat']
      exact (Nat.mod_le _ _).trans (Nat.add_le_add_left (Nat.mod_le _ _) _)
    change (u.numAddCompare + UInt64.ofNat w.compares).toNat ≤ (u.fresh + 1) * (2 * Nat.log 2 (u.fresh + 1 + 1))
    calc (u.numAddCompare + UInt64.ofNat w.compares).toNat
      _ ≤ u.numAddCompare.toNat + w.compares := hadd
      _ ≤ u.fresh * (2 * Nat.log 2 (u.fresh + 1)) + 2 * Nat.log 2 (u.fresh + 1) := Nat.add_le_add h.compares hcompares
      _ = (u.fresh + 1) * (2 * Nat.log 2 (u.fresh + 1)) := (Nat.succ_mul _ _).symm
      _ ≤ (u.fresh + 1) * (2 * Nat.log 2 (u.fresh + 1 + 1)) := Nat.mul_le_mul_left _ hlog

def Simulates (hst : HeapState) (st : State) : Prop :=
  hst.control = st.control ∧ Stands hst.heap (firing st.control).toList st.ut

theorem Stands.rerun {s ns : UInt32} (h : Stands u out ut) :
    Stands { u with lastS := s, lastNs := ns } out { ut with lastS := s, lastNs := ns } :=
  ⟨h.type, h.first, ⟨rfl, rfl⟩, h.count, h.fresh, h.holds, h.redBlack, h.timers, h.nodes, h.fired, h.apart, h.below,
    h.compares⟩

theorem addStep_simulates (h : Stands u out st.ut) (alloc : Bool) (s ns : UInt32) (data : Nat) :
    ∃ u' r, UtimerTree.utimerAdd u alloc s ns data = some (u', r) ∧
      r = (Utimer.utimerAdd ops st.ut alloc s ns data).2 ∧
      Stands u' out (Utimer.utimerAdd ops st.ut alloc s ns data).1 := by
  cases alloc with
  | false => exact ⟨u, none, rfl, rfl, h⟩
  | true =>
      obtain ⟨u', e, h'⟩ := add_stands h s ns data
      refine ⟨u', _, e, ?_, h'⟩
      rw [h.fresh]
      rfl

theorem runStep_simulates (h : Stands u [] ut) (clock : Clock) (s ns : UInt32) :
    (UtimerTree.utimerRun u clock s ns).2 = (Utimer.utimerRun ut clock s ns).2 ∧
      Simulates (UtimerTree.utimerRun u clock s ns).1 (Utimer.utimerRun ut clock s ns).1 := by
  have hnow : UtimerTree.runTime u clock s ns = Utimer.runTime ut clock s ns := by
    rw [UtimerTree.runTime, Utimer.runTime, h.type]
  rw [UtimerTree.utimerRun, Utimer.utimerRun, hnow, h.last.1, h.last.2]
  split
  · exact ⟨rfl, rfl, h⟩
  · exact ⟨rfl, rfl, h.rerun⟩

theorem roundStep_simulates {now : Clock} (h : Stands u [] ut) {st' : State}
    {ev : Event UtimerEntry Clock} (hstep : Utimer.runRound ops ut now = some (st', ev)) :
    ∃ hst', UtimerTree.runRound u now = some (hst', ev) ∧ Simulates hst' st' := by
  rw [Utimer.runRound] at hstep
  rw [UtimerTree.runRound, h.first]
  cases hfirst : ut.first with
  | none =>
      rw [hfirst] at hstep
      obtain ⟨rfl, rfl⟩ := Prod.mk.inj (Option.some.inj hstep)
      exact ⟨_, rfl, rfl, h⟩
  | some node =>
      rw [hfirst] at hstep
      obtain ⟨x, hx, he⟩ := Option.map_eq_some_iff.mp hstep
      obtain ⟨hmem, rfl⟩ := UtimerDelivery.entryAt_some hx
      have htimer := h.timer hmem
      by_cases hlate : 0 < timeDiff now.s now.ns x.expireS x.expireNs
      · rw [if_pos hlate] at he
        obtain ⟨rfl, rfl⟩ := Prod.mk.inj he
        refine ⟨⟨u, .idle⟩, ?_, rfl, h⟩
        change (u.timers x.addr).bind _ = _
        rw [htimer, Option.bind_some, if_pos hlate]
      · rw [if_neg hlate] at he
        obtain ⟨rfl, rfl⟩ := Prod.mk.inj he
        obtain ⟨u', e, h'⟩ := fire_stands h hmem hfirst
        refine ⟨⟨u', .calling now x⟩, ?_, rfl, h'⟩
        change (u.timers x.addr).bind _ = _
        rw [htimer, Option.bind_some, if_neg hlate, e]
        rfl

theorem heapStep_simulates (h : Simulates hst st) {act : Act} (hproper : Proper st act = true) {st' : State}
    {ev : Event UtimerEntry Clock} (hstep : Utimer.step ops st act = some (st', ev)) :
    ∃ hst', heapStep hst act = some (hst', ev) ∧ Simulates hst' st' := by
  obtain ⟨u, c⟩ := hst
  obtain ⟨rfl, h⟩ := h
  change Stands u (firing st.control).toList st.ut at h
  cases act with
  | add alloc s ns data =>
      obtain ⟨rfl, rfl⟩ := Prod.mk.inj (Option.some.inj hstep)
      obtain ⟨u', r, e, rfl, h'⟩ := addStep_simulates h alloc s ns data
      refine ⟨⟨u', st.control⟩, ?_, rfl, h'⟩
      rw [heapStep, e]
      rfl
  | addByOffset alloc s ns data =>
      obtain ⟨rfl, rfl⟩ := Prod.mk.inj (Option.some.inj hstep)
      have hpure : Utimer.utimerAddByOffset ops st.ut alloc s ns data = Utimer.utimerAdd ops st.ut alloc
          (carryNs 4 (st.ut.lastS + s) (st.ut.lastNs + ns)).1 (carryNs 4 (st.ut.lastS + s) (st.ut.lastNs + ns)).2
            data := by
        rw [Utimer.utimerAddByOffset]
      have hheap : UtimerTree.utimerAddByOffset u alloc s ns data = UtimerTree.utimerAdd u alloc
          (carryNs 4 (st.ut.lastS + s) (st.ut.lastNs + ns)).1 (carryNs 4 (st.ut.lastS + s) (st.ut.lastNs + ns)).2
            data := by
        rw [UtimerTree.utimerAddByOffset, h.last.1, h.last.2]
      rw [hpure]
      generalize carryNs 4 (st.ut.lastS + s) (st.ut.lastNs + ns) = time at hheap ⊢
      obtain ⟨u', r, e, rfl, h'⟩ := addStep_simulates h alloc time.1 time.2 data
      refine ⟨⟨u', st.control⟩, ?_, rfl, h'⟩
      rw [heapStep, hheap, e]
      rfl
  | delete timer =>
      obtain ⟨x, hx, he⟩ := Option.map_eq_some_iff.mp hstep
      obtain ⟨hmem, rfl⟩ := UtimerDelivery.entryAt_some hx
      obtain ⟨rfl, rfl⟩ := Prod.mk.inj he
      obtain ⟨u', e, h'⟩ := delete_stands h hmem
      refine ⟨⟨u', st.control⟩, ?_, rfl, h'⟩
      rw [heapStep, h.timer hmem, Option.bind_some, e]
      rfl
  | run clock s ns =>
      have hidle : st.control = .idle := by
        cases hc : st.control <;> simp_all [Proper]
      rw [hidle] at h
      obtain ⟨hev, hsim⟩ := runStep_simulates h clock s ns
      have hrun := Option.some.inj hstep
      rw [hrun] at hev hsim
      exact ⟨_, congrArg some (Prod.ext rfl hev), hsim⟩
  | round =>
      obtain ⟨now, hloop⟩ : ∃ now, st.control = .looping now := by
        cases hc : st.control <;> simp_all [Proper]
      rw [hloop] at h
      rw [Utimer.step, hloop] at hstep
      rw [heapStep, hloop]
      exact roundStep_simulates h hstep
  | callbackReturns =>
      obtain ⟨now, x, hcall⟩ : ∃ now x, st.control = .calling now x := by
        cases hc : st.control <;> simp_all [Proper]
      rw [hcall] at h
      rw [Utimer.step, hcall] at hstep
      obtain ⟨rfl, rfl⟩ := Prod.mk.inj (Option.some.inj hstep)
      rw [heapStep, hcall]
      exact ⟨_, rfl, rfl, free_stands h⟩

-- Whole runs.

/-- Callers delete only timers that are in the list, and begin no run in another one. -/
def HeapProper (hst : HeapState) : Act → Bool
  | .delete timer => hst.control.accepts && (hst.heap.timers timer).isSome &&
      ((firing hst.control).map UtimerEntry.addr != some timer)
  | act => Proper ⟨Utimer.utimerOpen hst.heap.type, hst.control⟩ act

/-- The nanoseconds of an offset do not overflow, and neither does the count. -/
def HeapFits (hst : HeapState) : Act → Prop
  | .add alloc _ _ _ => alloc → hst.heap.count.toNat + 1 < 2 ^ 32
  | .addByOffset alloc s ns _ => alloc → hst.heap.count.toNat + 1 < 2 ^ 32 ∧
      (hst.heap.lastNs.toNat + ns.toNat < 2 ^ 32 ∨
        2 ^ 32 * 1000000000 ≤ Clock.time ⟨hst.heap.lastS, hst.heap.lastNs⟩ + Clock.time ⟨s, ns⟩)
  | _ => True

theorem proper_of_heap (h : Simulates hst st) {act : Act} (hproper : HeapProper hst act = true) :
    Proper st act = true := by
  obtain ⟨u, c⟩ := hst
  obtain ⟨rfl, h⟩ := h
  change Stands u (firing st.control).toList st.ut at h
  cases act with
  | delete timer =>
      simp only [HeapProper, Bool.and_eq_true, bne_iff_ne, ne_eq] at hproper
      obtain ⟨⟨hacc, hsome⟩, hfire⟩ := hproper
      obtain ⟨e, he⟩ := Option.isSome_iff_exists.mp hsome
      obtain ⟨rfl, hmem | hfire'⟩ := (h.timers _ e).mp he
      · refine Bool.and_eq_true_iff.mpr ⟨hacc, ?_⟩
        rw [entryAt, List.find?_isSome]
        exact ⟨e, hmem, decide_eq_true rfl⟩
      · rw [Option.mem_toList.mp hfire'] at hfire
        exact absurd rfl hfire
  | add | addByOffset | run | round | callbackReturns => exact hproper

theorem fits_of_heap (h : Simulates hst st) {act : Act} (hfits : HeapFits hst act) : UtimerDelivery.Fits st act := by
  have hcount := h.2.count
  obtain ⟨hs, hns⟩ := h.2.last
  cases act with
  | add alloc s ns data =>
      rw [HeapFits, hcount] at hfits
      exact hfits
  | addByOffset alloc s ns data =>
      rw [HeapFits, hcount, hs, hns] at hfits
      exact hfits
  | delete | run | round | callbackReturns => trivial

theorem step_fresh {act : Act} {st' : State} {ev : Event UtimerEntry Clock}
    (hstep : Utimer.step ops st act = some (st', ev)) : st'.ut.fresh = st.ut.fresh + (added [ev]).length := by
  cases act with
  | add alloc s ns data =>
      obtain ⟨rfl, rfl⟩ := Prod.mk.inj (Option.some.inj hstep)
      cases alloc <;> rfl
  | addByOffset alloc s ns data =>
      obtain ⟨rfl, rfl⟩ := Prod.mk.inj (Option.some.inj hstep)
      rw [Utimer.utimerAddByOffset]
      cases alloc <;> rfl
  | delete timer =>
      obtain ⟨x, hx, he⟩ := Option.map_eq_some_iff.mp hstep
      obtain ⟨rfl, rfl⟩ := Prod.mk.inj he
      rfl
  | run clock s ns =>
      have hrun := Option.some.inj hstep
      rw [Utimer.utimerRun] at hrun
      by_cases hsame : (Utimer.runTime st.ut clock s ns).ns = st.ut.lastNs ∧
          (Utimer.runTime st.ut clock s ns).s = st.ut.lastS
      · rw [if_pos hsame] at hrun
        obtain ⟨rfl, rfl⟩ := Prod.mk.inj hrun
        rfl
      · rw [if_neg hsame] at hrun
        obtain ⟨rfl, rfl⟩ := Prod.mk.inj hrun
        rfl
  | round =>
      rw [Utimer.step] at hstep
      cases hc : st.control with
      | idle | calling now x =>
          rw [hc] at hstep
          cases hstep
      | looping now =>
          rw [hc] at hstep
          change Utimer.runRound ops st.ut now = _ at hstep
          rw [Utimer.runRound] at hstep
          cases hfirst : st.ut.first with
          | none =>
              rw [hfirst] at hstep
              obtain ⟨rfl, rfl⟩ := Prod.mk.inj (Option.some.inj hstep)
              rfl
          | some node =>
              rw [hfirst] at hstep
              obtain ⟨x, hx, he⟩ := Option.map_eq_some_iff.mp hstep
              by_cases hlate : 0 < timeDiff now.s now.ns x.expireS x.expireNs
              · rw [if_pos hlate] at he
                obtain ⟨rfl, rfl⟩ := Prod.mk.inj he
                rfl
              · rw [if_neg hlate] at he
                obtain ⟨rfl, rfl⟩ := Prod.mk.inj he
                rfl
  | callbackReturns =>
      rw [Utimer.step] at hstep
      cases hc : st.control with
      | idle | looping now =>
          rw [hc] at hstep
          cases hstep
      | calling now x =>
          rw [hc] at hstep
          obtain ⟨rfl, rfl⟩ := Prod.mk.inj (Option.some.inj hstep)
          rfl

/-- The memory is that of the timers that are pending, in a red-black tree, and of the one that is being fired. -/
structure HeapKept (hst : HeapState) (es : Log) (t : RbRoot UtimerEntry) : Prop where
  holds : Holds UtimerEntry.addr hst.heap.mem.nodes hst.heap.mem t
  redBlack : IsRedBlack t
  leftmost : Leftmost UtimerEntry.addr expireTime t hst.heap.first
  pending : Agrees expireTime t.inorder (pending es)
  allocated : ∀ i, (hst.heap.mem.nodes i).isSome ↔
    ∃ x, x.addr = i ∧ (x ∈ TimerLog.pending es ∨ firing hst.control = some x)
  compares : hst.heap.numAddCompare.toNat ≤ (added es).length * (2 * Nat.log 2 ((added es).length + 1))

/-- The list in memory goes together with one that was reached. -/
def Meets (hst : HeapState) (es : Log) : Prop :=
  ∃ st, Simulates hst st ∧ Reached st es ∧ st.ut.fresh = (added es).length

theorem meets_open (type : UInt32) : Meets ⟨utimerOpen type, .idle⟩ [] := by
  refine ⟨⟨Utimer.utimerOpen type, .idle⟩, ⟨rfl, ?_⟩, UtimerDelivery.reached_open type, rfl⟩
  refine ⟨rfl, rfl, ⟨rfl, rfl⟩, rfl, rfl, ⟨rfl, trivial, List.nodup_nil, fun _ _ => rfl⟩, ⟨⟨0, rfl⟩, rfl⟩, ?_,
    fun _ => rfl, List.forall_mem_nil _, List.nodup_nil, ?_, Nat.zero_le _⟩
  · intro i e
    exact iff_of_false (by simp [utimerOpen]) (by simp [Utimer.utimerOpen, RbRoot.inorder, firing])
  · intro i hi
    cases hi

theorem heapStep_meets (hst : HeapState) (es : Log) (act : Act) (h : Meets hst es)
    (hact : HeapProper hst act = true ∧ HeapFits hst act) :
    ∃ hst' e, heapStep hst act = some (hst', e) ∧ Meets hst' (es ++ [e]) := by
  obtain ⟨st, hsim, hreached, hfresh⟩ := h
  have hproper := proper_of_heap hsim hact.1
  obtain ⟨st', e, hstep, hreached'⟩ := UtimerDelivery.step_reached ops st es act hreached
    ⟨hproper, fits_of_heap hsim hact.2⟩
  obtain ⟨hst', hheap, hsim'⟩ := heapStep_simulates hsim hproper hstep
  refine ⟨hst', e, hheap, st', hsim', hreached', ?_⟩
  rw [step_fresh hstep, hfresh, added_append, List.length_append]

theorem Meets.kept {es : Log} (h : Meets hst es) : ∃ t, HeapKept hst es t := by
  obtain ⟨st, ⟨hc, hstands⟩, hreached, hfresh⟩ := h
  refine ⟨st.ut.rbtree, hstands.holds, hstands.redBlack, ?_, hreached.kept.holds, fun i => ?_, ?_⟩
  · rw [hstands.first]
    exact hreached.kept.leftmost
  · rw [hstands.nodes, Option.isSome_iff_exists]
    refine exists_congr fun x => (hstands.timers i x).trans (and_congr_right fun _ => ?_)
    rw [hreached.kept.holds.mem_iff, hc, Option.mem_toList]
  · rw [← hfresh, ← hstands.fresh]
    exact hstands.compares

/-- Nothing is allocated, and the tree is empty. -/
def Freed (u : TimerHeap) : Prop :=
  u.first = none ∧ u.mem.root = none ∧ (∀ i, u.mem.nodes i = none) ∧ ∀ i, u.timers i = none

theorem freed_of_leaf (h : Stands u [] ut) (hleaf : ut.rbtree = .leaf) (hfirst : ut.first = none) : Freed u := by
  have htimers (i : Nat) : u.timers i = none := by
    cases ht : u.timers i with
    | none => rfl
    | some e =>
        obtain ⟨_, hmem | hfire⟩ := (h.timers i e).mp ht
        · rw [hleaf] at hmem
          cases hmem
        · cases hfire
  refine ⟨h.first.trans hfirst, ?_, fun i => ?_, htimers⟩
  · rw [h.holds.root, hleaf]
    rfl
  · have hnode := h.nodes i
    rw [htimers i] at hnode
    exact Option.not_isSome_iff_eq_none.mp (by rw [hnode]; exact Bool.false_ne_true)

theorem closeRound_some {node : Nat} (h : u.first = some node) :
    closeRound u = (UtimerTree.utimerDelete u node).map .inl := by
  rw [closeRound, h]
  change (unlinkTimer u node).bind _ = ((unlinkTimer u node).bind _).map _
  cases unlinkTimer u node with
  | none => rfl
  | some u' => rfl

theorem close_stands (k : Nat) (h : Stands u [] ut)
    (hleft : Leftmost UtimerEntry.addr expireTime ut.rbtree ut.first) :
    ∃ u', utimerClose (ut.rbtree.inorder.length + k + 1) u = some u' ∧ Freed u' := by
  generalize hn : ut.rbtree.inorder.length = n
  induction n generalizing u ut with
  | zero =>
      have hnil := List.length_eq_zero_iff.mp hn
      have hfirst : ut.first = none := by
        rw [hleft.first, hnil]
        rfl
      refine ⟨u, ?_, freed_of_leaf h ?_ hfirst⟩
      · rw [utimerClose, loop, closeRound, h.first, hfirst]
        rfl
      · cases ht : ut.rbtree with
        | leaf => rfl
        | node c l x r =>
            rw [ht, RbRoot.inorder] at hnil
            exact absurd hnil (List.append_ne_nil_of_right_ne_nil _ (List.cons_ne_nil _ _))
  | succ n ih =>
      obtain ⟨x, rest, hx⟩ := List.exists_cons_of_length_eq_add_one hn
      have hfirst := hleft.first_eq hx
      have hmem : x ∈ ut.rbtree.inorder := by
        rw [hx]
        exact List.mem_cons_self
      obtain ⟨u1, e1, h1⟩ := delete_stands h hmem
      obtain ⟨hleft1, horder⟩ := hleft.erase ops hmem
      have hlen : (ops.erase ut.rbtree x.addr).inorder.length = n := by
        rw [horder, filter_addr_cons hleft.addrs hx]
        rw [hx] at hn
        exact Nat.succ.inj hn
      obtain ⟨u2, e2, h2⟩ := ih h1 hleft1 hlen
      refine ⟨u2, ?_, h2⟩
      have hround : closeRound u = some (.inl u1) := by
        rw [closeRound_some (h.first.trans hfirst), e1]
        rfl
      rw [← e2, utimerClose, Nat.add_right_comm n 1 k, loop, hround]
      rfl

instance (hst : HeapState) (act : Act) : Decidable (HeapFits hst act) :=
  match act with
  | .add .. => inferInstanceAs (Decidable (_ → _))
  | .addByOffset .. => inferInstanceAs (Decidable (_ → _))
  | .delete _ | .run .. | .round | .callbackReturns => isTrue trivial

/-- A callback that adds a timer and deletes another one, in a run that ends. -/
def nestedActs : List Act :=
  [.add true 1 0 7, .addByOffset true 2 5 8, .run ⟨0, 0⟩ 1 0, .round, .delete 1,
    .addByOffset true 0 4000000000 9, .callbackReturns, .round]

end OiAmc.UtimerTree

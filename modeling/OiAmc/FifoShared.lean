import OiAmc.SharedQueue
import OiAmc.RingIndex
import Mathlib.Logic.Function.Basic

/-! A FIFO of pointers that one party fills and another one empties. -/

namespace OiAmc.Fifo

open Function SharedQueue

variable {α : Type}

/-- A FIFO, with none in a place that was never written. -/
structure Ctrl (α : Type) where
  size : Nat
  elements : Nat → Option α
  r : Nat
  w : Nat

def fifoOpen (size : Nat) : Option (Ctrl α) :=
  if 1 < size then some ⟨size, fun _ => none, 0, 0⟩ else none

def wrap (size i : Nat) : Nat := if i = size then 0 else i

def fifoCnt (size r w : Nat) : Nat := if r ≤ w then w - r else size - (r - w)

inductive Producer (α : Type)
  | idle
  /-- nw was computed -/
  | pushing (data : α) (nw : Nat)
  /-- there is room -/
  | room (data : α) (nw : Nat)
  /-- the place to write to was read -/
  | placing (data : α) (nw i : Nat)
  | placed (data : α) (nw : Nat)
  | counting (r : Nat)

inductive Consumer (α : Type)
  | idle
  | popping (r : Nat)
  | nonempty (r : Nat)
  | taken (r : Nat) (p : Option α)
  | clearing (w : Nat)
  | counting (r : Nat)

structure State (α : Type) where
  ctrl : Ctrl α
  prod : Producer α
  cons : Consumer α

inductive ProducerCall (α : Type)
  | push (data : α)
  | getCnt

inductive ConsumerCall
  | pop
  | clear
  | getCnt

/-- The next access of a party to what is shared, where one in no call begins the given one. -/
inductive Act (α : Type)
  | prod (call : ProducerCall α)
  | cons (call : ConsumerCall)

def Act.side : Act α → Side
  | .prod _ => .producer
  | .cons _ => .consumer

def prodStep (s : State α) (call : ProducerCall α) : State α × Event α :=
  match s.prod with
  | .idle =>
      match call with
      | .push data => ({ s with prod := .pushing data (wrap s.ctrl.size (s.ctrl.w + 1)) }, .silent)
      | .getCnt => ({ s with prod := .counting s.ctrl.r }, .silent)
  | .pushing data nw =>
      if nw ≠ s.ctrl.r then ({ s with prod := .room data nw }, .silent)
      else ({ s with prod := .idle }, .refused)
  | .room data nw => ({ s with prod := .placing data nw s.ctrl.w }, .silent)
  | .placing data nw i =>
      ({ s with
        ctrl := { s.ctrl with elements := update s.ctrl.elements i (some data) }
        prod := .placed data nw }, .silent)
  | .placed data nw => ({ s with ctrl := { s.ctrl with w := nw }, prod := .idle }, .accepted data)
  | .counting r => ({ s with prod := .idle }, .counted (fifoCnt s.ctrl.size r s.ctrl.w))

def consStep (s : State α) (call : ConsumerCall) : State α × Event α :=
  match s.cons with
  | .idle =>
      match call with
      | .pop => ({ s with cons := .popping s.ctrl.r }, .silent)
      | .clear => ({ s with cons := .clearing s.ctrl.w }, .silent)
      | .getCnt => ({ s with cons := .counting s.ctrl.r }, .silent)
  | .popping r =>
      if r ≠ s.ctrl.w then ({ s with cons := .nonempty r }, .silent)
      else ({ s with cons := .idle }, .empty)
  | .nonempty r => ({ s with cons := .taken r (s.ctrl.elements r) }, .silent)
  | .taken r p =>
      ({ s with ctrl := { s.ctrl with r := wrap s.ctrl.size (r + 1) }, cons := .idle }, .popped p)
  | .clearing w => ({ s with ctrl := { s.ctrl with r := w }, cons := .idle }, .cleared)
  | .counting r => ({ s with cons := .idle }, .counted (fifoCnt s.ctrl.size r s.ctrl.w))

def step (s : State α) : Act α → Option (State α × Event α)
  | .prod call => some (prodStep s call)
  | .cons call => some (consStep s call)

def opened (c : Ctrl α) : State α := ⟨c, .idle, .idle⟩

end OiAmc.Fifo

/-! The FIFO of two parties is a bounded queue, whatever the order of their steps. -/

namespace OiAmc.FifoShared

open Fifo Function PartialMachine RingIndex SharedQueue

variable {α : Type} {c : Ctrl α} {s : State α} {q : Queue α} {us : List α} {x : α} {i n : Nat}

/-- The unread elements stand behind r, each in its place. -/
structure Slots (c : Ctrl α) (us : List α) : Prop where
  r_lt : c.r < c.size
  w_lt : c.w < c.size
  count : span c.size c.r c.w = us.length
  contents : ∀ i, (h : i < us.length) → c.elements (next c.size c.r i) = some us[i]

def ProducerOk (c : Ctrl α) (q : Queue α) : Producer α → Prop
  | .idle => True
  | .pushing _ nw => nw = next c.size c.w 1
  | .room _ nw => nw = next c.size c.w 1 ∧ q.unread.length + 1 < c.size
  | .placing _ nw i => nw = next c.size c.w 1 ∧ q.unread.length + 1 < c.size ∧ i = c.w
  | .placed data nw =>
      nw = next c.size c.w 1 ∧ q.unread.length + 1 < c.size ∧ c.elements c.w = some data
  | .counting r => r < c.size ∧ span c.size r c.w ∈ q.seen .producer

def ConsumerOk (c : Ctrl α) (q : Queue α) : Consumer α → Prop
  | .idle => True
  | .popping r => r = c.r
  | .nonempty r => r = c.r ∧ q.unread ≠ []
  | .taken r p => r = c.r ∧ ∃ x us, p = some x ∧ q.unread = x :: us
  | .clearing w => w = next c.size c.r q.marked ∧ q.marked ≤ q.unread.length
  | .counting r => r = c.r ∧ q.unread.length ∈ q.seen .consumer

structure Holds (s : State α) (q : Queue α) : Prop where
  slots : Slots s.ctrl q.unread
  prod : ProducerOk s.ctrl q s.prod
  cons : ConsumerOk s.ctrl q s.cons

theorem wrap_eq_next {size w : Nat} (h : w < size) : wrap size (w + 1) = next size w 1 := by
  rw [wrap, next_eq h (by omega)]
  split <;> split <;> omega

theorem fifoCnt_eq {size r w : Nat} (hr : r < size) : fifoCnt size r w = span size r w := by
  rw [fifoCnt, span]
  split <;> omega

theorem Slots.room (h : Slots c us) : us.length + 1 ≤ c.size := by
  have hlt := span_lt h.r_lt h.w_lt
  rw [h.count] at hlt
  omega

theorem Slots.full_iff (h : Slots c us) : next c.size c.w 1 = c.r ↔ us.length + 1 = c.size := by
  rw [next_end_eq_iff h.r_lt h.w_lt, h.count]

theorem Slots.empty_iff (h : Slots c us) : c.r = c.w ↔ us = [] := by
  rw [← span_eq_zero_iff h.r_lt, h.count, List.length_eq_zero_iff]

theorem Slots.head (h : Slots c (x :: us)) : c.elements c.r = some x := by
  have hx := h.contents 0 (Nat.succ_pos _)
  rwa [next_zero h.r_lt] at hx

theorem Slots.write (h : Slots c us) (p : Option α) :
    Slots { c with elements := update c.elements c.w p } us := by
  refine ⟨h.r_lt, h.w_lt, h.count, fun i hi => ?_⟩
  have hne := next_ne_end h.r_lt h.w_lt (d := i) (by rw [h.count]; exact hi)
  exact (update_of_ne hne _ _).trans (h.contents i hi)

theorem Slots.push (h : Slots c us) (hroom : us.length + 1 < c.size)
    (hx : c.elements c.w = some x) : Slots { c with w := next c.size c.w 1 } (us ++ [x]) := by
  have hpos : 0 < c.size := by omega
  refine ⟨h.r_lt, next_lt hpos, ?_, fun i hi => ?_⟩
  · have hspan := span_next_end h.r_lt h.w_lt (d := 1) (by rw [h.count]; exact hroom)
    rw [List.length_append, List.length_singleton, ← h.count]
    exact hspan
  · rw [List.length_append, List.length_singleton] at hi
    rcases Nat.lt_succ_iff_lt_or_eq.mp hi with hlt | rfl
    · rw [List.getElem_append_left hlt]
      exact h.contents i hlt
    · rw [List.getElem_append_right (Nat.le_refl _)]
      simp only [Nat.sub_self, List.getElem_singleton]
      rw [← h.count, next_span h.r_lt h.w_lt]
      exact hx

theorem Slots.drop {xs : List α} (h : Slots c (xs ++ us)) :
    Slots { c with r := next c.size c.r xs.length } us := by
  have hpos : 0 < c.size := Nat.lt_of_le_of_lt (Nat.zero_le _) h.r_lt
  have hlen : (xs ++ us).length = xs.length + us.length := List.length_append
  refine ⟨next_lt hpos, h.w_lt, ?_, fun i hi => ?_⟩
  · have hspan := span_next_start h.r_lt h.w_lt (d := xs.length) (by rw [h.count]; omega)
    rw [h.count] at hspan
    exact hspan.trans (by omega)
  · have hx := h.contents (xs.length + i) (by omega)
    rw [List.getElem_append_right (by omega)] at hx
    simp only [Nat.add_sub_cancel_left] at hx
    rw [← hx, next_next]

theorem mem_become {k : Nat} (q : Queue α) (gone : List (Gone α)) (us : List α) (side : Side)
    (hk : k ∈ q.seen side) : k ∈ (q.become gone us).seen side := List.mem_append_left _ hk

theorem length_mem_become (q : Queue α) (gone : List (Gone α)) (us : List α) (side : Side) :
    us.length ∈ (q.become gone us).seen side := List.mem_append_right _ (List.mem_singleton_self _)

theorem ConsumerOk.push {pc : Consumer α} (h : ConsumerOk c q pc) (hr : us = q.unread ++ [x]) (w : Nat) :
    ConsumerOk { c with w := w } (q.become q.gone us) pc := by
  subst hr
  cases pc with
  | idle => trivial
  | popping r => exact h
  | nonempty r => exact ⟨h.1, by simp [Queue.become]⟩
  | taken r p =>
      obtain ⟨hr, y, ys, rfl, hy⟩ := h
      exact ⟨hr, y, ys ++ [x], rfl, by simp [Queue.become, hy]⟩
  | clearing w =>
      refine ⟨h.1, ?_⟩
      have hle := h.2
      simp only [Queue.become, List.length_append]
      omega
  | counting r => exact ⟨h.1, length_mem_become q q.gone _ .consumer⟩

theorem ProducerOk.drop {pc : Producer α} (h : ProducerOk c q pc) (gone : List (Gone α))
    (hle : us.length ≤ q.unread.length) (r : Nat) :
    ProducerOk { c with r := r } (q.become gone us) pc := by
  cases pc with
  | idle => trivial
  | pushing data nw => exact h
  | room data nw => exact ⟨h.1, Nat.lt_of_le_of_lt (Nat.succ_le_succ hle) h.2⟩
  | placing data nw i => exact ⟨h.1, Nat.lt_of_le_of_lt (Nat.succ_le_succ hle) h.2.1, h.2.2⟩
  | placed data nw => exact ⟨h.1, Nat.lt_of_le_of_lt (Nat.succ_le_succ hle) h.2.1, h.2.2⟩
  | counting r => exact ⟨h.1, mem_become q gone us .producer h.2⟩

theorem prodStep_meets (h : Holds s q) (call : ProducerCall α) :
    ∃ s' e q', prodStep s call = (s', e) ∧ Moves (s.ctrl.size - 1) q .producer e q' ∧
      Holds s' q' ∧ s'.ctrl.size = s.ctrl.size := by
  obtain ⟨c, pc, kc⟩ := s
  obtain ⟨hslots, hprod, hcons⟩ := h
  have hsize := hslots.room
  dsimp only at hslots hprod hcons hsize
  cases pc with
  | idle =>
      cases call with
      | push data =>
          exact ⟨_, _, q, rfl, .silent q _, ⟨hslots, wrap_eq_next hslots.w_lt, hcons⟩, rfl⟩
      | getCnt =>
          refine ⟨_, _, q.begin .producer, rfl, .begin q _, ⟨hslots, ⟨hslots.r_lt, ?_⟩, ?_⟩, rfl⟩
          · change span c.size c.r c.w ∈ [q.unread.length]
            rw [hslots.count]
            exact List.mem_singleton_self _
          · cases kc <;> exact hcons
  | pushing data nw =>
      by_cases hnw : nw = c.r
      · have hfull := hslots.full_iff.mp (hprod.symm.trans hnw)
        exact ⟨⟨c, .idle, kc⟩, .refused, q, if_neg (not_not.mpr hnw), .refuse q (by dsimp only; omega),
          ⟨hslots, trivial, hcons⟩, rfl⟩
      · have hroom : q.unread.length + 1 < c.size := by
          have hne := mt hslots.full_iff.mpr fun hfull => hnw (hprod.trans hfull)
          omega
        exact ⟨⟨c, .room data nw, kc⟩, .silent, q, if_pos hnw, .silent q _,
          ⟨hslots, ⟨hprod, hroom⟩, hcons⟩, rfl⟩
  | room data nw =>
      exact ⟨_, _, q, rfl, .silent q _, ⟨hslots, ⟨hprod.1, hprod.2, rfl⟩, hcons⟩, rfl⟩
  | placing data nw i =>
      obtain ⟨hnw, hroom, rfl⟩ := hprod
      refine ⟨_, _, q, rfl, .silent q _, ⟨hslots.write _, ⟨hnw, hroom, update_self _ _ _⟩, ?_⟩, rfl⟩
      cases kc <;> exact hcons
  | placed data nw =>
      obtain ⟨rfl, hroom, hdata⟩ := hprod
      refine ⟨_, _, q.become q.gone (q.unread ++ [data]), rfl, .accept q data (by dsimp only; omega),
        ⟨hslots.push hroom hdata, trivial, hcons.push rfl _⟩, rfl⟩
  | counting r =>
      obtain ⟨hr, hseen⟩ := hprod
      have hcnt := fifoCnt_eq (w := c.w) hr
      have hlt := span_lt hr hslots.w_lt
      exact ⟨_, _, q, rfl, .count q _ _ (by rwa [hcnt]) (by dsimp only; omega),
        ⟨hslots, trivial, hcons⟩, rfl⟩

theorem consStep_meets (h : Holds s q) (call : ConsumerCall) :
    ∃ s' e q', consStep s call = (s', e) ∧ Moves (s.ctrl.size - 1) q .consumer e q' ∧
      Holds s' q' ∧ s'.ctrl.size = s.ctrl.size := by
  obtain ⟨c, pc, kc⟩ := s
  obtain ⟨hslots, hprod, hcons⟩ := h
  have hsize := hslots.room
  dsimp only at hslots hprod hcons hsize
  cases kc with
  | idle =>
      cases call with
      | pop => exact ⟨_, _, q, rfl, .silent q _, ⟨hslots, hprod, rfl⟩, rfl⟩
      | clear =>
          refine ⟨_, _, { q with marked := q.unread.length }, rfl, .mark q, ⟨hslots, ?_, ?_, ?_⟩, rfl⟩
          · cases pc <;> exact hprod
          · change c.w = next c.size c.r q.unread.length
            rw [← hslots.count, next_span hslots.r_lt hslots.w_lt]
          · exact Nat.le_refl _
      | getCnt =>
          refine ⟨_, _, q.begin .consumer, rfl, .begin q _, ⟨hslots, ?_, rfl, ?_⟩, rfl⟩
          · cases pc <;> exact hprod
          · exact List.mem_singleton_self _
  | popping r =>
      obtain rfl : r = c.r := hcons
      by_cases hrw : c.r = c.w
      · have hempty := hslots.empty_iff.mp hrw
        exact ⟨⟨c, pc, .idle⟩, .empty, q, if_neg (not_not.mpr hrw), .empty q hempty,
          ⟨hslots, hprod, trivial⟩, rfl⟩
      · exact ⟨⟨c, pc, .nonempty c.r⟩, .silent, q, if_pos hrw, .silent q _,
          ⟨hslots, hprod, rfl, mt hslots.empty_iff.mpr hrw⟩, rfl⟩
  | nonempty r =>
      obtain ⟨rfl, hne⟩ := hcons
      obtain ⟨x, us, hq⟩ := List.exists_cons_of_ne_nil hne
      refine ⟨_, _, q, rfl, .silent q _, ⟨hslots, hprod, rfl, x, us, ?_, hq⟩, rfl⟩
      rw [hq] at hslots
      exact hslots.head
  | taken r p =>
      obtain ⟨rfl, x, us, rfl, hq⟩ := hcons
      have hdrop : Slots c ([x] ++ us) := by
        rw [hq] at hslots
        exact hslots
      refine ⟨_, _, q.become (q.gone ++ [.popped x]) us, rfl, .pop q x us hq, ⟨?_, ?_, trivial⟩, rfl⟩
      · simp only [wrap_eq_next hslots.r_lt]
        exact hdrop.drop
      · exact hprod.drop _ (by rw [hq]; exact Nat.le_succ _) _
  | clearing w =>
      obtain ⟨rfl, hle⟩ := hcons
      have hq : q.unread = q.unread.take q.marked ++ q.unread.drop q.marked :=
        (List.take_append_drop _ _).symm
      have hlen : (q.unread.take q.marked).length = q.marked := List.length_take_of_le hle
      refine ⟨_, _, q.become (q.gone ++ (q.unread.take q.marked).map .dropped)
        (q.unread.drop q.marked), rfl, .clear q _ _ hq hlen, ⟨?_, ?_, trivial⟩, rfl⟩
      · rw [hq] at hslots
        have hdrop := hslots.drop
        rwa [hlen] at hdrop
      · exact hprod.drop _ (by rw [List.length_drop]; omega) _
  | counting r =>
      obtain ⟨rfl, hseen⟩ := hcons
      have hcnt := fifoCnt_eq (w := c.w) hslots.r_lt
      rw [hslots.count] at hcnt
      exact ⟨_, _, q, rfl, .count q _ _ (by rwa [hcnt]) (by dsimp only; omega),
        ⟨hslots, hprod, trivial⟩, rfl⟩

theorem step_meets {size : Nat} {i : Act α} (h : Holds s q ∧ s.ctrl.size = size) :
    ∃ s' e q', step s i = some (s', e) ∧ Moves (size - 1) q i.side e q' ∧
      Holds s' q' ∧ s'.ctrl.size = size := by
  obtain ⟨hs, rfl⟩ := h
  cases i with
  | prod call =>
      obtain ⟨s', e, q', hstep, hm, hs', hsize⟩ := prodStep_meets hs call
      exact ⟨s', e, q', congrArg some hstep, hm, hs', hsize⟩
  | cons call =>
      obtain ⟨s', e, q', hstep, hm, hs', hsize⟩ := consStep_meets hs call
      exact ⟨s', e, q', congrArg some hstep, hm, hs', hsize⟩

theorem holds_opened {size : Nat} (hopen : fifoOpen size = some c) :
    Holds (opened c) .start ∧ (opened c).ctrl.size = size := by
  rw [fifoOpen] at hopen
  split_ifs at hopen with hsize
  obtain rfl := Option.some.inj hopen
  refine ⟨⟨⟨?_, ?_, rfl, ?_⟩, trivial, trivial⟩, rfl⟩
  · exact Nat.lt_trans Nat.zero_lt_one hsize
  · exact Nat.lt_trans Nat.zero_lt_one hsize
  · exact fun i hi => absurd hi (Nat.not_lt_zero i)

def overlapped : List (Act Char) :=
  List.replicate 5 (.prod (.push 'a')) ++ [.cons .clear] ++ List.replicate 5 (.prod (.push 'b')) ++
    [.cons .clear] ++ List.replicate 4 (.cons .pop)

end OiAmc.FifoShared

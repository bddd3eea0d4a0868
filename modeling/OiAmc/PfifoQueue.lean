import OiAmc.Pfifo

namespace OiAmc.PfifoQueue

open Arena FifoTrace PartialMachine RingIndex Function Pfifo

variable {β : Type} {c c' : Ctrl β} {s : State β} {q : List β} {x : β} {p n i : Nat}

/-- The slots of a FIFO: n committed elements that are not read stand behind r, and each slot
has a buffer of its own. The producer may have freed the buffer of slot w. -/
structure Slots (c : Ctrl β) (q : List β) (freed : Bool) : Prop where
  r_lt : c.r < c.size
  w_lt : c.w < c.size
  count : span c.size c.r c.w = q.length
  contents : ∀ i, (h : i < q.length) → c.heap.get (c.elements (next c.size c.r i)) = some q[i]
  inj : ∀ i < c.size, ∀ j < c.size, c.elements i = c.elements j → i = j
  live : ∀ i < c.size, (freed = true → i ≠ c.w) → c.heap.get (c.elements i) ≠ none

def Producer.isFreed : Producer → Bool
  | .freed _ => true
  | _ => false

def ProducerOk (c : Ctrl β) (n : Nat) : Producer → Prop
  | .idle => True
  | .replacing p => n + 1 < c.size ∧ c.heap.get p ≠ none ∧ ∀ i < c.size, c.elements i ≠ p
  | .freed p => n + 1 < c.size ∧ c.heap.get p ≠ none ∧ ∀ i < c.size, c.elements i ≠ p
  | .filling p => n + 1 < c.size ∧ p = c.elements c.w

def ConsumerOk (c : Ctrl β) (q : List β) : Consumer β → Prop
  | .idle => True
  | .nonempty => q ≠ []
  | .reading p => q ≠ [] ∧ p = c.elements c.r
  | .used p x => q.head? = some x ∧ p = c.elements c.r

structure Holds (s : State β) (q : List β) : Prop where
  slots : Slots s.ctrl q (Producer.isFreed s.prod)
  prod : ProducerOk s.ctrl q.length s.prod
  cons : ConsumerOk s.ctrl q s.cons

theorem wrap_eq_next {size w : Nat} (h : w < size) : wrap size (w + 1) = next size w 1 := by
  rw [wrap, next_eq h (by omega)]
  split <;> split <;> omega

theorem getCnt_eq (h : Slots c q b) : pfifoGetCnt c = q.length := by
  rw [← h.count, pfifoGetCnt, span]
  have := h.r_lt
  split
  · rfl
  · omega

theorem full_iff (h : Slots c q b) : wrap c.size (c.w + 1) = c.r ↔ q.length + 1 = c.size := by
  rw [wrap_eq_next h.w_lt, next_end_eq_iff h.r_lt h.w_lt, h.count]

theorem room_of_not_full (h : Slots c q b) (hw : wrap c.size (c.w + 1) ≠ c.r) :
    q.length + 1 < c.size := by
  have hne := mt (full_iff h).mpr hw
  have hlt := span_lt h.r_lt h.w_lt
  rw [h.count] at hlt
  omega

theorem empty_iff (h : Slots c q b) : c.r = c.w ↔ q = [] := by
  rw [← span_eq_zero_iff h.r_lt, h.count, List.length_eq_zero_iff]

theorem elements_ne_write (h : Slots c q b) (hi : i < q.length) :
    c.elements (next c.size c.r i) ≠ c.elements c.w := by
  intro he
  have hpos : 0 < c.size := by have := h.r_lt; omega
  have hne := next_ne_end h.r_lt h.w_lt (d := i) (by rw [h.count]; exact hi)
  exact hne (h.inj _ (next_lt hpos) _ h.w_lt he)

theorem read_ne_write (h : Slots c q b) (hq : q ≠ []) :
    c.r ≠ c.w ∧ c.elements c.r ≠ c.elements c.w := by
  have hne := elements_ne_write h (List.length_pos_iff.mpr hq)
  rw [next_zero h.r_lt] at hne
  exact ⟨fun he => hne (by rw [he]), hne⟩

theorem Slots.buffer (h : Slots c q false) {i : Nat} (hi : i < c.size) :
    c.heap.get (c.elements i) ≠ none :=
  h.live i hi fun hfreed => absurd hfreed Bool.false_ne_true

theorem Slots.of_heap {heap : Pool β} {b' : Bool} (h : Slots c q b)
    (hget : ∀ a, c.heap.get a ≠ none → a ≠ c.elements c.w → heap.get a = c.heap.get a)
    (hw : b' = false → heap.get (c.elements c.w) ≠ none) (hb : b = true → b' = true) :
    Slots { c with heap := heap } q b' := by
  refine ⟨h.r_lt, h.w_lt, h.count, ?_, h.inj, ?_⟩
  · intro i hi
    have hc := h.contents i hi
    exact (hget _ (by rw [hc]; nofun) (elements_ne_write h hi)).trans hc
  · intro i hi hfreed
    by_cases hiw : i = c.w
    · subst hiw
      cases b' with
      | false => exact hw rfl
      | true => exact absurd rfl (hfreed rfl)
    · have hne : c.elements i ≠ c.elements c.w := fun he => hiw (h.inj i hi c.w h.w_lt he)
      have hlive := h.live i hi fun _ => hiw
      exact (hget _ hlive hne).symm ▸ hlive

theorem ProducerOk.mono {m : Nat} {pc : Producer} (h : ProducerOk c n pc) (hm : m ≤ n) :
    ProducerOk c m pc := by
  cases pc with
  | idle => trivial
  | replacing p => exact ⟨Nat.lt_of_le_of_lt (Nat.succ_le_succ hm) h.1, h.2⟩
  | freed p => exact ⟨Nat.lt_of_le_of_lt (Nat.succ_le_succ hm) h.1, h.2⟩
  | filling p => exact ⟨Nat.lt_of_le_of_lt (Nat.succ_le_succ hm) h.1, h.2⟩

theorem ConsumerOk.of_eq {pc : Consumer β} (h : ConsumerOk c q pc) (hr : q ≠ [] → c'.elements c'.r = c.elements c.r) :
    ConsumerOk c' q pc := by
  cases pc with
  | idle => trivial
  | nonempty => exact h
  | reading p => exact ⟨h.1, h.2.trans (hr h.1).symm⟩
  | used p x => exact ⟨h.1, h.2.trans (hr (by rintro rfl; cases h.1)).symm⟩

theorem Slots.alloc (h : Slots c q false) (x : β) : Slots { c with heap := c.heap.alloc x } q false := by
  have hlive (a : Nat) (ha : c.heap.get a ≠ none) : (c.heap.alloc x).get a = c.heap.get a := by
    have hlt := lt_next ha
    rw [alloc_get, update_of_ne (by omega)]
  refine h.of_heap (fun a ha _ => hlive a ha) (fun _ => ?_) nofun
  have hw := h.buffer h.w_lt
  rw [hlive _ hw]
  exact hw

theorem Slots.free (h : Slots c q false) : ∃ heap, c.heap.free (c.elements c.w) = some heap ∧
    heap.get = update c.heap.get (c.elements c.w) none ∧ Slots { c with heap := heap } q true := by
  obtain ⟨heap, hfree, hget, -⟩ := free_some (h.buffer h.w_lt)
  refine ⟨heap, hfree, hget, h.of_heap (fun a _ ha => ?_) nofun fun _ => rfl⟩
  rw [hget, update_of_ne ha]

theorem Slots.install (h : Slots c q b) (hp : c.heap.get p ≠ none) (hnew : ∀ i < c.size, c.elements i ≠ p) :
    Slots { c with elements := update c.elements c.w p } q false := by
  have hother {i : Nat} (hi : i ≠ c.w) : update c.elements c.w p i = c.elements i := update_of_ne hi _ _
  refine ⟨h.r_lt, h.w_lt, h.count, ?_, ?_, ?_⟩
  · intro i hi
    have hne := next_ne_end h.r_lt h.w_lt (d := i) (by rw [h.count]; exact hi)
    simp only
    rw [hother hne]
    exact h.contents i hi
  · intro i hi j hj he
    simp only at he
    by_cases hiw : i = c.w
    · by_cases hjw : j = c.w
      · rw [hiw, hjw]
      · rw [hiw, update_self, hother hjw] at he
        exact absurd he.symm (hnew j hj)
    · by_cases hjw : j = c.w
      · rw [hjw, update_self, hother hiw] at he
        exact absurd he (hnew i hi)
      · rw [hother hiw, hother hjw] at he
        exact h.inj i hi j hj he
  · intro i hi _
    by_cases hiw : i = c.w
    · simp only [hiw, update_self]
      exact hp
    · simp only [hother hiw]
      exact h.live i hi fun _ => hiw

theorem Slots.fill (h : Slots c q false) (x : β) : ∃ heap, c.heap.write (c.elements c.w) x = some heap ∧
    heap.get = update c.heap.get (c.elements c.w) (some x) ∧ Slots { c with heap := heap } q false := by
  obtain ⟨heap, hwrite, hget, -⟩ := @write_some _ _ _ x (h.buffer h.w_lt)
  refine ⟨heap, hwrite, hget, h.of_heap (fun a _ ha => ?_) (fun _ => ?_) fun hb => hb⟩
  · rw [hget, update_of_ne ha]
  · rw [hget, update_self]
    nofun

theorem Slots.writeCommit (h : Slots c q false) (hroom : q.length + 1 < c.size)
    (hx : c.heap.get (c.elements c.w) = some x) : Slots (pfifoWriteCommit c) (q ++ [x]) false := by
  have hpos : 0 < c.size := by have := h.r_lt; omega
  refine ⟨h.r_lt, ?_, ?_, ?_, h.inj, fun i hi _ => h.buffer hi⟩
  · simp only [pfifoWriteCommit]
    rw [wrap_eq_next h.w_lt]
    exact next_lt hpos
  · simp only [pfifoWriteCommit]
    rw [wrap_eq_next h.w_lt, span_next_end h.r_lt h.w_lt, h.count, List.length_append]
    · rfl
    · rw [h.count]
      exact hroom
  · intro i hi
    simp only [pfifoWriteCommit]
    by_cases hlast : i < q.length
    · rw [List.getElem_append_left hlast]
      exact h.contents i hlast
    · have hlen : i = q.length := by
        rw [List.length_append, List.length_singleton] at hi
        omega
      subst hlen
      rw [List.getElem_concat_length rfl, ← h.count, next_span h.r_lt h.w_lt]
      exact hx

theorem Slots.readCommit (h : Slots c (x :: q) b) : Slots (pfifoReadCommit c) q b := by
  have hpos : 0 < c.size := by have := h.r_lt; omega
  refine ⟨?_, h.w_lt, ?_, ?_, h.inj, h.live⟩
  · simp only [pfifoReadCommit]
    rw [wrap_eq_next h.r_lt]
    exact next_lt hpos
  · simp only [pfifoReadCommit]
    rw [wrap_eq_next h.r_lt, span_next_start h.r_lt h.w_lt, h.count]
    · rfl
    · rw [h.count]
      exact Nat.le_add_left 1 _
  · intro i hi
    simp only [pfifoReadCommit]
    rw [wrap_eq_next h.r_lt, next_next, Nat.add_comm]
    exact h.contents (i + 1) (Nat.succ_lt_succ hi)

theorem writeStep_holds (h : Holds s q) (hfree : Producer.isFreed s.prod = false) (psize : Int)
    (mem : Option β) : (writeStep s psize mem).2 = .idle ∧ Holds (writeStep s psize mem).1 q := by
  have hslots := h.slots
  rw [hfree] at hslots
  unfold writeStep
  split
  · exact ⟨rfl, hslots, trivial, h.cons⟩
  · rename_i hw
    have hroom := room_of_not_full hslots hw
    split
    · exact ⟨rfl, hslots, ⟨hroom, rfl⟩, h.cons⟩
    · cases mem with
      | none => exact ⟨rfl, hslots, trivial, h.cons⟩
      | some x =>
          refine ⟨rfl, hslots.alloc x, ⟨hroom, ?_, ?_⟩, h.cons.of_eq fun _ => rfl⟩
          · simp only [alloc_get, update_self]
            nofun
          · exact fun i hi => Nat.ne_of_lt (lt_next (hslots.buffer hi))

def Simulates (s : State β) (q : List β) (a : Act β) : Prop :=
  ∃ s' e q', step s a = some (s', e) ∧ Moves q e q' ∧ Holds s' q'

theorem simulates_stay (h : Holds s q) {a : Act β} (ha : step s a = some (s, .idle)) :
    Simulates s q a := ⟨s, .idle, q, ha, .idle q, h⟩

theorem write_simulates (h : Holds s q) (psize : Int) (mem : Option β) :
    Simulates s q (.write psize mem) := by
  cases hp : s.prod with
  | idle =>
      obtain ⟨he, hs⟩ := writeStep_holds h (by rw [hp]; rfl) psize mem
      refine ⟨_, .idle, q, ?_, .idle q, hs⟩
      rw [step, hp, ← he]
  | filling p =>
      obtain ⟨he, hs⟩ := writeStep_holds h (by rw [hp]; rfl) psize mem
      refine ⟨_, .idle, q, ?_, .idle q, hs⟩
      rw [step, hp, ← he]
  | replacing p => exact simulates_stay h (by rw [step, hp])
  | freed p => exact simulates_stay h (by rw [step, hp])

theorem free_simulates (h : Holds s q) : Simulates s q .free := by
  cases hp : s.prod with
  | replacing p =>
      have hslots := h.slots
      have hprod := h.prod
      rw [hp] at hslots hprod
      obtain ⟨heap, hfree, hget, hslots'⟩ := Slots.free hslots
      refine ⟨{ s with ctrl := { s.ctrl with heap := heap }, prod := .freed p }, .idle, q, ?_,
        .idle q, ⟨hslots', ⟨hprod.1, ?_, hprod.2.2⟩, h.cons.of_eq fun _ => rfl⟩⟩
      · rw [step, hp]
        simp only [hfree, Option.map_some]
      · simp only [hget]
        rw [update_of_ne (hprod.2.2 _ hslots.w_lt).symm]
        exact hprod.2.1
  | idle => exact simulates_stay h (by rw [step, hp])
  | freed p => exact simulates_stay h (by rw [step, hp])
  | filling p => exact simulates_stay h (by rw [step, hp])

theorem install_simulates (h : Holds s q) : Simulates s q .install := by
  cases hp : s.prod with
  | freed p =>
      have hslots := h.slots
      have hprod := h.prod
      rw [hp] at hslots hprod
      refine ⟨{ s with
        ctrl := { s.ctrl with elements := update s.ctrl.elements s.ctrl.w p }
        prod := .filling p }, .idle, q, ?_, .idle q,
          ⟨hslots.install hprod.2.1 hprod.2.2, ⟨hprod.1, ?_⟩,
          h.cons.of_eq fun hq => update_of_ne (read_ne_write hslots hq).1 _ _⟩⟩
      · rw [step, hp]
      · simp only [update_self]
  | idle => exact simulates_stay h (by rw [step, hp])
  | replacing p => exact simulates_stay h (by rw [step, hp])
  | filling p => exact simulates_stay h (by rw [step, hp])

theorem fill_simulates (h : Holds s q) (x : β) : Simulates s q (.fill x) := by
  cases hp : s.prod with
  | filling p =>
      have hslots := h.slots
      have hprod := h.prod
      rw [hp] at hslots hprod
      obtain ⟨heap, hwrite, -, hslots'⟩ := Slots.fill hslots x
      rw [← hprod.2] at hwrite
      refine ⟨{ s with ctrl := { s.ctrl with heap := heap } }, .idle, q, ?_, .idle q,
        ⟨?_, ?_, h.cons.of_eq fun _ => rfl⟩⟩
      · rw [step, hp]
        simp only [hwrite, Option.map_some]
      · simp only [hp]
        exact hslots'
      · simp only [hp]
        exact hprod
  | idle => exact simulates_stay h (by rw [step, hp])
  | replacing p => exact simulates_stay h (by rw [step, hp])
  | freed p => exact simulates_stay h (by rw [step, hp])

theorem ConsumerOk.append {pc : Consumer β} (h : ConsumerOk c q pc) (x : β) (w : Nat) :
    ConsumerOk { c with w := w } (q ++ [x]) pc := by
  cases pc with
  | idle => trivial
  | nonempty => exact List.append_ne_nil_of_left_ne_nil h [x]
  | reading p => exact ⟨List.append_ne_nil_of_left_ne_nil h.1 [x], h.2⟩
  | used p y =>
      refine ⟨?_, h.2⟩
      rw [List.head?_append, h.1]
      rfl

theorem writeCommit_simulates (h : Holds s q) : Simulates s q .writeCommit := by
  cases hp : s.prod with
  | filling p =>
      have hslots := h.slots
      have hprod := h.prod
      rw [hp] at hslots hprod
      obtain ⟨x, hx⟩ := Option.ne_none_iff_exists'.mp (hslots.buffer hslots.w_lt)
      refine ⟨{ s with ctrl := pfifoWriteCommit s.ctrl, prod := .idle }, .put x, q ++ [x], ?_, .put q x,
        ⟨hslots.writeCommit hprod.1 hx, trivial, h.cons.append x _⟩⟩
      rw [step, hp]
      simp only [hprod.2, hx, Option.map_some]
  | idle => exact simulates_stay h (by rw [step, hp])
  | replacing p => exact simulates_stay h (by rw [step, hp])
  | freed p => exact simulates_stay h (by rw [step, hp])

theorem read_simulates (h : Holds s q) : Simulates s q .read := by
  by_cases hr : s.ctrl.r = s.ctrl.w
  · refine ⟨{ s with cons := .idle }, .idle, q, ?_, .idle q, h.slots, h.prod, trivial⟩
    rw [step, if_neg (not_not.mpr hr)]
  · refine ⟨{ s with cons := .nonempty }, .idle, q, ?_, .idle q, h.slots, h.prod, ?_⟩
    · rw [step, if_pos hr]
    · exact mt (empty_iff h.slots).mpr hr

theorem fetch_simulates (h : Holds s q) : Simulates s q .fetch := by
  cases hc : s.cons with
  | nonempty =>
      have hcons := h.cons
      rw [hc] at hcons
      refine ⟨{ s with cons := .reading (s.ctrl.elements s.ctrl.r) }, .idle, q, ?_, .idle q,
        h.slots, h.prod, hcons, rfl⟩
      rw [step, hc]
  | idle => exact simulates_stay h (by rw [step, hc])
  | reading p => exact simulates_stay h (by rw [step, hc])
  | used p x => exact simulates_stay h (by rw [step, hc])

theorem read_get (h : Slots c q b) (hq : q ≠ []) : ∃ x, c.heap.get (c.elements c.r) = some x ∧ q.head? = some x := by
  have hpos := List.length_pos_iff.mpr hq
  have hx := h.contents 0 hpos
  rw [next_zero h.r_lt] at hx
  exact ⟨q[0], hx, List.head?_eq_getElem? ▸ List.getElem?_eq_getElem hpos⟩

theorem use_simulates (h : Holds s q) : Simulates s q .use := by
  have huse (hq : q ≠ []) : ∃ x, s.ctrl.heap.get (s.ctrl.elements s.ctrl.r) = some x ∧
      Holds { s with cons := .used (s.ctrl.elements s.ctrl.r) x } q := by
    obtain ⟨x, hx, hhead⟩ := read_get h.slots hq
    exact ⟨x, hx, h.slots, h.prod, hhead, rfl⟩
  cases hc : s.cons with
  | idle => exact simulates_stay h (by rw [step, hc])
  | nonempty => exact simulates_stay h (by rw [step, hc])
  | reading p =>
      have hcons := h.cons
      rw [hc] at hcons
      obtain ⟨x, hx, hs⟩ := huse hcons.1
      refine ⟨_, .idle, q, ?_, .idle q, hs⟩
      rw [step, hc]
      simp only [hcons.2, hx, Option.map_some]
  | used p y =>
      have hcons := h.cons
      rw [hc] at hcons
      obtain ⟨x, hx, hs⟩ := huse (by rintro rfl; cases hcons.1)
      refine ⟨_, .idle, q, ?_, .idle q, hs⟩
      rw [step, hc]
      simp only [hcons.2, hx, Option.map_some]

theorem readCommit_simulates (h : Holds s q) : Simulates s q .readCommit := by
  cases hc : s.cons with
  | idle => exact simulates_stay h (by rw [step, hc])
  | nonempty => exact simulates_stay h (by rw [step, hc])
  | reading p => exact simulates_stay h (by rw [step, hc])
  | used p x =>
      have hslots := h.slots
      have hcons := h.cons
      rw [hc] at hcons
      obtain ⟨q', rfl⟩ := List.head?_eq_some_iff.mp hcons.1
      refine ⟨{ s with ctrl := pfifoReadCommit s.ctrl, cons := .idle }, .got x, q', ?_, .got x q',
        ⟨hslots.readCommit, h.prod.mono (Nat.le_succ _), trivial⟩⟩
      rw [step, hc]

theorem step_simulates (s : State β) (q : List β) (a : Act β) (h : Holds s q) : Simulates s q a := by
  cases a with
  | write psize mem => exact write_simulates h psize mem
  | free => exact free_simulates h
  | install => exact install_simulates h
  | fill x => exact fill_simulates h x
  | writeCommit => exact writeCommit_simulates h
  | read => exact read_simulates h
  | fetch => exact fetch_simulates h
  | use => exact use_simulates h
  | readCommit => exact readCommit_simulates h

-- Calls that are not interrupted.

theorem pfifoWrite_slots (h : Slots c q false) (psize : Int) (mem : Option β) :
    pfifoWrite c psize mem = some (c, none) ∨
      ∃ c', pfifoWrite c psize mem = some (c', some (c'.elements c'.w)) ∧ Slots c' q false ∧
        q.length + 1 < c'.size ∧ c'.size = c.size ∧ c'.avpsize = c.avpsize ∧
        (∀ a y, c'.heap.get a = some y → c.heap.get a = some y ∨ mem = some y) ∧
        (c' = c ∧ psize ≤ c.avpsize ∨
          c.avpsize < psize ∧ ∃ y, mem = some y ∧ c'.heap.get (c'.elements c'.w) = some y) := by
  unfold pfifoWrite
  by_cases hfull : wrap c.size (c.w + 1) = c.r
  · exact .inl (if_pos hfull)
  rw [if_neg hfull]
  have hroom := room_of_not_full h hfull
  by_cases hsmall : psize ≤ c.avpsize
  · rw [if_pos hsmall]
    exact .inr ⟨c, rfl, h, hroom, rfl, rfl, fun a y hy => .inl hy, .inl ⟨rfl, hsmall⟩⟩
  rw [if_neg hsmall]
  cases mem with
  | none => exact .inl rfl
  | some x =>
      have halloc := h.alloc x
      obtain ⟨heap, hfree, hget, hfreed⟩ := Slots.free halloc
      have hlive : c.elements c.w ≠ c.heap.next := Nat.ne_of_lt (lt_next (h.buffer h.w_lt))
      have hnew : heap.get c.heap.next = some x := by
        simp only [hget, alloc_get]
        rw [update_of_ne hlive.symm, update_self]
      refine .inr ⟨{ c with heap := heap, elements := update c.elements c.w c.heap.next }, ?_, ?_, hroom, rfl, rfl,
        ?_, .inr ⟨by omega, x, rfl, ?_⟩⟩
      · simp only at hfree
        simp only [hfree, Option.bind_eq_bind, Option.bind_some, update_self]
        rfl
      · refine hfreed.install ?_ fun i hi => Nat.ne_of_lt (lt_next (h.buffer hi))
        simp only [hnew]
        nofun
      · intro a y hy
        simp only [hget, alloc_get] at hy
        by_cases ha : a = c.elements c.w
        · rw [ha, update_self] at hy
          cases hy
        · rw [update_of_ne ha] at hy
          by_cases hnext : a = c.heap.next
          · rw [hnext, update_self] at hy
            exact .inr hy
          · rw [update_of_ne hnext] at hy
            exact .inl hy
      · simp only [update_self, hnew]

theorem pfifoRead_nil (h : Slots c [] b) : pfifoRead c = none := if_neg (not_not.mpr ((empty_iff h).mpr rfl))

theorem pfifoRead_cons (h : Slots c (x :: q) b) :
    pfifoRead c = some (c.elements c.r) ∧ c.heap.get (c.elements c.r) = some x := by
  obtain ⟨y, hy, hhead⟩ := read_get h (List.cons_ne_nil x q)
  obtain rfl := Option.some.inj hhead
  exact ⟨if_pos fun he => List.cons_ne_nil _ _ ((empty_iff h).mp he), hy⟩

theorem allocated_spec (heap : Pool β) (x : β) (n : Nat) :
    (∀ i < n, (allocated heap x n).1.get ((allocated heap x n).2 i) ≠ none) ∧
      ∀ i < n, ∀ j < n, (allocated heap x n).2 i = (allocated heap x n).2 j → i = j := by
  induction n with
  | zero => exact ⟨nofun, nofun⟩
  | succ n ih =>
      obtain ⟨hlive, hinj⟩ := ih
      have hold {i : Nat} (hi : i < n) : (allocated heap x (n + 1)).2 i = (allocated heap x n).2 i := by
        exact update_of_ne (Nat.ne_of_lt hi) _ _
      have hnew : (allocated heap x (n + 1)).2 n = (allocated heap x n).1.next := by
        exact update_self _ _ _
      have hne {i : Nat} (hi : i < n) : (allocated heap x n).2 i ≠ (allocated heap x n).1.next :=
        Nat.ne_of_lt (lt_next (hlive i hi))
      constructor
      · intro i hi
        rcases Nat.lt_succ_iff_lt_or_eq.mp hi with hi | rfl
        · rw [hold hi, allocated, alloc_get, update_of_ne (hne hi)]
          exact hlive i hi
        · rw [hnew, allocated, alloc_get, update_self]
          nofun
      · intro i hi j hj he
        rcases Nat.lt_succ_iff_lt_or_eq.mp hi with hi | rfl <;>
          rcases Nat.lt_succ_iff_lt_or_eq.mp hj with hj | rfl
        · rw [hold hi, hold hj] at he
          exact hinj i hi j hj he
        · rw [hold hi, hnew] at he
          exact absurd he (hne hi)
        · rw [hold hj, hnew] at he
          exact absurd he.symm (hne hj)
        · rfl

theorem open_holds {heap : Pool β} {size : Nat} {avpsize : Int} (h : pfifoOpen heap size avpsize x = some c) :
    Holds ⟨c, .idle, .idle⟩ [] ∧ c.size = size ∧ c.avpsize = avpsize := by
  obtain ⟨hsize, hc⟩ := Option.ite_none_right_eq_some.mp h
  obtain rfl := Option.some.inj hc
  obtain ⟨hlive, hinj⟩ := allocated_spec heap x size
  refine ⟨⟨⟨by simp only; omega, by simp only; omega, rfl, nofun, hinj, fun i hi _ => hlive i hi⟩,
    trivial, trivial⟩, rfl, rfl⟩

/-- The buffer that the consumer has from pfifo_read. -/
def Consumer.buffer : Consumer β → Option Nat
  | .reading p => some p
  | .used p _ => some p
  | _ => none

/-- What pfifo_write returns. -/
def Producer.slot : Producer → Option Nat
  | .filling p => some p
  | _ => none

/-- The producer is not inside pfifo_write. -/
def Producer.mayCall : Producer → Prop
  | .idle => True
  | .filling _ => True
  | _ => False

theorem filling_ne_buffer (h : Holds s q) {p p' : Nat} (hp : s.prod = .filling p)
    (hc : Consumer.buffer s.cons = some p') : p ≠ p' := by
  have hprod := h.prod
  have hcons := h.cons
  rw [hp] at hprod
  cases hpc : s.cons with
  | idle => rw [hpc] at hc; cases hc
  | nonempty => rw [hpc] at hc; cases hc
  | reading a =>
      rw [hpc] at hc hcons
      obtain rfl := Option.some.inj hc
      rw [hprod.2, hcons.2]
      exact (read_ne_write h.slots hcons.1).2.symm
  | used a y =>
      rw [hpc] at hc hcons
      obtain rfl := Option.some.inj hc
      rw [hprod.2, hcons.2]
      exact (read_ne_write h.slots (by rintro rfl; cases hcons.1)).2.symm

theorem slots_ne (h : Holds s q) (hc : s.cons ≠ .idle) : s.ctrl.w ≠ s.ctrl.r := by
  have hcons := h.cons
  have hq : q ≠ [] := by
    cases hpc : s.cons with
    | idle => exact absurd hpc hc
    | nonempty => rw [hpc] at hcons; exact hcons
    | reading p => rw [hpc] at hcons; exact hcons.1
    | used p y =>
        rw [hpc] at hcons
        rintro rfl
        cases hcons.1
  exact (read_ne_write h.slots hq).1.symm

theorem refused_when (h : Holds s q) {psize : Int} {mem : Option β}
    (hr : (writeStep s psize mem).1.prod = .idle) :
    q.length + 1 = s.ctrl.size ∨ s.ctrl.avpsize < psize ∧ mem = none := by
  revert hr
  unfold writeStep
  split
  · rename_i hw
    exact fun _ => .inl ((full_iff h.slots).mp hw)
  · split
    · nofun
    · rename_i hp
      cases mem with
      | none => exact fun _ => .inr ⟨by omega, rfl⟩
      | some x => nofun

theorem writeStep_size (s : State β) (psize : Int) (mem : Option β) :
    (writeStep s psize mem).1.ctrl.size = s.ctrl.size ∧
      (writeStep s psize mem).1.ctrl.avpsize = s.ctrl.avpsize := by
  unfold writeStep
  split
  · exact ⟨rfl, rfl⟩
  · split
    · exact ⟨rfl, rfl⟩
    · cases mem <;> exact ⟨rfl, rfl⟩

theorem step_size {s s' : State β} {a : Act β} {e : Event β} (h : step s a = some (s', e)) :
    s'.ctrl.size = s.ctrl.size ∧ s'.ctrl.avpsize = s.ctrl.avpsize := by
  revert h
  fun_cases step s a <;> intro h
  case case1 psize mem _ =>
      have hsize := writeStep_size s psize mem
      rw [Option.some.inj h] at hsize
      exact hsize
  case case2 psize mem _ _ =>
      have hsize := writeStep_size s psize mem
      rw [Option.some.inj h] at hsize
      exact hsize
  -- the other steps change a pointer, an index or the memory
  all_goals
    simp only [Option.map_eq_some_iff, Option.some.injEq, Prod.mk.injEq] at h
    first
      | obtain ⟨rfl, -⟩ := h
      | obtain ⟨_, _, rfl, -⟩ := h
    exact ⟨rfl, rfl⟩

/-- Whatever the two parties do, in whatever order: the consumer gets what was committed, in
order, and they never meet in a slot. -/
theorem pfifo_queues {heap : Pool β} {size : Nat} {avpsize : Int}
    (h : pfifoOpen heap size avpsize x = some c) (acts : List (Act β)) :
    ∃ s es, run step ⟨c, .idle, .idle⟩ acts = some (s, es) ∧ gets es <+: puts es ∧
      (gets es).length + pfifoGetCnt s.ctrl = (puts es).length ∧
      (s.cons ≠ .idle → s.ctrl.w ≠ s.ctrl.r) ∧
      (∀ p p', s.prod = .filling p → Consumer.buffer s.cons = some p' → p ≠ p') ∧
      ∀ psize mem, Producer.mayCall s.prod → (writeStep s psize mem).1.prod = .idle →
        pfifoGetCnt s.ctrl = size - 1 ∨ avpsize < psize ∧ mem = none := by
  obtain ⟨hopen, hsize, havp⟩ := open_holds h
  obtain ⟨s, es, q, hrun, hq, hs⟩ := run_conserves step_simulates hopen acts
  have hkeep : s.ctrl.size = size ∧ s.ctrl.avpsize = avpsize :=
    run_preserves (I := fun s => s.ctrl.size = size ∧ s.ctrl.avpsize = avpsize)
      (fun s a s' e hI hstep => ⟨(step_size hstep).1.trans hI.1, (step_size hstep).2.trans hI.2⟩)
      ⟨hsize, havp⟩ hrun
  rw [List.nil_append] at hq
  refine ⟨s, es, hrun, ?_, ?_, slots_ne hs, fun p p' => filling_ne_buffer hs, ?_⟩
  · rw [hq]
    exact List.prefix_append _ _
  · rw [hq, List.length_append, getCnt_eq hs.slots]
  · intro psize mem _ hr
    rw [getCnt_eq hs.slots, ← hkeep.1, ← hkeep.2]
    exact (refused_when hs hr).imp_left fun hlen => by omega

/-- Two elements through a FIFO of three slots, the second with a buffer of its own. -/
theorem pfifo_queues_two : ∃ c s es, pfifoOpen Pool.empty 3 4 0 = some c ∧
    run step ⟨c, .idle, .idle⟩ [.write 4 none, .fill 7, .writeCommit, .write 9 (some 1), .free, .read,
      .install, .fetch, .fill 8, .use, .writeCommit, .readCommit] = some (s, es) ∧
    gets es <+: puts es ∧ (gets es).length + pfifoGetCnt s.ctrl = (puts es).length := by
  obtain ⟨c, hc⟩ : ∃ c, pfifoOpen (Pool.empty : Pool Nat) 3 4 0 = some c := ⟨_, rfl⟩
  obtain ⟨s, es, hrun, hpre, hcnt, _⟩ := pfifo_queues hc [.write 4 none, .fill 7, .writeCommit,
    .write 9 (some 1), .free, .read, .install, .fetch, .fill 8, .use, .writeCommit, .readCommit]
  exact ⟨c, s, es, hc, hrun, hpre, hcnt⟩

/-- A write is also refused when there is no memory for a longer element. -/
theorem no_memory_refuses : ¬ ∀ (heap : Pool Nat) (size : Nat) (avpsize : Int) (x : Nat) (c : Ctrl Nat)
    (acts : List (Act Nat)), pfifoOpen heap size avpsize x = some c →
    ∃ s es, run step ⟨c, .idle, .idle⟩ acts = some (s, es) ∧
      ∀ psize mem, Producer.mayCall s.prod → (writeStep s psize mem).1.prod = .idle →
        pfifoGetCnt s.ctrl = size - 1 := by
  intro h
  obtain ⟨s, es, hrun, hrefused⟩ := h Pool.empty 2 0 0 _ [] rfl
  obtain ⟨rfl, -⟩ := Prod.mk.inj (Option.some.inj hrun)
  exact absurd (hrefused 1 none trivial rfl) (by decide)

theorem write_call (c : Ctrl β) (psize : Int) (mem : Option β) (cons : Consumer β) :
    pfifoWrite c psize mem =
      (run step ⟨c, .idle, cons⟩ [.write psize mem, .free, .install]).map fun r =>
        (r.1.ctrl, Producer.slot r.1.prod) := by
  simp only [pfifoWrite, run, step, writeStep]
  by_cases hw : wrap c.size (c.w + 1) = c.r
  · simp only [if_pos hw]
    rfl
  · simp only [if_neg hw]
    by_cases hp : psize ≤ c.avpsize
    · simp only [if_pos hp]
      rfl
    · simp only [if_neg hp]
      cases mem with
      | none => rfl
      | some x =>
          simp only [Option.bind_some]
          cases (c.heap.alloc x).free (c.elements c.w) <;> rfl

theorem read_call (c : Ctrl β) (prod : Producer) (cons : Consumer β) :
    some (pfifoRead c) = (run step ⟨c, prod, cons⟩ [.read, .fetch]).map fun r =>
      Consumer.buffer r.1.cons := by
  simp only [pfifoRead, run, step]
  by_cases hr : c.r = c.w
  · simp only [hr, ne_eq, not_true_eq_false, if_false]
    rfl
  · simp only [ne_eq, hr, not_false_eq_true, if_true]
    rfl

end OiAmc.PfifoQueue

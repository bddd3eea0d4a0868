import OiAmc.PfifoQueue

namespace OiAmc.PfifoRollback

open Arena FifoTrace PartialMachine RingIndex Function Pfifo PfifoQueue

variable {β : Type} {c c' : Ctrl β} {s s' : State β} {q : List β} {x : β} {b : Bool} {i r w : Nat}

def pfifoWriteRollback (ctrl : Ctrl β) : Ctrl β :=
  { ctrl with w := if ctrl.w = 0 then ctrl.size - 1 else ctrl.w - 1 }

/-- What the consumer may still read, in order. -/
def committed (c : Ctrl β) : List (Option β) :=
  (List.range (pfifoGetCnt c)).map fun i => c.heap.get (c.elements (next c.size c.r i))

inductive Call (β : Type)
  | act (a : Act β)
  | writeRollback

def callStep (s : State β) : Call β → Option (State β × Event β)
  | .act a => step s a
  | .writeRollback =>
      match s.prod with
      | .idle => some ({ s with ctrl := pfifoWriteRollback s.ctrl }, .idle)
      | .filling _ => some ({ s with ctrl := pfifoWriteRollback s.ctrl, prod := .idle }, .idle)
      | _ => some (s, .idle)

theorem committed_eq (h : Slots c q b) : committed c = q.map some := by
  apply List.ext_getElem
  · rw [committed, List.length_map, List.length_range, getCnt_eq h, List.length_map]
  · intro i hi hq
    simp only [committed, List.getElem_map, List.getElem_range]
    exact h.contents i (by rwa [List.length_map] at hq)

theorem Slots.moved (h : Slots c q b) (hr : r < c.size) (hw : w < c.size) (hb : b = true → w = c.w) :
    ∃ q', Slots { c with r := r, w := w } q' b := by
  have hlive (i : Fin (span c.size r w)) : (c.heap.get (c.elements (next c.size r i))).isSome := by
    rw [Option.isSome_iff_ne_none]
    apply h.live _ (next_lt (Nat.zero_lt_of_lt hr))
    intro hfreed
    rw [← hb hfreed]
    exact next_ne_end hr hw i.isLt
  refine ⟨List.ofFn fun i => (c.heap.get (c.elements (next c.size r i))).get (hlive i), hr, hw, ?_, ?_, h.inj, ?_⟩
  · rw [List.length_ofFn]
  · intro i hi
    rw [List.getElem_ofFn, Option.some_get]
  · intro i hi hfreed
    exact h.live i hi fun hb' => hb hb' ▸ hfreed hb'

theorem rollback_w (hw : w < c.size) : (if w = 0 then c.size - 1 else w - 1) < c.size := by
  split <;> omega

theorem Slots.rollback (h : Slots c q false) (hq : q ≠ []) : Slots (pfifoWriteRollback c) q.dropLast false := by
  have hpos := List.length_pos_iff.mpr hq
  have hr := h.r_lt
  have hw := h.w_lt
  have hcount := h.count
  refine ⟨hr, rollback_w hw, ?_, ?_, h.inj, fun i hi _ => h.buffer hi⟩
  · rw [List.length_dropLast, ← hcount]
    simp only [pfifoWriteRollback, span] at hcount ⊢
    grind
  · intro i hi
    rw [List.getElem_dropLast]
    exact h.contents i (by rw [List.length_dropLast] at hi; omega)

theorem rollback_nil (h : Slots c [] b) : pfifoGetCnt (pfifoWriteRollback c) = c.size - 1 := by
  have hr := h.r_lt
  have he := (empty_iff h).mpr rfl
  simp only [pfifoWriteRollback, pfifoGetCnt, ← he]
  grind

/-- What holds of a FIFO whatever is called: each slot has a buffer of its own. -/
structure Sound (s : State β) : Prop where
  size : 1 < s.ctrl.size
  slots : ∃ q, Slots s.ctrl q (Producer.isFreed s.prod)
  prod : ProducerOk s.ctrl 0 s.prod

theorem writeStep_sound (h : Sound s) (hfree : Producer.isFreed s.prod = false) (psize : Int) (mem : Option β) :
    Sound (writeStep s psize mem).1 := by
  obtain ⟨q, hslots⟩ := h.slots
  rw [hfree] at hslots
  unfold writeStep
  split
  · exact ⟨h.size, ⟨q, hslots⟩, trivial⟩
  · split
    · exact ⟨h.size, ⟨q, hslots⟩, h.size, rfl⟩
    · cases mem with
      | none => exact ⟨h.size, ⟨q, hslots⟩, trivial⟩
      | some x =>
          refine ⟨h.size, ⟨q, hslots.alloc x⟩, h.size, ?_, ?_⟩
          · simp only [alloc_get, update_self]
            nofun
          · exact fun i hi => Nat.ne_of_lt (lt_next (hslots.buffer hi))

theorem Sound.freeSlot (h : Sound s) {p : Nat} (hp : s.prod = .replacing p) {heap : Pool β}
    (hfree : s.ctrl.heap.free (s.ctrl.elements s.ctrl.w) = some heap) :
    Sound { s with ctrl := { s.ctrl with heap := heap }, prod := .freed p } := by
  obtain ⟨q, hslots⟩ := h.slots
  have hprod := h.prod
  rw [hp] at hslots hprod
  obtain ⟨heap', hfree', hget, hslots'⟩ := Slots.free hslots
  obtain rfl := Option.some.inj (hfree'.symm.trans hfree)
  refine ⟨h.size, ⟨q, hslots'⟩, hprod.1, ?_, hprod.2.2⟩
  simp only [hget]
  rw [update_of_ne (hprod.2.2 _ hslots.w_lt).symm]
  exact hprod.2.1

theorem Sound.installBuffer (h : Sound s) {p : Nat} (hp : s.prod = .freed p) :
    Sound { s with ctrl := { s.ctrl with elements := update s.ctrl.elements s.ctrl.w p }
                   prod := .filling p } := by
  obtain ⟨q, hslots⟩ := h.slots
  have hprod := h.prod
  rw [hp] at hslots hprod
  refine ⟨h.size, ⟨q, hslots.install hprod.2.1 hprod.2.2⟩, h.size, ?_⟩
  simp only [update_self]

theorem Sound.fillBuffer (h : Sound s) {p : Nat} (hp : s.prod = .filling p) {heap : Pool β}
    (hwrite : s.ctrl.heap.write p x = some heap) : Sound { s with ctrl := { s.ctrl with heap := heap } } := by
  obtain ⟨q, hslots⟩ := h.slots
  have hprod := h.prod
  rw [hp] at hslots hprod
  obtain ⟨heap', hwrite', -, hslots'⟩ := Slots.fill hslots x
  rw [← hprod.2] at hwrite'
  obtain rfl := Option.some.inj (hwrite'.symm.trans hwrite)
  refine ⟨h.size, ⟨q, ?_⟩, ?_⟩
  · simp only [hp]
    exact hslots'
  · simp only [hp]
    exact hprod

theorem wrap_lt (hi : i < c.size) : wrap c.size (i + 1) < c.size := by
  rw [wrap]
  split <;> omega

theorem Sound.commitWrite (h : Sound s) {p : Nat} (hp : s.prod = .filling p) :
    Sound { s with ctrl := pfifoWriteCommit s.ctrl, prod := .idle } := by
  obtain ⟨q, hslots⟩ := h.slots
  rw [hp] at hslots
  exact ⟨h.size, Slots.moved hslots hslots.r_lt (wrap_lt hslots.w_lt) nofun, trivial⟩

theorem Sound.commitRead (h : Sound s) : Sound { s with ctrl := pfifoReadCommit s.ctrl, cons := .idle } := by
  obtain ⟨q, hslots⟩ := h.slots
  exact ⟨h.size, Slots.moved hslots (wrap_lt hslots.r_lt) hslots.w_lt fun _ => rfl, h.prod⟩

theorem Sound.rollback (h : Sound s) (hfree : Producer.isFreed s.prod = false) :
    Sound { s with ctrl := pfifoWriteRollback s.ctrl, prod := .idle } := by
  obtain ⟨q, hslots⟩ := h.slots
  rw [hfree] at hslots
  exact ⟨h.size, Slots.moved hslots hslots.r_lt (rollback_w hslots.w_lt) nofun, trivial⟩

theorem step_sound (h : Sound s) {a : Act β} {e : Event β} (hstep : step s a = some (s', e)) : Sound s' := by
  revert hstep
  fun_cases step s a <;> intro hstep
  case case1 psize mem hp =>
      have hs := writeStep_sound h (by rw [hp]; rfl) psize mem
      rwa [Option.some.inj hstep] at hs
  case case2 psize mem p hp =>
      have hs := writeStep_sound h (by rw [hp]; rfl) psize mem
      rwa [Option.some.inj hstep] at hs
  case case4 p hp =>
      obtain ⟨heap, hfree, he⟩ := Option.map_eq_some_iff.mp hstep
      obtain ⟨rfl, -⟩ := Prod.mk.inj he
      exact h.freeSlot hp hfree
  case case6 p hp =>
      obtain ⟨rfl, -⟩ := Prod.mk.inj (Option.some.inj hstep)
      exact h.installBuffer hp
  case case8 x p hp =>
      obtain ⟨heap, hwrite, he⟩ := Option.map_eq_some_iff.mp hstep
      obtain ⟨rfl, -⟩ := Prod.mk.inj he
      exact h.fillBuffer hp hwrite
  case case10 p hp =>
      obtain ⟨x, -, he⟩ := Option.map_eq_some_iff.mp hstep
      obtain ⟨rfl, -⟩ := Prod.mk.inj he
      exact h.commitWrite hp
  case case19 =>
      obtain ⟨rfl, -⟩ := Prod.mk.inj (Option.some.inj hstep)
      exact h.commitRead
  -- what is left has to do with the consumer only
  all_goals
    simp only [Option.map_eq_some_iff, Option.some.injEq, Prod.mk.injEq] at hstep
    first
      | obtain ⟨rfl, -⟩ := hstep
      | obtain ⟨_, _, rfl, -⟩ := hstep
    exact ⟨h.size, h.slots, h.prod⟩

theorem callStep_sound (s : State β) (call : Call β) (s' : State β) (e : Event β) (h : Sound s)
    (hstep : callStep s call = some (s', e)) : Sound s' := by
  cases call with
  | act a => exact step_sound h hstep
  | writeRollback =>
      cases hp : s.prod with
      | idle =>
          rw [callStep, hp] at hstep
          obtain ⟨rfl, -⟩ := Prod.mk.inj (Option.some.inj hstep)
          exact h.rollback (by rw [hp]; rfl)
      | filling p =>
          rw [callStep, hp] at hstep
          obtain ⟨rfl, -⟩ := Prod.mk.inj (Option.some.inj hstep)
          exact h.rollback (by rw [hp]; rfl)
      | replacing p =>
          rw [callStep, hp] at hstep
          obtain ⟨rfl, -⟩ := Prod.mk.inj (Option.some.inj hstep)
          exact h
      | freed p =>
          rw [callStep, hp] at hstep
          obtain ⟨rfl, -⟩ := Prod.mk.inj (Option.some.inj hstep)
          exact h

theorem callStep_size (s : State β) (call : Call β) (s' : State β) (e : Event β) (n : Nat)
    (h : s.ctrl.size = n) (hstep : callStep s call = some (s', e)) : s'.ctrl.size = n := by
  cases call with
  | act a => exact (step_size hstep).1.trans h
  | writeRollback =>
      rw [callStep] at hstep
      split at hstep <;> obtain ⟨rfl, -⟩ := Prod.mk.inj (Option.some.inj hstep) <;> exact h

theorem isFreed_of_mayCall {prod : Producer} (h : Producer.mayCall prod) : Producer.isFreed prod = false := by
  cases prod with
  | freed p => exact absurd h id
  | _ => rfl

theorem write_committed (h : Slots c q false) (psize : Int) (mem : Option β) :
    ∃ c' slot, pfifoWrite c psize mem = some (c', slot) ∧ Slots c' q false ∧ c'.size = c.size := by
  rcases pfifoWrite_slots h psize mem with hnull | ⟨c', hslot, hs, -, hsize, -⟩
  · exact ⟨c, none, hnull, h, rfl⟩
  · exact ⟨c', _, hslot, hs, hsize⟩

/-- A rollback takes back the last commit. Where all commits are read, it takes w around to r. -/
theorem rollback_takes_back {heap : Pool β} {size : Nat} {avpsize : Int}
    (h : pfifoOpen heap size avpsize x = some c) {calls : List (Call β)} {es : List (Event β)}
    (hrun : run callStep ⟨c, .idle, .idle⟩ calls = some (s, es)) (hcall : Producer.mayCall s.prod)
    (psize : Int) (mem : Option β) :
    ∃ c' slot, pfifoWrite s.ctrl psize mem = some (c', slot) ∧
      committed (pfifoWriteRollback c') ≠ committed s.ctrl ∧
      (committed s.ctrl ≠ [] → committed (pfifoWriteRollback c') = (committed s.ctrl).dropLast) ∧
      (committed s.ctrl = [] → (committed (pfifoWriteRollback c')).length = size - 1) := by
  obtain ⟨hopen, hsize, -⟩ := open_holds h
  have hpos : 1 < size := (Option.ite_none_right_eq_some.mp h).1
  have hsound : Sound s := run_preserves (I := Sound) (fun s a s' e => callStep_sound s a s' e)
    ⟨hsize.symm ▸ hpos, ⟨[], hopen.slots⟩, trivial⟩ hrun
  have hkeep : s.ctrl.size = size := run_preserves (I := fun s => s.ctrl.size = size)
    (fun s a s' e => callStep_size s a s' e size) hsize hrun
  obtain ⟨q, hslots⟩ := hsound.slots
  rw [isFreed_of_mayCall hcall] at hslots
  obtain ⟨c', slot, hw, hs, hsize'⟩ := write_committed hslots psize mem
  refine ⟨c', slot, hw, ?_⟩
  rw [committed_eq hslots]
  by_cases hq : q = []
  · subst hq
    have hlen : (committed (pfifoWriteRollback c')).length = size - 1 := by
      rw [committed, List.length_map, List.length_range, rollback_nil hs, hsize', hkeep]
    refine ⟨?_, fun hne => absurd rfl hne, fun _ => hlen⟩
    intro he
    rw [he, List.map_nil, List.length_nil] at hlen
    omega
  · have hback : committed (pfifoWriteRollback c') = (q.map some).dropLast := by
      rw [committed_eq (Slots.rollback hs hq), List.map_dropLast]
    have hq' : q.map some ≠ [] := mt List.map_eq_nil_iff.mp hq
    refine ⟨?_, fun _ => hback, fun he => absurd he hq'⟩
    intro he
    have hlen := congrArg List.length (hback.symm.trans he)
    rw [List.length_dropLast] at hlen
    have := List.length_pos_iff.mpr hq'
    omega

/-- A FIFO of two slots, with a rollback for its only write: a slot that was never written
becomes readable. -/
theorem rollback_takes_back_empty : ∃ c c' : Ctrl Nat, ∃ slot, pfifoOpen Pool.empty 2 4 0 = some c ∧
    pfifoWrite c 4 none = some (c', slot) ∧ committed (pfifoWriteRollback c') ≠ committed c := by
  obtain ⟨c, hc⟩ : ∃ c, pfifoOpen (Pool.empty : Pool Nat) 2 4 0 = some c := ⟨_, rfl⟩
  have hrun : run callStep ⟨c, .idle, .idle⟩ ([] : List (Call Nat)) = some (⟨c, .idle, .idle⟩, []) := rfl
  obtain ⟨c', slot, hw, hne, -⟩ := rollback_takes_back hc hrun trivial 4 none
  exact ⟨c, c', slot, hc, hw, hne⟩

theorem rollback_not_abandons : ¬ ∀ (heap : Pool Nat) (size : Nat) (avpsize : Int) (x : Nat) (c : Ctrl Nat),
    pfifoOpen heap size avpsize x = some c → ∀ psize mem c' slot, pfifoWrite c psize mem = some (c', slot) →
      committed (pfifoWriteRollback c') = committed c := by
  intro h
  have he := h Pool.empty 2 4 0 _ rfl 4 none _ _ rfl
  exact absurd (congrArg List.length he) (by decide)

end OiAmc.PfifoRollback

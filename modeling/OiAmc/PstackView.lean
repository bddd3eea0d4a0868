import OiAmc.HashtblRefine
import OiAmc.Pstack

namespace OiAmc.PstackView

open Hashtbl HashtblRefine Pstack

variable {result result' : PsDecodingResult} {live : List (Entry UInt64 Stored)}

/-- The values of each id in the order in which they were pushed, and the next address. -/
@[ext]
structure Pushed where
  view : UInt64 → List Stored
  next : Nat

variable {st st' st'' : Pushed}

def valuesOf (live : List (Entry UInt64 Stored)) (vid : UInt64) : List Stored :=
  if vid = 0 then [] else (live.filter fun e => e.key = vid).map Entry.value

structure Holds (result : PsDecodingResult) (st : Pushed) : Prop where
  stores : ∃ live, Stores hashPtr hashtblDefCmpFunc true 7 128 result live ∧ st.view = valuesOf live
  next : result.entries = st.next

theorem hashLong_lt (val : UInt64) {bits : Nat} (h : bits ≤ 64) : hashLong val bits < 2 ^ bits := by
  rw [hashLong, Nat.shiftRight_eq_div_pow, Nat.div_lt_iff_lt_mul (Nat.two_pow_pos _), ← pow_add,
    Nat.add_sub_cancel' h]
  exact UInt64.toNat_lt _

theorem defCmp_eq_zero {a b : UInt64} : hashtblDefCmpFunc a b = 0 ↔ a = b := by
  rw [hashtblDefCmpFunc]
  split_ifs <;> simp_all

theorem hashes : Hashes hashPtr hashtblDefCmpFunc 7 128 where
  lt k := hashLong_lt k (by decide)
  eq _ _ h := by rw [defCmp_eq_zero.mp h]

theorem filter_defCmp (live : List (Entry UInt64 Stored)) (vid : UInt64) :
    (live.filter fun e => hashtblDefCmpFunc vid e.key = 0) = live.filter fun e => e.key = vid := by
  refine List.filter_congr fun e _ => ?_
  rw [decide_eq_decide, defCmp_eq_zero, eq_comm]

theorem Holds.get (h : Holds result st) (vid : UInt64) (seq : Nat) :
    psResultGetValue result vid seq = (st.view vid)[seq]? := by
  obtain ⟨live, hstores, hview⟩ := h.stores
  rw [psResultGetValue, hview, valuesOf]
  split
  · rfl
  · rw [hstores.findSeq hashes, filter_defCmp, List.getElem?_map]

theorem Holds.getValue_eq (h : Holds result st) :
    psResultGetValue result = fun vid seq => (st.view vid)[seq]? := by
  funext vid seq
  exact h.get vid seq

theorem Holds.unique (h : Holds result st) (h' : Holds result st') : st = st' := by
  apply Pushed.ext
  · funext vid
    apply List.ext_getElem?
    intro seq
    rw [← h.get, ← h'.get]
  · rw [← h.next, ← h'.next]

theorem Holds.view_zero (h : Holds result st) : st.view 0 = [] := by
  obtain ⟨live, -, hview⟩ := h.stores
  rw [hview]
  rfl

def storedFrom : Nat → List (UInt64 × FldValue) → List (UInt64 × Stored)
  | _, [] => []
  | n, (vid, value) :: pushes =>
      if vid = 0 then storedFrom n pushes else (vid, ⟨n, value⟩) :: storedFrom (n + 1) pushes

def ownView (n : Nat) (pushes : List (UInt64 × FldValue)) (vid : UInt64) : List Stored :=
  ((storedFrom n pushes).filter fun x => x.1 = vid).map Prod.snd

def Pushed.pushAll (st : Pushed) (pushes : List (UInt64 × FldValue)) : Pushed :=
  ⟨fun vid => st.view vid ++ ownView st.next pushes vid,
    st.next + (storedFrom st.next pushes).length⟩

theorem storedFrom_bounds (n : Nat) (pushes : List (UInt64 × FldValue)) :
    ∀ x ∈ storedFrom n pushes,
      x.1 ≠ 0 ∧ n ≤ x.2.addr ∧ x.2.addr < n + (storedFrom n pushes).length := by
  induction pushes generalizing n with
  | nil => exact fun _ hx => absurd hx List.not_mem_nil
  | cons push pushes ih =>
      intro x hx
      rw [storedFrom] at hx ⊢
      split at hx
      · next hzero =>
          rw [if_pos hzero]
          exact ih n x hx
      · next hzero =>
          rw [if_neg hzero, List.length_cons]
          rcases List.mem_cons.mp hx with rfl | hx
          · exact ⟨hzero, le_refl n, Nat.lt_add_of_pos_right (Nat.succ_pos _)⟩
          · obtain ⟨hne, hle, hlt⟩ := ih (n + 1) x hx
            exact ⟨hne, by omega, by omega⟩

theorem ownView_bounds {n : Nat} {pushes : List (UInt64 × FldValue)} {vid : UInt64} {x : Stored}
    (hx : x ∈ ownView n pushes vid) :
    n ≤ x.addr ∧ x.addr < n + (storedFrom n pushes).length := by
  obtain ⟨⟨vid', x⟩, hmem, rfl⟩ := List.mem_map.mp hx
  exact (storedFrom_bounds n pushes _ (List.mem_filter.mp hmem).1).2

theorem Holds.push (h : Holds result st) (vid : UInt64) (value : FldValue) :
    Holds (psResultPushValue result vid value) (st.pushAll [(vid, value)]) := by
  rw [psResultPushValue, Pushed.pushAll]
  split
  · next hzero =>
      subst hzero
      refine ⟨?_, h.next⟩
      obtain ⟨live, hstores, hview⟩ := h.stores
      refine ⟨live, hstores, ?_⟩
      funext vid
      rw [← hview]
      exact List.append_nil _
  · next hzero =>
      obtain ⟨live, hstores, hview⟩ := h.stores
      obtain ⟨t, o, live', hstep, hdoes, hstores'⟩ :=
        Stores.insert (σ := Unit) hashes hstores vid (⟨result.entries, value⟩ : Stored) true
      cases hdoes with
      | insert _ id _ _ _ =>
          obtain ⟨rfl, -⟩ := Prod.mk.inj (Option.some.inj hstep)
          refine ⟨⟨_, hstores', ?_⟩, ?_⟩
          · funext vid'
            change st.view vid' ++ ownView st.next [(vid, value)] vid' = valuesOf _ vid'
            rw [hview, ownView, storedFrom, if_neg hzero, storedFrom, ← h.next]
            by_cases hzero' : vid' = 0
            · subst hzero'
              simp [valuesOf, hzero]
            · simp only [valuesOf, if_neg hzero', List.filter_append, List.map_append]
              apply congrArg
              by_cases heq : vid = vid' <;> simp [heq]
          · rw [storedFrom, if_neg hzero, ← h.next]
            rfl

theorem ownView_cons (n : Nat) (push : UInt64 × FldValue) (pushes : List (UInt64 × FldValue))
    (vid : UInt64) : ownView n (push :: pushes) vid =
      ownView n [push] vid ++ ownView (n + (storedFrom n [push]).length) pushes vid := by
  obtain ⟨vid', value⟩ := push
  simp only [ownView, storedFrom]
  split
  · rfl
  · rw [List.filter_cons, List.filter_cons]
    split <;> rfl

theorem pushAll_cons (st : Pushed) (push : UInt64 × FldValue) (pushes : List (UInt64 × FldValue)) :
    st.pushAll (push :: pushes) = (st.pushAll [push]).pushAll pushes := by
  apply Pushed.ext
  · funext vid
    simp only [Pushed.pushAll, List.append_assoc]
    rw [ownView_cons]
  · simp only [Pushed.pushAll]
    obtain ⟨vid', value⟩ := push
    simp only [storedFrom]
    split
    · rfl
    · simp only [List.length_cons, List.length_nil, Nat.zero_add]
      omega

theorem Holds.pushAll (h : Holds result st) (pushes : List (UInt64 × FldValue)) :
    Holds (pushes.foldl (fun result v => psResultPushValue result v.1 v.2) result)
      (st.pushAll pushes) := by
  induction pushes generalizing result st with
  | nil =>
      have hsame : st.pushAll [] = st :=
        Pushed.ext (funext fun vid => List.append_nil _) (Nat.add_zero _)
      rw [hsame]
      exact h
  | cons push pushes ih =>
      rw [pushAll_cons]
      exact ih (h.push push.1 push.2)

theorem holds_clear (h : Stores hashPtr hashtblDefCmpFunc true 7 128 result live) :
    Holds (psResultClear result) ⟨fun _ => [], result.entries⟩ := by
  obtain ⟨t, o, live', hstep, hdoes, hstores⟩ := Stores.clear (σ := Unit) hashes h
  cases hdoes with
  | clear =>
      obtain ⟨rfl, -⟩ := Prod.mk.inj (Option.some.inj hstep)
      refine ⟨⟨[], hstores, ?_⟩, rfl⟩
      funext vid
      simp [valuesOf]

structure Grows (st st' : Pushed) : Prop where
  later : ∀ vid, ∃ later, st'.view vid = st.view vid ++ later ∧ ∀ x ∈ later, st.next ≤ x.addr
  next : st.next ≤ st'.next

theorem Grows.refl (st : Pushed) : Grows st st :=
  ⟨fun _ => ⟨[], (List.append_nil _).symm, fun _ hx => absurd hx List.not_mem_nil⟩, le_refl _⟩

theorem Grows.trans (h : Grows st st') (h' : Grows st' st'') : Grows st st'' := by
  refine ⟨fun vid => ?_, h.next.trans h'.next⟩
  obtain ⟨later, hview, hlater⟩ := h.later vid
  obtain ⟨later', hview', hlater'⟩ := h'.later vid
  refine ⟨later ++ later', by rw [hview', hview, List.append_assoc], fun x hx => ?_⟩
  rcases List.mem_append.mp hx with hx | hx
  · exact hlater x hx
  · exact h.next.trans (hlater' x hx)

theorem grows_pushAll (st : Pushed) (pushes : List (UInt64 × FldValue)) :
    Grows st (st.pushAll pushes) :=
  ⟨fun _ => ⟨_, rfl, fun _ hx => (ownView_bounds hx).1⟩, Nat.le_add_right _ _⟩

theorem Grows.getElem? (h : Grows st st') {vid : UInt64} {i : Nat} {x : Stored}
    (hx : (st.view vid)[i]? = some x) : (st'.view vid)[i]? = some x := by
  obtain ⟨later, hview, -⟩ := h.later vid
  obtain ⟨hlt, -⟩ := List.getElem?_eq_some_iff.mp hx
  rw [hview, List.getElem?_append_left hlt, hx]

theorem Grows.addr_of_new (h : Grows st st') {vid : UInt64} {i : Nat} {x : Stored}
    (hlen : (st.view vid).length ≤ i) (hx : (st'.view vid)[i]? = some x) : st.next ≤ x.addr := by
  obtain ⟨later, hview, hlater⟩ := h.later vid
  rw [hview, List.getElem?_append_right hlen] at hx
  exact hlater x (List.mem_of_getElem? hx)

end OiAmc.PstackView

import OiAmc.SwimaHeap
import OiAmc.PartialLists

namespace OiAmc.SwimaRep

open PartialLists Arena CellChain SwimaLinks SwimaQueue SwimaHeap

variable {h h' : Heap} {p d : Nat} {xs xs' : List (Nat × CellVal)}

theorem freeData_some (hd : h.bufs.get d ≠ none) : ∃ h', h.freeData d = some h' ∧
    h'.cells = h.cells ∧ h'.bufs.get = Function.update h.bufs.get d none ∧
    h'.bufs.next = h.bufs.next := by
  obtain ⟨m, hm, hg, hn⟩ := free_some hd
  exact ⟨{ h with bufs := m }, by rw [Heap.freeData, hm]; rfl, rfl, hg, hn⟩

theorem freeCell_some (hp : h.cells.get p ≠ none) : ∃ h', h.freeCell p = some h' ∧
    h'.bufs = h.bufs ∧ h'.cells.get = Function.update h.cells.get p none ∧
    h'.cells.next = h.cells.next := by
  obtain ⟨m, hm, hg, hn⟩ := free_some hp
  exact ⟨{ h with cells := m }, by rw [Heap.freeCell, hm]; rfl, rfl, hg, hn⟩

theorem setCell_some {c : Node CellVal} (hp : h.cells.get p = some c)
    (f : Node CellVal → Node CellVal) : ∃ h', h.setCell p f = some h' ∧
    h'.bufs = h.bufs ∧ h'.cells.get = Function.update h.cells.get p (some (f c)) ∧
    h'.cells.next = h.cells.next := by
  obtain ⟨m, hm, hg, hn⟩ := @write_some _ h.cells p (f c) (by simp [hp])
  refine ⟨{ h with cells := m }, ?_, rfl, hg, hn⟩
  simp [Heap.setCell, hp, hm]

/-- An operation on the queue xs touches no other cells and buffers, and hands out
no addresses. -/
structure Touches (xs : List (Nat × CellVal)) (h h' : Heap) : Prop where
  cells : ∀ p, (∀ x ∈ xs, x.1 ≠ p) → h'.cells.get p = h.cells.get p
  bufs : ∀ d, (∀ x ∈ xs, x.2.data ≠ d) → h'.bufs.get d = h.bufs.get d
  cellsNext : h'.cells.next = h.cells.next
  bufsNext : h'.bufs.next = h.bufs.next

theorem Touches.refl (xs : List (Nat × CellVal)) (h : Heap) : Touches xs h h :=
  ⟨fun _ _ => rfl, fun _ _ => rfl, rfl, rfl⟩

theorem Touches.trans {h'' : Heap} (h1 : Touches xs h h') (h2 : Touches xs' h' h'')
    (hs : xs' ⊆ xs) : Touches xs h h'' where
  cells p hp := (h2.cells p fun x hx => hp x (hs hx)).trans (h1.cells p hp)
  bufs d hd := (h2.bufs d fun x hx => hd x (hs hx)).trans (h1.bufs d hd)
  cellsNext := h2.cellsNext.trans h1.cellsNext
  bufsNext := h2.bufsNext.trans h1.bufsNext

/-- What an operation touches is a matter of addresses only. -/
theorem Touches.mono (h1 : Touches xs' h h')
    (hs : ∀ y ∈ xs', ∃ x ∈ xs, x.1 = y.1 ∧ x.2.data = y.2.data) : Touches xs h h' where
  cells p hp := h1.cells p fun y hy => by
    obtain ⟨x, hx, he, _⟩ := hs y hy
    exact he ▸ hp x hx
  bufs d hd := h1.bufs d fun y hy => by
    obtain ⟨x, hx, _, he⟩ := hs y hy
    exact he ▸ hd x hx
  cellsNext := h1.cellsNext
  bufsNext := h1.bufsNext

def Holds (bufs : Nat → Option Pkt) (x : Nat × CellVal) (c : QCell) : Prop :=
  x.2.type = c.type ∧ x.2.ifsn = c.ifsn ∧ x.2.offset = c.offset ∧ bufs x.2.data = some c.pkt

theorem holds_congr {bufs bufs' : Nat → Option Pkt} {cs : List QCell}
    (hb : ∀ x ∈ xs, bufs' x.2.data = bufs x.2.data) (hh : List.Forall₂ (Holds bufs) xs cs) :
    List.Forall₂ (Holds bufs') xs cs := by
  induction hh with
  | nil => exact .nil
  | cons hx _ ih =>
      obtain ⟨h1, h2, h3, h4⟩ := hx
      refine .cons ⟨h1, h2, h3, ?_⟩ (ih fun y hy => hb y (List.mem_cons_of_mem _ hy))
      exact (hb _ List.mem_cons_self).trans h4

structure QueueRep (h : Heap) (xs : List (Nat × CellVal)) (cs : List QCell) : Prop where
  chain : Chain h.cells.get none xs
  nodup : (xs.map Prod.fst).Nodup
  datas : (xs.map fun x => x.2.data).Nodup
  holds : List.Forall₂ (Holds h.bufs.get) xs cs

theorem QueueRep.live {cs : List QCell} (hr : QueueRep h xs cs) :
    ∀ x ∈ xs, h.cells.get x.1 ≠ none ∧ h.bufs.get x.2.data ≠ none := by
  intro x hx
  refine ⟨chain_live hr.chain x hx, ?_⟩
  obtain ⟨c, _, _, _, _, hb⟩ := forall₂_mem_right hr.holds.flip hx
  simp [hb]

theorem QueueRep.length_le {cs : List QCell} (hr : QueueRep h xs cs) :
    xs.length ≤ h.cells.next := by
  have hsub : xs.map Prod.fst ⊆ List.range h.cells.next := by
    intro p hp
    obtain ⟨x, hx, rfl⟩ := List.mem_map.mp hp
    exact List.mem_range.mpr (lt_next (hr.live x hx).1)
  simpa using (List.subperm_of_subset hr.nodup hsub).length_le

theorem QueueRep.congr {cs : List QCell} (hr : QueueRep h xs cs)
    (hc : ∀ x ∈ xs, h'.cells.get x.1 = h.cells.get x.1)
    (hb : ∀ x ∈ xs, h'.bufs.get x.2.data = h.bufs.get x.2.data) : QueueRep h' xs cs :=
  ⟨chain_congr hc hr.chain, hr.nodup, hr.datas, holds_congr hb hr.holds⟩

/-- A neighbour of the cell at p loses its pointer to it, and the cell is freed with
its buffer. -/
theorem unlink_spec {o : Option Nat} (f : Node CellVal → Node CellVal) (hp : h.cells.get p ≠ none)
    (hd : h.bufs.get d ≠ none) (ho : ∀ q, o = some q → q ≠ p ∧ h.cells.get q ≠ none) :
    ∃ h1 h2 h3, (o.elim (some h) fun q => h.setCell q f) = some h1 ∧ h1.freeData d = some h2 ∧
      h2.freeCell p = some h3 ∧ h1.bufs = h.bufs ∧ h3.bufs.get d = none ∧
      (∀ q, q ≠ p → o ≠ some q → h3.cells.get q = h.cells.get q) ∧
      (∀ q c, o = some q → h.cells.get q = some c → h3.cells.get q = some (f c)) ∧
      (∀ e, e ≠ d → h3.bufs.get e = h.bufs.get e) ∧ h3.cells.next = h.cells.next ∧
      h3.bufs.next = h.bufs.next := by
  have hset : ∃ h1, (o.elim (some h) fun q => h.setCell q f) = some h1 ∧ h1.bufs = h.bufs ∧
      h1.cells.next = h.cells.next ∧ (∀ q, o ≠ some q → h1.cells.get q = h.cells.get q) ∧
      ∀ q c, o = some q → h.cells.get q = some c → h1.cells.get q = some (f c) := by
    cases o with
    | none => exact ⟨h, rfl, rfl, rfl, fun _ _ => rfl, fun _ _ hf => by cases hf⟩
    | some q =>
        obtain ⟨c, hc⟩ := Option.ne_none_iff_exists'.mp (ho q rfl).2
        obtain ⟨h1, hs, hb, hg, hnx⟩ := setCell_some hc f
        refine ⟨h1, hs, hb, hnx, fun r hr => ?_, fun r c' hr hc' => ?_⟩
        · rw [hg, Function.update_of_ne]
          intro he
          exact hr (congrArg some he.symm)
        · cases hr
          cases hc.symm.trans hc'
          rw [hg, Function.update_self]
  obtain ⟨h1, hs1, hb1, hn1, ho1, hh1⟩ := hset
  obtain ⟨h2, hs2, hc2, hb2, hbn2⟩ := freeData_some (show h1.bufs.get d ≠ none by rwa [hb1])
  have hop : o ≠ some p := fun he => (ho p he).1 rfl
  obtain ⟨h3, hs3, hb3, hc3, hcn3⟩ := freeCell_some (show h2.cells.get p ≠ none by
    rwa [hc2, ho1 p hop])
  have hcell (q : Nat) (hq : q ≠ p) : h3.cells.get q = h1.cells.get q := by
    rw [hc3, Function.update_of_ne hq, hc2]
  refine ⟨h1, h2, h3, hs1, hs2, hs3, hb1, ?_, fun q hq hqo => ?_, fun q c hq hc => ?_, fun e he => ?_,
    ?_, ?_⟩
  · rw [hb3, hb2, Function.update_self]
  · rw [hcell q hq, ho1 q hqo]
  · rw [hcell q (ho q hq).1]
    exact hh1 q c hq hc
  · rw [hb3, hb2, Function.update_of_ne he, hb1]
  · rw [hcn3, hc2, hn1]
  · rw [hb3, hbn2, hb1]

theorem pop_spec {v : CellVal} {cs : List QCell} (hr : QueueRep h ((p, v) :: xs) cs) :
    ∃ h1 h2 h3, h.clearPrev (first xs) = some h1 ∧ h1.freeData v.data = some h2 ∧
      h2.freeCell p = some h3 ∧ Touches ((p, v) :: xs) h h3 ∧ QueueRep h3 xs cs.tail ∧
      h3.bufs.get v.data = none ∧ h1.bufs = h.bufs := by
  have hlive := hr.live
  have hmem : (p, v) ∈ (p, v) :: xs := List.mem_cons_self
  obtain ⟨hpn, hn⟩ := List.nodup_cons.mp hr.nodup
  obtain ⟨hdn, hd⟩ := List.nodup_cons.mp hr.datas
  have hne : ∀ x ∈ xs, x.1 ≠ p := fun x hx he => hpn (List.mem_map.mpr ⟨x, hx, he⟩)
  have hned : ∀ x ∈ xs, x.2.data ≠ v.data := fun x hx he => hdn (List.mem_map.mpr ⟨x, hx, he⟩)
  have hfirst (q : Nat) (hq : first xs = some q) : ∃ x ∈ xs, x.1 = q := by
    obtain ⟨x, hx, hxe⟩ := Option.map_eq_some_iff.mp hq
    exact ⟨x, List.mem_of_head? hx, hxe⟩
  obtain ⟨h1, h2, h3, hs1, hs2, hs3, hb1, hgone, hcells, hnew, hbufs, hcn, hbn⟩ :=
    unlink_spec (o := first xs) (fun c => { c with prev := none }) (hlive _ hmem).1 (hlive _ hmem).2
      fun q hq => by
        obtain ⟨x, hx, rfl⟩ := hfirst q hq
        exact ⟨hne x hx, (hlive x (List.mem_cons_of_mem _ hx)).1⟩
  have hclear : h.clearPrev (first xs) = some h1 := by
    rw [← hs1]
    cases first xs with
    | none => rfl
    | some q => rfl
  refine ⟨h1, h2, h3, hclear, hs2, hs3, ⟨fun q hq => ?_, fun e he => ?_, hcn, hbn⟩, ⟨?_, hn, hd, ?_⟩,
    hgone, hb1⟩
  · apply hcells q (hq (p, v) hmem).symm
    intro hf
    obtain ⟨x, hx, hxe⟩ := hfirst q hf
    exact hq x (List.mem_cons_of_mem _ hx) hxe
  · exact hbufs e (he (p, v) hmem).symm
  · apply chain_tail hr.chain (fun x hx hf => ?_) hnew hn
    exact hcells _ (hne x hx) hf.symm
  · obtain ⟨c, cs', _, hh, rfl⟩ := List.forall₂_cons_left_iff.mp hr.holds
    exact holds_congr (fun x hx => hbufs _ (hned x hx)) hh

theorem dropEnd_spec {e : Nat} {v : CellVal} {cs : List QCell} {c : QCell}
    (hr : QueueRep h (xs ++ [(e, v)]) (cs ++ [c])) :
    ∃ h1 h2 h3, (match CellChain.last xs with
        | some p => h.setCell p fun c => { c with next := none }
        | none => some h) = some h1 ∧ h1.freeData v.data = some h2 ∧ h2.freeCell e = some h3 ∧
      Touches (xs ++ [(e, v)]) h h3 ∧ QueueRep h3 xs cs := by
  have hlive := hr.live
  have hmem : (e, v) ∈ xs ++ [(e, v)] := by simp
  have hn := hr.nodup
  have hd := hr.datas
  rw [List.map_append, List.nodup_append] at hn hd
  have hne : ∀ x ∈ xs, x.1 ≠ e := fun x hx => hn.2.2 x.1 (List.mem_map_of_mem hx) e (by simp)
  have hned : ∀ x ∈ xs, x.2.data ≠ v.data :=
    fun x hx => hd.2.2 x.2.data (List.mem_map.mpr ⟨x, hx, rfl⟩) v.data (by simp)
  have hlast (q : Nat) (hq : CellChain.last xs = some q) : ∃ x ∈ xs, x.1 = q := by
    obtain ⟨x, hx, hxe⟩ := Option.map_eq_some_iff.mp hq
    exact ⟨x, List.mem_of_getLast? hx, hxe⟩
  obtain ⟨h1, h2, h3, hs1, hs2, hs3, _, _, hcells, hnew, hbufs, hcn, hbn⟩ :=
    unlink_spec (o := CellChain.last xs) (fun c => { c with next := none }) (hlive _ hmem).1
      (hlive _ hmem).2 fun q hq => by
        obtain ⟨x, hx, rfl⟩ := hlast q hq
        exact ⟨hne x hx, (hlive x (List.mem_append_left _ hx)).1⟩
  refine ⟨h1, h2, h3, ?_, hs2, hs3, ⟨fun q hq => ?_, fun d hd => ?_, hcn, hbn⟩, ⟨?_, hn.1, hd.1, ?_⟩⟩
  · rw [← hs1]
    cases CellChain.last xs with
    | none => rfl
    | some q => rfl
  · apply hcells q (hq (e, v) hmem).symm
    intro hf
    obtain ⟨x, hx, hxe⟩ := hlast q hf
    exact hq x (List.mem_append_left _ hx) hxe
  · exact hbufs d (hd (e, v) hmem).symm
  · apply chain_dropLast hr.chain hn.1 (fun x hx hf => ?_) hnew
    exact hcells _ (hne x hx) hf.symm
  · obtain ⟨ys, y, he, hys, _⟩ := forall₂_snoc_left hr.holds
    obtain ⟨rfl, _⟩ := List.append_inj' he rfl
    exact holds_congr (fun x hx => hbufs _ (hned x hx)) hys

theorem resetLoop_spec {cs : List QCell} {n : Nat} (hr : QueueRep h xs cs) (hn : xs.length ≤ n) :
    ∃ h', resetLoop n h (first xs) = some h' ∧ Touches xs h h' := by
  induction xs generalizing h cs n with
  | nil => exact ⟨h, by cases n <;> rfl, Touches.refl _ _⟩
  | cons x xs ih =>
      obtain ⟨p, v⟩ := x
      cases n with
      | zero => simp at hn
      | succ n =>
          obtain ⟨h1, h2, h3, hs1, hs2, hs3, ht, hr', -, -⟩ := pop_spec hr
          obtain ⟨h4, hs4, ht'⟩ := ih hr' (by simpa using hn)
          refine ⟨h4, ?_, ht.trans ht' (List.subset_cons_self _ _)⟩
          rw [first_cons, resetLoop, hr.chain.1]
          simp only [Option.bind_eq_bind, Option.bind_some, hs1, hs2, hs3]
          exact hs4

structure LinkRep (h : Heap) (link : HLink) (q : QLink) (xs : List (Nat × CellVal)) : Prop where
  args : link.toLinkArgs = q.toLinkArgs
  queue : QueueRep h xs q.queue
  head : link.head = first xs
  last : xs ≠ [] → link.endCell = last xs
  stale : xs = [] → link.endCell.isSome = q.stale

theorem LinkRep.length_le {link : HLink} {q : QLink} (hr : LinkRep h link q xs) :
    xs.length ≤ h.cells.next := hr.queue.length_le

theorem LinkRep.queue_nil {link : HLink} {q : QLink} (hr : LinkRep h link q xs) :
    xs = [] ↔ q.queue = [] := by
  have hlen := hr.queue.holds.length_eq
  rw [← List.length_eq_zero_iff, ← List.length_eq_zero_iff, hlen]

/-- What an operation on one link comes to: the cells that are left are some of
those of before. -/
def LinkSim (h : Heap) (xs : List (Nat × CellVal)) (r : Option (Heap × HLink)) (q : QLink) : Prop :=
  ∃ h' link' xs', r = some (h', link') ∧ LinkRep h' link' q xs' ∧ Touches xs h h' ∧ xs' ⊆ xs

theorem discardLoop_cons {target : Nat × Nat} {c : QCell} {v : CellVal} {next prev : Option Nat}
    (n : Nat) (link : HLink) (hget : h.cells.get p = some ⟨v, next, prev⟩) (hi : v.ifsn = c.ifsn)
    (ho : v.offset = c.offset) (hhead : link.head = some p) :
    discardLoop target (n + 1) h link = if c.ifsn.toNat ≤ target.1 then
      (if c.ifsn.toNat = target.1 ∧ c.offset.toNat = target.2 then
        some (h, { link with status := .active })
      else (h.clearPrev next).bind fun h => (h.freeData v.data).bind fun h =>
        (h.freeCell p).bind fun h =>
          discardLoop target n h { link with head := next, status := .usable })
      else some (h, link) := by
  rw [discardLoop, hhead]
  simp only [hget, Option.bind_eq_bind, Option.bind_some, hi, ho]
  rfl

theorem alignLink_cons {q : QLink} {c : QCell} {cs : List QCell} (target : Nat × Nat)
    (hq : q.queue = c :: cs) :
    SwimaQueue.alignLink target q = if c.ifsn.toNat ≤ target.1 then
      (if c.ifsn.toNat = target.1 ∧ c.offset.toNat = target.2 then { q with status := .active }
      else SwimaQueue.alignLink target
        { q with queue := cs, status := .usable, stale := cs.isEmpty })
      else q := by
  by_cases h1 : c.ifsn.toNat ≤ target.1
  · by_cases h2 : c.ifsn.toNat = target.1 ∧ c.offset.toNat = target.2
    · simp only [SwimaQueue.alignLink, hq, discardCells, if_pos h1, if_pos h2]
    · simp only [SwimaQueue.alignLink, hq, discardCells, if_pos h1, if_neg h2]
  · simp only [SwimaQueue.alignLink, hq, discardCells, if_neg h1]
    rw [← hq]

/-- The link when its first cell was taken from it. -/
theorem LinkRep.popped {x : Nat × CellVal} {link : HLink} {q : QLink} {cs : List QCell} {h' : Heap}
    (hr : LinkRep h link q (x :: xs)) (hr' : QueueRep h' xs cs) :
    LinkRep h' { link with head := first xs, status := .usable }
      { q with queue := cs, status := .usable, stale := cs.isEmpty } xs := by
  refine ⟨?_, hr', rfl, fun hx => ?_, fun hx => ?_⟩
  · simp only [hr.args]
  · refine (hr.last (by simp)).trans ?_
    cases xs with
    | nil => exact absurd rfl hx
    | cons y ys => simp [CellChain.last, List.getLast?_cons]
  · subst hx
    have hcs : cs = [] := List.length_eq_zero_iff.mp hr'.holds.length_eq.symm
    subst hcs
    simp [hr.last (by simp), CellChain.last]

theorem discardLoop_sim {target : Nat × Nat} {n : Nat} {link : HLink} {q : QLink}
    (hr : LinkRep h link q xs) (hn : xs.length ≤ n) :
    LinkSim h xs (discardLoop target n h link) (SwimaQueue.alignLink target q) := by
  induction xs generalizing h link q n with
  | nil =>
      have hq := hr.queue_nil.mp rfl
      refine ⟨h, link, [], ?_, ?_, Touches.refl _ _, List.Subset.refl _⟩
      · rw [discardLoop, hr.head]
        rfl
      · have he : SwimaQueue.alignLink target q = q := by
          rw [SwimaQueue.alignLink, hq, discardCells, ← hq]
        rw [he]
        exact hr
  | cons x xs ih =>
      obtain ⟨p, v⟩ := x
      cases hq : q.queue with
      | nil => exact absurd (hr.queue_nil.mpr hq) (by simp)
      | cons c cs =>
          have hh := hr.queue.holds
          rw [hq] at hh
          obtain ⟨⟨_, hi, ho, _⟩, -⟩ := List.forall₂_cons.mp hh
          obtain ⟨n, rfl⟩ : ∃ m, n = m + 1 := ⟨n - 1, by rw [List.length_cons] at hn; omega⟩
          rw [discardLoop_cons n link hr.queue.chain.1 hi ho (by rw [hr.head, first_cons]),
            alignLink_cons target hq]
          split
          · split
            · refine ⟨h, _, _, rfl, ⟨?_, hr.queue, hr.head, hr.last, hr.stale⟩, Touches.refl _ _,
                List.Subset.refl _⟩
              simp only [hr.args]
            · obtain ⟨h1, h2, h3, hs1, hs2, hs3, ht, hr', -, -⟩ := pop_spec hr.queue
              rw [hq, List.tail_cons] at hr'
              obtain ⟨h4, link', xs', hs4, hrep, ht', hsub⟩ := ih (hr.popped hr') (by simpa using hn)
              refine ⟨h4, link', xs', ?_, hrep, ht.trans ht' (List.subset_cons_self _ _),
                List.subset_cons_of_subset _ hsub⟩
              simp only [hs1, hs2, hs3, Option.bind_some]
              exact hs4
          · exact ⟨h, link, _, rfl, hr, Touches.refl _ _, List.Subset.refl _⟩

theorem resync_sim {link : HLink} {q : QLink} (hr : LinkRep h link q xs) (icp : Nat → UInt8) :
    LinkSim h xs (resync h link icp) (q.reset icp) := by
  obtain ⟨h', hs, ht⟩ := resetLoop_spec hr.queue hr.length_le
  refine ⟨h', { toLinkArgs := link.toLinkArgs.resync icp, head := none, endCell := none }, [], ?_,
    ⟨?_, ⟨trivial, List.nodup_nil, List.nodup_nil, .nil⟩, rfl, ?_, ?_⟩, ht, List.nil_subset _⟩
  · rw [resync, resetAllcell, hr.head, hs]
    rfl
  · simp only [QLink.reset, hr.args]
  · intro hc; exact absurd rfl hc
  · intro _; rfl

/-- The filler cell at the end of a link is dropped, and the link goes on one cell
earlier. -/
theorem dropFiller_sim {link : HLink} {q : QLink} {e : Nat} {v : CellVal} {cs : List QCell} {c : QCell}
    (hr : LinkRep h link q (xs ++ [(e, v)])) (hq : q.queue = cs ++ [c]) (offset : UInt8) :
    LinkSim h (xs ++ [(e, v)])
      ((match CellChain.last xs with
        | some p => (h.setCell p fun c => { c with next := none }).map fun h =>
            (h, { link with endCell := some p })
        | none => some (h, { link with head := none, endCell := none })).bind fun r =>
        (r.1.freeData v.data).bind fun h => (h.freeCell e).bind fun h =>
          some (h, { r.2 with offset := offset }))
      { q with offset := offset, queue := cs, stale := false } := by
  have hqr := hr.queue
  rw [hq] at hqr
  obtain ⟨h1, h2, h3, hs1, hs2, hs3, hto, hqr'⟩ := dropEnd_spec hqr
  refine ⟨h3, { link with head := first xs, endCell := CellChain.last xs, offset := offset }, xs, ?_,
    ⟨?_, hqr', rfl, fun _ => rfl, fun hn => by rw [hn]; rfl⟩, hto, by simp⟩
  · cases hl : CellChain.last xs with
    | none =>
        have hxs : xs = [] := by simpa [CellChain.last] using hl
        rw [hl] at hs1
        cases hs1
        simp only [Option.bind_some, hs2, hs3, hxs, first_nil]
    | some p =>
        have hxs : xs ≠ [] := by
          intro hn
          rw [hn] at hl
          cases hl
        have hhead : link.head = first xs := hr.head.trans (first_append hxs)
        rw [hl] at hs1
        simp only at hs1
        simp only [hs1, Option.map_some, Option.bind_some, hs2, hs3, ← hhead]
  · simp only [hr.args]

theorem checkImaLink_sim {link : HLink} {q : QLink} (hr : LinkRep h link q xs)
    (hst : q.stale = false) (icp : Nat → UInt8) :
    ∃ q', SwimaQueue.checkImaLink q icp = some q' ∧ q'.stale = false ∧
      LinkSim h xs (checkImaLink h link icp) q' := by
  have hsync : ∃ q', some (q.reset icp) = some q' ∧ q'.stale = false ∧
      LinkSim h xs (resync h link icp) q' := ⟨_, rfl, rfl, resync_sim hr icp⟩
  have hchk : link.checked icp = q.checked icp := by rw [hr.args]
  have hoff : link.offset = q.offset := congrArg LinkArgs.offset hr.args
  rw [SwimaQueue.checkImaLink, SwimaHeap.checkImaLink, hchk, hoff]
  split
  · split
    · cases hxs : xs using List.reverseRecOn with
      | nil =>
          subst hxs
          have hend : link.endCell = none := by
            have := hr.stale rfl
            rw [hst] at this
            simpa using this
          rw [hend, hr.queue_nil.mp rfl]
          simpa [hst] using hsync
      | append_singleton ys x =>
          obtain ⟨e, v⟩ := x
          subst hxs
          obtain ⟨cs, c, hq, hcs, ht, -⟩ := forall₂_snoc_left hr.queue.holds
          change v.type = c.type at ht
          have hend : link.endCell = some e := (hr.last (by simp)).trans last_snoc
          have hget := chain_end hr.queue.chain
          rw [Option.or_none] at hget
          simp only [hend, hq, List.getLast?_concat, List.dropLast_concat, hget,
            Option.bind_eq_bind, Option.bind_some, ht]
          split
          · have hdrop := dropFiller_sim hr hq (icpOff icp)
            refine ⟨_, rfl, rfl, ?_⟩
            cases hl : last ys with
            | none =>
                rw [hl] at hdrop
                exact hdrop
            | some p =>
                rw [hl] at hdrop
                exact hdrop
          · exact hsync
    · exact hsync
  · exact ⟨q, rfl, hst, h, link, xs, rfl, hr, Touches.refl _ _, List.Subset.refl _⟩

end OiAmc.SwimaRep

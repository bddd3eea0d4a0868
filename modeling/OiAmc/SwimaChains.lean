import OiAmc.SwimaSim
import OiAmc.SwimaBuffers
import OiAmc.PartialMachine

namespace OiAmc.SwimaChains

open PartialMachine Arena CellChain SwimaLinks SwimaQueue SwimaAlign SwimaHeap SwimaRep SwimaSim
  SwimaBuffers

variable {s : Swima} {ima : QProcess} {a : UInt8} {i n : Nat} {target : Nat × Nat}

/-- The cells of a link: from head to end along next, back along prev, and all of
them and their buffers live. -/
structure LinkQueue (s : Swima) (a : UInt8) (xs : List (Nat × CellVal)) : Prop where
  chain : Chain s.heap.cells.get none xs
  head : (s.ima.link a).head = first xs
  endCell : (s.ima.link a).endCell = last xs
  nodup : (xs.map Prod.fst).Nodup
  datas : (xs.map fun x => x.2.data).Nodup
  live : ∀ x ∈ xs, s.heap.bufs.get x.2.data ≠ none

def WellLinked (s : Swima) : Prop :=
  ∃ xs : UInt8 → List (Nat × CellVal), (∀ a, LinkQueue s a (xs a)) ∧
    ∀ a b, a ≠ b → ∀ x ∈ xs a, ∀ y ∈ xs b, Apart x y

theorem LinkQueue.ends {xs : List (Nat × CellVal)} (h : LinkQueue s a xs) :
    (s.ima.link a).head = none ↔ (s.ima.link a).endCell = none := by
  rw [h.head, h.endCell, first, last]
  simp

/-- The end pointer of an empty queue is not NULL. -/
def Dangling (link : QLink) : Prop := link.queue = [] ∧ link.stale = true

theorem wellLinked_of_noneStale (hr : Refines s ima) (hst : NoneStale ima) : WellLinked s := by
  obtain ⟨xs, hr⟩ := hr
  refine ⟨xs, fun a => ?_, hr.apart⟩
  have hl := hr.link a
  refine ⟨hl.queue.chain, hl.head, ?_, hl.queue.nodup, hl.queue.datas,
    fun x hx => (hl.queue.live x hx).2⟩
  by_cases hxs : xs a = []
  · have hend := hl.stale hxs
    rw [hst a] at hend
    rw [hxs]
    simpa using hend
  · exact hl.last hxs

theorem WellLinked.not_dangling (h : WellLinked s) (hr : Refines s ima) (a : UInt8) :
    ¬ Dangling (ima.link a) := by
  rintro ⟨hq, hs⟩
  obtain ⟨xs, hr⟩ := hr
  obtain ⟨ys, hys, -⟩ := h
  have hl := hr.link a
  have hnil := hl.queue_nil.mpr hq
  have hhead : (s.ima.link a).head = none := by rw [hl.head, hnil]; rfl
  have hend := (hys a).ends.mp hhead
  have hsome := hl.stale hnil
  rw [hend, hs] at hsome
  cases hsome

def Stops (target : Nat × Nat) (c : QCell) : Prop := c.pos = target ∨ target.1 < c.ifsn.toNat

/-- The discard loop leaves a cell in the queue, if there was one. -/
def Kept (target : Nat × Nat) (queue : List QCell) : Prop := queue = [] ∨ ∃ c ∈ queue, Stops target c

theorem not_stops_iff {c : QCell} : ¬ Stops target c ↔
    c.ifsn.toNat ≤ target.1 ∧ ¬ (c.ifsn.toNat = target.1 ∧ c.offset.toNat = target.2) := by
  rw [Stops, pos_eq_iff, not_or, Nat.not_lt, and_comm]

theorem discardCells_kept {queue : List QCell} {status : Status} (h : Kept target queue) :
    (discardCells target queue status false).2.2 = false := by
  induction queue generalizing status with
  | nil => rfl
  | cons c cs ih =>
      rw [discardCells]
      split
      · next hle =>
          split
          · rfl
          · next hat =>
              have hc : ¬ Stops target c := not_stops_iff.mpr ⟨hle, hat⟩
              obtain h | ⟨x, hx, hs⟩ := h
              · cases h
              · rcases List.mem_cons.mp hx with rfl | hx
                · exact absurd hs hc
                · have hne : cs.isEmpty = false := by
                    cases cs with
                    | nil => cases hx
                    | cons y ys => rfl
                  rw [hne]
                  exact ih (Or.inr ⟨x, hx, hs⟩)
      · rfl

theorem discardCells_emptied {queue : List QCell} {status : Status} {stale : Bool}
    (hne : queue = [] → stale = true) (h : ∀ c ∈ queue, ¬ Stops target c) :
    (discardCells target queue status stale).1 = [] ∧
      (discardCells target queue status stale).2.2 = true := by
  induction queue generalizing status stale with
  | nil => exact ⟨rfl, hne rfl⟩
  | cons c cs ih =>
      obtain ⟨hle, hat⟩ := not_stops_iff.mp (h c List.mem_cons_self)
      rw [discardCells, if_pos hle, if_neg hat]
      apply ih
      · intro hcs
        rw [hcs]
        rfl
      · exact fun x hx => h x (List.mem_cons_of_mem c hx)

theorem alignLink_kept {link : QLink} (hst : link.stale = false) (h : Kept target link.queue) :
    (SwimaQueue.alignLink target link).stale = false := by
  rw [SwimaQueue.alignLink, hst]
  exact discardCells_kept h

theorem alignLink_emptied {link : QLink} (h : ¬ Kept target link.queue) :
    Dangling (SwimaQueue.alignLink target link) := by
  rw [Kept, not_or, not_exists] at h
  apply discardCells_emptied
  · exact fun hq => absurd hq h.1
  · exact fun c hc hs => h.2 c ⟨hc, hs⟩

theorem alignLink_dangling {link : QLink} (h : Dangling link) :
    Dangling (SwimaQueue.alignLink target link) := by
  apply discardCells_emptied
  · exact fun _ => h.2
  · rw [h.1]
    simp

def NoneEmptied (r : QProcess × Nat × Nat) (i : Nat) : Prop :=
  Aligns r.1 i → ∃ top, IsGreatest (targets r.1 i r.2) (toLex top) ∧
    ∀ a ∈ (r.1.group i).members, Kept top (r.1.link a).queue

theorem alignGroup_link {r : QProcess × Nat × Nat} (h : Aligns r.1 i) {top : Nat × Nat}
    (ht : IsGreatest (targets r.1 i r.2) (toLex top)) (a : UInt8) :
    (SwimaQueue.alignGroup r i).1.link a = if a ∈ (r.1.group i).members then
      SwimaQueue.alignLink top (r.1.link a) else r.1.link a := by
  obtain ⟨-, htop, he⟩ := alignGroup_eq h
  rw [he, groupAligning_link, marked_members, marked_link, toLex.injective (htop.unique ht)]

theorem alignGroup_noneStale {r : QProcess × Nat × Nat} (hst : NoneStale r.1)
    (h : NoneEmptied r i) : NoneStale (SwimaQueue.alignGroup r i).1 := by
  intro a
  by_cases ha : Aligns r.1 i
  · obtain ⟨top, htop, hkept⟩ := h ha
    rw [alignGroup_link ha htop]
    split
    · next hm => exact alignLink_kept (hst a) (hkept a hm)
    · exact hst a
  · rw [alignGroup_skip ha]
    exact hst a

theorem alignGroup_emptied {r : QProcess × Nat × Nat} (h : ¬ NoneEmptied r i) :
    ∃ a, Dangling ((SwimaQueue.alignGroup r i).1.link a) := by
  rw [NoneEmptied, Classical.not_imp] at h
  obtain ⟨ha, hno⟩ := h
  have htop := (alignGroup_eq ha).2.1
  by_contra hc
  apply hno
  refine ⟨_, htop, fun a hm => ?_⟩
  by_contra hk
  apply hc
  refine ⟨a, ?_⟩
  rw [alignGroup_link ha htop, if_pos hm]
  exact alignLink_emptied hk

theorem alignGroup_dangling {r : QProcess × Nat × Nat} (h : Dangling (r.1.link a)) :
    Dangling ((SwimaQueue.alignGroup r i).1.link a) := by
  by_cases ha : Aligns r.1 i
  · rw [alignGroup_link ha (alignGroup_eq ha).2.1]
    split
    · exact alignLink_dangling h
    · exact h
  · rw [alignGroup_skip ha]
    exact h

theorem alignBefore_noneStale (hst : NoneStale ima)
    (h : ∀ i < n, NoneEmptied (alignBefore ima i) i) : NoneStale (alignBefore ima n).1 := by
  induction n with
  | zero => exact hst
  | succ n ih =>
      rw [alignBefore_succ]
      exact alignGroup_noneStale (ih fun i hi => h i (by omega)) (h n (by omega))

theorem alignBefore_dangling (h : ¬ ∀ i < n, NoneEmptied (alignBefore ima i) i) :
    ∃ a, Dangling ((alignBefore ima n).1.link a) := by
  induction n with
  | zero => exact absurd (fun i hi => absurd hi (Nat.not_lt_zero i)) h
  | succ n ih =>
      rw [alignBefore_succ]
      by_cases hn : ∀ i < n, NoneEmptied (alignBefore ima i) i
      · apply alignGroup_emptied
        intro hlast
        apply h
        intro i hi
        rcases Nat.lt_succ_iff_lt_or_eq.mp hi with hi | rfl
        · exact hn i hi
        · exact hlast
      · obtain ⟨a, ha⟩ := ih hn
        exact ⟨a, alignGroup_dangling ha⟩

theorem readGroupCell_noneStale (hst : NoneStale ima) :
    NoneStale (SwimaQueue.readGroupCell ima).1 := by
  rw [SwimaQueue.readGroupCell]
  simp only
  split
  · exact hst
  · split
    · exact hst
    · intro b
      rw [setLink_link]
      by_cases hb : b = (ima.group ima.gseq).links (ima.group ima.gseq).lseq.toNat
      · rw [hb, Function.update_self]
      · rw [Function.update_of_ne hb]
        exact hst b

theorem readGroupCell_dangling (h : Dangling (ima.link a)) :
    Dangling ((SwimaQueue.readGroupCell ima).1.link a) := by
  rw [SwimaQueue.readGroupCell]
  simp only
  split
  · exact h
  · split
    · exact h
    · next c cs hq =>
        rw [setLink_link, Function.update_of_ne]
        · exact h
        · intro he
          rw [he, Dangling, hq] at h
          exact absurd h.1 (List.cons_ne_nil c cs)

def Sound (s : Swima) (call : ProcCall) : Prop :=
  ∃ t o, SwimaHeap.swimaProc s call = some (t, o) ∧ WellLinked t

/-- The heap handle holds the queues, and no end pointer is stale. -/
structure Good (s : Swima) (ima : QProcess) : Prop where
  refines : Refines s ima
  noneStale : NoneStale ima
  inRange : InRange ima

theorem sound_iff (hg : Good s ima) (call : ProcCall) :
    Sound s call ↔ EveryAlignment NoneEmptied ima call := by
  obtain ⟨s', o, w, ima', hs, hw, hst, hl, hr, -⟩ :=
    swimaProc_sim hg.refines hg.noneStale hg.inRange call
  constructor
  · rintro ⟨t, o', ht, hwell⟩
    cases hs.symm.trans ht
    intro w' hw'
    cases hw.symm.trans hw'
    by_contra hno
    obtain ⟨a, ha⟩ := alignBefore_dangling hno
    have hd := readLoop_preserves (P := fun ima => Dangling (ima.link a)) (fun _ h => h)
      (fun _ h => readGroupCell_dangling h) ha hl
    exact hwell.not_dangling hr a hd
  · intro h
    have hns := readLoop_preserves (P := NoneStale) (fun _ h => h)
      (fun _ h => readGroupCell_noneStale h) (alignBefore_noneStale hst (h w hw)) hl
    exact ⟨s', o, hs, wellLinked_of_noneStale hr hns⟩

theorem good_step (hg : Good s ima) {call : ProcCall} (h : Sound s call) :
    ∃ t o ima' data, SwimaHeap.swimaProc s call = some (t, o) ∧
      SwimaQueue.swimaProc ima call = some (ima', data) ∧ Good t ima' ∧ o.map Prod.snd = data := by
  obtain ⟨s', o, w, ima', hs, hw, hst, hl, hr, hrange⟩ :=
    swimaProc_sim hg.refines hg.noneStale hg.inRange call
  have hns := readLoop_preserves (P := NoneStale) (fun _ h => h)
    (fun _ h => readGroupCell_noneStale h)
    (alignBefore_noneStale hst ((sound_iff hg call).mp h w hw)) hl
  refine ⟨s', o, ima', o.map Prod.snd, hs, ?_, ⟨hr, hns, hrange⟩, rfl⟩
  rw [SwimaQueue.swimaProc, hw]
  exact hl

theorem opened_good (o : Opened) : Good (SwimaHeap.opened o) (SwimaQueue.opened o) := by
  refine ⟨⟨fun _ => [], rfl, rfl, rfl, fun a => ?_, fun _ _ _ x hx => by cases hx⟩, fun _ => rfl,
    o.gnum_le, ?_⟩
  · exact ⟨rfl, ⟨trivial, List.nodup_nil, List.nodup_nil, .nil⟩, rfl, fun h => absurd rfl h, fun _ => rfl⟩
  · exact lt_max_of_lt_left Nat.zero_lt_one

def returned (o : Option (Nat × Pkt)) : Option Nat := o.map Prod.fst

/-- In every state of the run the queues are well linked, freed memory is not
used, and no cell is returned twice. -/
def KeepsQueues (s : Swima) (calls : List ProcCall) : Prop :=
  Guarded SwimaHeap.swimaProc Sound s calls ∧
    ∃ t os, run SwimaHeap.swimaProc s calls = some (t, os) ∧ (os.filterMap returned).Nodup

/-- From swima_open on, over any cells, the queues stay well linked exactly as long
as no alignment takes the last cell of a link away. -/
theorem swimaProc_keepsQueues (o : Opened) (calls : List ProcCall) :
    KeepsQueues (SwimaHeap.opened o) calls ↔
      Guarded SwimaQueue.swimaProc (EveryAlignment NoneEmptied) (SwimaQueue.opened o) calls := by
  have hsim : Guarded SwimaHeap.swimaProc Sound (SwimaHeap.opened o) calls ↔
      Guarded SwimaQueue.swimaProc (EveryAlignment NoneEmptied) (SwimaQueue.opened o) calls := by
    apply guarded_sim (R := Good) (fun _ _ call hg => sound_iff hg call) ?_ (opened_good o)
    intro s ima call hg hs
    obtain ⟨t, o, ima', data, h1, h2, hg', -⟩ := good_step hg hs
    exact ⟨t, o, ima', data, h1, h2, hg'⟩
  rw [KeepsQueues, hsim, and_iff_left_iff_imp]
  intro hcond
  obtain ⟨t, os, hrun, -⟩ := @guarded_run _ _ _ _ _ (fun s => ∃ ima, Good s ima)
    (fun s call ⟨ima, hg⟩ hs => by
      obtain ⟨t, o, ima', data, h1, -, hg', -⟩ := good_step hg hs
      exact ⟨t, o, h1, ima', hg'⟩) _ _ ⟨_, opened_good o⟩ (hsim.mpr hcond)
  refine ⟨t, os, hrun, ?_⟩
  exact (@run_nodup _ _ _ _ _ returned (fun (s : Swima) d => Spent s.heap d)
    (fun _ _ _ _ hs => swimaProc_hands hs) _ _ _ _ hrun).1

def atmCall (link : UInt16) : ProcCall where
  pdata := some ⟨53, link, fun _ => 1⟩
  alloc := true

/-- The ICP cell of link 1 makes the alignment empty link 0, and the next ICP cell
of link 0 follows its end pointer into a freed cell. -/
theorem emptied_link_dangles : ¬ KeepsQueues (SwimaHeap.opened twoLinks)
    [icpCall 0 5 31, atmCall 0, icpCall 1 9 31, icpCall 0 6 0] := by
  rintro ⟨-, t, os, hrun, -⟩
  have hnone : (run SwimaHeap.swimaProc (SwimaHeap.opened twoLinks)
      [icpCall 0 5 31, atmCall 0, icpCall 1 9 31, icpCall 0 6 0]).isNone = true := by decide +kernel
  rw [hrun] at hnone
  cases hnone

end OiAmc.SwimaChains

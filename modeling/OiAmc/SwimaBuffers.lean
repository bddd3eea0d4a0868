import OiAmc.SwimaHeap
import OiAmc.PartialLists

namespace OiAmc.SwimaBuffers

open PartialLists Arena SwimaLinks SwimaHeap
open SwimaQueue (ProcCall)

variable {h h' h'' : Heap} {s s' : Swima} {link link' : HLink} {p d : Nat} {target : Nat × Nat}

/-- A packet buffer that was handed over and is gone. -/
def Spent (h : Heap) (d : Nat) : Prop := d < h.bufs.next ∧ h.bufs.get d = none

def Ages (h h' : Heap) : Prop := ∀ d, Spent h d → Spent h' d

theorem Ages.refl (h : Heap) : Ages h h := fun _ hd => hd

theorem Ages.trans (h1 : Ages h h') (h2 : Ages h' h'') : Ages h h'' := fun d hd => h2 d (h1 d hd)

theorem ages_of_bufs (he : h'.bufs = h.bufs) : Ages h h' := by
  intro d hd
  rw [Spent, he]
  exact hd

theorem allocBuf_ages (pkt : Pkt) : Ages h { h with bufs := h.bufs.alloc pkt } := by
  intro d hd
  obtain ⟨hlt, hget⟩ := hd
  refine ⟨Nat.lt_succ_of_lt hlt, ?_⟩
  rw [alloc_get, Function.update_of_ne hlt.ne, hget]

theorem freeData_ages (hf : h.freeData d = some h') : Ages h h' ∧ ¬ Spent h d ∧ Spent h' d := by
  obtain ⟨m, hm, rfl⟩ := Option.map_eq_some_iff.mp hf
  obtain ⟨hlive, hget, hnext⟩ := free_eq_some.mp hm
  refine ⟨fun e he => ⟨hnext ▸ he.1, ?_⟩, fun hd => hlive hd.2, hnext ▸ lt_next hlive, ?_⟩
  · have hne : e ≠ d := fun heq => hlive (heq ▸ he.2)
    simp only [hget, Function.update_of_ne hne]
    exact he.2
  · simp only [hget, Function.update_self]

theorem freeCell_ages (hf : h.freeCell p = some h') : Ages h h' := by
  obtain ⟨m, -, rfl⟩ := Option.map_eq_some_iff.mp hf
  exact ages_of_bufs rfl

theorem setCell_ages {f : CellChain.Node CellVal → CellChain.Node CellVal}
    (hf : h.setCell p f = some h') : Ages h h' := by
  simp only [Heap.setCell, Option.bind_eq_bind, Option.bind_eq_some_iff] at hf
  obtain ⟨c, -, m, -, he⟩ := hf
  cases he
  exact ages_of_bufs rfl

theorem clearPrev_ages {p : Option Nat} (hf : h.clearPrev p = some h') : Ages h h' := by
  cases p with
  | none =>
      cases hf
      exact Ages.refl _
  | some p => exact setCell_ages hf

theorem resetLoop_ages {n : Nat} {p : Option Nat} (hf : resetLoop n h p = some h') : Ages h h' := by
  induction n generalizing h p with
  | zero =>
      cases p with
      | none =>
          cases hf
          exact Ages.refl _
      | some p => cases hf
  | succ n ih =>
      cases p with
      | none =>
          cases hf
          exact Ages.refl _
      | some p =>
          simp only [resetLoop, Option.bind_eq_bind, Option.bind_eq_some_iff] at hf
          obtain ⟨c, -, h1, hs1, h2, hs2, h3, hs3, hs4⟩ := hf
          exact (clearPrev_ages hs1).trans <| (freeData_ages hs2).1.trans <|
            (freeCell_ages hs3).trans (ih hs4)

theorem resync_ages {icp : Nat → UInt8} (hf : resync h link icp = some (h', link')) : Ages h h' := by
  obtain ⟨r, hr, he⟩ := Option.map_eq_some_iff.mp hf
  obtain ⟨h1, h1s, rfl⟩ := Option.map_eq_some_iff.mp hr
  cases he
  exact resetLoop_ages h1s

theorem checkImaLink_ages {icp : Nat → UInt8} (hf : checkImaLink h link icp = some (h', link')) :
    Ages h h' := by
  rw [checkImaLink] at hf
  split at hf
  · split at hf
    · split at hf
      · simp only [Option.bind_eq_bind, Option.bind_eq_some_iff] at hf
        obtain ⟨c, -, hf⟩ := hf
        split at hf
        · split at hf
          · simp only [Option.bind_eq_some_iff, Option.map_eq_some_iff] at hf
            obtain ⟨_, ⟨h1, hs1, rfl⟩, h2, hs2, h3, hs3, he⟩ := hf
            cases he
            exact (setCell_ages hs1).trans ((freeData_ages hs2).1.trans (freeCell_ages hs3))
          · simp only [Option.bind_eq_some_iff, Option.bind_some] at hf
            obtain ⟨h2, hs2, h3, hs3, he⟩ := hf
            cases he
            exact (freeData_ages hs2).1.trans (freeCell_ages hs3)
        · exact resync_ages hf
      · exact resync_ages hf
    · exact resync_ages hf
  · cases hf
    exact Ages.refl _

theorem addLinkCell_ages (hf : addLinkCell h link p = some (h', link')) : Ages h h' := by
  rw [addLinkCell] at hf
  split at hf
  · cases hf
    exact Ages.refl _
  · simp only [Option.bind_eq_bind, Option.bind_eq_some_iff] at hf
    obtain ⟨e, -, h1, hs1, h2, hs2, he⟩ := hf
    cases he
    exact (setCell_ages hs1).trans (setCell_ages hs2)

theorem writeCell_ages {pkt : Pkt} (hf : writeCell h link p d pkt = some (h', link')) : Ages h h' := by
  by_cases hicp : cellType pkt.data = .icp
  · simp only [writeCell, hicp, true_and, if_true, Option.bind_eq_bind] at hf
    split at hf
    · simp only [Option.bind_eq_some_iff] at hf
      obtain ⟨h1, hs1, h2, hs2, he⟩ := hf
      cases he
      exact (freeData_ages hs1).1.trans (freeCell_ages hs2)
    · simp only [Option.bind_eq_some_iff] at hf
      obtain ⟨⟨h1, link1⟩, hs1, h2, hs2, ⟨h3, link3⟩, hs3, he⟩ := hf
      cases he
      exact (checkImaLink_ages hs1).trans ((setCell_ages hs2).trans (addLinkCell_ages hs3))
  · simp only [writeCell, hicp, false_and, if_false, Option.bind_eq_bind, Option.bind_some,
      Option.bind_eq_some_iff] at hf
    obtain ⟨h2, hs2, ⟨h3, link3⟩, hs3, he⟩ := hf
    cases he
    exact (setCell_ages hs2).trans (addLinkCell_ages hs3)

theorem writeLinkCell_ages {call : ProcCall} (hf : writeLinkCell s call = some s') :
    Ages s.heap s'.heap := by
  rw [writeLinkCell] at hf
  split at hf
  · cases hf
    exact Ages.refl _
  · simp only at hf
    split at hf
    · obtain ⟨h1, hs1, rfl⟩ := Option.map_eq_some_iff.mp hf
      exact (allocBuf_ages _).trans (freeData_ages hs1).1
    · obtain ⟨⟨h1, link1⟩, hs1, rfl⟩ := Option.map_eq_some_iff.mp hf
      exact (allocBuf_ages _).trans (Ages.trans (ages_of_bufs (by rfl)) (writeCell_ages hs1))

theorem discardLoop_cases {n : Nat} (hf : discardLoop target n h link = some (h', link')) :
    h' = h ∨ ∃ (m : Nat) (c : CellChain.Node CellVal) (p : Nat) (link1 : HLink) (h1 h2 h3 : Heap), n = m + 1 ∧ h.clearPrev c.next = some h1 ∧
      h1.freeData c.val.data = some h2 ∧ h2.freeCell p = some h3 ∧
      discardLoop target m h3 link1 = some (h', link') := by
  rw [discardLoop] at hf
  split at hf
  · cases hf
    exact Or.inl rfl
  · simp only [Option.bind_eq_bind, Option.bind_eq_some_iff] at hf
    obtain ⟨c, -, hf⟩ := hf
    split at hf
    · split at hf
      · cases hf
        exact Or.inl rfl
      · cases n with
        | zero => cases hf
        | succ m =>
            simp only [Option.bind_eq_some_iff] at hf
            obtain ⟨h1, hs1, h2, hs2, h3, hs3, hs4⟩ := hf
            exact Or.inr ⟨m, c, _, _, h1, h2, h3, rfl, hs1, hs2, hs3, hs4⟩
    · cases hf
      exact Or.inl rfl

theorem discardLoop_ages {n : Nat} (hf : discardLoop target n h link = some (h', link')) :
    Ages h h' := by
  induction n generalizing h link with
  | zero =>
      obtain rfl | ⟨m, _, _, _, _, _, _, hm, _⟩ := discardLoop_cases hf
      · exact Ages.refl _
      · cases hm
  | succ n ih =>
      obtain rfl | ⟨m, c, p, link1, h1, h2, h3, hm, hs1, hs2, hs3, hs4⟩ := discardLoop_cases hf
      · exact Ages.refl _
      · cases hm
        exact (clearPrev_ages hs1).trans <| (freeData_ages hs2).1.trans <|
          (freeCell_ages hs3).trans (ih hs4)

theorem alignLink_ages {a : UInt8} (hf : alignLink target s a = some s') : Ages s.heap s'.heap := by
  obtain ⟨⟨h1, link1⟩, hs1, rfl⟩ := Option.map_eq_some_iff.mp hf
  exact discardLoop_ages hs1

theorem groupAligning_ages {i : Nat} (hf : groupAligning s i target = some s') :
    Ages s.heap s'.heap := by
  simp only [groupAligning, Option.bind_eq_bind, Option.bind_eq_some_iff] at hf
  obtain ⟨s1, hs1, hf⟩ := hf
  have hages : Ages s.heap s1.heap := foldlM_preserves (I := fun t => Ages s.heap t.heap)
    (fun t a _ t' ht hs => ht.trans (alignLink_ages hs)) (Ages.refl _) hs1
  split at hf
  · cases hf
    exact hages
  · cases hf
    exact hages

theorem linksAligning_heap {i : Nat} {t : (Nat × Nat) × Int}
    (hf : linksAligning s i target = some (s', t)) : s'.heap = s.heap := by
  simp only [linksAligning] at hf
  split at hf
  · cases hf
    rfl
  · split at hf
    · cases hf
      rfl
    · obtain ⟨u, -, he⟩ := Option.map_eq_some_iff.mp hf
      cases he
      rfl

theorem aligning_ages (hf : aligning s = some s') : Ages s.heap s'.heap := by
  obtain ⟨⟨s1, t1⟩, hs1, rfl⟩ := Option.map_eq_some_iff.mp hf
  apply foldlM_preserves (I := fun t => Ages s.heap t.1.heap) ?_ (Ages.refl _) hs1
  intro t i _ t' ht hs
  simp only [alignGroup, Option.bind_eq_bind, Option.bind_eq_some_iff] at hs
  obtain ⟨⟨s2, t2, rc⟩, hs2, hs⟩ := hs
  have h2 := linksAligning_heap hs2
  split at hs
  · cases hs
    exact ht.trans (h2 ▸ Ages.refl _)
  · simp only [Option.bind_eq_some_iff] at hs
    obtain ⟨s3, hs3, he⟩ := hs
    cases he
    exact ht.trans (h2 ▸ groupAligning_ages hs3)

def Hands (h h' : Heap) (o : Option (Nat × Pkt)) : Prop :=
  Ages h h' ∧ ∀ d, o.map Prod.fst = some d → ¬ Spent h d ∧ Spent h' d

theorem Hands.of_ages {o : Option (Nat × Pkt)} (h1 : Ages h h') (h2 : Hands h' h'' o) :
    Hands h h'' o :=
  ⟨h1.trans h2.1, fun d hd => ⟨fun hs => (h2.2 d hd).1 (h1 d hs), (h2.2 d hd).2⟩⟩

theorem Hands.ages {o : Option (Nat × Pkt)} (h1 : Hands h h' o) (h2 : Ages h' h'') :
    Hands h h'' o :=
  ⟨h1.1.trans h2, fun d hd => ⟨(h1.2 d hd).1, h2 d (h1.2 d hd).2⟩⟩

theorem hands_none (h1 : Ages h h') : Hands h h' none := ⟨h1, fun _ hd => by cases hd⟩

theorem deliver_hands {c : CellVal} {o : Option (Nat × Pkt)} (hf : deliver h link c = some (h', o)) :
    Hands h h' o := by
  simp only [deliver, Option.bind_eq_bind, Option.bind_eq_some_iff] at hf
  obtain ⟨pkt, -, h1, hs1, hf⟩ := hf
  obtain ⟨hages, hfresh, hspent⟩ := freeData_ages hs1
  split at hf
  · cases hf
    exact hands_none hages
  · cases hf
    refine ⟨hages, fun d hd => ?_⟩
    cases hd
    exact ⟨hfresh, hspent⟩

theorem readGroupCell_hands {o : Option (Nat × Pkt)} (hf : readGroupCell s = some (s', o)) :
    Hands s.heap s'.heap o := by
  simp only [readGroupCell] at hf
  split at hf
  · cases hf
    exact hands_none (Ages.refl _)
  · split at hf
    · cases hf
      exact hands_none (Ages.refl _)
    · simp only [Option.bind_eq_bind, Option.bind_eq_some_iff] at hf
      obtain ⟨c, -, h1, hs1, ⟨h2, o2⟩, hs2, h3, hs3, he⟩ := hf
      cases he
      exact ((deliver_hands hs2).of_ages (clearPrev_ages hs1)).ages (freeCell_ages hs3)

theorem readLoop_hands {gseq n : Nat} {o : Option (Nat × Pkt)}
    (hf : readLoop gseq n s = some (s', o)) : Hands s.heap s'.heap o := by
  induction n generalizing s with
  | zero => cases hf
  | succ n ih =>
      simp only [readLoop, Option.bind_eq_bind, Option.bind_eq_some_iff] at hf
      obtain ⟨⟨s1, o1⟩, hs1, hf⟩ := hf
      have h1 := readGroupCell_hands hs1
      split at hf
      · cases hf
        exact h1
      · exact (ih hf).of_ages h1.1

/-- One call hands out at most one cell, and none that was handed out before. -/
theorem swimaProc_hands {call : ProcCall} {o : Option (Nat × Pkt)}
    (hf : swimaProc s call = some (s', o)) : Hands s.heap s'.heap o := by
  simp only [swimaProc, Option.bind_eq_bind] at hf
  split at hf
  · cases hf
  · simp only [Option.bind_eq_some_iff] at hf
    obtain ⟨s1, hs1, s2, hs2, hs3⟩ := hf
    exact (readLoop_hands hs3).of_ages ((writeLinkCell_ages hs1).trans (aligning_ages hs2))

end OiAmc.SwimaBuffers

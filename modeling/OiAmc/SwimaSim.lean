import OiAmc.SwimaRefine
import OiAmc.SwimaAlign

namespace OiAmc.SwimaSim

open PartialLists Arena CellChain SwimaLinks SwimaQueue SwimaAlign SwimaHeap SwimaRep SwimaRefine

variable {h' : Heap} {s : Swima} {ima : QProcess} {ys zs : List (Nat × CellVal)}
  {xs : UInt8 → List (Nat × CellVal)} {link : HLink} {q : QLink} {target : Nat × Nat} {a : UInt8}

/-- Two cells that have neither the address nor the buffer in common. -/
def Apart (x y : Nat × CellVal) : Prop := x.1 ≠ y.1 ∧ x.2.data ≠ y.2.data

structure Rep (s : Swima) (ima : QProcess) (xs : UInt8 → List (Nat × CellVal)) : Prop where
  gnum : s.ima.gnum = ima.gnum
  gseq : s.ima.gseq = ima.gseq
  group : s.ima.group = ima.group
  link : ∀ a, LinkRep s.heap (s.ima.link a) (ima.link a) (xs a)
  apart : ∀ a b, a ≠ b → ∀ x ∈ xs a, ∀ y ∈ xs b, Apart x y

def Refines (s : Swima) (ima : QProcess) : Prop := ∃ xs, Rep s ima xs

def OnLink (xs : UInt8 → List (Nat × CellVal)) (a : UInt8) (ys : List (Nat × CellVal)) : Prop :=
  ∀ b, b ≠ a → ∀ x ∈ xs b, ∀ y ∈ ys, Apart y x

theorem Rep.onLink (hr : Rep s ima xs) (hsub : ys ⊆ xs a) : OnLink xs a ys :=
  fun b hb x hx y hy => hr.apart a b hb.symm y (hsub hy) x hx

/-- An operation on one link leaves the queues of the others as they are. -/
theorem Rep.setLink (hr : Rep s ima xs) (hl : LinkRep h' link q zs) (ht : Touches ys s.heap h')
    (hys : OnLink xs a ys) (hzs : OnLink xs a zs) : Refines ⟨h', s.ima.setLink a link⟩ (ima.setLink a q) := by
  refine ⟨Function.update xs a zs, hr.gnum, hr.gseq, hr.group, fun b => ?_, fun b c hbc x hx y hy => ?_⟩
  · simp only [setLink_link]
    by_cases hb : b = a
    · subst hb
      simp only [Function.update_self]
      exact hl
    · simp only [Function.update_of_ne hb]
      apply LinkRep.congr (hr.link b)
      · exact fun x hx => ht.cells x.1 fun y hy => (hys b hb x hx y hy).1
      · exact fun x hx => ht.bufs x.2.data fun y hy => (hys b hb x hx y hy).2
  · by_cases hb : b = a
    · subst hb
      rw [Function.update_self] at hx
      rw [Function.update_of_ne hbc.symm] at hy
      exact hzs c hbc.symm y hy x hx
    · rw [Function.update_of_ne hb] at hx
      by_cases hc : c = a
      · subst hc
        rw [Function.update_self] at hy
        obtain ⟨h1, h2⟩ := hzs b hb x hx y hy
        exact ⟨h1.symm, h2.symm⟩
      · rw [Function.update_of_ne hc] at hy
        exact hr.apart b c hbc x hx y hy

theorem Rep.setGroup (hr : Rep s ima xs) (i : Nat) (group : ImaGroup) :
    Rep { s with ima := s.ima.setGroup i group } (ima.setGroup i group) xs := by
  refine ⟨hr.gnum, hr.gseq, ?_, hr.link, hr.apart⟩
  rw [setGroup_group, setGroup_group, hr.group]

theorem Refines.setGroup (hr : Refines s ima) (i : Nat) (group : ImaGroup) :
    Refines { s with ima := s.ima.setGroup i group } (ima.setGroup i group) :=
  hr.imp fun _ hr => hr.setGroup i group

theorem Refines.turn (hr : Refines s ima) : Refines { s with ima := s.ima.turn } ima.turn := by
  obtain ⟨xs, hr⟩ := hr
  refine ⟨xs, hr.gnum, ?_, hr.group, hr.link, hr.apart⟩
  simp only [ImaProcess.turn, hr.gnum, hr.gseq]

theorem Refines.gnum (hr : Refines s ima) : s.ima.gnum = ima.gnum := hr.elim fun _ hr => hr.gnum

theorem Refines.gseq (hr : Refines s ima) : s.ima.gseq = ima.gseq := hr.elim fun _ hr => hr.gseq

theorem Refines.group (hr : Refines s ima) : s.ima.group = ima.group := hr.elim fun _ hr => hr.group

theorem Refines.args (hr : Refines s ima) (a : UInt8) :
    (s.ima.link a).toLinkArgs = (ima.link a).toLinkArgs := hr.elim fun _ hr => (hr.link a).args

theorem alignLink_sim (hr : Refines s ima) (target : Nat × Nat) (a : UInt8) :
    ∃ s', SwimaHeap.alignLink target s a = some s' ∧
      Refines s' (ima.setLink a (SwimaQueue.alignLink target (ima.link a))) := by
  obtain ⟨xs, hr⟩ := hr
  have hl := hr.link a
  obtain ⟨h', link', ys, hs, hl', ht, hsub⟩ := @discardLoop_sim _ _ target _ _ _ hl hl.length_le
  refine ⟨⟨h', s.ima.setLink a link'⟩, ?_, ?_⟩
  · rw [SwimaHeap.alignLink, hs]
    rfl
  · exact hr.setLink hl' ht (hr.onLink (List.Subset.refl _)) (hr.onLink hsub)

theorem raiseTo_sim (hr : Refines s ima) (target : Nat × Nat) (a : UInt8) :
    SwimaHeap.raiseTo s target a = some (SwimaQueue.raiseTo ima target a) := by
  obtain ⟨xs, hr⟩ := hr
  have hl := hr.link a
  rw [SwimaHeap.raiseTo, SwimaQueue.raiseTo, QLink.head?, hl.head]
  have hh := hl.queue.holds
  have hc := hl.queue.chain
  revert hh hc
  cases xs a with
  | nil =>
      intro hh hc
      rw [List.forall₂_nil_left_iff.mp hh]
      rfl
  | cons x ys =>
      obtain ⟨p, v⟩ := x
      intro hh hc
      obtain ⟨c, cs, hx, -, hq⟩ := List.forall₂_cons_left_iff.mp hh
      obtain ⟨-, hi, ho, -⟩ := hx
      change v.ifsn = c.ifsn at hi
      change v.offset = c.offset at ho
      simp only [first_cons, hc.1, hq, Option.map_some, List.head?_cons, QCell.pos, hi, ho]

theorem linksAligning_sim (hr : Refines s ima) (i : Nat) (target : Nat × Nat) :
    ∃ s', SwimaHeap.linksAligning s i target =
        some (s', (SwimaQueue.linksAligning ima i target).2) ∧
      Refines s' (SwimaQueue.linksAligning ima i target).1 := by
  have hstatus : (fun a => (s.ima.link a).status) = fun a => (ima.link a).status := by
    funext a
    exact congrArg LinkArgs.status (hr.args a)
  rw [SwimaHeap.linksAligning, SwimaQueue.linksAligning, hr.group, hstatus]
  generalize hst : linkStates (ima.group i) (fun a => (ima.link a).status) = st
  obtain ⟨ready, status⟩ := st
  have hmark := hr.setGroup i { ima.group i with status := status }
  simp only
  split
  · exact ⟨_, rfl, hmark⟩
  · split
    · exact ⟨_, rfl, hmark⟩
    · obtain ⟨t, ht, rfl⟩ := foldlM_sim (R := Eq) (ima.group i).members
        (fun t u a _ htu => ⟨_, raiseTo_sim hmark t a, by rw [htu]⟩) (Eq.refl target)
      refine ⟨_, ?_, hmark⟩
      rw [ht]
      rfl

theorem groupAligning_sim (hr : Refines s ima) (i : Nat) (target : Nat × Nat) :
    ∃ s', SwimaHeap.groupAligning s i target = some s' ∧
      Refines s' (SwimaQueue.groupAligning ima i target) := by
  rw [SwimaHeap.groupAligning, SwimaQueue.groupAligning, hr.group]
  obtain ⟨s', hs, hr'⟩ := foldlM_sim (R := Refines) (ima.group i).members
    (fun _ _ a _ hr => alignLink_sim hr target a) hr
  have hstatus (a : UInt8) : (s'.ima.link a).status = _ := congrArg LinkArgs.status (hr'.args a)
  simp only [hs, Option.bind_eq_bind, Option.bind_some, hstatus]
  split
  · exact ⟨s', rfl, hr'⟩
  · exact ⟨_, rfl, hr'.setGroup i _⟩

theorem alignGroup_sim (hr : Refines s ima) (target : Nat × Nat) (i : Nat) :
    ∃ s', SwimaHeap.alignGroup (s, target) i =
        some (s', (SwimaQueue.alignGroup (ima, target) i).2) ∧
      Refines s' (SwimaQueue.alignGroup (ima, target) i).1 := by
  obtain ⟨s1, hs1, hr1⟩ := linksAligning_sim hr i target
  rw [SwimaHeap.alignGroup, SwimaQueue.alignGroup, hs1]
  simp only [Option.bind_eq_bind, Option.bind_some]
  split
  · exact ⟨s1, rfl, hr1⟩
  · obtain ⟨s2, hs2, hr2⟩ := groupAligning_sim hr1 i (SwimaQueue.linksAligning ima i target).2.1
    refine ⟨s2, ?_, hr2⟩
    rw [hs2]
    rfl

theorem aligning_sim (hr : Refines s ima) :
    ∃ s', SwimaHeap.aligning s = some s' ∧ Refines s' (SwimaQueue.aligning ima) := by
  obtain ⟨r, hs, hr', -⟩ := foldlM_sim (f := SwimaHeap.alignGroup)
    (g := SwimaQueue.alignGroup)
    (R := fun (r : Swima × Nat × Nat) (t : QProcess × Nat × Nat) => Refines r.1 t.1 ∧ r.2 = t.2)
    (List.range ima.gnum)
    (fun r t i _ hr => by
      obtain ⟨s', hs, hr'⟩ := alignGroup_sim hr.1 t.2 i
      refine ⟨(s', (SwimaQueue.alignGroup t i).2), ?_, hr', rfl⟩
      rw [← hs, ← hr.2]) (s := (s, 0, 0)) (t := (ima, 0, 0)) ⟨hr, rfl⟩
  refine ⟨r.1, ?_, hr'⟩
  rw [SwimaHeap.aligning, hr.gnum, hs]
  rfl

theorem deliver_sim {h : Heap} {v : CellVal} {c : QCell} {p : Nat} (hc : Holds h.bufs.get (p, v) c)
    (hch : link.channel = q.channel) : ∃ h1 o, h.freeData v.data = some h1 ∧
      SwimaHeap.deliver h link v = some (h1, o) ∧ o.map Prod.snd = SwimaQueue.deliver q c := by
  obtain ⟨ht, -, -, hb⟩ := hc
  change v.type = c.type at ht
  change h.bufs.get v.data = some c.pkt at hb
  obtain ⟨h1, hs, -⟩ := freeData_some (show h.bufs.get v.data ≠ none by simp [hb])
  rw [SwimaHeap.deliver, SwimaQueue.deliver]
  simp only [hb, hs, ht, hch, Option.bind_eq_bind, Option.bind_some]
  split
  · exact ⟨h1, none, rfl, rfl, rfl⟩
  · exact ⟨h1, some (v.data, { c.pkt with channel := q.channel }), rfl, rfl, rfl⟩

theorem readGroupCell_sim (hr : Refines s ima) :
    ∃ s' o, SwimaHeap.readGroupCell s = some (s', o) ∧
      Refines s' (SwimaQueue.readGroupCell ima).1 ∧
      o.map Prod.snd = (SwimaQueue.readGroupCell ima).2 := by
  rw [SwimaHeap.readGroupCell, SwimaQueue.readGroupCell, hr.group, hr.gseq]
  simp only
  split
  · exact ⟨s, none, rfl, hr, rfl⟩
  · have hrg := hr
    obtain ⟨xs, hr⟩ := hr
    generalize (ima.group ima.gseq).links (ima.group ima.gseq).lseq.toNat = a
    have hl := hr.link a
    cases hxs : xs a with
    | nil =>
        rw [hxs] at hl
        rw [hl.head, hl.queue_nil.mp rfl]
        exact ⟨s, none, rfl, hrg, rfl⟩
    | cons x ys =>
        obtain ⟨p, v⟩ := x
        have hlive := hr.link a
        rw [hxs] at hl
        have hh := hl.queue.holds
        obtain ⟨c, cs, hx, -, hq⟩ := List.forall₂_cons_left_iff.mp hh
        obtain ⟨h1, h2, h3, hs1, hs2, hs3, ht, hq', -, hb1⟩ := pop_spec hl.queue
        rw [hq, List.tail_cons] at hq'
        rw [← hb1] at hx
        generalize hlink : ({ s.ima.link a with
          head := first ys
          endCell := if first ys = none then none else (s.ima.link a).endCell } : HLink) = link1
        have hargs : link1.toLinkArgs = (ima.link a).toLinkArgs := by rw [← hlink, ← hl.args]
        obtain ⟨h2', o, hs2', hd, ho⟩ := deliver_sim hx (congrArg LinkArgs.channel hargs)
        cases hs2.symm.trans hs2'
        refine ⟨⟨h3, (s.ima.setGroup ima.gseq (ima.group ima.gseq).turn).setLink a link1⟩, o, ?_,
          ?_, ?_⟩
        · simp only [hl.head, first_cons, hl.queue.chain.1, Option.bind_eq_bind, Option.bind_some,
            hs1, hlink, hd, hs3]
          rfl
        · rw [hq]
          have hlr : LinkRep h3 link1 { ima.link a with queue := cs, stale := false } ys := by
            refine ⟨hargs, hq', by rw [← hlink], fun hne => ?_, fun he => by rw [← hlink, he]; rfl⟩
            obtain ⟨y, ys, rfl⟩ := List.exists_cons_of_ne_nil hne
            rw [← hlink]
            simp [hl.last (by simp), last, List.getLast?_cons, first]
          have hsub : (p, v) :: ys ⊆ xs a := by rw [hxs]; exact List.Subset.refl _
          apply (hr.setGroup ima.gseq (ima.group ima.gseq).turn).setLink hlr ht (hr.onLink hsub)
          exact hr.onLink (List.subset_of_cons_subset hsub)
        · rw [hq]
          exact ho

theorem readLoop_sim {gseq n : Nat} {ima' : QProcess} {data : Option Pkt} (hr : Refines s ima)
    (h : SwimaQueue.readLoop gseq n ima = some (ima', data)) :
    ∃ s' o, SwimaHeap.readLoop gseq n s = some (s', o) ∧ Refines s' ima' ∧
      o.map Prod.snd = data := by
  induction n generalizing s ima with
  | zero => cases h
  | succ n ih =>
      obtain ⟨s1, o, hs, hr1, ho⟩ := readGroupCell_sim hr
      have hr2 := hr1.turn
      have hstop : (s1.ima.turn.gseq = gseq ∨ o.isSome = true) ↔
          ((SwimaQueue.readGroupCell ima).1.turn.gseq = gseq ∨
            (SwimaQueue.readGroupCell ima).2 ≠ none) := by
        rw [← hr2.gseq, ← ho, ← Option.isSome_iff_ne_none, Option.isSome_map]
      rw [SwimaQueue.readLoop] at h
      rw [SwimaHeap.readLoop, hs]
      simp only [Option.bind_eq_bind, Option.bind_some, hstop]
      simp only at h
      split at h
      · next hend =>
          cases h
          rw [if_pos hend]
          exact ⟨_, o, rfl, hr2, ho⟩
      · next hgo =>
          rw [if_neg hgo]
          exact ih hr2 h

theorem readLoop_defined {gseq n : Nat} (hg : gseq < max 1 ima.gnum)
    (hc : ima.gseq < max 1 ima.gnum)
    (hn : (if ima.gseq < gseq then gseq - ima.gseq else max 1 ima.gnum - ima.gseq + gseq) ≤ n) :
    ∃ ima' data, SwimaQueue.readLoop gseq n ima = some (ima', data) ∧
      ima'.gnum = ima.gnum ∧ ima'.gseq < max 1 ima.gnum := by
  induction n generalizing ima with
  | zero => split at hn <;> omega
  | succ n ih =>
      have hgnum : (SwimaQueue.readGroupCell ima).1.gnum = ima.gnum := by
        rw [SwimaQueue.readGroupCell]
        simp only
        split
        · rfl
        · split <;> rfl
      have hgseq : (SwimaQueue.readGroupCell ima).1.gseq = ima.gseq := by
        rw [SwimaQueue.readGroupCell]
        simp only
        split
        · rfl
        · split <;> rfl
      have hturn : (SwimaQueue.readGroupCell ima).1.turn.gseq =
          if ima.gnum ≤ ima.gseq + 1 then 0 else ima.gseq + 1 := by
        rw [ImaProcess.turn, hgnum, hgseq]
      have hnum : (SwimaQueue.readGroupCell ima).1.turn.gnum = ima.gnum := hgnum
      rw [SwimaQueue.readLoop]
      simp only
      generalize (SwimaQueue.readGroupCell ima).1.turn = ima1 at hturn hnum
      have hnext : ima1.gseq < max 1 ima.gnum := by
        rw [hturn]
        split <;> omega
      split
      · exact ⟨_, _, rfl, hnum, hnext⟩
      · next hgo =>
          have hne : ima1.gseq ≠ gseq := fun he => hgo (Or.inl he)
          rw [← hnum]
          rw [← hnum] at hg hnext
          apply ih hg hnext
          rw [hnum]
          split at hturn <;> split at hn <;> split <;> omega

def NoneStale (ima : QProcess) : Prop := ∀ a, (ima.link a).stale = false

theorem accepted_some {call : ProcCall} {pkt : Pkt} (h : accepted call = some pkt) :
    call.pdata = some pkt := (Option.filter_eq_some_iff.mp h).1

theorem Rep.congr (hr : Rep s ima xs)
    (hc : ∀ a, ∀ x ∈ xs a, h'.cells.get x.1 = s.heap.cells.get x.1)
    (hb : ∀ a, ∀ x ∈ xs a, h'.bufs.get x.2.data = s.heap.bufs.get x.2.data) :
    Rep { s with heap := h' } ima xs :=
  ⟨hr.gnum, hr.gseq, hr.group, fun a => LinkRep.congr (hr.link a) (hc a) (hb a), hr.apart⟩

theorem Rep.lt_next (hr : Rep s ima xs) {a : UInt8} {x : Nat × CellVal} (hx : x ∈ xs a) :
    x.1 < s.heap.cells.next ∧ x.2.data < s.heap.bufs.next :=
  ((hr.link a).queue.live x hx).imp Arena.lt_next Arena.lt_next

/-- A packet that is not accepted leaves no trace but its freed buffer. -/
theorem refused_sim {xs : UInt8 → List (Nat × CellVal)} (hr : Rep s ima xs) (pkt : Pkt) :
    ∃ h', Heap.freeData { s.heap with bufs := s.heap.bufs.alloc pkt } s.heap.bufs.next = some h' ∧
      Rep { s with heap := h' } ima xs := by
  obtain ⟨h', hs, hc, hb, -⟩ := @freeData_some
    { s.heap with bufs := s.heap.bufs.alloc pkt } s.heap.bufs.next (by simp)
  refine ⟨h', hs, hr.congr (fun a x _ => ?_) fun a x hx => ?_⟩
  · rw [hc]
  · have hne := (hr.lt_next hx).2.ne
    rw [hb, Function.update_of_ne hne, alloc_get, Function.update_of_ne hne]

theorem NoneStale.setLink {a : UInt8} {q : QLink} (h : NoneStale ima) (hq : q.stale = false) :
    NoneStale (ima.setLink a q) := by
  intro b
  rw [setLink_link]
  by_cases hb : b = a
  · rw [hb, Function.update_self]
    exact hq
  · rw [Function.update_of_ne hb]
    exact h b

theorem writeLinkCell_sim (hr : Refines s ima) (hst : NoneStale ima) (call : ProcCall) :
    ∃ s' ima', SwimaHeap.writeLinkCell s call = some s' ∧
      SwimaQueue.writeLinkCell ima call = some ima' ∧ Refines s' ima' ∧ NoneStale ima' := by
  obtain ⟨xs, hr⟩ := hr
  rw [SwimaHeap.writeLinkCell, SwimaQueue.writeLinkCell]
  cases hpd : call.pdata with
  | none =>
      have hacc : accepted call = none := by rw [accepted, hpd]; rfl
      rw [hacc]
      exact ⟨s, ima, rfl, rfl, ⟨xs, hr⟩, hst⟩
  | some pkt =>
      cases hacc : accepted call with
      | none =>
          obtain ⟨h1, hs1, hr1⟩ := refused_sim hr pkt
          refine ⟨{ s with heap := h1 }, ima, ?_, rfl, ⟨xs, hr1⟩, hst⟩
          simp only [hs1, Option.map_some]
      | some pkt' =>
          obtain rfl : pkt' = pkt := Option.some.inj ((accepted_some hacc).symm.trans hpd)
          -- the heap with the packet buffer and the cell
          let h0 : Heap := ⟨s.heap.cells.alloc ⟨⟨cellType pkt'.data, 0, 0, s.heap.bufs.next⟩, none, none⟩,
            s.heap.bufs.alloc pkt'⟩
          have hr0 : Rep { s with heap := h0 } ima xs := by
            apply hr.congr
            · intro a x hx
              exact Function.update_of_ne (hr.lt_next hx).1.ne _ _
            · intro a x hx
              exact Function.update_of_ne (hr.lt_next hx).2.ne _ _
          obtain ⟨q', h', link', xs', hq, hst', hs', hl', ht, hx'⟩ := @writeCell_spec _
            s.heap.cells.next s.heap.bufs.next _ _ _ _ (hr0.link pkt'.channel.toUInt8) (hst _) (Function.update_self _ _ _)
            (Function.update_self _ _ _) (fun x hx => (hr.lt_next hx).1.ne)
            (fun x hx => (hr.lt_next hx).2.ne)
          have hnew : ∀ b, ∀ x ∈ xs b, s.heap.cells.next ≠ x.1 ∧ s.heap.bufs.next ≠ x.2.data :=
            fun b x hx => ⟨(hr.lt_next hx).1.ne', (hr.lt_next hx).2.ne'⟩
          refine ⟨⟨h', s.ima.setLink pkt'.channel.toUInt8 link'⟩, ima.setLink pkt'.channel.toUInt8 q',
            ?_, ?_, hr0.setLink hl' ht ?_ ?_, hst.setLink hst'⟩
          · exact congrArg (Option.map _) hs'
          · exact congrArg (Option.map _) hq
          · intro b hb x hx y hy
            rcases List.mem_append.mp hy with hy | hy
            · exact hr.apart _ b hb.symm y hy x hx
            · rw [List.mem_singleton.mp hy]
              exact hnew b x hx
          · intro b hb x hx y hy
            rcases hx' y hy with ⟨z, hz, hz1, hz2⟩ | ⟨hy1, hy2⟩
            · have hzx := hr.apart _ b hb.symm z hz x hx
              exact ⟨hz1 ▸ hzx.1, hz2 ▸ hzx.2⟩
            · rw [Apart, hy1, hy2]
              exact hnew b x hx

theorem writeLinkCell_gnum {call : ProcCall} {ima' : QProcess}
    (h : SwimaQueue.writeLinkCell ima call = some ima') : ima'.gnum = ima.gnum ∧ ima'.gseq = ima.gseq := by
  rw [SwimaQueue.writeLinkCell] at h
  split at h
  · cases h
    exact ⟨rfl, rfl⟩
  · obtain ⟨q', -, rfl⟩ := Option.map_eq_some_iff.mp h
    exact ⟨rfl, rfl⟩

def InRange (ima : QProcess) : Prop := ima.gnum ≤ maxGrpNum ∧ ima.gseq < max 1 ima.gnum

/-- One call of swima_proc on a handle without a stale end pointer. -/
theorem swimaProc_sim (hr : Refines s ima) (hst : NoneStale ima) (hrange : InRange ima)
    (call : ProcCall) : ∃ s' o w ima', SwimaHeap.swimaProc s call = some (s', o) ∧
      SwimaQueue.writeLinkCell ima call = some w ∧ NoneStale w ∧
      SwimaQueue.readLoop (SwimaQueue.aligning w).gseq ((SwimaQueue.aligning w).gnum + 1)
        (SwimaQueue.aligning w) = some (ima', o.map Prod.snd) ∧
      Refines s' ima' ∧ InRange ima' := by
  obtain ⟨hg, hq⟩ := hrange
  obtain ⟨s1, w, hs1, hw, hr1, hst1⟩ := writeLinkCell_sim hr hst call
  obtain ⟨hwg, hwq⟩ := writeLinkCell_gnum hw
  obtain ⟨s2, hs2, hr2⟩ := aligning_sim hr1
  obtain ⟨hag, haq⟩ := alignBefore_turn w w.gnum
  change (SwimaQueue.aligning w).gnum = w.gnum at hag
  change (SwimaQueue.aligning w).gseq = w.gseq at haq
  have hlt : (SwimaQueue.aligning w).gseq < max 1 (SwimaQueue.aligning w).gnum := by
    rw [hag, haq, hwg, hwq]
    exact hq
  obtain ⟨ima', data, hl, hlg, hlq⟩ := @readLoop_defined _ _
    ((SwimaQueue.aligning w).gnum + 1) hlt hlt (by split <;> omega)
  obtain ⟨s3, o, hs3, hr3, rfl⟩ := readLoop_sim hr2 hl
  refine ⟨s3, o, w, ima', ?_, hw, hst1, hl, hr3, ?_⟩
  · have hgs : ¬ maxGrpNum < s.ima.gnum := by rw [hr.gnum]; exact Nat.not_lt.mpr hg
    rw [SwimaHeap.swimaProc, if_neg hgs]
    simp only [hs1, hs2, Option.bind_eq_bind, Option.bind_some, hr2.gseq, hr2.gnum]
    exact hs3
  · rw [InRange, hlg, hag, hwg]
    rw [hag, hwg] at hlq
    exact ⟨hg, hlq⟩

end OiAmc.SwimaSim
import OiAmc.SwimaRep

namespace OiAmc.SwimaRefine

open PartialLists Arena CellChain SwimaLinks SwimaQueue SwimaHeap SwimaRep

variable {h h' : Heap} {s : Swima} {ima : QProcess} {p d : Nat} {xs : List (Nat × CellVal)}
  {link : HLink} {q : QLink}

theorem LinkRep.congr (hr : LinkRep h link q xs)
    (hc : ∀ x ∈ xs, h'.cells.get x.1 = h.cells.get x.1)
    (hb : ∀ x ∈ xs, h'.bufs.get x.2.data = h.bufs.get x.2.data) : LinkRep h' link q xs :=
  ⟨hr.args, hr.queue.congr hc hb, hr.head, hr.last, hr.stale⟩

theorem nodup_snoc {f : Nat × CellVal → Nat} {y : Nat × CellVal} (h : (xs.map f).Nodup)
    (hy : ∀ x ∈ xs, f x ≠ f y) : ((xs ++ [y]).map f).Nodup := by
  rw [List.map_append, List.nodup_append]
  refine ⟨h, by simp, fun a ha b hb => ?_⟩
  obtain ⟨x, hx, rfl⟩ := List.mem_map.mp ha
  rw [List.mem_singleton.mp hb]
  exact hy x hx

theorem snoc_spec {v : CellVal} {c : QCell} {cs : List QCell} (hr : QueueRep h xs cs) (hne : xs ≠ [])
    (hget : h.cells.get p = some ⟨v, none, none⟩) (hp : ∀ x ∈ xs, x.1 ≠ p)
    (hd : ∀ x ∈ xs, x.2.data ≠ v.data) (hv : Holds h.bufs.get (p, v) c) :
    ∃ e h1 h2, last xs = some e ∧ (h.setCell p fun c => { c with prev := some e }) = some h1 ∧
      (h1.setCell e fun c => { c with next := some p }) = some h2 ∧
      QueueRep h2 (xs ++ [(p, v)]) (cs ++ [c]) ∧ Touches (xs ++ [(p, v)]) h h2 := by
  obtain ⟨e, hl⟩ : ∃ e, last xs = some e := by
    cases hl : last xs with
    | none => exact absurd (by simpa [last] using hl) hne
    | some e => exact ⟨e, rfl⟩
  obtain ⟨z, hz, hze⟩ := Option.map_eq_some_iff.mp hl
  have hzm := List.mem_of_getLast? hz
  have hep : e ≠ p := hze ▸ hp z hzm
  obtain ⟨ec, hec⟩ := Option.ne_none_iff_exists'.mp (hr.live z hzm).1
  rw [hze] at hec
  obtain ⟨h1, hs1, hb1, hg1, hn1⟩ := setCell_some hget fun c => { c with prev := some e }
  have hec1 : h1.cells.get e = some ec := by rw [hg1, Function.update_of_ne hep, hec]
  obtain ⟨h2, hs2, hb2, hg2, hn2⟩ := setCell_some hec1 fun c => { c with next := some p }
  have hother (a : Nat) (hap : a ≠ p) (hae : a ≠ e) : h2.cells.get a = h.cells.get a := by
    rw [hg2, Function.update_of_ne hae, hg1, Function.update_of_ne hap]
  refine ⟨e, h1, h2, hl, hs1, hs2, ⟨?_, nodup_snoc hr.nodup hp, nodup_snoc hr.datas hd, ?_⟩, ?_⟩
  · apply chain_append hr.chain hr.nodup
    · intro x hx hxl
      rw [hl] at hxl
      exact hother x.1 (hp x hx) fun he => hxl (congrArg some he)
    · intro a c ha hc
      rw [hl] at ha
      cases ha
      rw [hec] at hc
      cases hc
      rw [hg2, Function.update_self]
    · rw [hg2, Function.update_of_ne hep.symm, hg1, Function.update_self, hl]
      rfl
  · rw [hb2, hb1]
    exact List.rel_append hr.holds (.cons hv .nil)
  · refine ⟨fun a ha => ?_, fun a _ => by rw [hb2, hb1], by rw [hn2, hn1], by rw [hb2, hb1]⟩
    refine hother a (fun he => ha (p, v) (by simp) he.symm) fun he => ?_
    exact ha z (by simp [hzm]) (hze.trans he.symm)

theorem addLinkCell_spec {v : CellVal} {pkt : Pkt} (hr : LinkRep h link q xs)
    (hget : h.cells.get p = some ⟨v, none, none⟩) (hp : ∀ x ∈ xs, x.1 ≠ p)
    (hd : ∀ x ∈ xs, x.2.data ≠ v.data) (hv : Holds h.bufs.get (p, v) ⟨v.type, q.ifsn, q.offset, pkt⟩) :
    ∃ h' link', SwimaHeap.addLinkCell h link p = some (h', link') ∧
      LinkRep h' link' (SwimaQueue.addLinkCell q v.type pkt) (xs ++ [(p, v)]) ∧
      Touches (xs ++ [(p, v)]) h h' ∧ link'.toLinkArgs = link.toLinkArgs := by
  by_cases hne : xs = []
  · subst hne
    refine ⟨h, { link with head := some p, endCell := some p }, ?_, ?_, Touches.refl _ _, rfl⟩
    · rw [SwimaHeap.addLinkCell, hr.head]
      rfl
    · refine ⟨hr.args, ⟨⟨hget, trivial⟩, by simp, by simp, ?_⟩, rfl, fun _ => rfl, fun hc => ?_⟩
      · exact List.rel_append hr.queue.holds (.cons hv .nil)
      · cases hc
  · obtain ⟨e, h1, h2, hl, hs1, hs2, hrep, ht⟩ := snoc_spec hr.queue hne hget hp hd hv
    obtain ⟨y, hy⟩ : ∃ y, first xs = some y := by
      cases xs with
      | nil => exact absurd rfl hne
      | cons x xs => exact ⟨x.1, rfl⟩
    have hhead : link.head = some y := hr.head.trans hy
    refine ⟨h2, { link with endCell := some p }, ?_, ?_, ht, rfl⟩
    · rw [SwimaHeap.addLinkCell, hhead]
      simp only [hr.last hne, hl, Option.bind_eq_bind, Option.bind_some, hs1, hs2]
      rw [← hhead]
      rfl
    · refine ⟨hr.args, hrep, ?_, fun _ => by rw [last_snoc], fun hc => ?_⟩
      · rw [first_append hne]
        exact hr.head
      · simp at hc

/-- The part of write_link_cell behind check_ima_link. -/
theorem stampCell_spec {pkt : Pkt} {type : CellType} {h1 : Heap} {xs1 : List (Nat × CellVal)}
    (hget : h.cells.get p = some ⟨⟨type, 0, 0, d⟩, none, none⟩) (hbuf : h.bufs.get d = some pkt)
    (hp : ∀ x ∈ xs, x.1 ≠ p) (hd : ∀ x ∈ xs, x.2.data ≠ d) (hr : LinkRep h1 link q xs1)
    (ht : Touches xs h h1) (hsub : xs1 ⊆ xs) :
    ∃ h' link' xs', ((h1.setCell p fun c => { c with val := { c.val with
          ifsn := link.ifsn, offset := link.offset } }).bind fun h =>
        (SwimaHeap.addLinkCell h link p).bind fun r =>
          some (r.1, { r.2 with toLinkArgs := setLinkArg r.2.toLinkArgs })) = some (h', link') ∧
      LinkRep h' link' (advance (SwimaQueue.addLinkCell q type pkt)) xs' ∧
      Touches (xs ++ [(p, ⟨type, 0, 0, d⟩)]) h h' ∧
      ∀ x ∈ xs', (∃ y ∈ xs, y.1 = x.1 ∧ y.2.data = x.2.data) ∨ x.1 = p ∧ x.2.data = d := by
  have hget1 := (ht.cells p hp).trans hget
  have hbuf1 := (ht.bufs d hd).trans hbuf
  obtain ⟨h2, hs2, hb2, hg2, hn2⟩ := setCell_some hget1 fun c => { c with val := { c.val with
    ifsn := link.ifsn, offset := link.offset } }
  have hr2 : LinkRep h2 link q xs1 := LinkRep.congr hr
    (fun x hx => by rw [hg2, Function.update_of_ne (hp x (hsub hx))]) (fun x _ => by rw [hb2])
  have hget2 : h2.cells.get p = some ⟨⟨type, link.ifsn, link.offset, d⟩, none, none⟩ := by
    rw [hg2, Function.update_self]
  have hi : link.ifsn = q.ifsn := congrArg LinkArgs.ifsn hr.args
  have ho : link.offset = q.offset := congrArg LinkArgs.offset hr.args
  obtain ⟨h3, link3, hs3, hr3, ht3, ha3⟩ := @addLinkCell_spec _ _ _ _ _ _ pkt hr2 hget2
    (fun x hx => hp x (hsub hx)) (fun x hx => hd x (hsub hx)) ⟨rfl, hi, ho, by rw [hb2]; exact hbuf1⟩
  have hset : Touches (xs ++ [(p, ⟨type, 0, 0, d⟩)]) h1 h2 := by
    refine ⟨fun a ha => ?_, fun a _ => by rw [hb2], hn2, by rw [hb2]⟩
    rw [hg2, Function.update_of_ne]
    exact fun he => ha (p, ⟨type, 0, 0, d⟩) (by simp) he.symm
  have hold (x : Nat × CellVal) (hx : x ∈ xs1 ++ [(p, ⟨type, link.ifsn, link.offset, d⟩)]) :
      (∃ y ∈ xs, y.1 = x.1 ∧ y.2.data = x.2.data) ∨ x.1 = p ∧ x.2.data = d := by
    rcases List.mem_append.mp hx with hx | hx
    · exact Or.inl ⟨x, hsub hx, rfl, rfl⟩
    · rw [List.mem_singleton.mp hx]
      exact Or.inr ⟨rfl, rfl⟩
  refine ⟨h3, { link3 with toLinkArgs := setLinkArg link3.toLinkArgs }, _, ?_,
    ⟨?_, hr3.queue, hr3.head, hr3.last, hr3.stale⟩, ?_, hold⟩
  · rw [hs2, Option.bind_some, hs3, Option.bind_some]
  · simp only [advance, hr3.args]
  · have ht1 : Touches (xs ++ [(p, ⟨type, 0, 0, d⟩)]) h h1 :=
      ht.mono fun y hy => ⟨y, List.mem_append_left _ hy, rfl, rfl⟩
    apply (ht1.trans hset (List.Subset.refl _)).trans _ (List.Subset.refl _)
    apply ht3.mono
    intro x hx
    rcases hold x hx with ⟨y, hy, he⟩ | he
    · exact ⟨y, List.mem_append_left _ hy, he⟩
    · exact ⟨_, List.mem_append_right _ (List.mem_singleton_self _), he.1.symm, he.2.symm⟩

theorem dropCell_spec {v : CellVal} (hget : h.cells.get p = some ⟨v, none, none⟩)
    (hbuf : h.bufs.get v.data ≠ none) :
    ∃ h1 h2, h.freeData v.data = some h1 ∧ h1.freeCell p = some h2 ∧
      (∀ a, a ≠ p → h2.cells.get a = h.cells.get a) ∧
      (∀ a, a ≠ v.data → h2.bufs.get a = h.bufs.get a) ∧ Touches [(p, v)] h h2 := by
  obtain ⟨h1, hs1, hc1, hb1, hbn1⟩ := freeData_some hbuf
  obtain ⟨h2, hs2, hb2, hc2, hcn2⟩ := freeCell_some (show h1.cells.get p ≠ none by
    rw [hc1]; simp [hget])
  have hcells (a : Nat) (ha : a ≠ p) : h2.cells.get a = h.cells.get a := by
    rw [hc2, Function.update_of_ne ha, hc1]
  have hbufs (a : Nat) (ha : a ≠ v.data) : h2.bufs.get a = h.bufs.get a := by
    rw [hb2, hb1, Function.update_of_ne ha]
  refine ⟨h1, h2, hs1, hs2, hcells, hbufs, fun a ha => ?_, fun a ha => ?_, ?_, ?_⟩
  · exact hcells a (ha (p, v) (List.mem_singleton_self _)).symm
  · exact hbufs a (ha (p, v) (List.mem_singleton_self _)).symm
  · rw [hcn2, hc1]
  · rw [hb2, hbn1]

theorem writeCell_spec {pkt : Pkt} (hr : LinkRep h link q xs) (hst : q.stale = false)
    (hget : h.cells.get p = some ⟨⟨cellType pkt.data, 0, 0, d⟩, none, none⟩)
    (hbuf : h.bufs.get d = some pkt) (hp : ∀ x ∈ xs, x.1 ≠ p) (hd : ∀ x ∈ xs, x.2.data ≠ d) :
    ∃ q' h' link' xs', SwimaQueue.writeCell q pkt = some q' ∧ q'.stale = false ∧
      SwimaHeap.writeCell h link p d pkt = some (h', link') ∧ LinkRep h' link' q' xs' ∧
      Touches (xs ++ [(p, ⟨cellType pkt.data, 0, 0, d⟩)]) h h' ∧
      ∀ x ∈ xs', (∃ y ∈ xs, y.1 = x.1 ∧ y.2.data = x.2.data) ∨ x.1 = p ∧ x.2.data = d := by
  by_cases hicp : cellType pkt.data = .icp
  · have hr1 : LinkRep h { link with icp := link.icp + 1 } { q with icp := q.icp + 1 } xs :=
      ⟨by simp only [hr.args], hr.queue, hr.head, hr.last, hr.stale⟩
    have hcount : link.icp = q.icp := congrArg LinkArgs.icp hr.args
    by_cases hone : 1 < q.icp + 1
    · obtain ⟨h1, h2, hs1, hs2, hcells, hbufs, ht⟩ := dropCell_spec hget (by simp [hbuf])
      refine ⟨{ q with icp := q.icp + 1 }, h2, { link with icp := link.icp + 1 }, xs, ?_, hst, ?_,
        LinkRep.congr hr1 (fun x hx => hcells _ (hp x hx)) (fun x hx => hbufs _ (hd x hx)),
        ht.mono fun y hy => ⟨y, List.mem_append_right _ hy, rfl, rfl⟩,
        fun x hx => Or.inl ⟨x, hx, rfl, rfl⟩⟩
      · rw [SwimaQueue.writeCell, if_pos hicp]
        exact if_pos hone
      · simp [SwimaHeap.writeCell, hicp, hcount, hone, hs1, hs2]
    · obtain ⟨q1, hq1, hst1, h1, link1, xs1, hs1, hrep1, ht1, hsub1⟩ :=
        checkImaLink_sim hr1 hst pkt.data
      obtain ⟨h', link', xs', hs', hr', ht', hx'⟩ := stampCell_spec hget hbuf hp hd hrep1 ht1 hsub1
      refine ⟨_, h', link', xs', ?_, rfl, ?_, hr', ht', hx'⟩
      · rw [SwimaQueue.writeCell, if_pos hicp]
        simp only [if_neg hone, hq1]
        rfl
      · rw [← hs']
        rw [hcount] at hs1
        simp [SwimaHeap.writeCell, hicp, hcount, hone, hs1]
  · obtain ⟨h', link', xs', hs', hr', ht', hx'⟩ :=
      stampCell_spec hget hbuf hp hd hr (Touches.refl _ _) (List.Subset.refl _)
    refine ⟨_, h', link', xs', ?_, rfl, ?_, hr', ht', hx'⟩
    · rw [SwimaQueue.writeCell, if_neg hicp]
    · rw [← hs']
      simp [SwimaHeap.writeCell, hicp]

end OiAmc.SwimaRefine

import OiAmc.GrpsmRound
import OiAmc.GrpsmPartition

namespace OiAmc.GrpsmRemove

open PartialLists GrpsmLinks GrpsmPush GrpsmSearch GrpsmGet GrpsmRound
open GrpsmFiling GrpsmFresh GrpsmPartition

variable {links : List LinkInfo} {fiber : UInt8}

def succeededChs (groupcfg : List GroupCfg) : List GroupChannel :=
  (groupcfg.filter fun cfg => cfg.result ≠ 0).flatMap GroupCfg.chs

theorem removeOlinks_eq (groupcfg : List GroupCfg) (svc : GrpsmSvc) :
    grpsmRemoveOlinksFromSvc fiber groupcfg svc =
      (succeededChs groupcfg).foldl (grpsmRemoveOlinkFromSvc fiber) svc := by
  rw [grpsmRemoveOlinksFromSvc]
  induction groupcfg generalizing svc with
  | nil => rfl
  | cons cfg cfgs ih =>
      rw [List.foldl_cons, ih]
      by_cases h : cfg.result = 0
      · simp [succeededChs, h]
      · simp [succeededChs, h, List.foldl_append]

theorem removeOlink_sublist (svc : GrpsmSvc) (channel : GroupChannel) (k : Nat) :
    ((grpsmRemoveOlinkFromSvc fiber svc channel).sqlinks k).Sublist (svc.sqlinks k) := by
  rw [grpsmRemoveOlinkFromSvc]
  split
  · next i _ =>
      by_cases hk : k = i
      · subst hk
        simpa using List.eraseP_sublist
      · simp [Function.update_of_ne hk]
  · exact List.Sublist.refl _

theorem removeOlinks_sublist (groupcfg : List GroupCfg) (svc : GrpsmSvc) (k : Nat) :
    ((grpsmRemoveOlinksFromSvc fiber groupcfg svc).sqlinks k).Sublist (svc.sqlinks k) := by
  rw [removeOlinks_eq]
  induction succeededChs groupcfg generalizing svc with
  | nil => exact List.Sublist.refl _
  | cons ch chs ih => exact (ih _).trans (removeOlink_sublist svc ch k)

theorem removeOlink_eq (svc : GrpsmSvc) (channel : GroupChannel) :
    grpsmRemoveOlinkFromSvc fiber svc channel =
      { svc with sqlinks := (grpsmRemoveOlinkFromSvc fiber svc channel).sqlinks } := by
  rw [grpsmRemoveOlinkFromSvc]
  split <;> rfl

theorem removeOlinks_fields (groupcfg : List GroupCfg) (svc : GrpsmSvc) :
    grpsmRemoveOlinksFromSvc fiber groupcfg svc =
      { svc with sqlinks := (grpsmRemoveOlinksFromSvc fiber groupcfg svc).sqlinks } := by
  rw [removeOlinks_eq]
  induction succeededChs groupcfg generalizing svc with
  | nil => rfl
  | cons ch chs ih =>
      rw [List.foldl_cons, ih, removeOlink_eq]

/-- The SQ lists of a VC bundle hold links of the pushed table, each in the
list of its own SQ and at most once. -/
structure SvcInv (links : List LinkInfo) (fiber : UInt8) (svc : GrpsmSvc) : Prop where
  mem : ∀ k, ∀ p ∈ svc.sqlinks k, p ∈ linkPtrs links
  own : ∀ k, ∀ p ∈ svc.sqlinks k, p.link.fiber = fiber
  sq : ∀ k, ∀ p ∈ svc.sqlinks k, p.link.sq.toNat = k
  nodup : ∀ k, (svc.sqlinks k).Nodup

theorem SvcInv.sublists {svc svc' : GrpsmSvc} (h : SvcInv links fiber svc)
    (hs : ∀ k, (svc'.sqlinks k).Sublist (svc.sqlinks k)) : SvcInv links fiber svc' where
  mem k p hp := h.mem k p ((hs k).subset hp)
  own k p hp := h.own k p ((hs k).subset hp)
  sq k p hp := h.sq k p ((hs k).subset hp)
  nodup k := (h.nodup k).sublist (hs k)

theorem SvcInv.empty {svc : GrpsmSvc} (h : SvcInv links fiber svc) {k : Nat} (hk : 256 ≤ k) :
    svc.sqlinks k = [] := by
  rw [List.eq_nil_iff_forall_not_mem]
  intro p hp
  have hsq := h.sq k p hp
  have hlt := p.link.sq.toNat_lt
  omega

theorem isOlink_iff {channel : GroupChannel} {p : LinkPtr} (hp : p.link.fiber = fiber) :
    isOlink fiber channel p = true ↔ p.link.member = channel.member := by
  simp [isOlink, LinkInfo.member, GroupChannel.member, hp]

theorem eraseP_eq_filter {α : Type} {q : α → Bool} {xs : List α} (hn : xs.Nodup)
    (hone : ∀ x ∈ xs, ∀ y ∈ xs, q x = true → q y = true → x = y) :
    xs.eraseP q = xs.filter fun x => !q x := by
  induction xs with
  | nil => rfl
  | cons x xs ih =>
      obtain ⟨hx, hn⟩ := List.nodup_cons.mp hn
      by_cases hq : q x = true
      · have hrest : ∀ y ∈ xs, (!q y) = true := by
          intro y hy
          by_contra hqy
          have hxy := hone x (by simp) y (by simp [hy]) hq (by simpa using hqy)
          exact hx (hxy ▸ hy)
        rw [List.eraseP_cons_of_pos hq, List.filter_cons_of_neg (by simp [hq]),
          List.filter_eq_self.mpr hrest]
      · rw [List.eraseP_cons_of_neg hq, List.filter_cons_of_pos (by simpa using hq),
          ih hn fun a ha b hb => hone a (by simp [ha]) b (by simp [hb])]

/-- Pointers to links with one member are equal when the members of the table
are pairwise distinct. -/
theorem ptr_eq_of_member (hd : (links.map LinkInfo.member).Nodup) {p q : LinkPtr}
    (hp : p ∈ linkPtrs links) (hq : q ∈ linkPtrs links) (h : p.link.member = q.link.member) :
    p = q := by
  have hn : ((linkPtrs links).map fun p => p.link.member).Nodup := by
    have hm := congrArg (List.map LinkInfo.member) (linkPtrs_map_link links)
    rw [List.map_map] at hm
    exact (congrArg List.Nodup hm).mpr hd
  exact List.inj_on_of_nodup_map hn hp hq h

theorem removeOlink_filter (hd : (links.map LinkInfo.member).Nodup) {svc : GrpsmSvc}
    (h : SvcInv links fiber svc) (channel : GroupChannel) (k : Nat) :
    (grpsmRemoveOlinkFromSvc fiber svc channel).sqlinks k =
      (svc.sqlinks k).filter fun p => p.link.member ≠ channel.member := by
  have hstay (hno : ∀ p ∈ svc.sqlinks k, p.link.member ≠ channel.member) :
      svc.sqlinks k = (svc.sqlinks k).filter fun p => p.link.member ≠ channel.member :=
    (List.filter_eq_self.mpr fun p hp => by simpa using hno p hp).symm
  rw [grpsmRemoveOlinkFromSvc]
  split
  · next i hi =>
      have hany := List.find?_some hi
      obtain ⟨p, hp, hpo⟩ := List.any_eq_true.mp hany
      have hpm := (isOlink_iff (h.own i p hp)).mp hpo
      by_cases hk : k = i
      · subst hk
        change Function.update svc.sqlinks k ((svc.sqlinks k).eraseP (isOlink fiber channel)) k = _
        rw [Function.update_self, eraseP_eq_filter (h.nodup k)]
        · apply List.filter_congr
          intro q hq
          rw [Bool.eq_iff_iff, Bool.not_eq_true', ← Bool.not_eq_true, isOlink_iff (h.own k q hq),
            decide_eq_true_iff]
        · intro a ha b hb hqa hqb
          have hab := ((isOlink_iff (h.own k a ha)).mp hqa).trans
            ((isOlink_iff (h.own k b hb)).mp hqb).symm
          exact ptr_eq_of_member hd (h.mem k a ha) (h.mem k b hb) hab
      · change Function.update svc.sqlinks i _ k = _
        rw [Function.update_of_ne hk]
        refine hstay fun q hq hqm => hk ?_
        have hpq := ptr_eq_of_member hd (h.mem i p hp) (h.mem k q hq) (hpm.trans hqm.symm)
        rw [← h.sq k q hq, ← h.sq i p hp, hpq]
  · next hi =>
      apply hstay
      intro q hq hqm
      have hk : k < 256 := by
        by_contra hk
        rw [h.empty (by omega)] at hq
        cases hq
      have hany := List.find?_eq_none.mp hi k (List.mem_range.mpr hk)
      exact hany (List.any_eq_true.mpr ⟨q, hq, (isOlink_iff (h.own k q hq)).mpr hqm⟩)

theorem removeOlinks_filter (hd : (links.map LinkInfo.member).Nodup) {svc : GrpsmSvc}
    (h : SvcInv links fiber svc) (groupcfg : List GroupCfg) (k : Nat) :
    (grpsmRemoveOlinksFromSvc fiber groupcfg svc).sqlinks k = (svc.sqlinks k).filter fun p =>
      p.link.member ∉ (succeededChs groupcfg).map GroupChannel.member := by
  rw [removeOlinks_eq]
  induction succeededChs groupcfg generalizing svc with
  | nil => simp
  | cons ch chs ih =>
      have h' := h.sublists fun k => @removeOlink_sublist fiber svc ch k
      rw [List.foldl_cons, ih h', removeOlink_filter hd h, List.filter_filter]
      apply List.filter_congr
      intro p _
      simp [not_or, Bool.and_comm]

end OiAmc.GrpsmRemove

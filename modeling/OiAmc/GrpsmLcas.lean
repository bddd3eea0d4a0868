import OiAmc.GrpsmLevels

namespace OiAmc.GrpsmLcas

open BoundedFill PartialLists GrpsmLinks GrpsmPush GrpsmSearch GrpsmFiling GrpsmFresh GrpsmPartition
open GrpsmRemove GrpsmReuse GrpsmFinish

variable {svc : GrpsmSvc} {lm : LinkInfo} {p : LinkPtr} {links : List LinkInfo}

/-- A group under construction: its channel array, and num_chs, which is counted apart. -/
structure Slots where
  chs : List GroupChannel
  numChs : Nat
  deriving DecidableEq

def emptySlot : GroupChannel := ⟨0, 0, 0, 0⟩

/-- The loop over the levels below a last member, from the highest down. -/
def fillSlots (svc : GrpsmSvc) (lmlink : LinkInfo) : Nat → Slots → Option Slots
  | 0, g => some g
  | j + 1, g =>
      match (svc.sqlinks j).find? fun p => lcasMatch lmlink p.link with
      | some p => fillSlots svc lmlink j ⟨g.chs.set j (channelOf p.link), g.numChs + 1⟩
      | none => none

def matchGroup (svc : GrpsmSvc) (lmlink : LinkInfo) : Option Slots :=
  let chs := List.replicate (lmlink.sq.toNat + 1) emptySlot
  fillSlots svc lmlink lmlink.sq.toNat ⟨chs.set lmlink.sq.toNat (channelOf lmlink), 1⟩

def lastMembers (svc : GrpsmSvc) : List LinkPtr :=
  (List.range (firstEmptySq svc.sqlinks)).reverse.flatMap fun i =>
    (svc.sqlinks i).filter fun p => p.link.isLastMember ≠ 0

/-- The groups of an LCAS bundle. The last members are collected in an array with room for the
links of the bundle. -/
def getLcasFromSvc (svc : GrpsmSvc) : Option (List Slots) :=
  if firstEmptySq svc.sqlinks = 0 then some []
  else ((lastMembers svc).foldlM (put svc.links.length) []).map fun lmlinks =>
    lmlinks.filterMap fun p => matchGroup svc p.link

theorem fillSlots_eq (n k : Nat) (chs : List GroupChannel) :
    fillSlots svc lm n ⟨List.replicate n emptySlot ++ chs, k⟩ =
      (lcasChannels svc lm n chs).map fun chs' => ⟨chs', k + n⟩ := by
  induction n generalizing k chs with
  | zero => rfl
  | succ n ih =>
      rw [fillSlots, lcasChannels]
      cases (svc.sqlinks n).find? fun p => lcasMatch lm p.link with
      | none => rfl
      | some p =>
          have hset : (List.replicate (n + 1) emptySlot ++ chs).set n (channelOf p.link) =
              List.replicate n emptySlot ++ channelOf p.link :: chs := by
            rw [List.replicate_succ', List.append_assoc, List.set_append_right n _ (by simp)]
            simp
          simp only [hset, ih]
          rw [Nat.add_right_comm, Nat.add_assoc]

theorem matchGroup_eq : matchGroup svc lm =
    (lcasChannels svc lm lm.sq.toNat [channelOf lm]).map fun chs => ⟨chs, lm.sq.toNat + 1⟩ := by
  have hset : (List.replicate (lm.sq.toNat + 1) emptySlot).set lm.sq.toNat (channelOf lm) =
      List.replicate lm.sq.toNat emptySlot ++ [channelOf lm] := by
    rw [List.replicate_succ', List.set_append_right _ _ (by simp)]
    simp
  rw [matchGroup, hset, fillSlots_eq, Nat.add_comm 1]

/-- The same MFI, and a group id of one among those of the other. -/
def Matches (lm link : LinkInfo) : Prop :=
  lm.mfi = link.mfi ∧ (lm.preGid = link.preGid ∨ lm.preGid = link.curGid ∨
    lm.curGid = link.preGid ∨ lm.curGid = link.curGid)

theorem lcasMatch_iff {link : LinkInfo} : lcasMatch lm link = true ↔ Matches lm link := by
  simp only [lcasMatch, Matches, Bool.and_eq_true, Bool.or_eq_true, beq_iff_eq, or_assoc]
  exact and_comm

def FirstMatch (svc : GrpsmSvc) (lm : LinkInfo) (j : Nat) (q : LinkPtr) : Prop :=
  ∃ before after, svc.sqlinks j = before ++ q :: after ∧ Matches lm q.link ∧
    ∀ r ∈ before, ¬Matches lm r.link

theorem firstMatch_of_find {j : Nat} {q : LinkPtr}
    (h : (svc.sqlinks j).find? (fun p => lcasMatch lm p.link) = some q) : FirstMatch svc lm j q := by
  obtain ⟨hq, before, after, hlist, hbefore⟩ := List.find?_eq_some_iff_append.mp h
  refine ⟨before, after, hlist, lcasMatch_iff.mp hq, fun r hr hm => ?_⟩
  have hno := hbefore r hr
  rw [lcasMatch_iff.mpr hm] at hno
  cases hno

theorem lcasChannels_spec {n : Nat} {chs chs' : List GroupChannel}
    (h : lcasChannels svc lm n chs = some chs') :
    chs'.length = n + chs.length ∧ (∀ k, chs'[n + k]? = chs[k]?) ∧
      ∀ j < n, ∃ q, FirstMatch svc lm j q ∧ chs'[j]? = some (channelOf q.link) := by
  induction n generalizing chs with
  | zero =>
      cases h
      exact ⟨(Nat.zero_add _).symm, fun k => by rw [Nat.zero_add], fun j hj => absurd hj (Nat.not_lt_zero j)⟩
  | succ n ih =>
      rw [lcasChannels] at h
      split at h
      · next p hp =>
          obtain ⟨hlength, habove, hbelow⟩ := ih h
          refine ⟨?_, fun k => ?_, fun j hj => ?_⟩
          · rw [hlength, List.length_cons]
            omega
          · have hk := habove (k + 1)
            rwa [List.getElem?_cons_succ, ← Nat.add_assoc, Nat.add_right_comm] at hk
          · rcases Nat.lt_succ_iff_lt_or_eq.mp hj with hj | rfl
            · exact hbelow j hj
            · have hself := habove 0
              rw [List.getElem?_cons_zero, Nat.add_zero] at hself
              exact ⟨p, firstMatch_of_find hp, hself⟩
      · cases h

/-- The group of a last member: no slot is left out, and num_chs counts them all. -/
structure GroupOf (svc : GrpsmSvc) (p : LinkPtr) (g : Slots) : Prop where
  number : g.numChs = p.link.sq.toNat + 1
  length : g.chs.length = p.link.sq.toNat + 1
  last : g.chs[p.link.sq.toNat]? = some (channelOf p.link)
  below : ∀ j < p.link.sq.toNat, ∃ q, FirstMatch svc p.link j q ∧ g.chs[j]? = some (channelOf q.link)

structure Heads (svc : GrpsmSvc) (p : LinkPtr) : Prop where
  mem : p ∈ svc.links
  last : p.link.isLastMember ≠ 0
  filled : ∀ i ≤ p.link.sq.toNat, svc.sqlinks i ≠ []
  found : ∀ j < p.link.sq.toNat, ∃ q ∈ svc.sqlinks j, Matches p.link q.link

theorem matchGroup_spec {g : Slots} (h : matchGroup svc p.link = some g) : GroupOf svc p g := by
  rw [matchGroup_eq] at h
  obtain ⟨chs, hchs, rfl⟩ := Option.map_eq_some_iff.mp h
  obtain ⟨hlength, habove, hbelow⟩ := lcasChannels_spec hchs
  exact ⟨rfl, hlength, habove 0, hbelow⟩

theorem matchGroup_isSome : (matchGroup svc lm).isSome ↔
    ∀ j < lm.sq.toNat, ∃ q ∈ svc.sqlinks j, Matches lm q.link := by
  have hsome := @lcasChannels_isSome svc lm lm.sq.toNat [channelOf lm]
  simp only [lcasMatch_iff] at hsome
  rw [matchGroup_eq, Option.isSome_map, Option.isSome_iff_exists, hsome]

theorem filterMap_forall₂ {α β : Type} (f : α → Option β) (xs : List α) :
    List.Forall₂ (fun x y => f x = some y) (xs.filter fun x => (f x).isSome) (xs.filterMap f) := by
  induction xs with
  | nil => exact .nil
  | cons x xs ih =>
      cases hx : f x with
      | none => simpa [hx] using ih
      | some y => simpa [hx] using ih

theorem firstEmptySq_ne_zero (h : svc.sqlinks 0 ≠ []) : firstEmptySq svc.sqlinks ≠ 0 := by
  rw [firstEmptySq]
  cases hfind : (List.range grpsmSqMax).find? fun i => (svc.sqlinks i).isEmpty with
  | none => decide
  | some n =>
      intro h0
      rw [Option.getD_some] at h0
      subst h0
      have hempty := List.find?_some hfind
      exact h (by simpa using hempty)

theorem lt_firstEmptySq {i : Nat} (hi : i < 256) :
    i < firstEmptySq svc.sqlinks ↔ ∀ k ≤ i, svc.sqlinks k ≠ [] := by
  by_cases h0 : firstEmptySq svc.sqlinks = 0
  · refine iff_of_false (by omega) fun hall => ?_
    exact firstEmptySq_ne_zero (hall 0 (Nat.zero_le i)) h0
  · obtain ⟨top, ht⟩ := isTop_exists h0
    rw [firstEmptySq_eq_succ.mpr ht]
    constructor
    · intro h k hk
      exact ht.filled k (by omega)
    · intro h
      by_contra hle
      exact h (top + 1) (by omega) (ht.last (by change top + 1 < 256; omega))

variable {ps : List LinkPtr}

theorem mem_lastMembers (hf : FreshBundle ps svc) : p ∈ lastMembers svc ↔
    p ∈ svc.links ∧ p.link.isLastMember ≠ 0 ∧ ∀ i ≤ p.link.sq.toNat, svc.sqlinks i ≠ [] := by
  have hsq := p.link.sq.toNat_lt
  simp only [lastMembers, List.mem_flatMap, List.mem_reverse, List.mem_range, List.mem_filter,
    decide_eq_true_eq, ← lt_firstEmptySq hsq]
  have hlevel (i : Nat) : p ∈ svc.sqlinks i ↔ p ∈ svc.links ∧ p.link.sq.toNat = i := by
    rw [hf.sqlinks, List.mem_filter, decide_eq_true_eq]
  constructor
  · rintro ⟨i, hi, hp, hlast⟩
    obtain ⟨hmem, rfl⟩ := (hlevel i).mp hp
    exact ⟨hmem, hlast, hi⟩
  · rintro ⟨hp, hlast, hi⟩
    exact ⟨_, hi, (hlevel _).mpr ⟨hp, rfl⟩, hlast⟩

theorem nodup_lastMembers (hf : FreshBundle ps svc) (hn : svc.links.Nodup) : (lastMembers svc).Nodup := by
  rw [lastMembers, List.nodup_flatMap]
  have hlevel {i : Nat} {q : LinkPtr} (hq : q ∈ svc.sqlinks i) : q.link.sq.toNat = i := by
    rw [hf.sqlinks] at hq
    exact of_decide_eq_true (List.mem_filter.mp hq).2
  refine ⟨fun i _ => ?_, (List.nodup_reverse.mpr List.nodup_range).imp fun hne => ?_⟩
  · rw [hf.sqlinks]
    exact (hn.filter _).filter _
  · intro q hq hq'
    exact hne ((hlevel (List.mem_filter.mp hq).1).symm.trans (hlevel (List.mem_filter.mp hq').1))

theorem lastMembers_fit (hf : FreshBundle ps svc) (hn : svc.links.Nodup) :
    (lastMembers svc).foldlM (put svc.links.length) [] = some (lastMembers svc) := by
  have hlength : (lastMembers svc).length ≤ svc.links.length :=
    (List.subperm_of_subset (nodup_lastMembers hf hn) fun q hq =>
      ((mem_lastMembers hf).mp hq).1).length_le
  rw [foldlM_put, if_pos (.inl (by simpa using hlength)), List.nil_append]

theorem getLcasFromSvc_eq (hf : FreshBundle ps svc) (hn : svc.links.Nodup) :
    getLcasFromSvc svc = some ((lastMembers svc).filterMap fun p => matchGroup svc p.link) := by
  rw [getLcasFromSvc, lastMembers_fit hf hn]
  split_ifs with h0
  · rw [lastMembers, h0]
    rfl
  · rfl

theorem getLcasFromSvc_search (hf : FreshBundle ps svc) (hn : svc.links.Nodup) :
    (getLcasFromSvc svc).map (List.map fun g => (⟨g.chs, 0⟩ : GroupCfg)) = some (grpsmGetLcasFromSvc svc) := by
  rw [getLcasFromSvc_eq hf hn, Option.map_some, List.map_filterMap, grpsmGetLcasFromSvc, lastMembers]
  refine congrArg some (List.filterMap_congr fun p _ => ?_)
  rw [matchGroup_eq, Option.map_map]
  rfl

/-- Every LCAS bundle of a pushed handle gives one group for each last member that heads one. -/
theorem lcas_groups_of_heads {ctl ctl' : GrpsmCtl} {groupcfg : List GroupCfg}
    (hpush : grpsmPush ctl links groupcfg = some (0, ctl')) {f : GrpsmFiber} (hf : f ∈ ctl'.fibers)
    (hsvc : svc ∈ f.lcas) : ∃ gs, getLcasFromSvc svc = some gs ∧
      ∃ heads : List LinkPtr, heads.Nodup ∧ (∀ p, p ∈ heads ↔ Heads svc p) ∧
        List.Forall₂ (GroupOf svc) heads gs := by
  obtain ⟨_, fibers, hfibers, rfl⟩ := grpsmPush_eq_some.mp hpush
  obtain ⟨fibs, _, hfibers⟩ := Option.bind_eq_some_iff.mp hfibers
  obtain ⟨fiber, _, hinit⟩ := forall₂_mem_right (mapM_eq_some.mp hfibers) hf
  have hfresh := (grpsmInitFiber_fresh hinit).lcas svc hsvc
  have hn : svc.links.Nodup := hfresh.links.nodup (((linkPtrs_nodup links).filter _).filter _)
  refine ⟨_, getLcasFromSvc_eq hfresh hn, (lastMembers svc).filter fun p => (matchGroup svc p.link).isSome,
    (nodup_lastMembers hfresh hn).filter _, fun p => ?_, ?_⟩
  · rw [List.mem_filter, mem_lastMembers hfresh, matchGroup_isSome]
    exact ⟨fun ⟨⟨hp, hlast, hfilled⟩, hfound⟩ => ⟨hp, hlast, hfilled, hfound⟩,
      fun h => ⟨⟨h.mem, h.last, h.filled⟩, h.found⟩⟩
  · exact (filterMap_forall₂ (fun p : LinkPtr => matchGroup svc p.link) _).imp fun p g h => matchGroup_spec h

def lcasLink (channel : UInt16) (sq lastMember : UInt8) (preGid curGid : UInt32) : LinkInfo :=
  { vcLink channel sq 7 with
    isLcas := 1
    isMember := 1
    isLastMember := lastMember
    preGid := preGid
    curGid := curGid }

/-- Two groups share their first member, which has the group id of one and the new one of both. -/
def shared : List LinkInfo := [lcasLink 1 0 0 5 6, lcasLink 2 1 1 5 5, lcasLink 3 1 1 6 6]

theorem shared_two_groups : ∃ ctl' f svc, grpsmPush grpsmOpen shared [] = some (0, ctl') ∧
    f ∈ ctl'.fibers ∧ svc ∈ f.lcas ∧ (∃ gs, getLcasFromSvc svc = some gs ∧ gs.length = 2 ∧
      ∃ heads : List LinkPtr, heads.Nodup ∧ (∀ p, p ∈ heads ↔ Heads svc p) ∧
        List.Forall₂ (GroupOf svc) heads gs) := by
  refine ⟨_, _, _, rfl, .head _, .head _, ?_⟩
  obtain ⟨gs, hgs, hheads⟩ := @lcas_groups_of_heads _ shared grpsmOpen _ [] rfl _ (.head _) (.head _)
  refine ⟨gs, hgs, ?_, hheads⟩
  exact Option.some.inj (congrArg (Option.map List.length) hgs.symm)

end OiAmc.GrpsmLcas

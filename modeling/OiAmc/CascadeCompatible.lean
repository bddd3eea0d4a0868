import OiAmc.CascadeApart

namespace OiAmc.CascadeCompatible

open GotoLoop PartialLists SgfpGroup GrpsmLinks GrpsmPush GrpsmReuse CascadeTry CascadeBatching
open CascadeStudy CascadeCandidates CascadeApart

/-- Whenever a round of the study comes, its successful candidates share no channel. -/
def RoundsApart (world : StudyWorld) (fuel : Nat) : Nat → StudyState → Prop
  | 0, _ => True
  | n + 1, s => RoundApart world s ∧
      ∀ s', studyRound world fuel s = some (.inl s') → RoundsApart world fuel n s'

def StudiesApart (world : StudyWorld) (fuel : Nat) : List (List LinkInfo × Nat) → StudyState → Prop
  | [], _ => True
  | (links, n) :: rest, s => ∀ s1 r, pushTable s links = some s1 →
      rounds (studyRound world fuel) n s1 = some r →
        RoundsApart world fuel n s1 ∧ StudiesApart world fuel rest (clear (r.elim id id))

def Compatible (es : List SgroupInfo) : Prop :=
  es.Pairwise fun e e' => List.Disjoint (members e) (members e') ∧ e.groupId ≠ e'.groupId

def linksOf (tables : List (List LinkInfo × Nat)) : List LinkInfo := (tables.map Prod.fst).flatten

/-- Tables of the fibers of a port group: none is empty, and each channel comes once. -/
structure PortTables (portGroup : Nat) (tables : List (List LinkInfo × Nat)) : Prop where
  nonempty : ∀ t ∈ tables, t.1 ≠ []
  nodup : ((linksOf tables).map LinkInfo.member).Nodup
  small : ∀ l ∈ linksOf tables, l.channel.toNat < 256
  port : ∀ l ∈ linksOf tables, l.fiber.toNat / 4 = portGroup

structure Between (s : StudyState) : Prop where
  room : s.data.set.length = maxGroup
  count : s.data.setCount ≤ maxGroup
  valid : ∀ j, s.data.valid j = 0
  cfgs : s.data.cfgs = []

variable {world : StudyWorld} {s s' : StudyState} {links seen : List LinkInfo} {prior mine es : List SgroupInfo}
  {tables : List (List LinkInfo × Nat)} {fuel n portGroup : Nat}

theorem rounds_spec {r : StudyState ⊕ StudyState} (ht : Table links) (hinv : StudyInv links prior mine s)
    (h : rounds (studyRound world fuel) n s = some r) : ∃ mine',
      Gathered links prior mine' (r.elim id id).data ∧
      (Apart mine' ↔ Apart mine ∧ RoundsApart world fuel n s) := by
  induction n generalizing s mine with
  | zero =>
      obtain rfl := Option.some.inj h
      exact ⟨mine, hinv.toGathered, (and_iff_left trivial).symm⟩
  | succ n ih =>
      obtain ⟨r0, hstep, h⟩ := Option.bind_eq_some_iff.mp h
      obtain ⟨added, hall, _, hround, hcross, hnext⟩ := studyRound_spec ht hinv hstep
      have happend : Apart (mine ++ added) ↔ Apart mine ∧ RoundApart world s := by
        rw [apart_append, hround]
        exact ⟨fun h => ⟨h.1, h.2.1⟩, fun h => ⟨h.1, h.2, hcross⟩⟩
      cases r0 with
      | inr s' =>
          obtain rfl := Option.some.inj h
          refine ⟨mine ++ added, hall, happend.trans (and_congr_right fun _ => ?_)⟩
          refine ⟨fun h => ⟨h, fun s1 hs1 => ?_⟩, And.left⟩
          rw [hstep] at hs1
          cases hs1
      | inl s' =>
          obtain ⟨mine', hgathered, hiff⟩ := ih (hnext s' rfl) h
          refine ⟨mine', hgathered, ?_⟩
          rw [hiff, happend, and_assoc, RoundsApart]
          refine and_congr_right fun _ => and_congr_right fun _ => ⟨fun h s1 hs1 => ?_, fun h => h s' hstep⟩
          obtain rfl := Sum.inl.inj (Option.some.inj (hstep.symm.trans hs1))
          exact h

theorem mine_mono {seen' : List LinkInfo} {e : SgroupInfo} (h : Mine seen e) (hsub : seen ⊆ seen') :
    Mine seen' e :=
  ⟨h.1, fun m hm => (h.2 m hm).imp fun _ hl => ⟨hsub hl.1, hl.2⟩⟩

theorem mine_disjoint {seen' : List LinkInfo} {e e' : SgroupInfo} (h : Mine seen e) (h' : Mine seen' e')
    (hnodup : ((seen ++ seen').map LinkInfo.member).Nodup)
    (hsmall : ∀ l ∈ seen ++ seen', l.channel.toNat < 256) : List.Disjoint (members e) (members e') := by
  intro m hm hm'
  obtain ⟨l, hl, rfl⟩ := h.2 m hm
  obtain ⟨l', hl', he⟩ := h'.2 _ hm'
  have hsame := narrow_inj (hsmall l' (List.mem_append_right _ hl')) (hsmall l (List.mem_append_left _ hl)) he
  rw [List.map_append, List.nodup_append'] at hnodup
  exact hnodup.2.2 (List.mem_map_of_mem hl) (hsame ▸ List.mem_map_of_mem hl')

theorem pushTable_inv (hb : Between s) (hne : links ≠ []) (h : pushTable s links = some s') :
    StudyInv links (collected s.data) [] s' := by
  obtain ⟨⟨rc, ctl⟩, hpush, rfl⟩ := Option.map_eq_some_iff.mp h
  have hzero : rc = 0 := by
    rw [grpsmPush, if_neg hne] at hpush
    obtain ⟨_, _, hout⟩ := Option.map_eq_some_iff.mp hpush
    exact (Prod.mk.inj hout).1.symm
  subst hzero
  refine ⟨⟨hb.room, hb.count, hb.valid, (List.append_nil _).symm, List.forall_mem_nil _⟩,
    (grpsmPush_inv hpush).1, fun cfg hcfg => ?_, fun _ => rfl, List.forall_mem_nil _⟩
  have hnil : s.data.cfgs = [] := hb.cfgs
  rw [hnil] at hcfg
  cases hcfg

theorem studies_spec (hb : Between s) (hprior : ∀ e ∈ collected s.data, Mine seen e)
    (hne : ∀ t ∈ tables, t.1 ≠ []) (hnodup : ((seen ++ linksOf tables).map LinkInfo.member).Nodup)
    (hsmall : ∀ l ∈ seen ++ linksOf tables, l.channel.toNat < 256)
    (h : studies world fuel tables s = some s') :
    (∀ e ∈ collected s'.data, Mine (seen ++ linksOf tables) e) ∧
      (Apart (collected s'.data) ↔ Apart (collected s.data) ∧ StudiesApart world fuel tables s) := by
  induction tables generalizing s seen with
  | nil =>
      obtain rfl := Option.some.inj h
      refine ⟨fun e he => ?_, (and_iff_left trivial).symm⟩
      exact mine_mono (hprior e he) (List.subset_append_left _ _)
  | cons t tables ih =>
      obtain ⟨links, n⟩ := t
      obtain ⟨s1, hpush, h⟩ := Option.bind_eq_some_iff.mp h
      obtain ⟨r, hr, h⟩ := Option.bind_eq_some_iff.mp h
      have hlinks : linksOf ((links, n) :: tables) = links ++ linksOf tables := rfl
      rw [hlinks] at hnodup hsmall ⊢
      rw [← List.append_assoc] at hnodup hsmall ⊢
      have hfront : ((seen ++ links).map LinkInfo.member).Nodup := by
        rw [List.map_append] at hnodup
        exact hnodup.of_append_left
      have hsmall' : ∀ l ∈ seen ++ links, l.channel.toNat < 256 :=
        fun l hl => hsmall l (List.mem_append_left _ hl)
      have ht : Table links := by
        refine ⟨hne _ List.mem_cons_self, ?_, fun l hl => hsmall' l (List.mem_append_right _ hl)⟩
        rw [List.map_append] at hfront
        exact hfront.of_append_right
      obtain ⟨mine, hgathered, hiff⟩ := rounds_spec ht (pushTable_inv hb ht.nonempty hpush) hr
      let s2 := clear (r.elim id id)
      have hb2 : Between s2 := ⟨hgathered.room, hgathered.count, fun _ => rfl, rfl⟩
      have hcoll : collected s2.data = collected s.data ++ mine := hgathered.collected
      have hprior2 : ∀ e ∈ collected s2.data, Mine (seen ++ links) e := by
        rw [hcoll]
        refine List.forall_mem_append.mpr ⟨fun e he => ?_, fun e he => ?_⟩
        · exact mine_mono (hprior e he) (List.subset_append_left _ _)
        · exact mine_mono (hgathered.ofTable e he) (List.subset_append_right _ _)
      obtain ⟨hmine, hrest⟩ := ih hb2 hprior2 (fun t ht => hne t (List.mem_cons_of_mem _ ht)) hnodup hsmall h
      refine ⟨hmine, hrest.trans ?_⟩
      have hcross : ∀ e ∈ collected s.data, ∀ e' ∈ mine, List.Disjoint (members e) (members e') :=
        fun e he e' he' => mine_disjoint (hprior e he) (hgathered.ofTable e' he') hfront hsmall'
      have hround : Apart (collected s2.data) ↔ Apart (collected s.data) ∧ RoundsApart world fuel n s1 := by
        rw [hcoll, apart_append, hiff]
        exact ⟨fun h => ⟨h.1, h.2.1.2⟩, fun h => ⟨h.1, ⟨.nil, h.2⟩, hcross⟩⟩
      rw [hround, and_assoc, StudiesApart]
      refine and_congr_right fun _ => ⟨fun h s1' r' hpush' hr' => ?_, fun h => h s1 r hpush hr⟩
      obtain rfl := Option.some.inj (hpush.symm.trans hpush')
      obtain rfl := Option.some.inj (hr.symm.trans hr')
      exact h

theorem learnedId_inj {l l' : SlinkInfo} (hport : l.fiber.toNat / 4 = l'.fiber.toNat / 4)
    (h : learnedId l = learnedId l') : l.member = l'.member := by
  rw [learnedId, learnedId, Nat.shiftLeft_eq, Nat.shiftLeft_eq] at h
  have hfiber : l.fiber = l'.fiber := UInt8.toNat_inj.mp (by omega)
  have hchannel : l.channel = l'.channel := UInt8.toNat_inj.mp (by omega)
  exact Prod.ext hfiber hchannel

theorem hasId_ne {e e' : SgroupInfo} (h : HasId e) (h' : HasId e')
    (hport : ∀ m ∈ members e, m.1.toNat / 4 = portGroup) (hport' : ∀ m ∈ members e', m.1.toNat / 4 = portGroup)
    (hdisj : List.Disjoint (members e) (members e')) : e.groupId ≠ e'.groupId := by
  obtain ⟨l, ls, hls, hid⟩ := h
  obtain ⟨l', ls', hls', hid'⟩ := h'
  have hmem : l.member ∈ members e := by
    rw [members, hls]
    exact List.mem_cons_self
  have hmem' : l'.member ∈ members e' := by
    rw [members, hls']
    exact List.mem_cons_self
  intro he
  rw [hid, hid'] at he
  have hsame := learnedId_inj ((hport _ hmem).trans (hport' _ hmem').symm) he
  exact hdisj hmem (hsame ▸ hmem')

theorem compatible_iff_apart (hmine : ∀ e ∈ es, Mine links e)
    (hport : ∀ l ∈ links, l.fiber.toNat / 4 = portGroup) : Compatible es ↔ Apart es := by
  have hin {e : SgroupInfo} (he : e ∈ es) : ∀ m ∈ members e, m.1.toNat / 4 = portGroup := by
    intro m hm
    obtain ⟨l, hl, rfl⟩ := (hmine e he).2 m hm
    exact hport l hl
  rw [Compatible, Apart, List.pairwise_map]
  refine List.Pairwise.iff_of_mem fun {e e'} he he' => ⟨And.left, fun hdisj => ⟨hdisj, ?_⟩⟩
  exact hasId_ne (hmine e he).1 (hmine e' he').1 (hin he) (hin he') hdisj

/-- The trials of each batch deliver good counters for all its groups. -/
def lineWorld : StudyWorld := { pairWorld with
  blocks := fun _ _ => ⟨fun _ => 0, 0⟩
  ginfo := fun _ _ => .zero
  linkarrays := fun _ _ _ => .zero }

def unlearned : StudyState := ⟨grpsmOpen, 0, { pairState 0 with cfgs := [] }⟩

theorem unlearned_between : Between unlearned :=
  ⟨List.length_replicate, Nat.zero_le _, fun _ => rfl, rfl⟩

def lineTables (links : List LinkInfo) : List (List LinkInfo × Nat) := [(links, 1)]

theorem single_tables : PortTables 0 (lineTables [vcLink 1 0 0]) :=
  ⟨by decide, by decide, by decide, by decide⟩

set_option maxRecDepth 20000 in
theorem single_runs : ∃ s', studies lineWorld 2 (lineTables [vcLink 1 0 0]) unlearned = some s' := ⟨_, rfl⟩

end OiAmc.CascadeCompatible

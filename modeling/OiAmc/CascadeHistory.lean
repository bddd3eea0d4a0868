import OiAmc.CascadeCompatible
import OiAmc.OldGroupsMerge

namespace OiAmc.CascadeHistory

open Function GotoLoop PartialLists SgfpGroup GrpsmLinks CascadeTry CascadeBatches CascadeStudy
open GrpsmSearch GrpsmReuse CascadeCandidates CascadeCompatible OldGroups OldGroupsMerge
open CascadeApart (StudyInv Gathered collected studyRound_spec)

/-- A group of links of the table. Beside their channels its links have what malloc left in them when Get
was called for the gets-th time. -/
def Sourced (world : StudyWorld) (links : List LinkInfo) (e : SgroupInfo) : Prop :=
  ∃ gets i ls, e.linkarrays = some ls ∧ e.linkarraysSize = ls.length ∧ ∀ j l, ls[j]? = some l →
    ∃ t ∈ links, l = tryLink (world.linkarrays gets i j) (channelOf t)

structure LastWith (es : List SgroupInfo) (p : UInt8 × UInt8) (e : SgroupInfo) : Prop where
  has : p ∈ members e
  last : ∃ before after, es = before ++ e :: after ∧ ∀ e' ∈ after, p ∉ members e'

def Differs (e g : SgroupInfo) : Prop := e.linkarraysSize ≠ g.linkarraysSize ∨ e.groupId ≠ g.groupId

/-- A link is not valid, or has another service type than the history. -/
def Stale (vcValid : UInt8) (svcType : UInt32) (l : SlinkInfo) : Prop := vcValid = 0 ∨ svcType ≠ l.svcType

variable {world : StudyWorld} {s s' : StudyState} {links links' : List LinkInfo} {prior mine es : List SgroupInfo}
  {tables : List (List LinkInfo × Nat)} {tryGroup : List SgroupInfo} {e g : SgroupInfo} {m m' : SetMap}
  {p : UInt8 × UInt8} {ports : Nat → PortState} {fuel n j portGroup : Nat} {l : SlinkInfo}

theorem Sourced.mono (h : Sourced world links e) (hsub : links ⊆ links') : Sourced world links' e := by
  obtain ⟨gets, i, ls, hls, hsize, hall⟩ := h
  refine ⟨gets, i, ls, hls, hsize, fun j l hl => ?_⟩
  obtain ⟨t, ht, he⟩ := hall j l hl
  exact ⟨t, hsub ht, he⟩

theorem Sourced.learned (h : Sourced world links g) (hl : Learned g e) : Sourced world links e := by
  obtain ⟨gets, i, ls, hls, hsize, hall⟩ := h
  exact ⟨gets, i, ls, hl.links.trans hls, hl.size.trans hsize, hall⟩

theorem get_sourced {rc : Int} (h : get world s = some (rc, s', tryGroup))
    (htable : ∀ cfg ∈ s'.data.cfgs, FromTable links cfg) : ∀ g ∈ tryGroup, Sourced world links g := by
  obtain ⟨⟨ctl, gs⟩, -, h⟩ := Option.bind_eq_some_iff.mp h
  obtain ⟨rfl, hout⟩ := Prod.mk.inj (Option.some.inj h)
  obtain ⟨rfl, rfl⟩ := Prod.mk.inj hout
  intro g hg
  obtain ⟨i, hi, rfl⟩ := List.mem_mapIdx.mp hg
  refine ⟨s.gets, i, _, rfl, ?_, fun j l hl => ?_⟩
  · rw [List.length_mapIdx]
    rfl
  · rw [List.getElem?_mapIdx] at hl
    obtain ⟨ch, hch, rfl⟩ := Option.map_eq_some_iff.mp hl
    obtain ⟨t, ht, rfl⟩ := htable gs[i] (List.getElem_mem hi) ch (List.mem_of_getElem? hch)
    exact ⟨t, ht, rfl⟩

theorem rounds_sourced {r : StudyState ⊕ StudyState} (ht : Table links) (hinv : StudyInv links prior mine s)
    (hmine : ∀ e ∈ mine, Sourced world links e) (h : rounds (studyRound world fuel) n s = some r) : ∃ mine',
      Gathered links prior mine' (r.elim id id).data ∧ ∀ e ∈ mine', Sourced world links e := by
  induction n generalizing s mine with
  | zero =>
      obtain rfl := Option.some.inj h
      exact ⟨mine, hinv.toGathered, hmine⟩
  | succ n ih =>
      obtain ⟨r0, hstep, h⟩ := Option.bind_eq_some_iff.mp h
      obtain ⟨added, hall, hlearned, -, -, hnext⟩ := studyRound_spec ht hinv hstep
      have hadded : ∀ e ∈ mine ++ added, Sourced world links e := by
        refine List.forall_mem_append.mpr ⟨hmine, fun e he => ?_⟩
        obtain ⟨⟨rc, s1, tryGroup⟩, hget, -⟩ := Option.bind_eq_some_iff.mp hstep
        obtain ⟨g, hg, hl⟩ := hlearned rc s1 tryGroup hget e he
        exact (get_sourced hget (get_got ht hinv.handle hinv.table hget).1.table g hg).learned hl
      cases r0 with
      | inr s' =>
          obtain rfl := Option.some.inj h
          exact ⟨mine ++ added, hall, hadded⟩
      | inl s' => exact ih (hnext s' rfl) hadded h

theorem studies_sourced (hb : Between s) (hprior : ∀ e ∈ collected s.data, Sourced world links e)
    (hne : ∀ t ∈ tables, t.1 ≠ []) (hnodup : ((linksOf tables).map LinkInfo.member).Nodup)
    (hsmall : ∀ l ∈ linksOf tables, l.channel.toNat < 256) (hsub : linksOf tables ⊆ links)
    (h : studies world fuel tables s = some s') : ∀ e ∈ collected s'.data, Sourced world links e := by
  induction tables generalizing s with
  | nil =>
      obtain rfl := Option.some.inj h
      exact hprior
  | cons t tables ih =>
      obtain ⟨ls, n⟩ := t
      obtain ⟨s1, hpush, h⟩ := Option.bind_eq_some_iff.mp h
      obtain ⟨r, hr, h⟩ := Option.bind_eq_some_iff.mp h
      have hlinks : linksOf ((ls, n) :: tables) = ls ++ linksOf tables := rfl
      rw [hlinks] at hnodup hsmall hsub
      rw [List.map_append] at hnodup
      have ht : Table ls := ⟨hne _ List.mem_cons_self, hnodup.of_append_left,
        fun l hl => hsmall l (List.mem_append_left _ hl)⟩
      obtain ⟨mine, hgathered, hmine⟩ := rounds_sourced ht (pushTable_inv hb ht.nonempty hpush)
        (List.forall_mem_nil _) hr
      have hall : ∀ e ∈ collected (clear (r.elim id id)).data, Sourced world links e := by
        have hcoll : collected (clear (r.elim id id)).data = collected s.data ++ mine := hgathered.collected
        rw [hcoll]
        refine List.forall_mem_append.mpr ⟨hprior, fun e he => (hmine e he).mono ?_⟩
        exact List.Subset.trans (List.subset_append_left _ _) hsub
      have hb2 : Between (clear (r.elim id id)) := ⟨hgathered.room, hgathered.count, fun _ => rfl, rfl⟩
      exact ih hb2 hall
        (fun t ht => hne t (List.mem_cons_of_mem _ ht)) hnodup.of_append_right
        (fun l hl => hsmall l (List.mem_append_right _ hl))
        (List.Subset.trans (List.subset_append_right _ _) hsub) h

theorem link_mem {g : SgroupInfo} (h : g.link j = some l) : l.member ∈ members g := by
  obtain ⟨ls, hls, hl⟩ := Option.bind_eq_some_iff.mp h
  rw [members, hls, Option.getD_some]
  exact List.mem_map_of_mem (List.mem_of_getElem? hl)

theorem mapGroups_keep (hout : ∀ e ∈ es, p ∉ members e) (h : es.foldlM mapGroup m = some m') : m' p = m p := by
  induction es generalizing m with
  | nil =>
      obtain rfl := Option.some.inj h
      rfl
  | cons e es ih =>
      rw [List.foldlM_cons] at h
      obtain ⟨m1, h1, h2⟩ := Option.bind_eq_some_iff.mp h
      rw [ih (fun e' he' => hout e' (List.mem_cons_of_mem _ he')) h2]
      rcases mapLinks h1 p with ⟨j, _, l, hl, rfl, _⟩ | ⟨hsame, _⟩
      · exact absurd (link_mem hl) (hout e List.mem_cons_self)
      · exact hsame

theorem buildMap_last (h : buildMap es = some m) (he : LastWith es p e)
    (hsize : ∃ ls, e.linkarrays = some ls ∧ e.linkarraysSize = ls.length) :
    ∃ j l, e.link j = some l ∧ l.member = p ∧ InMap l ∧
      m p = ⟨e.groupId, e.linkarraysSize, l.vcValid, l.svcType, 1⟩ := by
  obtain ⟨before, after, rfl, hafter⟩ := he.last
  rw [buildMap, List.foldlM_append] at h
  obtain ⟨m1, -, h⟩ := Option.bind_eq_some_iff.mp h
  rw [List.foldlM_cons] at h
  obtain ⟨m2, h1, h2⟩ := Option.bind_eq_some_iff.mp h
  rw [mapGroups_keep hafter h2]
  rcases mapLinks h1 p with ⟨j, -, l, hl, hmem, hin, hentry⟩ | ⟨-, hout⟩
  · exact ⟨j, l, hl, hmem, hin, hentry⟩
  · obtain ⟨ls, hls, hlen⟩ := hsize
    have hhas := he.has
    rw [members, hls, Option.getD_some] at hhas
    obtain ⟨l, hl, hmem⟩ := List.mem_map.mp hhas
    obtain ⟨j, hj, hget⟩ := List.getElem_of_mem hl
    refine absurd hmem (hout j ?_ l ?_)
    · rw [hlen]
      exact hj
    · rw [SgroupInfo.link, hls, Option.bind_some, List.getElem?_eq_getElem hj, hget]

theorem flagged_round (hl : g.link j = some l) (halarm : ¬ (ports (l.fiber.toNat % 4)).alarm) (hin : InMap l) :
    flagged ports m g [j] = some true ↔ Conflict (m l.member) g l := by
  rw [flagged, hl]
  simp only [Option.bind_eq_bind, Option.bind_some, if_neg halarm, if_neg (not_not.mpr hin)]
  split
  · next hconflict => exact iff_of_true rfl hconflict
  · next hconflict => exact iff_of_false (by simp [flagged]) hconflict

theorem or_iff_or {a b c : Prop} : ((a ∨ b) ↔ a ∨ c) ↔ a ∨ (b ↔ c) := by
  by_cases ha : a
  · simp only [ha, true_or]
  · simp only [ha, false_or]

/-- The decision on a channel of an old group, as the link table and the learned group call for it. -/
def Decided (e g : SgroupInfo) (l : SlinkInfo) (t : LinkInfo) : Prop :=
  Differs e g ∨ Stale t.vcValid t.svcType.toUInt32 l

/-- A link of the history on channel 1 of fiber 0, which is as its table has it. -/
def oldLink : SlinkInfo := { SlinkInfo.zero with channel := 1, vcValid := 1, svcType := 1 }

def oldOne : SgroupInfo := ⟨4, 0, 1, 1, some [oldLink], 0, 0⟩

def quiet : Nat → PortState := fun _ => ⟨0, 0⟩

def withHistory (data : TryState) : MapState where
  set := data.set
  setCount := data.setCount
  old := [oldOne]
  deal := List.replicate 256 .zero
  dealCount := 0
  dealSize := 0
  new := List.replicate 256 .zero
  newCount := 0

set_option maxRecDepth 20000 in
theorem history_runs : ∃ s' st1, studies lineWorld 2 (lineTables [vcLink 1 0 0]) unlearned = some s' ∧
    checkOldGroup (some quiet) (withHistory s'.data) = some st1 := ⟨_, _, rfl, rfl⟩

end OiAmc.CascadeHistory

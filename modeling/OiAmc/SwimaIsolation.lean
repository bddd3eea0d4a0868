import OiAmc.SwimaAlign

namespace OiAmc.SwimaIsolation

open SwimaLinks SwimaQueue SwimaAlign

variable {ima ima1 ima2 : QProcess} {i j g n : Nat}

def DisjointGroups (ima : QProcess) : Prop :=
  ∀ j < ima.gnum, ∀ k < ima.gnum, j ≠ k →
    ∀ a ∈ (ima.group j).members, a ∉ (ima.group k).members

structure AgreeOn (g : Nat) (ima1 ima2 : QProcess) : Prop where
  group : ima1.group g = ima2.group g
  links : ∀ a ∈ (ima1.group g).members, ima1.link a = ima2.link a

theorem AgreeOn.refl (g : Nat) (ima : QProcess) : AgreeOn g ima ima := ⟨rfl, fun _ _ => rfl⟩

theorem AgreeOn.symm (h : AgreeOn g ima1 ima2) : AgreeOn g ima2 ima1 :=
  ⟨h.group.symm, fun a ha => (h.links a (h.group ▸ ha)).symm⟩

theorem AgreeOn.trans {ima3 : QProcess} (h : AgreeOn g ima1 ima2) (h' : AgreeOn g ima2 ima3) :
    AgreeOn g ima1 ima3 :=
  ⟨h.group.trans h'.group, fun a ha => (h.links a ha).trans (h'.links a (h.group ▸ ha))⟩

theorem AgreeOn.aligns (h : AgreeOn g ima1 ima2) : Aligns ima1 g ↔ Aligns ima2 g := by
  have hlink : ∀ a ∈ (ima1.group g).members, (ima1.link a).status = (ima2.link a).status :=
    fun a ha => by rw [h.links a ha]
  rw [Aligns, Aligns, ← h.group]
  apply and_congr
  · exact forall₂_congr fun a ha => by rw [hlink a ha]
  · apply or_congr_left
    exact exists_congr fun a => and_congr_right fun ha => by rw [hlink a ha]

theorem AgreeOn.targets (h : AgreeOn g ima1 ima2) (carried : Nat × Nat) :
    targets ima1 g carried = targets ima2 g carried := by
  ext p
  apply or_congr_right
  rw [← h.group]
  exact exists_congr fun a => and_congr_right fun ha => by rw [h.links a ha]

theorem alignBefore_frame (hd : DisjointGroups ima) (hn : n ≤ ima.gnum) :
    (∀ k, ((alignBefore ima n).1.group k).members = (ima.group k).members) ∧
      ∀ k, n ≤ k → k < ima.gnum → AgreeOn k ima (alignBefore ima n).1 := by
  induction n with
  | zero => exact ⟨fun _ => rfl, fun k _ _ => AgreeOn.refl k ima⟩
  | succ n ih =>
      obtain ⟨hmem, hagree⟩ := ih (by omega)
      obtain ⟨_, hm, hg, hl⟩ := alignGroup_frame (alignBefore ima n) n
      rw [alignBefore_succ]
      refine ⟨fun k => (hm k).trans (hmem k), fun k hk hlt => ?_⟩
      apply (hagree k (by omega) hlt).trans
      refine ⟨(hg k (by omega)).symm, fun a ha => (hl a ?_).symm⟩
      rw [hmem] at ha ⊢
      exact hd k hlt n (by omega) (by omega) a ha

theorem alignBefore_later (hd : DisjointGroups ima) (hg : g < n) (hn : n ≤ ima.gnum) :
    AgreeOn g (alignBefore ima (g + 1)).1 (alignBefore ima n).1 := by
  induction n with
  | zero => omega
  | succ n ih =>
      by_cases hgn : g = n
      · subst hgn
        exact AgreeOn.refl g _
      · apply (ih (by omega) (by omega)).trans
        obtain ⟨hmem, _⟩ := alignBefore_frame hd (show n ≤ ima.gnum by omega)
        obtain ⟨_, _, hgr, hl⟩ := alignGroup_frame (alignBefore ima n) n
        rw [alignBefore_succ]
        refine ⟨(hgr g hgn).symm, fun a ha => (hl a ?_).symm⟩
        rw [hmem] at ha ⊢
        exact hd g (by omega) n (by omega) hgn a ha

/-- The heads that the rounds before n have raised the target to. -/
def earlierHeads (ima : QProcess) (n : Nat) : Set (ℕ ×ₗ ℕ) :=
  {p | p = toLex (0, 0) ∨
    ∃ j < n, Aligns ima j ∧ ∃ a ∈ (ima.group j).members, (ima.link a).head? = some (ofLex p)}

theorem carried_isGreatest (hd : DisjointGroups ima) (hn : n ≤ ima.gnum) :
    IsGreatest (earlierHeads ima n) (toLex (alignBefore ima n).2) := by
  induction n with
  | zero =>
      refine ⟨Or.inl rfl, fun p hp => ?_⟩
      obtain rfl | ⟨j, hj, _⟩ := hp
      · exact le_refl _
      · exact absurd hj (Nat.not_lt_zero j)
  | succ n ih =>
      obtain ⟨hmem, hub⟩ := ih (by omega)
      have hagree := (alignBefore_frame hd (show n ≤ ima.gnum by omega)).2 n (le_refl n) (by omega)
      have hmono : earlierHeads ima n ⊆ earlierHeads ima (n + 1) := by
        intro p hp
        obtain h | ⟨j, hj, h⟩ := hp
        · exact Or.inl h
        · exact Or.inr ⟨j, by omega, h⟩
      rw [alignBefore_succ]
      by_cases ha : Aligns (alignBefore ima n).1 n
      · obtain ⟨-, ⟨htm, htu⟩, -⟩ := alignGroup_eq ha
        rw [← hagree.targets] at htm htu
        have hle : toLex (alignBefore ima n).2 ≤ toLex (alignGroup (alignBefore ima n) n).2 :=
          htu (Or.inl rfl)
        constructor
        · obtain h | h := htm
          · exact h ▸ hmono hmem
          · exact Or.inr ⟨n, by omega, hagree.aligns.mpr ha, h⟩
        · intro p hp
          obtain h | ⟨j, hj, haj, h⟩ := hp
          · exact (hub (Or.inl h)).trans hle
          · rcases Nat.lt_succ_iff_lt_or_eq.mp hj with hj | rfl
            · exact (hub (Or.inr ⟨j, hj, haj, h⟩)).trans hle
            · exact htu (Or.inr h)
      · rw [alignGroup_skip ha]
        refine ⟨hmono hmem, fun p hp => ?_⟩
        obtain h | ⟨j, hj, haj, h⟩ := hp
        · exact hub (Or.inl h)
        · rcases Nat.lt_succ_iff_lt_or_eq.mp hj with hj | rfl
          · exact hub (Or.inr ⟨j, hj, haj, h⟩)
          · exact absurd (hagree.aligns.mp haj) ha

def UsesOwnTarget (ima : QProcess) (g : Nat) : Prop :=
  Aligns ima g → IsGreatest (targets ima g (0, 0)) (toLex (alignBefore ima (g + 1)).2)

/-- When the group is to be aligned, no group aligned before it has a head cell
beyond all heads of the group. -/
def HeadsBelow (ima : QProcess) (g : Nat) : Prop :=
  Aligns ima g → ∀ j < g, Aligns ima j → ∀ a ∈ (ima.group j).members, ∀ p,
    (ima.link a).head? = some p → ∃ q ∈ targets ima g (0, 0), toLex p ≤ q

theorem usesOwnTarget_iff (hd : DisjointGroups ima) (hg : g < ima.gnum) :
    UsesOwnTarget ima g ↔ HeadsBelow ima g := by
  have hagree := (alignBefore_frame hd hg.le).2 g (le_refl g) hg
  obtain ⟨hcm, hcu⟩ := carried_isGreatest hd hg.le
  apply forall_congr'
  intro ha
  obtain ⟨-, ⟨htm, htu⟩, -⟩ := alignGroup_eq (hagree.aligns.mp ha)
  rw [← hagree.targets, ← alignBefore_succ] at htm htu
  constructor
  · intro h j hj haj a ham p hp
    refine ⟨_, h.1, ?_⟩
    exact (hcu (Or.inr ⟨j, hj, haj, a, ham, hp⟩)).trans (htu (Or.inl rfl))
  · intro h
    have hbound : ∃ q ∈ targets ima g (0, 0), toLex (alignBefore ima g).2 ≤ q := by
      obtain he | ⟨j, hj, haj, a, ham, hp⟩ := hcm
      · exact ⟨_, Or.inl rfl, he.le⟩
      · exact h j hj haj a ham _ hp
    have hup : ∀ p ∈ targets ima g (0, 0), p ≤ toLex (alignBefore ima (g + 1)).2 := by
      intro p hp
      obtain rfl | hp := hp
      · exact (hcu (Or.inl rfl)).trans (htu (Or.inl rfl))
      · exact htu (Or.inr hp)
    refine ⟨?_, hup⟩
    obtain he | hhead := htm
    · -- the carried target itself: it is one of the group's own positions
      obtain ⟨q, hq, hle⟩ := hbound
      have heq : q = toLex (alignBefore ima (g + 1)).2 := le_antisymm (hup q hq) (he ▸ hle)
      exact heq ▸ hq
    · exact Or.inr hhead

theorem AgreeOn.marked (h : AgreeOn g ima1 ima2) :
    AgreeOn g (marked ima1 g) (marked ima2 g) := by
  have hst : (linkStates (ima1.group g) fun a => (ima1.link a).status) =
      linkStates (ima2.group g) fun a => (ima2.link a).status := by
    rw [linkStates_eq, linkStates_eq, ← h.group]
    have hiff (status : Status) : (∃ a ∈ (ima1.group g).members, (ima1.link a).status = status) ↔
        ∃ a ∈ (ima1.group g).members, (ima2.link a).status = status :=
      exists_congr fun a => and_congr_right fun ha => by rw [h.links a ha]
    simp only [hiff]
  refine ⟨?_, fun a ha => ?_⟩
  · rw [marked_self, marked_self, hst, h.group]
  · rw [marked_members] at ha
    exact h.links a ha

theorem AgreeOn.groupAligning (h : AgreeOn g ima1 ima2) (top : Nat × Nat) :
    AgreeOn g (groupAligning ima1 g top) (groupAligning ima2 g top) := by
  have hact : ((ima1.group g).members.all fun a => (alignLink top (ima1.link a)).status = .active) =
      (ima1.group g).members.all fun a => (alignLink top (ima2.link a)).status = .active := by
    rw [Bool.eq_iff_iff, List.all_eq_true, List.all_eq_true]
    exact forall₂_congr fun a ha => by rw [h.links a ha]
  refine ⟨?_, fun a ha => ?_⟩
  · rw [groupAligning_self, groupAligning_self, hact, h.group]
  · rw [groupAligning_members] at ha
    rw [groupAligning_link, groupAligning_link, ← h.group, if_pos ha, if_pos ha, h.links a ha]

theorem alignGroup_agree {s1 s2 : QProcess × Nat × Nat} (h : AgreeOn g s1.1 s2.1)
    (ht : Aligns s1.1 g → (alignGroup s1 g).2 = (alignGroup s2 g).2) :
    AgreeOn g (alignGroup s1 g).1 (alignGroup s2 g).1 := by
  by_cases ha : Aligns s1.1 g
  · rw [(alignGroup_eq ha).2.2, (alignGroup_eq (h.aligns.mp ha)).2.2, ht ha]
    exact h.marked.groupAligning _
  · rw [alignGroup_skip ha, alignGroup_skip fun hc => ha (h.aligns.mpr hc)]
    exact h.marked

/-- For handles whose groups share no links: aligning gives a group the target
of its own heads, and treats it alike in two handles that agree on it, exactly
when no group aligned before it is ahead. -/
theorem aligning_isolated (h1 : g < ima1.gnum) (h2 : g < ima2.gnum) (hd1 : DisjointGroups ima1)
    (hd2 : DisjointGroups ima2) (hagree : AgreeOn g ima1 ima2) :
    (UsesOwnTarget ima1 g ∧ UsesOwnTarget ima2 g ∧ AgreeOn g (aligning ima1) (aligning ima2)) ↔
      HeadsBelow ima1 g ∧ HeadsBelow ima2 g := by
  rw [usesOwnTarget_iff hd1 h1, usesOwnTarget_iff hd2 h2, ← and_assoc, and_iff_left_iff_imp]
  intro h
  have hown1 := (usesOwnTarget_iff hd1 h1).mpr h.1
  have hown2 := (usesOwnTarget_iff hd2 h2).mpr h.2
  have hb1 := (alignBefore_frame hd1 h1.le).2 g (le_refl g) h1
  have hb2 := (alignBefore_frame hd2 h2.le).2 g (le_refl g) h2
  have hround : AgreeOn g (alignBefore ima1 (g + 1)).1 (alignBefore ima2 (g + 1)).1 := by
    rw [alignBefore_succ, alignBefore_succ]
    apply alignGroup_agree ((hb1.symm.trans hagree).trans hb2)
    intro ha
    have ha1 := hb1.aligns.mpr ha
    have h1 := hown1 ha1
    have h2 := hown2 (hagree.aligns.mp ha1)
    rw [← hagree.targets] at h2
    rw [← alignBefore_succ, ← alignBefore_succ]
    exact toLex.injective (h1.unique h2)
  have hl1 := alignBefore_later hd1 h1 (le_refl ima1.gnum)
  have hl2 := alignBefore_later hd2 h2 (le_refl ima2.gnum)
  exact (hl1.symm.trans hround).trans hl2

def frameCell (ifsn : UInt8) : QCell := ⟨.atm, ifsn, 0, 53, 0, fun _ => 0⟩

/-- Two groups of one link each; the link of group 1 has a cell of frame 5, and
that of group 0 the given cells. -/
def twoGroups (queue : List QCell) : QProcess where
  gnum := 2
  gseq := 0
  group := fun i => ⟨.unusable, 1, 0, fun _ => UInt8.ofNat i⟩
  link := fun a => ⟨⟨.usable, 32, 0, 0, 0, 0⟩, if a = 0 then queue else [frameCell 5], false⟩

theorem twoGroups_agree (queue queue' : List QCell) :
    AgreeOn 1 (twoGroups queue) (twoGroups queue') := by
  refine ⟨rfl, fun a ha => ?_⟩
  have ha : a = UInt8.ofNat 1 := List.mem_singleton.mp ha
  subst ha
  rfl

theorem twoGroups_disjoint (queue : List QCell) : DisjointGroups (twoGroups queue) := by
  intro j hj k hk hjk a ha hk'
  have h1 : a = UInt8.ofNat j := List.mem_singleton.mp ha
  have h2 : a = UInt8.ofNat k := List.mem_singleton.mp hk'
  have hnat := congrArg UInt8.toNat (h1.symm.trans h2)
  simp only [UInt8.toNat_ofNat'] at hnat
  change j < 2 at hj
  change k < 2 at hk
  omega

theorem aligning_isolated_same_frame :
    AgreeOn 1 (aligning (twoGroups [frameCell 5])) (aligning (twoGroups [])) := by
  have hlt (queue : List QCell) : 1 < (twoGroups queue).gnum := Nat.lt_succ_self 1
  have h1 : HeadsBelow (twoGroups [frameCell 5]) 1 := by
    intro _ j hj _ a ha p hp
    obtain rfl : j = 0 := by omega
    have ha : a = UInt8.ofNat 0 := List.mem_singleton.mp ha
    subst ha
    exact ⟨toLex p, Or.inr ⟨UInt8.ofNat 1, List.mem_singleton_self _, hp⟩, le_refl _⟩
  have h2 : HeadsBelow (twoGroups []) 1 := by
    intro _ j hj _ a ha p hp
    obtain rfl : j = 0 := by omega
    have ha : a = UInt8.ofNat 0 := List.mem_singleton.mp ha
    subst ha
    cases hp
  exact ((aligning_isolated (hlt _) (hlt _) (twoGroups_disjoint _) (twoGroups_disjoint _)
    (twoGroups_agree _ _)).mpr ⟨h1, h2⟩).2.2

/-- A cell of frame 9 on the link of group 0 keeps group 1 from aligning. -/
theorem earlier_group_interferes :
    AgreeOn 1 (twoGroups [frameCell 9]) (twoGroups []) ∧
      ¬ AgreeOn 1 (aligning (twoGroups [frameCell 9])) (aligning (twoGroups [])) := by
  refine ⟨twoGroups_agree _ _, fun h => ?_⟩
  have hst := congrArg ImaGroup.status h.group
  exact absurd hst (by decide)

end OiAmc.SwimaIsolation

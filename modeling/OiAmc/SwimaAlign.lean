import OiAmc.SwimaQueue
import OiAmc.PartialMachine
import Mathlib.Data.Prod.Lex
import Mathlib.Order.Bounds.Basic

namespace OiAmc.SwimaAlign

open PartialMachine SwimaLinks SwimaQueue

variable {ima : QProcess} {target : Nat × Nat} {i : Nat}

theorem raise_eq_max (t h : Nat × Nat) : toLex (raise t h) = max (toLex t) (toLex h) := by
  obtain ⟨a, b⟩ := t
  obtain ⟨c, d⟩ := h
  rw [raise]
  split
  · next hlt =>
      apply (max_eq_right _).symm
      exact Prod.Lex.toLex_le_toLex.mpr (Or.inl hlt)
  · next hlt =>
      split
      · next heq =>
          simp only at heq
          subst heq
          split
          · next hb =>
              apply (max_eq_right _).symm
              exact Prod.Lex.toLex_le_toLex.mpr (Or.inr ⟨rfl, hb.le⟩)
          · next hb =>
              apply (max_eq_left _).symm
              exact Prod.Lex.toLex_le_toLex.mpr (Or.inr ⟨rfl, by simpa using hb⟩)
      · next heq =>
          apply (max_eq_left _).symm
          apply Prod.Lex.toLex_le_toLex.mpr
          left
          simp only at hlt heq ⊢
          omega

/-- The positions that an alignment target is taken from: the target that the
loop carries, and the head cells of the group's links. -/
def targets (ima : QProcess) (i : Nat) (carried : Nat × Nat) : Set (ℕ ×ₗ ℕ) :=
  {p | p = toLex carried ∨ ∃ a ∈ (ima.group i).members, (ima.link a).head? = some (ofLex p)}

theorem raiseTo_isGreatest (as : List UInt8) (carried : Nat × Nat) :
    IsGreatest {p | p = toLex carried ∨ ∃ a ∈ as, (ima.link a).head? = some (ofLex p)}
      (toLex (as.foldl (raiseTo ima) carried)) := by
  induction as generalizing carried with
  | nil =>
      constructor
      · exact Or.inl rfl
      · intro p hp
        obtain rfl | ⟨a, ha, _⟩ := hp
        · exact le_refl _
        · cases ha
  | cons a as ih =>
      rw [List.foldl_cons]
      obtain ⟨hmem, hub⟩ := ih (raiseTo ima carried a)
      have hstep : toLex carried ≤ toLex (raiseTo ima carried a) := by
        rw [raiseTo]
        split
        · rw [raise_eq_max]; exact le_max_left _ _
        · exact le_refl _
      constructor
      · obtain he | ⟨b, hb, he⟩ := hmem
        · rw [he, raiseTo]
          cases hh : (ima.link a).head? with
          | none => exact Or.inl rfl
          | some h =>
              rw [raise_eq_max]
              rcases max_choice (toLex carried) (toLex h) with hm | hm
              · exact Or.inl hm
              · exact Or.inr ⟨a, List.mem_cons_self, by rw [hm, hh]; rfl⟩
        · exact Or.inr ⟨b, List.mem_cons_of_mem a hb, he⟩
      · intro p hp
        obtain rfl | ⟨b, hb, he⟩ := hp
        · exact hstep.trans (hub (Or.inl rfl))
        · rcases List.mem_cons.mp hb with rfl | hb
          · refine le_trans ?_ (hub (Or.inl rfl))
            rw [raiseTo, he, raise_eq_max]
            exact le_max_right _ _
          · exact hub (Or.inr ⟨b, hb, he⟩)

/-- The queue leads to the target without a cell of a later frame before it. -/
def Reaches (target : Nat × Nat) (queue : List QCell) : Prop :=
  ∃ pre c post, queue = pre ++ c :: post ∧ c.pos = target ∧ ∀ x ∈ pre, x.ifsn.toNat ≤ target.1

theorem pos_eq_iff {c : QCell} :
    c.pos = target ↔ c.ifsn.toNat = target.1 ∧ c.offset.toNat = target.2 := Prod.ext_iff

theorem reaches_cons {c : QCell} {cs : List QCell} :
    Reaches target (c :: cs) ↔
      c.pos = target ∨ c.ifsn.toNat ≤ target.1 ∧ Reaches target cs := by
  constructor
  · intro h
    obtain ⟨pre, x, post, he, hx, hpre⟩ := h
    cases pre with
    | nil =>
        obtain ⟨rfl, _⟩ := List.cons.inj he
        exact Or.inl hx
    | cons y pre =>
        obtain ⟨rfl, hcs⟩ := List.cons.inj he
        obtain ⟨hy, hpre⟩ := List.forall_mem_cons.mp hpre
        exact Or.inr ⟨hy, pre, x, post, hcs, hx, hpre⟩
  · intro h
    obtain h | ⟨hc, pre, x, post, rfl, hx, hpre⟩ := h
    · exact ⟨[], c, cs, rfl, h, by simp⟩
    · exact ⟨c :: pre, x, post, rfl, hx, List.forall_mem_cons.mpr ⟨hc, hpre⟩⟩

theorem not_reaches_nil : ¬ Reaches target [] := by
  intro h
  obtain ⟨pre, c, post, he, _⟩ := h
  cases pre <;> cases he

/-- The discard loop ends with an active link when it reaches the target, or
when it had nothing to do on a link that was active. -/
theorem discardCells_status {queue : List QCell} {status : Status} {stale : Bool}
    (hhead : ∀ c ∈ queue.head?, c.ifsn.toNat ≤ target.1) :
    (discardCells target queue status stale).2.1 = .active ↔
      Reaches target queue ∨ queue = [] ∧ status = .active := by
  have hcons (queue : List QCell) : ∀ c status stale, c.ifsn.toNat ≤ target.1 →
      ((discardCells target (c :: queue) status stale).2.1 = .active ↔ Reaches target (c :: queue)) := by
    induction queue with
    | nil =>
        intro c status stale hc
        rw [discardCells, if_pos hc, reaches_cons, pos_eq_iff]
        split
        · next hat => simp [hat]
        · next hat => simp [hat, discardCells, not_reaches_nil]
    | cons d ds ih =>
        intro c status stale hc
        rw [discardCells, if_pos hc, reaches_cons, pos_eq_iff]
        split
        · next hat => simp [hat]
        · next hat =>
            by_cases hd : d.ifsn.toNat ≤ target.1
            · rw [ih d _ _ hd]
              simp [hat, hc]
            · have hno : ¬ Reaches target (d :: ds) := by
                rw [reaches_cons, pos_eq_iff]
                rintro (⟨h, _⟩ | ⟨h, _⟩) <;> omega
              simp [discardCells, hd, hat, hno]
  cases queue with
  | nil => simp [discardCells, not_reaches_nil]
  | cons c cs => rw [hcons cs c status stale (hhead c rfl)]; simp

theorem discardCells_head {queue : List QCell} {status : Status} {stale : Bool}
    (h : Reaches target queue) :
    (discardCells target queue status stale).1.head?.map QCell.pos = some target := by
  induction queue generalizing status stale with
  | nil => exact absurd h not_reaches_nil
  | cons c cs ih =>
      have hle : c.ifsn.toNat ≤ target.1 := by
        obtain hc | ⟨hc, _⟩ := reaches_cons.mp h
        · exact (pos_eq_iff.mp hc).1.le
        · exact hc
      rw [discardCells, if_pos hle]
      split
      · next hat => exact congrArg some (pos_eq_iff.mpr hat)
      · next hat =>
          apply ih
          obtain hc | ⟨_, hcs⟩ := reaches_cons.mp h
          · exact absurd (pos_eq_iff.mp hc) hat
          · exact hcs

theorem discardCells_idem (queue : List QCell) (status : Status) (stale : Bool) :
    let r := discardCells target queue status stale
    discardCells target r.1 r.2.1 r.2.2 = r := by
  induction queue generalizing status stale with
  | nil => rfl
  | cons c cs ih =>
      simp only [discardCells]
      split
      · next hle =>
          split
          · next hat => simp [discardCells, hat]
          · exact ih _ _
      · next hle => simp [discardCells, hle]

theorem alignLink_idem (link : QLink) :
    alignLink target (alignLink target link) = alignLink target link := by
  have h := @discardCells_idem target link.queue link.status link.stale
  simp only [alignLink] at h ⊢
  rw [h]

theorem alignLinks_eq (as : List UInt8) :
    as.foldl (fun ima a => ima.setLink a (alignLink target (ima.link a))) ima =
      { ima with link := fun b =>
        if b ∈ as then alignLink target (ima.link b) else ima.link b } := by
  induction as generalizing ima with
  | nil => rfl
  | cons a as ih =>
      rw [List.foldl_cons, ih]
      simp only [ImaProcess.setLink, ImaProcess.mk.injEq, true_and]
      funext b
      by_cases hb : b = a
      · subst hb
        by_cases hm : b ∈ as
        · simp [hm, alignLink_idem]
        · simp [hm]
      · simp [hb]

theorem groupAligning_link (a : UInt8) :
    (groupAligning ima i target).link a =
      if a ∈ (ima.group i).members then alignLink target (ima.link a) else ima.link a := by
  rw [groupAligning, alignLinks_eq]
  split <;> rfl

theorem groupAligning_gnum : (groupAligning ima i target).gnum = ima.gnum := by
  rw [groupAligning, alignLinks_eq]
  split <;> rfl

theorem groupAligning_gseq : (groupAligning ima i target).gseq = ima.gseq := by
  rw [groupAligning, alignLinks_eq]
  split <;> rfl

theorem groupAligning_other {k : Nat} (h : k ≠ i) :
    (groupAligning ima i target).group k = ima.group k := by
  rw [groupAligning, alignLinks_eq]
  split
  · rfl
  · rw [setGroup_group, Function.update_of_ne h]

theorem groupAligning_members (k : Nat) :
    ((groupAligning ima i target).group k).members = (ima.group k).members := by
  by_cases h : k = i
  · subst h
    rw [groupAligning, alignLinks_eq]
    split
    · rfl
    · rw [setGroup_group, Function.update_self]
      rfl
  · rw [groupAligning_other h]

theorem groupAligning_self :
    (groupAligning ima i target).group i =
      if (ima.group i).members.all fun a => (alignLink target (ima.link a)).status = .active then
        { ima.group i with status := .active, lseq := 0 }
      else ima.group i := by
  have hall : ((ima.group i).members.all fun a =>
      (alignLink target (ima.link a)).status = .active) = true ↔
      ¬ ((ima.group i).members.any fun a => (((ima.group i).members.foldl (fun ima a =>
        ima.setLink a (alignLink target (ima.link a))) ima).link a).status ≠ .active) = true := by
    rw [List.any_eq_true, not_exists, List.all_eq_true]
    apply forall_congr'
    intro a
    rw [decide_eq_true_eq, decide_eq_true_eq, alignLinks_eq]
    by_cases ha : a ∈ (ima.group i).members
    · simp [ha]
    · simp [ha]
  rw [groupAligning]
  split
  · next h => rw [if_neg fun hc => hall.mp hc h, alignLinks_eq]
  · next h => rw [if_pos (hall.mpr h), setGroup_group, Function.update_self]

theorem groupAligning_active :
    ((groupAligning ima i target).group i).status = .active ↔
      (∀ a ∈ (ima.group i).members, (alignLink target (ima.link a)).status = .active) ∨
        (ima.group i).status = .active := by
  have hall : ((ima.group i).members.all fun a =>
      (alignLink target (ima.link a)).status = .active) = true ↔
      ∀ a ∈ (ima.group i).members, (alignLink target (ima.link a)).status = .active := by
    simp only [List.all_eq_true, decide_eq_true_eq]
  rw [groupAligning_self, ← hall]
  split
  · next h => exact ⟨fun _ => Or.inl h, fun _ => rfl⟩
  · next h => exact ⟨Or.inr, fun hc => hc.resolve_left h⟩

def Aligns (ima : QProcess) (i : Nat) : Prop :=
  (∀ a ∈ (ima.group i).members, (ima.link a).status ≠ .unusable) ∧
    ((∃ a ∈ (ima.group i).members, (ima.link a).status = .usable) ∨
      (ima.group i).status ≠ .active)

theorem linkStates_eq (group : ImaGroup) (status : UInt8 → Status) :
    linkStates group status =
      if ∃ a ∈ group.members, status a = .unusable then (false, .unusable)
      else if ∃ a ∈ group.members, status a = .usable then (true, .unusable)
      else (true, group.status) := by
  simp only [linkStates, List.any_eq_true, decide_eq_true_eq]

def marked (ima : QProcess) (i : Nat) : QProcess :=
  let status := (linkStates (ima.group i) fun a => (ima.link a).status).2
  ima.setGroup i { ima.group i with status := status }

@[simp] theorem marked_link : (marked ima i).link = ima.link := rfl

@[simp] theorem marked_gnum : (marked ima i).gnum = ima.gnum := rfl

theorem marked_other {k : Nat} (h : k ≠ i) : (marked ima i).group k = ima.group k := by
  rw [marked, setGroup_group, Function.update_of_ne h]

theorem marked_self : (marked ima i).group i = { ima.group i with
    status := (linkStates (ima.group i) fun a => (ima.link a).status).2 } := by
  rw [marked, setGroup_group, Function.update_self]

theorem marked_members (k : Nat) : ((marked ima i).group k).members = (ima.group k).members := by
  by_cases h : k = i
  · subst h; rw [marked_self]; rfl
  · rw [marked_other h]

/-- links_aligning sets the group's status and, when the group is to be aligned,
raises the target to the heads of its links. -/
theorem linksAligning_eq (ima : QProcess) (i : Nat) (target : Nat × Nat) :
    (linksAligning ima i target).1 = marked ima i ∧
      (Aligns ima i → ((marked ima i).group i).status ≠ .active ∧
        (linksAligning ima i target).2 =
          ((ima.group i).members.foldl (raiseTo ima) target, 1)) ∧
      (¬ Aligns ima i → (linksAligning ima i target).2.1 = target ∧
        (linksAligning ima i target).2.2 ≤ 0) := by
  have hraise (group : ImaGroup) : raiseTo (ima.setGroup i group) = raiseTo ima := rfl
  rw [marked_self]
  simp only [linksAligning, marked, linkStates_eq]
  by_cases h1 : ∃ a ∈ (ima.group i).members, (ima.link a).status = .unusable
  · have hno : ¬ Aligns ima i := by
      intro h
      obtain ⟨a, ha, hs⟩ := h1
      exact h.1 a ha hs
    exact ⟨by simp [h1], fun h => absurd h hno, fun _ => by simp [h1]⟩
  · have hready : ∀ a ∈ (ima.group i).members, (ima.link a).status ≠ .unusable :=
      fun a ha hs => h1 ⟨a, ha, hs⟩
    by_cases h2 : ∃ a ∈ (ima.group i).members, (ima.link a).status = .usable
    · have hyes : Aligns ima i := ⟨hready, Or.inl h2⟩
      exact ⟨by simp [h1, h2], fun _ => by simp [h1, h2, hraise], fun h => absurd hyes h⟩
    · by_cases h3 : (ima.group i).status = .active
      · have hno : ¬ Aligns ima i := fun h => h.2.elim h2 fun hc => hc h3
        exact ⟨by simp [h1, h2, h3], fun h => absurd h hno, fun _ => by simp [h1, h2, h3]⟩
      · have hyes : Aligns ima i := ⟨hready, Or.inr h3⟩
        refine ⟨by simp [h1, h2, h3], fun _ => ?_, fun h => absurd hyes h⟩
        simp [h1, h2, h3, hraise]

theorem alignGroup_eq {s : QProcess × Nat × Nat} (h : Aligns s.1 i) :
    ((marked s.1 i).group i).status ≠ .active ∧
      IsGreatest (targets s.1 i s.2) (toLex (alignGroup s i).2) ∧
      (alignGroup s i).1 = groupAligning (marked s.1 i) i (alignGroup s i).2 := by
  obtain ⟨h1, h2, _⟩ := linksAligning_eq s.1 i s.2
  obtain ⟨hne, h2⟩ := h2 h
  have h3 : linksAligning s.1 i s.2 = (_, _, 1) := Prod.ext h1 h2
  have he : alignGroup s i = (groupAligning (marked s.1 i) i
      ((s.1.group i).members.foldl (raiseTo s.1) s.2),
      (s.1.group i).members.foldl (raiseTo s.1) s.2) := by
    rw [alignGroup, h3]
    rfl
  rw [he]
  exact ⟨hne, raiseTo_isGreatest (s.1.group i).members s.2, rfl⟩

theorem alignGroup_skip {s : QProcess × Nat × Nat} (h : ¬ Aligns s.1 i) :
    alignGroup s i = (marked s.1 i, s.2) := by
  obtain ⟨h1, _, h2⟩ := linksAligning_eq s.1 i s.2
  obtain ⟨ht, hrc⟩ := h2 h
  rw [alignGroup]
  simp only [h1, ht, if_pos hrc]

theorem alignGroup_frame (s : QProcess × Nat × Nat) (i : Nat) :
    (alignGroup s i).1.gnum = s.1.gnum ∧
      (∀ k, ((alignGroup s i).1.group k).members = (s.1.group k).members) ∧
      (∀ k, k ≠ i → (alignGroup s i).1.group k = s.1.group k) ∧
      ∀ a, a ∉ (s.1.group i).members → (alignGroup s i).1.link a = s.1.link a := by
  by_cases h : Aligns s.1 i
  · obtain ⟨-, -, he⟩ := alignGroup_eq h
    rw [he]
    refine ⟨groupAligning_gnum, fun k => ?_, fun k hk => ?_, fun a ha => ?_⟩
    · rw [groupAligning_members, marked_members]
    · rw [groupAligning_other hk, marked_other hk]
    · rw [groupAligning_link, marked_members, if_neg ha, marked_link]
  · rw [alignGroup_skip h]
    exact ⟨rfl, marked_members, fun k hk => marked_other hk, fun _ _ => rfl⟩

theorem alignGroup_gseq (s : QProcess × Nat × Nat) (i : Nat) : (alignGroup s i).1.gseq = s.1.gseq := by
  by_cases h : Aligns s.1 i
  · rw [(alignGroup_eq h).2.2, groupAligning_gseq]
    rfl
  · rw [alignGroup_skip h]
    rfl

theorem alignBefore_succ (ima : QProcess) (n : Nat) :
    alignBefore ima (n + 1) = alignGroup (alignBefore ima n) n := by
  rw [alignBefore, List.range_succ, List.foldl_append]
  rfl

theorem alignBefore_turn (ima : QProcess) (n : Nat) :
    (alignBefore ima n).1.gnum = ima.gnum ∧ (alignBefore ima n).1.gseq = ima.gseq := by
  induction n with
  | zero => exact ⟨rfl, rfl⟩
  | succ n ih =>
      rw [alignBefore_succ, (alignGroup_frame _ n).1, alignGroup_gseq]
      exact ih

theorem readLoop_preserves {P : QProcess → Prop} (hturn : ∀ ima, P ima → P ima.turn)
    (hread : ∀ ima, P ima → P (readGroupCell ima).1) {gseq n : Nat} {ima' : QProcess}
    {data : Option Pkt} (hP : P ima) (h : readLoop gseq n ima = some (ima', data)) : P ima' := by
  induction n generalizing ima with
  | zero => cases h
  | succ n ih =>
      rw [readLoop] at h
      have h1 := hturn _ (hread ima hP)
      simp only at h
      split at h
      · cases h
        exact h1
      · exact ih h1 h

/-- Every link of the group has a head cell, and all of them are of one
position. -/
def HeadsAgree (ima : QProcess) (i : Nat) : Prop :=
  ∃ pos, ∀ a ∈ (ima.group i).members, (ima.link a).head? = some pos

/-- What an alignment of group i must give, when the loop of aligning comes to it
with this handle and target. -/
def AlignSound (s : QProcess × Nat × Nat) (i : Nat) : Prop :=
  Aligns s.1 i → ((alignGroup s i).1.group i).status = .active → HeadsAgree (alignGroup s i).1 i

def Drained (link : QLink) : Prop := link.queue = [] ∧ link.status = .active

/-- No link of a group that is to be aligned is drained, or else some link stays
behind: it is not drained and does not lead to the target. -/
def NoneDrained (s : QProcess × Nat × Nat) (i : Nat) : Prop :=
  Aligns s.1 i → (∀ a ∈ (s.1.group i).members, ¬ Drained (s.1.link a)) ∨
    ∃ top, IsGreatest (targets s.1 i s.2) (toLex top) ∧
      ∃ a ∈ (s.1.group i).members, ¬ Drained (s.1.link a) ∧ ¬ Reaches top (s.1.link a).queue

/-- Under a target that is at least its head, a link ends up active when it
leads to the target or is drained. -/
theorem alignLink_status {link : QLink} {top : Nat × Nat}
    (hhead : ∀ p ∈ link.head?, toLex p ≤ toLex top) :
    (alignLink top link).status = .active ↔ Reaches top link.queue ∨ Drained link := by
  apply discardCells_status
  intro c hc
  have hle := hhead c.pos (by rw [QLink.head?, hc]; rfl)
  rcases Prod.Lex.toLex_le_toLex.mp hle with hlt | ⟨heq, _⟩
  · exact hlt.le
  · exact heq.le

/-- An alignment gives agreeing heads exactly when no drained link takes part in
the activation of the group. -/
theorem alignSound_iff {s : QProcess × Nat × Nat} : AlignSound s i ↔ NoneDrained s i := by
  by_cases ha : Aligns s.1 i
  · obtain ⟨hne, htop, he⟩ := alignGroup_eq ha
    generalize (alignGroup s i).2 = top at htop he
    have hhead : ∀ a ∈ (s.1.group i).members, ∀ p ∈ (s.1.link a).head?, toLex p ≤ toLex top :=
      fun a ham p hp => htop.2 (Or.inr ⟨a, ham, hp⟩)
    have hact : ((alignGroup s i).1.group i).status = .active ↔
        ∀ a ∈ (s.1.group i).members, Reaches top (s.1.link a).queue ∨ Drained (s.1.link a) := by
      rw [he, groupAligning_active, marked_members, marked_link, or_iff_left hne]
      exact forall₂_congr fun a ham => alignLink_status (hhead a ham)
    have hlink : ∀ a ∈ (s.1.group i).members,
        (alignGroup s i).1.link a = alignLink top (s.1.link a) := by
      intro a ham
      rw [he, groupAligning_link, marked_members, if_pos ham, marked_link]
    have hgroup : ((alignGroup s i).1.group i).members = (s.1.group i).members := by
      rw [he, groupAligning_members, marked_members]
    constructor
    · intro h _
      by_cases hall : ∀ a ∈ (s.1.group i).members,
          Reaches top (s.1.link a).queue ∨ Drained (s.1.link a)
      · left
        intro a ham hd
        obtain ⟨pos, hpos⟩ := h ha (hact.mpr hall)
        rw [hgroup] at hpos
        have hp := hpos a ham
        rw [hlink a ham] at hp
        have hnil : (alignLink top (s.1.link a)).queue = [] := by
          rw [alignLink, hd.1]
          rfl
        rw [QLink.head?, hnil] at hp
        cases hp
      · right
        push Not at hall
        obtain ⟨a, ham, hr, hd⟩ := hall
        exact ⟨top, htop, a, ham, hd, hr⟩
    · intro h _ hst
      have hall := hact.mp hst
      refine ⟨top, fun a ham => ?_⟩
      rw [hgroup] at ham
      rw [hlink a ham]
      rcases hall a ham with hr | hd
      · exact discardCells_head hr
      · rcases h ha with hno | ⟨top', htop', b, hbm, hbd, hbr⟩
        · exact absurd hd (hno a ham)
        · have heq : top' = top := toLex.injective (htop'.unique htop)
          rcases hall b hbm with hr | hd'
          · exact absurd (heq ▸ hr) hbr
          · exact absurd hd' hbd
  · exact ⟨fun _ hc => absurd hc ha, fun _ hc => absurd hc ha⟩

/-- Every alignment in a call of swima_proc has this property, of the handle and
target with which the loop of aligning comes to a group. -/
def EveryAlignment (P : QProcess × Nat × Nat → Nat → Prop) (ima : QProcess) (call : ProcCall) :
    Prop :=
  ∀ w, writeLinkCell ima call = some w → ∀ i < w.gnum, P (alignBefore w i) i

/-- In a run over any cells, every activation of a group finds agreeing heads,
exactly when no drained link ever takes part in one. -/
theorem swimaProc_activation (ima : QProcess) (calls : List ProcCall) :
    Guarded swimaProc (EveryAlignment AlignSound) ima calls ↔
      Guarded swimaProc (EveryAlignment NoneDrained) ima calls := by
  apply guarded_congr
  intro s call
  refine forall₂_congr fun w _ => forall₂_congr fun i _ => ?_
  exact alignSound_iff

def twoLinks : Opened where
  gnum := 1
  gnum_le := by decide
  group := fun _ => ⟨.unusable, 2, 0, UInt8.ofNat⟩
  link := fun a => ⟨.unusable, if a = 0 ∨ a = 1 then 32 else 255, 0, 0, 0, 0⟩

def icpCall (link : UInt16) (ifsn offset : UInt8) : ProcCall where
  pdata := some ⟨53, link, fun
    | 3 => 0x0b
    | 4 => 0x64
    | 5 => 0x01
    | 6 => 0x80
    | 7 => ifsn
    | 8 => offset
    | _ => 0⟩
  alloc := true

/-- Both links align and are read empty; then a late ICP cell resets link 0, and
the group becomes active again while link 1 has no cell. -/
theorem drained_link_activates : ¬ Guarded swimaProc (EveryAlignment AlignSound) (opened twoLinks)
    [icpCall 0 5 31, icpCall 1 5 31, ⟨none, true⟩, icpCall 0 9 31] := by
  intro h
  have h3 := ((h.2 _ rfl).2 _ rfl).2 _ rfl
  have hsound := h3.1 _ rfl 0 (by decide)
  obtain ⟨pos, hpos⟩ := hsound ⟨by decide +kernel, by decide +kernel⟩ rfl
  have hnone : none = some pos := hpos 1 (by decide)
  cases hnone

end OiAmc.SwimaAlign

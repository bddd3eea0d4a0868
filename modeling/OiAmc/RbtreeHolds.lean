import Mathlib.Data.List.Perm.Basic
import OiAmc.RbtreeMem
import OiAmc.RedBlackBalance

/-! A tree in memory, as pieces that can be written one at a time. -/

namespace OiAmc.Rbtree

open GotoLoop RbTree RedBlack

variable {α ι : Type} (addr : α → ι)

/-- The link to a tree. -/
def top : RbRoot α → Option ι
  | .leaf => none
  | .node _ _ x _ => some (addr x)

/-- The link up from what stands below. -/
def parentOf : Path α → Option ι
  | [] => none
  | f :: _ => some (addr f.entry)

/-- A node with the link on the given side first. -/
def cell : Side → Option ι → Color → Option ι → Option ι → RbNode ι
  | .left, q, c, near, far => ⟨q, c, far, near⟩
  | .right, q, c, near, far => ⟨q, c, near, far⟩

def Owns (nodes : ι → Option (RbNode ι)) : Option ι → RbRoot α → Prop
  | _, .leaf => True
  | q, .node c l x r =>
      nodes (addr x) = some (cell .left q c (top addr l) (top addr r)) ∧ Owns nodes (some (addr x)) l ∧
        Owns nodes (some (addr x)) r

/-- The way up is in memory, with the given link where the tree below is cut off. -/
def Above (m : Mem ι) : Path α → Option ι → Prop
  | [], hole => m.root = hole
  | f :: up, hole =>
      m.nodes (addr f.entry) = some (cell f.side (parentOf addr up) f.color hole (top addr f.sibling)) ∧
        Owns addr m.nodes (some (addr f.entry)) f.sibling ∧ Above m up (some (addr f.entry))

/-- The link that a tree below hangs on. -/
def linkOf : Path α → Option (ι × Side)
  | [] => none
  | f :: _ => some (addr f.entry, f.side)

def addrs (t : RbRoot α) : List ι := t.inorder.map addr

def addrsUp : Path α → List ι
  | [] => []
  | f :: up => addr f.entry :: (addrs addr f.sibling ++ addrsUp up)

/-- A tree is what is in memory: from the root on every link goes where it should, and the rest of the
memory is as it was. -/
structure Holds (rest : ι → Option (RbNode ι)) (m : Mem ι) (t : RbRoot α) : Prop where
  root : m.root = top addr t
  owns : Owns addr m.nodes none t
  apart : (addrs addr t).Nodup
  rest : ∀ i, i ∉ addrs addr t → m.nodes i = rest i

inductive Piece (α ι : Type)
  | node (i : ι) (n : RbNode ι)
  | tree (q : Option ι) (t : RbRoot α)

def Piece.addrs : Piece α ι → List ι
  | .node i _ => [i]
  | .tree _ t => Rbtree.addrs addr t

def Piece.Lies (nodes : ι → Option (RbNode ι)) : Piece α ι → Prop
  | .node i n => nodes i = some n
  | .tree q t => Owns addr nodes q t

/-- Pieces below a way up, all apart from one another. -/
structure Laid (rest : ι → Option (RbNode ι)) (m : Mem ι) (up : Path α) (hole : Option ι) (ps : List (Piece α ι)) :
    Prop where
  above : Above addr m up hole
  lies : ∀ p ∈ ps, p.Lies addr m.nodes
  apart : (ps.flatMap (Piece.addrs addr) ++ addrsUp addr up).Nodup
  rest : ∀ i, i ∉ ps.flatMap (Piece.addrs addr) ++ addrsUp addr up → m.nodes i = rest i

variable {addr} {rest nodes nodes' : ι → Option (RbNode ι)} {m m' : Mem ι} {up : Path α} {hole q new : Option ι}
  {t l r : RbRoot α} {c : Color} {x : α} {d : Side} {n : RbNode ι} {i : ι} {as bs ps ps' : List (Piece α ι)}
  {p p' : Piece α ι} {f : Frame α}

-- A node, by its sides.

@[simp] theorem other_other (d : Side) : d.other.other = d := by cases d <;> rfl

@[simp] theorem other_ne (d : Side) : d.other ≠ d := by cases d <;> decide

@[simp] theorem ne_other (d : Side) : d ≠ d.other := by cases d <;> decide

@[simp] theorem cell_parent (near far : Option ι) : (cell d q c near far).parent = q := by cases d <;> rfl

@[simp] theorem cell_color (near far : Option ι) : (cell d q c near far).color = c := by cases d <;> rfl

@[simp] theorem cell_child (near far : Option ι) : (cell d q c near far).child d = near := by cases d <;> rfl

@[simp] theorem cell_child_other (near far : Option ι) : (cell d q c near far).child d.other = far := by
  cases d <;> rfl

@[simp] theorem cell_setChild (near far : Option ι) : (cell d q c near far).setChild d new = cell d q c new far := by
  cases d <;> rfl

@[simp] theorem cell_setChild_other (near far : Option ι) :
    (cell d q c near far).setChild d.other new = cell d q c near new := by
  cases d <;> rfl

@[simp] theorem cell_setParent (near far : Option ι) :
    { cell d q c near far with parent := new } = cell d new c near far := by
  cases d <;> rfl

@[simp] theorem cell_setColor (near far : Option ι) (c' : Color) :
    { cell d q c near far with color := c' } = cell d q c' near far := by
  cases d <;> rfl

@[simp] theorem join_other (c : Color) (l : RbRoot α) (x : α) (r : RbRoot α) :
    join d.other c l x r = join d c r x l := by
  cases d <;> rfl

@[simp] theorem top_join : top addr (join d c l x r) = some (addr x) := by cases d <;> rfl

theorem owns_join : Owns addr nodes q (join d c l x r) ↔
    nodes (addr x) = some (cell d q c (top addr l) (top addr r)) ∧ Owns addr nodes (some (addr x)) l ∧
      Owns addr nodes (some (addr x)) r := by
  cases d with
  | left => rfl
  | right =>
      simp only [join, Owns]
      exact and_congr_right fun _ => and_comm

theorem addrs_join_perm : (addrs addr (join d c l x r)).Perm (addr x :: (addrs addr l ++ addrs addr r)) := by
  cases d with
  | left =>
      simp only [addrs, join, RbRoot.inorder, List.map_append, List.map_cons]
      exact List.perm_middle
  | right =>
      simp only [addrs, join, RbRoot.inorder, List.map_append, List.map_cons]
      exact List.perm_middle.trans (List.perm_append_comm.cons _)

theorem mem_addrs_node : i ∈ addrs addr (.node c l x r) ↔ i = addr x ∨ i ∈ addrs addr l ∨ i ∈ addrs addr r := by
  have hjoin := @addrs_join_perm _ _ addr l r c x .left
  refine hjoin.mem_iff.trans ?_
  rw [List.mem_cons, List.mem_append]

theorem addrs_plug_perm : (addrs addr (plug up t)).Perm (addrs addr t ++ addrsUp addr up) := by
  induction up generalizing t with
  | nil => rw [addrsUp, List.append_nil, plug]
  | cons f up ih =>
      refine ih.trans ?_
      have hjoin := @addrs_join_perm _ _ addr t f.sibling f.color f.entry f.side
      refine (hjoin.append_right _).trans ?_
      rw [addrsUp, List.cons_append, List.append_assoc]
      exact List.perm_middle.symm

-- What does not change.

theorem Owns.congr (h : Owns addr nodes q t) (heq : ∀ i ∈ addrs addr t, nodes' i = nodes i) :
    Owns addr nodes' q t := by
  induction t generalizing q with
  | leaf => trivial
  | node c l x r ihl ihr =>
      obtain ⟨hx, hl, hr⟩ := h
      refine ⟨(heq _ (mem_addrs_node.mpr (.inl rfl))).trans hx, ihl hl fun j hj => ?_, ihr hr fun j hj => ?_⟩
      · exact heq j (mem_addrs_node.mpr (.inr (.inl hj)))
      · exact heq j (mem_addrs_node.mpr (.inr (.inr hj)))

theorem Above.congr (h : Above addr m up hole) (hroot : m'.root = m.root)
    (heq : ∀ i ∈ addrsUp addr up, m'.nodes i = m.nodes i) : Above addr m' up hole := by
  induction up generalizing hole with
  | nil => exact hroot.trans h
  | cons f up ih =>
      obtain ⟨hf, hs, hup⟩ := h
      rw [addrsUp, List.forall_mem_cons, List.forall_mem_append] at heq
      exact ⟨heq.1.trans hf, hs.congr heq.2.1, ih hup heq.2.2⟩

theorem Piece.Lies.congr (h : p.Lies addr nodes) (heq : ∀ i ∈ p.addrs addr, nodes' i = nodes i) :
    p.Lies addr nodes' := by
  cases p with
  | node i n => exact (heq i (List.mem_singleton_self i)).trans h
  | tree q t => exact Owns.congr h heq

-- What is done to one piece.

theorem flatMap_focus (g : Piece α ι → List ι) (as : List (Piece α ι)) (p : Piece α ι) (bs : List (Piece α ι)) :
    ((as ++ p :: bs).flatMap g).Perm (g p ++ (as ++ bs).flatMap g) := by
  rw [List.flatMap_append, List.flatMap_append, List.flatMap_cons, ← List.append_assoc, ← List.append_assoc]
  exact List.perm_append_comm.append_right _

theorem Laid.focus (h : Laid addr rest m up hole (as ++ p :: bs)) :
    (p.addrs addr ++ ((as ++ bs).flatMap (Piece.addrs addr) ++ addrsUp addr up)).Nodup := by
  rw [← List.append_assoc]
  exact ((flatMap_focus _ as p bs).append_right _).nodup_iff.mp h.apart

theorem Laid.change (h : Laid addr rest m up hole (as ++ p :: bs)) (hroot : m'.root = m.root)
    (haddrs : p'.addrs addr = p.addrs addr) (hp : p'.Lies addr m'.nodes)
    (hsame : ∀ i, i ∉ p.addrs addr → m'.nodes i = m.nodes i) : Laid addr rest m' up hole (as ++ p' :: bs) := by
  have hperm : ((as ++ p' :: bs).flatMap (Piece.addrs addr)).Perm ((as ++ p :: bs).flatMap (Piece.addrs addr)) := by
    have hfocus := flatMap_focus (Piece.addrs addr) as p' bs
    rw [haddrs] at hfocus
    exact hfocus.trans (flatMap_focus _ as p bs).symm
  have hdisj := (List.nodup_append.mp h.focus).2.2
  have hout (j : ι) (hj : j ∈ (as ++ bs).flatMap (Piece.addrs addr) ++ addrsUp addr up) : m'.nodes j = m.nodes j :=
    hsame j fun hmem => hdisj j hmem j hj rfl
  refine ⟨h.above.congr hroot fun j hj => hout j (List.mem_append_right _ hj), fun o ho => ?_, ?_, fun j hj => ?_⟩
  · rcases List.mem_append.mp ho with ho' | ho'
    · exact (h.lies o (List.mem_append_left _ ho')).congr fun j hj => hout j (List.mem_append_left _
        (List.mem_flatMap.mpr ⟨o, List.mem_append_left _ ho', hj⟩))
    · rcases List.mem_cons.mp ho' with rfl | ho'
      · exact hp
      · exact (h.lies o (List.mem_append_right _ (List.mem_cons_of_mem _ ho'))).congr fun j hj =>
          hout j (List.mem_append_left _ (List.mem_flatMap.mpr ⟨o, List.mem_append_right _ ho', hj⟩))
  · exact (hperm.append_right _).nodup_iff.mpr h.apart
  · rw [(hperm.append_right _).mem_iff] at hj
    rw [hsame j, h.rest j hj]
    intro hmem
    refine hj (List.mem_append_left _ (List.mem_flatMap.mpr ⟨p, ?_, hmem⟩))
    exact List.mem_append_right _ List.mem_cons_self

theorem Laid.exchange (ps' : List (Piece α ι)) (h : Laid addr rest m up hole ps)
    (haddrs : (ps'.flatMap (Piece.addrs addr)).Perm (ps.flatMap (Piece.addrs addr)))
    (hlies : (∀ p ∈ ps, p.Lies addr m.nodes) → ∀ p ∈ ps', p.Lies addr m.nodes) : Laid addr rest m up hole ps' where
  above := h.above
  lies := hlies h.lies
  apart := (haddrs.append_right _).nodup_iff.mpr h.apart
  rest j hj := h.rest j ((haddrs.append_right _).mem_iff.not.mp hj)

theorem Laid.perm (ps' : List (Piece α ι)) (h : Laid addr rest m up hole ps) (hps : ps'.Perm ps) :
    Laid addr rest m up hole ps' :=
  h.exchange ps' (hps.flatMap_right _) fun hlies p hp => hlies p (hps.mem_iff.mp hp)

theorem Laid.read (as : List (Piece α ι)) (h : Laid addr rest m up hole (as ++ .node i n :: bs)) :
    m.nodes i = some n := h.lies _ (List.mem_append_right _ List.mem_cons_self)

theorem Laid.adopt (h : Laid addr rest m up hole ps)
    (hi : i ∉ ps.flatMap (Piece.addrs addr) ++ addrsUp addr up) (hv : m.nodes i = some n) :
    Laid addr rest m up hole (.node i n :: ps) where
  above := h.above
  lies := List.forall_mem_cons.mpr ⟨hv, h.lies⟩
  apart := List.nodup_cons.mpr ⟨hi, h.apart⟩
  rest j hj := h.rest j fun hmem => hj (List.mem_cons_of_mem _ hmem)

theorem Laid.drop {rest' : ι → Option (RbNode ι)} (h : Laid addr rest m up hole (.node i n :: ps))
    (hi : rest' i = some n) (hrest : ∀ j, j ≠ i → rest' j = rest j) : Laid addr rest' m up hole ps where
  above := h.above
  lies p hp := h.lies p (List.mem_cons_of_mem _ hp)
  apart := (List.nodup_cons.mp h.apart).2
  rest j hj := by
    by_cases he : j = i
    · rw [he, hi]
      exact h.lies (.node i n) List.mem_cons_self
    · rw [hrest j he]
      exact h.rest j fun hmem => (List.mem_cons.mp hmem).elim he hj

theorem Laid.take (as : List (Piece α ι)) (h : Laid addr rest m up hole (as ++ .tree q (join d c l x r) :: bs)) :
    Laid addr rest m up hole (as ++ .node (addr x) (cell d q c (top addr l) (top addr r)) ::
      .tree (some (addr x)) l :: .tree (some (addr x)) r :: bs) := by
  refine h.exchange _ ?_ fun hlies p hp => ?_
  · rw [List.flatMap_append, List.flatMap_append]
    refine List.Perm.append_left _ ?_
    simp only [List.flatMap_cons, Piece.addrs]
    rw [← List.append_assoc, ← List.append_assoc]
    refine List.Perm.append_right _ ?_
    rw [List.append_assoc]
    exact addrs_join_perm.symm
  · have hjoin := owns_join.mp (hlies _ (List.mem_append_right _ List.mem_cons_self))
    simp only [List.mem_append, List.mem_cons] at hp
    rcases hp with hp | rfl | rfl | rfl | hp
    · exact hlies p (List.mem_append_left _ hp)
    · exact hjoin.1
    · exact hjoin.2.1
    · exact hjoin.2.2
    · exact hlies p (List.mem_append_right _ (List.mem_cons_of_mem _ hp))

theorem Laid.put (as : List (Piece α ι)) (h : Laid addr rest m up hole
    (as ++ .node (addr x) (cell d q c (top addr l) (top addr r)) :: .tree (some (addr x)) l ::
      .tree (some (addr x)) r :: bs)) : Laid addr rest m up hole (as ++ .tree q (join d c l x r) :: bs) := by
  refine h.exchange _ ?_ fun hlies p hp => ?_
  · rw [List.flatMap_append, List.flatMap_append]
    refine List.Perm.append_left _ ?_
    simp only [List.flatMap_cons, Piece.addrs]
    rw [← List.append_assoc, ← List.append_assoc]
    refine List.Perm.append_right _ ?_
    rw [List.append_assoc]
    exact addrs_join_perm
  · simp only [List.mem_append, List.mem_cons] at hp
    rcases hp with hp | rfl | hp
    · exact hlies p (List.mem_append_left _ hp)
    · refine owns_join.mpr ⟨?_, ?_, ?_⟩
      · exact hlies (.node _ _) (by simp)
      · exact hlies (.tree _ _) (by simp)
      · exact hlies (.tree _ _) (by simp)
    · exact hlies p (by simp [hp])

theorem Laid.lower (h : Laid addr rest m (f :: up) hole ps) : Laid addr rest m up (some (addr f.entry))
    (.node (addr f.entry) (cell f.side (parentOf addr up) f.color hole (top addr f.sibling)) ::
      .tree (some (addr f.entry)) f.sibling :: ps) := by
  have hperm : ((Piece.node (addr f.entry) (cell f.side (parentOf addr up) f.color hole (top addr f.sibling)) ::
      .tree (some (addr f.entry)) f.sibling :: ps).flatMap (Piece.addrs addr) ++ addrsUp addr up).Perm
        (ps.flatMap (Piece.addrs addr) ++ addrsUp addr (f :: up)) := by
    simp only [List.flatMap_cons, Piece.addrs, addrsUp, List.append_assoc, List.cons_append, List.nil_append]
    refine List.Perm.trans ?_ List.perm_middle.symm
    refine List.Perm.cons _ ?_
    rw [← List.append_assoc, ← List.append_assoc]
    exact List.perm_append_comm.append_right _
  refine ⟨h.above.2.2, ?_, hperm.nodup_iff.mpr h.apart, fun j hj => h.rest j (hperm.mem_iff.not.mp hj)⟩
  intro p hp
  rcases List.mem_cons.mp hp with rfl | hp
  · exact h.above.1
  · rcases List.mem_cons.mp hp with rfl | hp
    · exact h.above.2.1
    · exact h.lies p hp

theorem Laid.raise (h : Laid addr rest m up (some (addr f.entry))
    (.node (addr f.entry) (cell f.side (parentOf addr up) f.color hole (top addr f.sibling)) ::
      .tree (some (addr f.entry)) f.sibling :: ps)) : Laid addr rest m (f :: up) hole ps := by
  have hperm : ((Piece.node (addr f.entry) (cell f.side (parentOf addr up) f.color hole (top addr f.sibling)) ::
      .tree (some (addr f.entry)) f.sibling :: ps).flatMap (Piece.addrs addr) ++ addrsUp addr up).Perm
        (ps.flatMap (Piece.addrs addr) ++ addrsUp addr (f :: up)) := by
    simp only [List.flatMap_cons, Piece.addrs, addrsUp, List.append_assoc, List.cons_append, List.nil_append]
    refine List.Perm.trans ?_ List.perm_middle.symm
    refine List.Perm.cons _ ?_
    rw [← List.append_assoc, ← List.append_assoc]
    exact List.perm_append_comm.append_right _
  refine ⟨⟨?_, ?_, h.above⟩, ?_, hperm.nodup_iff.mp h.apart, fun j hj => h.rest j (hperm.mem_iff.not.mpr hj)⟩
  · exact h.lies (.node _ _) List.mem_cons_self
  · exact h.lies (.tree _ _) (List.mem_cons_of_mem _ List.mem_cons_self)
  · exact fun p hp => h.lies p (List.mem_cons_of_mem _ (List.mem_cons_of_mem _ hp))

theorem laid_shut {path : Path α} :
    Laid addr rest m (path ++ up) (top addr t) (.tree (parentOf addr (path ++ up)) t :: ps) ↔
      Laid addr rest m up (top addr (plug path t)) (.tree (parentOf addr up) (plug path t) :: ps) := by
  induction path generalizing t with
  | nil => exact Iff.rfl
  | cons f path ih =>
      rw [plug, ← ih, top_join]
      constructor
      · intro h
        exact Laid.put [] (h.lower.perm _ (List.Perm.cons _ (List.Perm.swap _ _ _)))
      · intro h
        exact Laid.raise ((Laid.take [] h).perm _ (List.Perm.cons _ (List.Perm.swap _ _ _)))

theorem laid_iff : Laid addr rest m up (top addr t) [.tree (parentOf addr up) t] ↔ Holds addr rest m (plug up t) := by
  have hshut := @laid_shut _ _ addr rest m [] t [] up
  rw [List.append_nil] at hshut
  rw [hshut]
  constructor
  · intro h
    have happart := h.apart
    have hrest := h.rest
    simp only [List.flatMap_cons, List.flatMap_nil, addrsUp, List.append_nil, Piece.addrs] at happart hrest
    exact ⟨h.above, h.lies _ List.mem_cons_self, happart, hrest⟩
  · intro h
    refine ⟨h.root, List.forall_mem_singleton.mpr h.owns, ?_, ?_⟩
    · simp only [List.flatMap_cons, List.flatMap_nil, addrsUp, List.append_nil, Piece.addrs]
      exact h.apart
    · simp only [List.flatMap_cons, List.flatMap_nil, addrsUp, List.append_nil, Piece.addrs]
      exact h.rest

theorem Laid.redAt (as : List (Piece α ι)) (h : Laid addr rest m up hole (as ++ .tree q t :: bs)) :
    redAt m (top addr t) = some (isRed t) := by
  cases t with
  | leaf => rfl
  | node c l x r =>
      rw [top, Rbtree.redAt, (Laid.take (d := .left) as h).read, Option.map_some, cell_color, isRed_node]

theorem read_holds (up : Path α) (h : Holds addr rest m (plug up (join d c l x r))) :
    m.nodes (addr x) = some (cell d (parentOf addr up) c (top addr l) (top addr r)) :=
  (Laid.take [] (laid_iff.mpr h)).read []

theorem redAt_holds (up : Path α) (h : Holds addr rest m (plug up t)) : redAt m (top addr t) = some (isRed t) :=
  (laid_iff.mpr h).redAt []

@[simp] theorem parentOf_cons : parentOf addr (f :: up) = some (addr f.entry) := rfl

theorem node_join (d : Side) (c : Color) (l : RbRoot α) (x : α) (r : RbRoot α) :
    .node c l x r = join d c (d.pick l r) x (d.other.pick l r) := by
  cases d <;> rfl

theorem plug_other : plug (⟨d.other, c, x, r⟩ :: up) l = plug up (join d c r x l) := by
  rw [plug, join_other]

theorem top_mem (h : top addr t = some i) : i ∈ addrs addr t := by
  cases t with
  | leaf => cases h
  | node c l x r => exact mem_addrs_node.mpr (.inl (Option.some.inj h).symm)

theorem mem_addrsUp (h : f ∈ up) : addr f.entry ∈ addrsUp addr up := by
  induction up with
  | nil => cases h
  | cons g up ih =>
      rcases List.mem_cons.mp h with rfl | h
      · exact List.mem_cons_self
      · exact List.mem_cons_of_mem _ (List.mem_append_right _ (ih h))

theorem top_plug (addr : α → ι) (f : Frame α) (up : Path α) (t : RbRoot α) :
    ∃ i ∈ addrsUp addr (f :: up), top addr (plug (f :: up) t) = some i := by
  induction up generalizing f t with
  | nil => exact ⟨addr f.entry, List.mem_cons_self, top_join⟩
  | cons g up ih =>
      obtain ⟨i, hi, htop⟩ := ih g (join f.side f.color t f.entry f.sibling)
      exact ⟨i, List.mem_cons_of_mem _ (List.mem_append_right _ hi), htop⟩

theorem plug_cons_ne_leaf : plug (f :: up) t ≠ .leaf := by
  intro h
  obtain ⟨i, _, htop⟩ := top_plug id f up t
  rw [h] at htop
  cases htop

theorem Holds.nodup (h : Holds addr rest m (plug up t)) : (addrs addr t ++ addrsUp addr up).Nodup :=
  addrs_plug_perm.nodup_iff.mp h.apart

theorem root_ne (h : Holds addr rest m (plug (f :: up) t)) : top addr t ≠ m.root := by
  intro he
  obtain ⟨i, hi, htop⟩ := top_plug addr f up t
  rw [h.root, htop] at he
  exact (List.nodup_append.mp h.nodup).2.2 i (top_mem he) i hi rfl

theorem sibling_ne (f : Frame α) (up : Path α) (h : Holds addr rest m (plug (f :: up) t))
    (ht : top addr t = some i) : top addr f.sibling ≠ some i := by
  intro hs
  exact (List.nodup_append.mp h.nodup).2.2 i (top_mem ht) i
    (List.mem_cons_of_mem _ (List.mem_append_left _ (top_mem hs))) rfl

theorem Owns.isSome (h : Owns addr nodes q t) (hi : i ∈ addrs addr t) : (nodes i).isSome := by
  induction t generalizing q with
  | leaf => cases hi
  | node c l x r ihl ihr =>
      rcases mem_addrs_node.mp hi with rfl | hi | hi
      · rw [h.1]
        rfl
      · exact ihl h.2.1 hi
      · exact ihr h.2.2 hi

theorem Holds.outside (h : Holds addr rest m t) (hsame : ∀ i ∈ addrs addr t, nodes i = m.nodes i) :
    Holds addr nodes ⟨nodes, m.root⟩ t := ⟨h.root, h.owns.congr hsame, h.apart, fun _ _ => rfl⟩

variable [DecidableEq ι]

theorem side_eq (f : Frame α) {p : Option ι} (h : top addr f.sibling ≠ p) :
    (if (cell f.side q c p (top addr f.sibling)).left = p then Side.left else Side.right) = f.side := by
  cases hf : f.side with
  | left => simp [cell]
  | right => simp [cell, h]

theorem Laid.modify (as : List (Piece α ι)) (g : RbNode ι → RbNode ι)
    (h : Laid addr rest m up hole (as ++ .node i n :: bs)) :
    ∃ m', m.modify i g = some m' ∧ Laid addr rest m' up hole (as ++ .node i (g n) :: bs) := by
  refine ⟨{ m with nodes := Function.update m.nodes i (some (g n)) }, ?_, ?_⟩
  · rw [Mem.modify, h.read]
    rfl
  · refine h.change rfl rfl (Function.update_self ..) fun j hj => ?_
    exact Function.update_of_ne (fun he => hj (List.mem_singleton.mpr he)) _ _

theorem Laid.setNear (as : List (Piece α ι)) {near far : Option ι} (new : Option ι)
    (h : Laid addr rest m up hole (as ++ .node i (cell d q c near far) :: bs)) :
    ∃ m', setChild m i d new = some m' ∧ Laid addr rest m' up hole (as ++ .node i (cell d q c new far) :: bs) := by
  obtain ⟨m', hm', h'⟩ := h.modify as fun n => n.setChild d new
  rw [cell_setChild] at h'
  exact ⟨m', hm', h'⟩

theorem Laid.setFar (as : List (Piece α ι)) {near far : Option ι} (new : Option ι)
    (h : Laid addr rest m up hole (as ++ .node i (cell d q c near far) :: bs)) :
    ∃ m', setChild m i d.other new = some m' ∧
      Laid addr rest m' up hole (as ++ .node i (cell d q c near new) :: bs) := by
  obtain ⟨m', hm', h'⟩ := h.modify as fun n => n.setChild d.other new
  rw [cell_setChild_other] at h'
  exact ⟨m', hm', h'⟩

theorem Laid.setParent (as : List (Piece α ι)) {near far : Option ι} (new : Option ι)
    (h : Laid addr rest m up hole (as ++ .node i (cell d q c near far) :: bs)) :
    ∃ m', rbSetParent m i new = some m' ∧
      Laid addr rest m' up hole (as ++ .node i (cell d new c near far) :: bs) := by
  obtain ⟨m', hm', h'⟩ := h.modify as fun n => { n with parent := new }
  rw [cell_setParent] at h'
  exact ⟨m', hm', h'⟩

theorem Laid.setColor (as : List (Piece α ι)) {near far : Option ι} (new : Color)
    (h : Laid addr rest m up hole (as ++ .node i (cell d q c near far) :: bs)) :
    ∃ m', rbSetColor m i new = some m' ∧
      Laid addr rest m' up hole (as ++ .node i (cell d q new near far) :: bs) := by
  obtain ⟨m', hm', h'⟩ := h.modify as fun n => { n with color := new }
  rw [cell_setColor] at h'
  exact ⟨m', hm', h'⟩

theorem Laid.reparent (as : List (Piece α ι)) (new : Option ι)
    (h : Laid addr rest m up hole (as ++ .tree q t :: bs)) :
    ∃ m', onNode (top addr t) (fun i m => rbSetParent m i new) m = some m' ∧
      Laid addr rest m' up hole (as ++ .tree new t :: bs) := by
  cases t with
  | leaf =>
      refine ⟨m, rfl, h.exchange _ (by simp [Piece.addrs]) fun hlies p hp => ?_⟩
      simp only [List.mem_append, List.mem_cons] at hp
      rcases hp with hp | rfl | hp
      · exact hlies p (by simp [hp])
      · trivial
      · exact hlies p (by simp [hp])
  | node c l x r =>
      obtain ⟨m', hm', h'⟩ := (Laid.take (d := .left) as h).setParent as new
      exact ⟨m', hm', Laid.put (d := .left) as h'⟩

theorem Laid.blacken (as : List (Piece α ι)) (h : Laid addr rest m up hole (as ++ .tree q t :: bs)) :
    ∃ m', onNode (top addr t) (fun i m => rbSetBlack m i) m = some m' ∧
      Laid addr rest m' up hole (as ++ .tree q t.blacken :: bs) := by
  cases t with
  | leaf => exact ⟨m, rfl, h⟩
  | node c l x r =>
      obtain ⟨m', hm', h'⟩ := (Laid.take (d := .left) as h).setColor as .black
      exact ⟨m', hm', Laid.put (d := .left) as h'⟩

theorem Laid.hang (new : Option ι) (h : Laid addr rest m up hole ps) :
    ∃ m', (match linkOf addr up with
      | none => some { m with root := new }
      | some (i, d) => setChild m i d new) = some m' ∧ Laid addr rest m' up new ps := by
  cases up with
  | nil => exact ⟨{ m with root := new }, rfl, rfl, h.lies, h.apart, h.rest⟩
  | cons f up =>
      obtain ⟨m', e, h'⟩ := h.lower.setNear [] new
      exact ⟨m', e, h'.raise⟩

theorem Laid.relink (d : Side) (new : Option ι) (h : Laid addr rest m up (some i) ps)
    (hi : i ∈ ps.flatMap (Piece.addrs addr)) :
    ∃ m', relink d m (parentOf addr up) i new = some m' ∧ Laid addr rest m' up new ps := by
  obtain ⟨m', hm', h'⟩ := h.hang new
  refine ⟨m', ?_, h'⟩
  cases up with
  | nil => exact hm'
  | cons f up =>
      have hlow := h.lower
      have hread := hlow.read []
      have hsib : top addr f.sibling ≠ some i := by
        intro he
        have hnodup := hlow.apart
        simp only [List.flatMap_cons, Piece.addrs, List.append_assoc] at hnodup
        have hdisj := (List.nodup_append.mp (List.nodup_append.mp hnodup).2.1).2.2
        exact hdisj i (top_mem he) i (List.mem_append_left _ hi) rfl
      have hside : (if (cell f.side (parentOf addr up) f.color (some i) (top addr f.sibling)).child d = some i then d
          else d.other) = f.side := by
        cases hf : f.side <;> cases d <;> simp [cell, RbNode.child, Side.other, hsib]
      change (m.nodes (addr f.entry)).bind _ = _
      rw [hread, Option.bind_some, hside]
      exact hm'

theorem rotate_holds {c' : Color} {inner outer : RbRoot α} {y : α}
    (h : Holds addr rest m (plug up (join d c l x (join d c' inner y outer)))) :
    ∃ m', rotate d m (addr x) = some m' ∧ Holds addr rest m' (plug up (join d c' (join d c l x inner) y outer)) := by
  have h0 := laid_iff.mpr h
  rw [top_join] at h0
  have h1 := Laid.take [_, _] (Laid.take [] h0)
  have hx := h1.read []
  have hy := h1.read [_, _]
  obtain ⟨m1, e1, h2⟩ := h1.setFar [] (top addr inner)
  obtain ⟨m2, e2, h3⟩ := h2.reparent [_, _, _] (some (addr x))
  obtain ⟨m3, e3, h4⟩ := h3.setNear [_, _] (some (addr x))
  obtain ⟨m4, e4, h5⟩ := h4.setParent [_, _] (parentOf addr up)
  obtain ⟨m5, e5, h6⟩ := h5.relink d (some (addr y)) (by simp [Piece.addrs])
  obtain ⟨m6, e6, h7⟩ := h6.setParent [] (some (addr y))
  refine ⟨m6, ?_, ?_⟩
  · simp only [rotate, hx, hy, cell_child_other, cell_child, cell_parent, top_join, Option.bind_eq_bind,
      Option.bind_some, e1, e2, e3, e4, e5, e6]
  · rw [← laid_iff, top_join]
    refine Laid.put [] ?_
    rw [top_join]
    -- the pieces of the lower node come together first
    have hlow := h7.perm [.node (addr x) _, .tree _ l, .tree _ inner, .node (addr y) _, .tree _ outer]
      (List.Perm.cons _ (List.Perm.cons _ (List.Perm.swap _ _ _)))
    exact (Laid.put [] hlow).perm _ (List.Perm.swap _ _ _)

theorem rotate_other_holds {c' : Color} {inner outer : RbRoot α} {y : α}
    (h : Holds addr rest m (plug up (join d c (join d c' outer y inner) x r))) :
    ∃ m', rotate d.other m (addr x) = some m' ∧
      Holds addr rest m' (plug up (join d c' outer y (join d c inner x r))) := by
  have hmirror : Holds addr rest m (plug up (join d.other c r x (join d.other c' inner y outer))) := by
    rwa [join_other, join_other]
  obtain ⟨m', e, h'⟩ := rotate_holds hmirror
  refine ⟨m', e, ?_⟩
  simpa only [join_other] using h'

theorem setColor_holds (up : Path α) (c' : Color) (h : Holds addr rest m (plug up (join d c l x r))) :
    ∃ m', rbSetColor m (addr x) c' = some m' ∧ Holds addr rest m' (plug up (join d c' l x r)) := by
  have h0 := laid_iff.mpr h
  rw [top_join] at h0
  obtain ⟨m', e, h1⟩ := (Laid.take [] h0).setColor [] c'
  have h2 := Laid.put [] h1
  refine ⟨m', e, laid_iff.mp ?_⟩
  rw [top_join]
  exact h2

theorem blacken_holds (up : Path α) (h : Holds addr rest m (plug up t)) :
    ∃ m', onNode (top addr t) (fun i m => rbSetBlack m i) m = some m' ∧ Holds addr rest m' (plug up t.blacken) := by
  obtain ⟨m', e, h'⟩ := (laid_iff.mpr h).blacken []
  refine ⟨m', e, laid_iff.mp ?_⟩
  cases t with
  | leaf => exact h'
  | node c l x r => exact h'

theorem blackenRoot_holds (h : Holds addr rest m t) :
    ∃ m', onNode m.root (fun i m => rbSetBlack m i) m = some m' ∧ Holds addr rest m' t.blacken := by
  rw [h.root]
  exact blacken_holds [] h

end OiAmc.Rbtree

import OiAmc.RbtreeErase
import OiAmc.RbtreeInsert
import Mathlib.Data.List.Induction

namespace OiAmc.Rbtree

open GotoLoop RbTree RedBlack

variable {α ι : Type} [DecidableEq ι] {addr : α → ι} {rest : ι → Option (RbNode ι)} {m m' : Mem ι} {up : Path α}
  {t l r : RbRoot α} {c : Color} {x y : α} {d : Side} {f : Frame α} {rounds : Nat} {pl : Place α} {i : ι}
  {xs ys : List α}

/-- What lies beyond the way up on one side, the nearest first. -/
def beyond (d : Side) (up : Path α) : List α := d.pick (before up).reverse (behind up)

theorem beyond_same (h : f.side = d) : beyond d (f :: up) = beyond d up := by
  subst h
  cases hf : f.side <;> simp [beyond, before, behind, hf, Side.pick]

theorem head_beyond (h : f.side ≠ d) : (beyond d (f :: up)).head? = some f.entry := by
  cases d <;> cases hf : f.side <;> simp_all [beyond, before, behind, Side.pick]

omit [DecidableEq ι] in
theorem endOf_holds (d : Side) (h : Holds addr rest m t) (hrounds : height t ≤ rounds) :
    endOf d rounds m = some ((endEntry d t).map addr) := by
  rw [endOf, h.root]
  cases t with
  | leaf => cases d <;> rfl
  | node c l x r =>
      obtain ⟨k, rfl⟩ := Nat.exists_eq_add_of_le hrounds
      obtain ⟨y, hy, hloop⟩ := downRounds_holds [] (i := addr x) d k h rfl
      simp only [top, hloop, hy, Option.map_some]

theorem upRounds_holds (k : Nat) (h : Holds addr rest m (plug up t)) (hi : top addr t = some i) :
    loop (upRound d m) (up.length + k + 1) i = some ((beyond d up).head?.map addr) := by
  induction up generalizing t i k with
  | nil =>
      obtain ⟨n, hn, hparent⟩ := parent_holds h hi
      rw [loop, upRound, hn, Option.bind_eq_bind, Option.bind_some, hparent]
      cases d <;> rfl
  | cons f up ih =>
      obtain ⟨n, hn, hparent⟩ := parent_holds h hi
      have hread := read_holds up h
      have hne := sibling_ne _ _ h hi
      rw [loop, upRound, hn, Option.bind_eq_bind, Option.bind_some, hparent]
      simp only [parentOf, hread, Option.bind_some]
      by_cases hside : f.side = d
      · rw [beyond_same hside, ← ih k h top_join, ← hside, if_pos (by rw [cell_child]; exact hi)]
        simp only [Option.bind_some, Sum.elim_inl, List.length_cons]
        congr 1
        omega
      · rw [head_beyond hside, if_neg]
        · rfl
        · have hother : d = f.side.other := by
            cases hf : f.side <;> cases d <;> simp_all [Side.other]
          rw [hother, cell_child_other]
          exact hne

omit [DecidableEq ι] in
theorem parentOf_ne (h : Holds addr rest m (plug up t)) (hi : top addr t = some i) : parentOf addr up ≠ some i := by
  intro he
  cases up with
  | nil => cases he
  | cons f up =>
      refine (List.nodup_append.mp h.nodup).2.2 i (top_mem hi) i ?_ rfl
      rw [← Option.some.inj he]
      exact mem_addrsUp List.mem_cons_self

theorem neighbour_holds (d : Side) (h : Holds addr rest m (plug pl.up pl.tree))
    (hrounds : height (plug pl.up pl.tree) < rounds) : neighbour d rounds m (addr pl.entry) =
      some (((endEntry d.other (d.pick pl.left pl.right)).or (beyond d pl.up).head?).map addr) := by
  have hup := length_add_height pl.up pl.tree
  obtain ⟨up, c, l, x, r⟩ := pl
  have hself := parentOf_ne h rfl
  rw [Place.tree, node_join d] at h
  have hread := read_holds _ h
  have hle : height (d.pick l r) ≤ max (height l) (height r) := by
    cases d with
    | left => exact Nat.le_max_left _ _
    | right => exact Nat.le_max_right _ _
  simp only [Place.tree, height] at hup hrounds
  rw [neighbour, hread, Option.bind_eq_bind, Option.bind_some, cell_parent, if_neg hself, cell_child]
  cases hnear : top addr (d.pick l r) with
  | none =>
      obtain ⟨k, hk⟩ := Nat.exists_eq_add_of_lt (show up.length < rounds by omega)
      have hleaf : d.pick l r = .leaf := by
        cases hp : d.pick l r with
        | leaf => rfl
        | node c' l' y r' =>
            rw [hp] at hnear
            cases hnear
      simp only [hleaf, hk]
      rw [upRounds_holds k h top_join]
      cases d <;> rfl
  | some j =>
      obtain ⟨k, hk⟩ := Nat.exists_eq_add_of_le (show height (d.pick l r) ≤ rounds by omega)
      obtain ⟨y, hy, hloop⟩ := downRounds_holds (⟨d, c, x, d.other.pick l r⟩ :: up) d.other k h hnear
      simp only [hk, hloop, hy, Option.map_some, Option.some_or]

theorem endEntry_beyond (pl : Place α) :
    (endEntry Side.right.other (Side.right.pick pl.left pl.right)).or (beyond .right pl.up).head? =
      (pl.right.inorder ++ behind pl.up).head? ∧
    (endEntry Side.left.other (Side.left.pick pl.left pl.right)).or (beyond .left pl.up).head? =
      (before pl.up ++ pl.left.inorder).getLast? := by
  constructor
  · rw [List.head?_append]
    rfl
  · rw [List.getLast?_append]
    simp [endEntry, beyond, Side.pick, Side.other]

theorem neighbours_in_order (h : Holds addr rest m t) (hrounds : height t < rounds)
    (hsplit : t.inorder = xs ++ x :: ys) : rbNext rounds m (addr x) = some (ys.head?.map addr) ∧
      rbPrev rounds m (addr x) = some (xs.getLast?.map addr) := by
  have hx : x ∈ t.inorder := by
    rw [hsplit]
    exact List.mem_append_right _ List.mem_cons_self
  obtain ⟨pl, hloc, hentry, horder⟩ := placeOf_split h.apart hx
  obtain ⟨htree, _⟩ := locate_spec hloc
  rw [plug] at htree
  have hone := List.Nodup.of_map addr h.apart
  rw [hsplit] at horder hone
  obtain ⟨_, hys, hne⟩ := List.nodup_append.mp hone
  have hxs : x ∉ xs := fun hmem => hne x hmem x List.mem_cons_self rfl
  obtain ⟨hbefore, _, hbehind⟩ := (List.append_cons_inj_of_notMem hxs (List.nodup_cons.mp hys).1).mp horder
  rw [← htree] at h hrounds
  rw [← hentry, hbefore, hbehind, ← (endEntry_beyond pl).1, ← (endEntry_beyond pl).2]
  exact ⟨neighbour_holds .right h hrounds, neighbour_holds .left h hrounds⟩

/-- The nodes from one on, by a step to the next one, a given number at most. -/
def visit (next : ι → Option (Option ι)) : Nat → Option ι → Option (List ι)
  | _, none => some []
  | 0, some _ => none
  | n + 1, some i => (next i).bind fun j => (visit next n j).map (i :: ·)

theorem visit_next (xs ys : List α) (h : Holds addr rest m t) (hrounds : height t < rounds)
    (hsplit : t.inorder = xs ++ ys) :
    visit (rbNext rounds m) ys.length (ys.head?.map addr) = some (ys.map addr) := by
  induction ys generalizing xs with
  | nil => rfl
  | cons y ys ih =>
      have hrest := ih (xs ++ [y]) (by rw [hsplit, List.append_cons])
      have hnext := (neighbours_in_order h hrounds hsplit).1
      rw [List.length_cons, List.head?_cons, Option.map_some, visit, hnext, Option.bind_some, hrest]
      rfl

theorem visit_prev (xs ys : List α) (h : Holds addr rest m t) (hrounds : height t < rounds)
    (hsplit : t.inorder = xs ++ ys) :
    visit (rbPrev rounds m) xs.length (xs.getLast?.map addr) = some (xs.reverse.map addr) := by
  induction xs using List.reverseRecOn generalizing ys with
  | nil => rfl
  | append_singleton xs x ih =>
      rw [List.append_assoc, List.singleton_append] at hsplit
      have hprev := (neighbours_in_order h hrounds hsplit).2
      rw [List.length_append, List.length_singleton, List.getLast?_concat, Option.map_some, visit, hprev,
        Option.bind_some, ih _ hsplit, List.reverse_append]
      rfl

theorem rbReplaceNode_holds (h : Holds addr rest m (plug up (.node c l x r)))
    (hy : addr y ∉ addrs addr (plug up (.node c l x r))) (halloc : (m.nodes (addr y)).isSome) :
    ∃ m' v, rbReplaceNode m (addr x) (addr y) = some m' ∧
      Holds addr (Function.update rest (addr x) (some v)) m' (plug up (.node c l y r)) := by
  obtain ⟨n, hn⟩ := Option.isSome_iff_exists.mp halloc
  have h0 := Laid.take (d := .left) [] (laid_iff.mpr h)
  have hout : addr y ∉ [Piece.node (addr x) (cell .left (parentOf addr up) c (top addr l) (top addr r)),
      .tree (some (addr x)) l, .tree (some (addr x)) r].flatMap (Piece.addrs addr) ++ addrsUp addr up := by
    rw [addrs_plug_perm.mem_iff, List.mem_append, mem_addrs_node] at hy
    simpa [Piece.addrs, or_assoc] using hy
  have hx := h0.read []
  obtain ⟨m1, e1, h1⟩ := (h0.adopt hout hn).relink .left (some (addr y)) (by simp [Piece.addrs])
  obtain ⟨m2, e2, h2⟩ := h1.reparent [_, _] (some (addr y))
  obtain ⟨m3, e3, h3⟩ := h2.reparent [_, _, _] (some (addr y))
  have hx' := h3.read [_]
  obtain ⟨m4, e4, h4⟩ := h3.modify [] fun _ => cell .left (parentOf addr up) c (top addr l) (top addr r)
  have h5 := Laid.put (d := .left) [_] (h4.perm _ (List.Perm.swap _ _ _))
  refine ⟨m4, cell .left (parentOf addr up) c (top addr l) (top addr r), ?_, ?_⟩
  · simp only [cell] at e4
    simp only [rbReplaceNode, hx, cell, e1, e2, e3, hx', e4, Option.bind_eq_bind, Option.bind_some]
  · exact (laid_iff (t := .node c l y r)).mp
      (Laid.drop h5 (Function.update_self ..) fun j hj => Function.update_of_ne hj _ _)

theorem rbErase_tree (hrb : IsRedBlack t) (h : Holds addr rest m t) (hx : x ∈ t.inorder)
    (hrounds : 2 * Nat.log 2 (t.inorder.length + 1) + 1 < rounds) :
    ∃ m' v, rbErase rounds m (addr x) = some m' ∧
      Holds addr (Function.update rest (addr x) (some v)) m' ((rbtreeOps addr).erase t (addr x)) := by
  have hheight := hrb.height_le
  obtain ⟨pl, hloc, hentry, _⟩ := placeOf_split h.apart hx
  obtain ⟨htree, _⟩ := locate_spec hloc
  rw [plug] at htree
  have herase : (rbtreeOps addr).erase t (addr x) = eraseAt pl := by
    change RedBlack.rbErase addr t (addr x) = _
    rw [RedBlack.rbErase, hloc]
    rfl
  rw [herase, ← hentry]
  rw [← htree] at hrb h hheight hrounds
  exact rbErase_holds hrb h (by omega)

section

variable {before : ι → Option Bool} {b : α → Bool}

/-- A new node is put behind those that it does not come before, in a red-black tree that is one again, after no more
comparisons than its depth allows, and nothing is written but the nodes of the tree. -/
theorem addNode_in_order (ht : IsRedBlack t) (h : Holds addr rest m t) (hx : addr x ∉ addrs addr t)
    (halloc : (m.nodes (addr x)).isSome) (hb : Compared addr before b t) (hparted : Parted b t.inorder)
    (hrounds : 2 * Nat.log 2 (t.inorder.length + 1) < rounds) :
    ∃ m' w t', addNode rounds before m (addr x) = some (m', w) ∧ Holds addr rest m' t' ∧ IsRedBlack t' ∧
      t'.inorder = t.inorder.filter (fun y => !b y) ++ x :: t.inorder.filter b ∧
      (w.leftmost = true ↔ ∀ y ∈ t.inorder, b y = true) ∧ (w.rightmost = true ↔ ∀ y ∈ t.inorder, b y = false) ∧
      w.compares ≤ 2 * Nat.log 2 (t.inorder.length + 1) := by
  obtain ⟨m', w, e, h', hleft, hright, hcompares⟩ := addNode_holds ht h hx halloc hb hrounds
  refine ⟨m', w, _, e, h', insert_redBlack b ht hx, ?_, ?_, ?_, hcompares⟩
  · have hmem : x ∈ (t.link b x).1.inorder := by
      rw [inorder_link hparted]
      exact List.mem_append_right _ List.mem_cons_self
    rw [(rbtreeOps addr).inorder_insertColor _ x hmem, inorder_link hparted]
  · rw [hleft]
    exact link_leftmost hparted
  · rw [hright]
    exact rightmost_iff hparted

/-- A node in memory beside another one that is not in the tree yet. -/
def twoNodes : Mem Nat :=
  ⟨fun i => if i = 5 then some ⟨none, .black, none, none⟩ else if i = 3 then some ⟨none, .red, none, none⟩ else none,
    some 5⟩

theorem twoNodes_holds : Holds id twoNodes.nodes twoNodes (.node .black .leaf 5 .leaf) :=
  ⟨rfl, ⟨rfl, trivial, trivial⟩, List.nodup_singleton 5, fun _ _ => rfl⟩

theorem twoNodes_redBlack : IsRedBlack (.node .black .leaf 5 .leaf : RbRoot Nat) := ⟨⟨1, 0, rfl, rfl, rfl⟩, rfl⟩

theorem addNode_in_order_three : ∃ m' w t', addNode 4 (fun i => some (decide (3 < i))) twoNodes 3 = some (m', w) ∧
    Holds id twoNodes.nodes m' t' ∧ IsRedBlack t' ∧ t'.inorder = [3, 5] ∧
    (w.leftmost = true ↔ ∀ y ∈ [5], decide (3 < y) = true) ∧
    (w.rightmost = true ↔ ∀ y ∈ [5], decide (3 < y) = false) ∧
    w.compares ≤ 2 * Nat.log 2 2 :=
  addNode_in_order (x := 3) (t := .node .black .leaf 5 .leaf) (b := fun y => decide (3 < y))
    twoNodes_redBlack twoNodes_holds (by decide) rfl (fun _ _ => rfl) (List.pairwise_singleton _ 5) (by decide)

end

end OiAmc.Rbtree

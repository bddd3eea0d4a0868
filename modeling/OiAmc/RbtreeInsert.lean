import OiAmc.RbtreeHolds

namespace OiAmc.Rbtree

open GotoLoop RbTree RedBlack

variable {α ι : Type} [DecidableEq ι] {addr : α → ι} {rest : ι → Option (RbNode ι)} {m : Mem ι} {up : Path α}
  {t l r u : RbRoot α} {c : Color} {x y : α} {d : Side} {i : ι} {p g f : Frame α} {rounds : Nat}

def RootBlack (up : Path α) : Prop := ∀ f ∈ up.getLast?, f.color = .black

theorem RootBlack.tail (h : RootBlack (p :: g :: up)) : RootBlack (g :: up) := by
  intro f hf
  exact h f (by rw [List.getLast?_cons_cons]; exact hf)

theorem RootBlack.drop (h : RootBlack (p :: up)) : RootBlack up := by
  cases up with
  | nil => exact fun f hf => absurd hf (by simp)
  | cons g up => exact h.tail

omit [DecidableEq ι] in
theorem parent_holds (h : Holds addr rest m (plug up t)) (ht : top addr t = some i) :
    ∃ n, m.nodes i = some n ∧ n.parent = parentOf addr up := by
  cases t with
  | leaf => cases ht
  | node c l x r =>
      obtain rfl := Option.some.inj ht
      exact ⟨_, @read_holds _ _ addr rest m l r c x .left up h, cell_parent ..⟩

theorem insertRound_black (h : Holds addr rest m (plug (f :: up) t)) (ht : top addr t = some i)
    (hf : f.color = .black) : insertRound (m, i) = some (.inr m) := by
  obtain ⟨n, hn, hparent⟩ := parent_holds h ht
  have hp := read_holds up h
  simp only [insertRound, hn, hparent, parentOf_cons, hp, cell_color, hf, Option.bind_eq_bind, Option.bind_some,
    if_true]

theorem insertRound_root (h : Holds addr rest m (plug [] t)) (ht : top addr t = some i) :
    insertRound (m, i) = some (.inr m) := by
  obtain ⟨n, hn, hparent⟩ := parent_holds h ht
  simp only [insertRound, hn, hparent, parentOf, Option.bind_eq_bind, Option.bind_some]

theorem recolorFamily_holds (h : Holds addr rest m (plug (p :: g :: up) t)) (hs : g.sibling = .node .red l y r) :
    ∃ m', recolorFamily m (top addr g.sibling) (addr p.entry) (addr g.entry) = some m' ∧
      Holds addr rest m' (plug up (join g.side .red (join p.side .black t p.entry p.sibling) g.entry
        (.node .black l y r))) := by
  rw [plug, plug, hs, ← plug_other] at h
  obtain ⟨m1, e1, h1⟩ := setColor_holds (d := .left) _ .black h
  rw [plug_other] at h1
  obtain ⟨m2, e2, h2⟩ := setColor_holds (⟨g.side, g.color, g.entry, .node .black l y r⟩ :: up) .black h1
  obtain ⟨m3, e3, h3⟩ := setColor_holds up .red h2
  refine ⟨m3, ?_, h3⟩
  simp only [recolorFamily, hs, top, rbSetBlack, rbSetRed, e1, e2, e3, Option.bind_eq_bind, Option.bind_some]

theorem turnOver_holds (h : Holds addr rest m (plug (p :: g :: up) t)) (ht : top addr t = some i)
    (hp : p.color = .red) :
    ∃ m' node f t', turnOver g.side m (addr p.entry) (addr g.entry) i = some (m', node) ∧
      Holds addr rest m' (plug (f :: up) t') ∧ f.color = .black ∧ top addr t' = some node ∧
      plug (f :: up) t' = plug up (turned p g t g.sibling) := by
  have hread := read_holds (g :: up) h
  have hne := sibling_ne _ _ h ht
  by_cases hside : p.side = g.side
  · -- the node is on the outer side
    have hchild : ¬ (cell p.side (parentOf addr (g :: up)) p.color (top addr t) (top addr p.sibling)).child
        g.side.other = some i := by
      rw [hside, cell_child_other]
      exact hne
    obtain ⟨m1, e1, h1⟩ := setColor_holds (g :: up) .black h
    obtain ⟨m2, e2, h2⟩ := setColor_holds up .red h1
    rw [hside] at h2
    obtain ⟨m3, e3, h3⟩ := rotate_other_holds h2
    refine ⟨m3, i, ⟨g.side, .black, p.entry, join g.side .red p.sibling g.entry g.sibling⟩, t, ?_, h3, rfl, ht, ?_⟩
    · simp only [turnOver, straighten, hread, hchild, rbSetBlack, rbSetRed, e1, e2, e3, if_false, Option.bind_eq_bind,
        Option.bind_some]
    · rw [turned.eq_def, if_pos hside]
      rfl
  · -- the node takes the place of its parent first
    have hother : p.side = g.side.other := by
      cases hps : p.side <;> cases hgs : g.side <;> simp_all [Side.other]
    have hchild : (cell p.side (parentOf addr (g :: up)) p.color (top addr t) (top addr p.sibling)).child
        g.side.other = some i := by
      rw [hother, cell_child]
      exact ht
    cases t with
    | leaf => cases ht
    | node ct l x r =>
        obtain rfl := Option.some.inj ht
        rw [plug, hother, join_other, node_join g.side] at h
        obtain ⟨m1, e1, h1⟩ := rotate_holds h
        obtain ⟨m2, e2, h2⟩ := setColor_holds (g :: up) .black h1
        obtain ⟨m3, e3, h3⟩ := setColor_holds up .red h2
        obtain ⟨m4, e4, h4⟩ := rotate_other_holds h3
        refine ⟨m4, addr p.entry, ⟨g.side, .black, x, join g.side .red (g.side.other.pick l r) g.entry g.sibling⟩,
          join g.side p.color p.sibling p.entry (g.side.pick l r), ?_, h4, rfl, top_join, ?_⟩
        · simp only [turnOver, straighten, hread, hchild, rbSetBlack, rbSetRed, e1, e2, e3, e4, if_true,
            Option.bind_eq_bind, Option.bind_some]
        · rw [turned.eq_def, if_neg hside, hp]
          rfl

theorem insertRound_red (h : Holds addr rest m (plug (p :: g :: up) t)) (ht : top addr t = some i)
    (hp : p.color = .red) : insertRound (m, i) = if isRed g.sibling then
      (recolorFamily m (top addr g.sibling) (addr p.entry) (addr g.entry)).map fun m' => .inl (m', addr g.entry)
    else (turnOver g.side m (addr p.entry) (addr g.entry) i).map .inl := by
  obtain ⟨n, hn, hparent⟩ := parent_holds h ht
  have hpread := read_holds (g :: up) h
  have hgread := read_holds up h
  have hside := side_eq (q := parentOf addr up) (c := g.color) g (sibling_ne g up h top_join)
  have hred : redAt m (top addr g.sibling) = some (isRed g.sibling) := by
    have huncle := h
    rw [plug, plug, ← plug_other] at huncle
    exact redAt_holds _ huncle
  rw [top_join] at hgread
  simp only [insertRound, hn, hparent, parentOf_cons, hpread, cell_color, cell_parent, hp, reduceCtorEq, if_false,
    redParent, hgread, hside, cell_child_other, hred, Option.bind_eq_bind, Option.bind_some]
  split
  · cases recolorFamily m (top addr g.sibling) (addr p.entry) (addr g.entry) <;> rfl
  · cases turnOver g.side m (addr p.entry) (addr g.entry) i <;> rfl

theorem insertRounds_holds (k : Nat) (h : Holds addr rest m (plug up t)) (ht : top addr t = some i)
    (hroot : RootBlack up) : ∃ m' t', loop insertRound (up.length + k + 1) (m, i) = some m' ∧
      Holds addr rest m' t' ∧ t'.blacken = insertFix up t ∧ t' ≠ .leaf := by
  induction up, t using insertFix.induct generalizing m i k with
  | case1 t =>
      refine ⟨m, t, ?_, h, rfl, fun he => ?_⟩
      · rw [loop, insertRound_root h ht]
        rfl
      · rw [he] at ht
        cases ht
  | case2 p t =>
      refine ⟨m, plug [p] t, ?_, h, rfl, plug_cons_ne_leaf⟩
      rw [loop, insertRound_black h ht (hroot p rfl)]
      rfl
  | case3 p g up t hp =>
      refine ⟨m, plug (p :: g :: up) t, ?_, h, ?_, plug_cons_ne_leaf⟩
      · rw [loop, insertRound_black h ht hp]
        rfl
      · rw [insertFix, if_pos hp]
  | case4 p g up t hp l u r hs ih =>
      obtain ⟨m1, e1, h1⟩ := recolorFamily_holds h hs
      obtain ⟨m2, t', e2, h2, hfix, hne⟩ := ih (k + 1) h1 top_join hroot.drop.drop
      refine ⟨m2, t', ?_, h2, ?_, hne⟩
      · rw [loop, insertRound_red h ht (red_of_ne_black hp), e1, hs]
        simp only [isRed, if_true, Option.map_some, Option.bind_some, Sum.elim_inl, List.length_cons]
        rw [← e2]
        congr 1
        omega
      · rw [insertFix, if_neg hp]
        simp only [hs]
        exact hfix
  | case5 p g up t hp hs =>
      have hblack : isRed g.sibling = false := by
        cases hsib : g.sibling with
        | leaf => rfl
        | node c l u r =>
            cases c with
            | red => exact absurd hsib (hs l u r)
            | black => rfl
      obtain ⟨m1, j, f, t', e1, h1, hf, ht', hturned⟩ := turnOver_holds h ht (red_of_ne_black hp)
      refine ⟨m1, plug (f :: up) t', ?_, h1, ?_, plug_cons_ne_leaf⟩
      · rw [loop, insertRound_red h ht (red_of_ne_black hp), e1, hblack]
        simp only [Bool.false_eq_true, if_false, Option.map_some, Option.bind_some, Sum.elim_inl, List.length_cons]
        rw [Nat.add_right_comm _ 1 k, loop, insertRound_black h1 ht' hf]
        rfl
      · rw [hturned, insertFix, if_neg hp]
        split
        · rename_i l u r hsib
          exact absurd hsib (hs l u r)
        · rfl

theorem rbInsertColor_holds (h : Holds addr rest m (plug up t)) (ht : top addr t = some i) (hroot : RootBlack up)
    (hrounds : up.length < rounds) :
    ∃ m', rbInsertColor rounds m i = some m' ∧ Holds addr rest m' (insertFix up t) := by
  obtain ⟨k, rfl⟩ := Nat.exists_eq_add_of_lt hrounds
  obtain ⟨m1, t', e1, h1, hfix, hne⟩ := insertRounds_holds k h ht hroot
  obtain ⟨m2, e2, h2⟩ := blacken_holds [] h1
  cases t' with
  | leaf => exact absurd rfl hne
  | node c l x r =>
      refine ⟨m2, ?_, ?_⟩
      · rw [rbInsertColor, e1, Option.bind_eq_bind, Option.bind_some, h1.root]
        exact e2
      · rw [← hfix]
        exact h2

-- A new node.

/-- The nodes of a tree can be compared with a new one. -/
def Compared (addr : α → ι) (before : ι → Option Bool) (b : α → Bool) (t : RbRoot α) : Prop :=
  ∀ y ∈ t.inorder, before (addr y) = some (b y)

variable {before : ι → Option Bool} {b : α → Bool} {lm rm : Bool} {n : Nat}

omit [DecidableEq ι] in
theorem follow_holds (h : Holds addr rest m (plug up t)) : m.follow (linkOf addr up) = some (top addr t) := by
  cases up with
  | nil => exact congrArg some h.root
  | cons f up =>
      have hread := read_holds up h
      simp only [linkOf, Mem.follow, hread, Option.map_some, cell_child]

omit [DecidableEq ι] in
theorem walkRounds_holds (x : α) (up : Path α) (k : Nat) (h : Holds addr rest m (plug up t))
    (hb : Compared addr before b t) :
    loop (walkRound before m) (height t + k + 1) ⟨linkOf addr up, parentOf addr up, lm, rm, n⟩ =
      some ⟨linkOf addr (descend b up t), parentOf addr (descend b up t), lm && (t.link b x).2,
        rm && t.rightmost b, n + ((descend b up t).length - up.length)⟩ := by
  induction t generalizing up lm rm n k with
  | leaf =>
      rw [loop, walkRound, follow_holds h]
      simp [top, descend, RbRoot.link, RbRoot.rightmost]
  | node c l y r ihl ihr =>
      have hy : before (addr y) = some (b y) := hb y (List.mem_append_right _ List.mem_cons_self)
      have hbl : Compared addr before b l := fun z hz => hb z (List.mem_append_left _ hz)
      have hbr : Compared addr before b r := fun z hz =>
        hb z (List.mem_append_right _ (List.mem_cons_of_mem _ hz))
      rw [height, loop, walkRound, follow_holds h]
      simp only [top, hy, Option.bind_eq_bind, Option.bind_some, Sum.elim_inl, descend, RbRoot.link, RbRoot.rightmost]
      cases hby : b y with
      | true =>
          have hlen := le_length_descend b (⟨.left, c, y, r⟩ :: up) l
          have hih := @ihl (lm && true) (rm && !true) (n + 1) (⟨.left, c, y, r⟩ :: up)
            (max (height l) (height r) - height l + k) h hbl
          rw [List.length_cons] at hlen hih
          rw [show height l + (max (height l) (height r) - height l + k) + 1 =
            max (height l) (height r) + 1 + k by omega] at hih
          refine hih.trans ?_
          simp
          omega
      | false =>
          have hlen := le_length_descend b (⟨.right, c, y, l⟩ :: up) r
          have hih := @ihr (lm && false) (rm && !false) (n + 1) (⟨.right, c, y, l⟩ :: up)
            (max (height l) (height r) - height r + k) h hbr
          rw [List.length_cons] at hlen hih
          rw [show height r + (max (height l) (height r) - height r + k) + 1 =
            max (height l) (height r) + 1 + k by omega] at hih
          refine hih.trans ?_
          simp
          omega

theorem rbLinkNode_holds (h : Holds addr rest m (plug up .leaf)) (hx : addr x ∉ addrs addr (plug up .leaf))
    (halloc : (m.nodes (addr x)).isSome) :
    ∃ m', rbLinkNode m (addr x) (parentOf addr up) (linkOf addr up) = some m' ∧
      Holds addr rest m' (plug up (.node .red .leaf x .leaf)) := by
  obtain ⟨v, hv⟩ := Option.isSome_iff_exists.mp halloc
  have hout := hx
  rw [addrs_plug_perm.mem_iff] at hout
  have h0 := Laid.adopt (laid_iff.mpr h) (by simpa [Piece.addrs] using hout) hv
  obtain ⟨m1, e1, h1⟩ := h0.modify [] fun _ => ⟨parentOf addr up, .red, none, none⟩
  obtain ⟨m2, e2, h2⟩ := h1.hang (some (addr x))
  refine ⟨m2, ?_, laid_iff.mp (Laid.put (d := .left) [] (h2.exchange _ ?_ fun hlies p hp => ?_))⟩
  · rw [rbLinkNode, e1, Option.bind_eq_bind, Option.bind_some]
    exact e2
  · simp [Piece.addrs, addrs, RbRoot.inorder]
  · simp only [List.nil_append, List.mem_cons, List.not_mem_nil, or_false] at hp
    rcases hp with rfl | rfl | rfl
    · exact hlies _ List.mem_cons_self
    · trivial
    · trivial

theorem rootBlack_of (hne : up ≠ []) (h : isRed (plug up t) = false) : RootBlack up := by
  induction up generalizing t with
  | nil => exact absurd rfl hne
  | cons f up ih =>
      cases up with
      | nil =>
          intro g hg
          obtain rfl := Option.some.inj hg
          rw [plug, plug, isRed_join, decide_eq_false_iff_not] at h
          cases hc : f.color with
          | red => exact absurd hc h
          | black => exact hc
      | cons g up =>
          intro e he
          rw [List.getLast?_cons_cons] at he
          exact ih (List.cons_ne_nil _ _) h e he

theorem rootBlack_plug (h : IsRedBlack (plug up t)) : RootBlack up := by
  cases up with
  | nil => exact fun f hf => absurd hf (by simp)
  | cons f up => exact rootBlack_of (List.cons_ne_nil _ _) h.black

theorem walk_holds (x : α) (h : Holds addr rest m t) (hb : Compared addr before b t) (hrounds : height t < rounds) :
    ∃ w, walk rounds before m = some w ∧ w.link = linkOf addr (descend b [] t) ∧
      w.parent = parentOf addr (descend b [] t) ∧ w.leftmost = (t.link b x).2 ∧ w.rightmost = t.rightmost b ∧
      w.compares = (descend b [] t).length := by
  obtain ⟨k, rfl⟩ := Nat.exists_eq_add_of_lt hrounds
  refine ⟨_, walkRounds_holds x [] k h hb, rfl, rfl, Bool.true_and _, Bool.true_and _, ?_⟩
  simp

theorem addNode_holds (ht : IsRedBlack t) (h : Holds addr rest m t) (hx : addr x ∉ addrs addr t)
    (halloc : (m.nodes (addr x)).isSome) (hb : Compared addr before b t)
    (hrounds : 2 * Nat.log 2 (t.inorder.length + 1) < rounds) :
    ∃ m' w, addNode rounds before m (addr x) = some (m', w) ∧
      Holds addr rest m' ((rbtreeOps addr).insertColor (t.link b x).1 (addr x)) ∧ w.leftmost = (t.link b x).2 ∧
      w.rightmost = t.rightmost b ∧ w.compares ≤ 2 * Nat.log 2 (t.inorder.length + 1) := by
  have hheight := ht.height_le
  have hlen := length_descend b [] t
  rw [List.length_nil, Nat.zero_add] at hlen
  obtain ⟨w, ew, hlink, hparent, hleft, hright, hcompares⟩ := walk_holds x h hb (hheight.trans_lt hrounds)
  have hleaf : Holds addr rest m (plug (descend b [] t) .leaf) := by
    rw [plug_descend]
    exact h
  obtain ⟨m1, e1, h1⟩ := rbLinkNode_holds hleaf (by rwa [plug_descend]) halloc
  have hroot : RootBlack (descend b [] t) := by
    refine rootBlack_plug (t := .leaf) ?_
    rw [plug_descend]
    exact ht
  obtain ⟨m2, e2, h2⟩ := rbInsertColor_holds h1 rfl hroot (show (descend b [] t).length < rounds by omega)
  refine ⟨m2, w, ?_, ?_, hleft, hright, by omega⟩
  · simp only [addNode, ew, hlink, hparent, e1, e2, Option.bind_eq_bind, Option.bind_some]
  · rw [insertColor_link b hx]
    exact h2

end OiAmc.Rbtree

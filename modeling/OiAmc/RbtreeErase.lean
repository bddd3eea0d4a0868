import OiAmc.RbtreeHolds

namespace OiAmc.Rbtree

open GotoLoop RbTree RedBlack

variable {α ι : Type} [DecidableEq ι] {addr : α → ι} {rest : ι → Option (RbNode ι)} {m m' : Mem ι} {up : Path α}
  {t l r o near far : RbRoot α} {c oc : Color} {x y : α} {d : Side} {p f : Frame α} {rounds n : Nat} {pl : Place α}

-- The rounds of __rb_erase_color.

omit [DecidableEq ι] in
theorem redAt_far (h : Holds addr rest m (plug up (join d c t x (join d oc near y far)))) :
    redAt m (top addr far) = some (isRed far) := by
  rw [← plug_other, ← plug_other] at h
  exact redAt_holds _ h

omit [DecidableEq ι] in
theorem redAt_near (h : Holds addr rest m (plug up (join d c t x (join d oc near y far)))) :
    redAt m (top addr near) = some (isRed near) := by
  rw [← plug_other] at h
  exact redAt_holds (⟨d, oc, y, far⟩ :: ⟨d.other, c, x, t⟩ :: up) h

omit [DecidableEq ι] in
theorem read_sibling (h : Holds addr rest m (plug up (join d c t x (join d oc near y far)))) :
    m.nodes (addr y) = some (cell d (some (addr x)) oc (top addr near) (top addr far)) := by
  rw [← plug_other] at h
  exact read_holds _ h

theorem redFarChild_near {z : α} {inner outer : RbRoot α}
    (h : Holds addr rest m (plug up (join d c t x (join d oc (join d .red inner z outer) y far))))
    (hfar : isRed far = false) : ∃ m', redFarChild d m (addr x) (addr y) = some (m', addr z) ∧
      Holds addr rest m' (plug up (join d c t x (join d .black inner z (join d .red outer y far)))) := by
  have hread := read_sibling h
  have hred := redAt_far h
  rw [hfar] at hred
  rw [← plug_other] at h
  obtain ⟨m1, e1, h1⟩ := setColor_holds (⟨d, oc, y, far⟩ :: ⟨d.other, c, x, t⟩ :: up) .black h
  obtain ⟨m2, e2, h2⟩ := setColor_holds (⟨d.other, c, x, t⟩ :: up) .red h1
  obtain ⟨m3, e3, h3⟩ := rotate_other_holds h2
  rw [plug_other] at h3
  have hparent := read_holds _ h3
  refine ⟨m3, ?_, h3⟩
  simp only [redFarChild, hread, cell_child_other, cell_child, hred, top_join, onNode, rbSetBlack, rbSetRed, e1, e2,
    e3, hparent, Bool.false_eq_true, if_false, Option.bind_eq_bind, Option.bind_some]

theorem redFarChild_far (h : Holds addr rest m (plug up (join d c t x (join d oc near y far))))
    (hfar : isRed far = true) : redFarChild d m (addr x) (addr y) = some (m, addr y) := by
  have hread := read_sibling h
  have hred := redAt_far h
  rw [hfar] at hred
  simp only [redFarChild, hread, cell_child_other, hred, if_true, Option.bind_eq_bind, Option.bind_some]

theorem lastTurn_holds {other : ι} (hfirst : redFarChild d m (addr x) other = some (m', addr y))
    (h : Holds addr rest m' (plug up (join d c t x (join d oc near y far)))) :
    ∃ m'', lastTurn d m (addr x) other = some m'' ∧
      Holds addr rest m'' (plug up (join d c (join d .black t x near) y far.blacken)) := by
  have hparent := read_holds _ h
  rw [← plug_other] at h
  obtain ⟨m1, e1, h1⟩ := setColor_holds _ c h
  rw [plug_other] at h1
  obtain ⟨m2, e2, h2⟩ := setColor_holds _ .black h1
  have hread := read_sibling h2
  have hfar : Holds addr rest m2 (plug (⟨d.other, c, y, near⟩ :: ⟨d.other, .black, x, t⟩ :: up) far) := by
    rw [plug_other, plug_other]
    exact h2
  obtain ⟨m3, e3, h3⟩ := blacken_holds _ hfar
  rw [plug_other, plug_other] at h3
  obtain ⟨m4, e4, h4⟩ := rotate_holds h3
  refine ⟨m4, ?_, h4⟩
  simp only [rbSetBlack] at e3
  simp only [lastTurn, hfirst, hparent, cell_color, rbSetBlack, e1, e2, hread, cell_child_other, e3, e4,
    Option.bind_eq_bind, Option.bind_some]

theorem red_node (h : isRed t = true) : ∃ l x r, t = .node .red l x r := by
  cases t with
  | leaf => cases h
  | node c l x r =>
      cases c with
      | red => exact ⟨l, x, r, rfl⟩
      | black => cases h

@[simp] theorem blacken_join : (join d c l x r).blacken = join d .black l x r := by cases d <;> rfl

theorem shortRound_far (h : isRed (d.other.pick l r) = true) : shortRound d c t x (.node oc l y r) =
    (join d c (join d .black t x (d.pick l r)) y (d.other.pick l r).blacken, false) := by
  rw [shortRound, if_pos h]

theorem shortRound_near {z : α} {l' r' : RbRoot α} (hf : isRed (d.other.pick l r) = false)
    (hz : d.pick l r = .node .red l' z r') : shortRound d c t x (.node oc l y r) =
      (join d c (join d .black t x (d.pick l' r')) z (join d .black (d.other.pick l' r') y (d.other.pick l r)),
        false) := by
  rw [shortRound, if_neg (by rw [hf]; exact Bool.false_ne_true)]
  simp only [hz]

theorem shortRound_black (hf : isRed (d.other.pick l r) = false) (hn : isRed (d.pick l r) = false) :
    shortRound d c t x (.node oc l y r) = (join d c t x (.node .red l y r), true) := by
  rw [shortRound, if_neg (by rw [hf]; exact Bool.false_ne_true)]
  split
  · rename_i l' z r' hz
    rw [hz] at hn
    cases hn
  · rfl

theorem besideBlack_holds (up : Path α) {os : RbRoot α} (hos : os = .node oc l y r)
    (h : Holds addr rest m (plug up (join d c t x os))) : ∃ m',
      besideBlack d m (addr x) (addr y) = some (if (shortRound d c t x os).2 then
        .inl ⟨m', some (addr x), parentOf addr up⟩ else .inr (m', m'.root)) ∧
      Holds addr rest m' (plug up (shortRound d c t x os).1) := by
  subst hos
  rw [node_join d] at h
  have hread := read_sibling h
  have hfar := redAt_far h
  have hnear := redAt_near h
  have hboth : redAt m (cell d (some (addr x)) oc (top addr (d.pick l r)) (top addr (d.other.pick l r))).left =
      some (isRed l) ∧
      redAt m (cell d (some (addr x)) oc (top addr (d.pick l r)) (top addr (d.other.pick l r))).right = some (isRed r) := by
    cases d with
    | left => exact ⟨hnear, hfar⟩
    | right => exact ⟨hfar, hnear⟩
  have hcond : (!isRed l && !isRed r) = (!isRed (d.pick l r) && !isRed (d.other.pick l r)) := by
    cases d with
    | left => rfl
    | right => exact Bool.and_comm _ _
  rw [besideBlack, hread, Option.bind_eq_bind, Option.bind_some, hboth.1, Option.bind_eq_bind, Option.bind_some,
    hboth.2, Option.bind_eq_bind, Option.bind_some, hcond]
  cases hf : isRed (d.other.pick l r) with
  | true =>
      obtain ⟨m1, e1, h1⟩ := lastTurn_holds (redFarChild_far h hf) h
      rw [shortRound_far hf]
      refine ⟨m1, ?_, h1⟩
      rw [e1]
      simp
  | false =>
      cases hn : isRed (d.pick l r) with
      | true =>
          obtain ⟨l', z, r', hz⟩ := red_node hn
          rw [hz, node_join d .red] at h
          obtain ⟨m1, e1, h1⟩ := redFarChild_near h hf
          obtain ⟨m2, e2, h2⟩ := lastTurn_holds e1 h1
          rw [blacken_join] at h2
          rw [shortRound_near hf hz]
          refine ⟨m2, ?_, h2⟩
          rw [e2]
          simp
      | false =>
          rw [← plug_other] at h
          obtain ⟨m1, e1, h1⟩ := setColor_holds _ .red h
          rw [plug_other, ← node_join] at h1
          have hparent := read_holds _ h1
          rw [shortRound_black hf hn]
          refine ⟨m1, ?_, h1⟩
          simp only [rbSetRed, e1, hparent, cell_parent, Option.bind_some, Bool.not_false,
            Bool.and_self, if_true]

theorem blackSibling_red {i : ι} (h : Holds addr rest m (plug up (join d c t x (.node .red l y r))))
    (hi : top addr (d.pick l r) = some i) : ∃ m', blackSibling d m (addr x) = some (m', i) ∧
      Holds addr rest m' (plug up (join d .black (join d .red t x (d.pick l r)) y (d.other.pick l r))) := by
  rw [node_join d] at h
  have hparent := read_holds _ h
  have hread := read_sibling h
  have hsib := h
  rw [← plug_other] at hsib
  obtain ⟨m1, e1, h1⟩ := setColor_holds _ .black hsib
  rw [plug_other] at h1
  obtain ⟨m2, e2, h2⟩ := setColor_holds _ .red h1
  obtain ⟨m3, e3, h3⟩ := rotate_holds h2
  have hlow := read_holds (⟨d, .black, y, d.other.pick l r⟩ :: up) h3
  refine ⟨m3, ?_, h3⟩
  simp only [blackSibling, hparent, cell_child_other, top_join, hread, cell_color, if_true, rbSetBlack, rbSetRed, e1,
    e2, e3, hlow, hi, Option.bind_eq_bind, Option.bind_some]

theorem blackSibling_black (h : Holds addr rest m (plug up (join d c t x (.node .black l y r)))) :
    blackSibling d m (addr x) = some (m, addr y) := by
  rw [node_join d] at h
  have hparent := read_holds _ h
  have hread := read_sibling h
  simp only [blackSibling, hparent, cell_child_other, top_join, hread, cell_color, reduceCtorEq, if_false,
    Option.bind_eq_bind, Option.bind_some]

theorem eraseRound_stop (h : Holds addr rest m (plug up t)) (hstop : up = [] ∨ isRed t = true) (parent : Option ι) :
    eraseRound ⟨m, top addr t, parent⟩ = some (.inr (m, top addr t)) := by
  have hred := redAt_holds _ h
  have hroot : up = [] → top addr t = m.root := by
    rintro rfl
    exact h.root.symm
  rw [eraseRound, hred, Option.bind_eq_bind, Option.bind_some, if_pos]
  rcases hstop with hup | hr
  · simp [hroot hup]
  · simp [hr]

theorem eraseRound_step (h : Holds addr rest m (plug (p :: up) t)) (hr : isRed t = false)
    (hne : top addr p.sibling ≠ top addr t) :
    eraseRound ⟨m, top addr t, parentOf addr (p :: up)⟩ = (blackSibling p.side m (addr p.entry)).bind fun s =>
      besideBlack p.side s.1 (addr p.entry) s.2 := by
  have hred := redAt_holds _ h
  rw [hr] at hred
  have hread := read_holds up h
  have hside := side_eq (q := parentOf addr up) (c := p.color) p hne
  have hroot := root_ne h
  simp only [eraseRound, hred, hroot, decide_false, Bool.or_false, Bool.false_eq_true, if_false, parentOf_cons,
    eraseStep, hread, hside, Option.bind_eq_bind, Option.bind_some]

theorem rbEraseColor_go {s s' : Shortage ι} (h : eraseRound s = some (.inl s')) :
    rbEraseColor (rounds + 1) s.mem s.node s.parent = rbEraseColor rounds s'.mem s'.node s'.parent := by
  rw [rbEraseColor, loop]
  change (((eraseRound s).bind _).bind _) = _
  rw [h]
  rfl

theorem rbEraseColor_leave {s : Shortage ι} {node : Option ι} (h : eraseRound s = some (.inr (m', node))) :
    rbEraseColor (rounds + 1) s.mem s.node s.parent = onNode node (fun i m => rbSetBlack m i) m' := by
  rw [rbEraseColor, loop]
  change (((eraseRound s).bind _).bind _) = _
  rw [h]
  rfl

omit [DecidableEq ι] in
theorem top_shortRound {os : RbRoot α} (h : (shortRound d c t x os).2 = true) :
    top addr (shortRound d c t x os).1 = some (addr x) := by
  revert h
  cases os with
  | leaf => exact fun _ => top_join
  | node oc l y r =>
      rw [shortRound]
      split
      · intro h
        cases h
      · split
        · intro h
          cases h
        · exact fun _ => top_join

theorem shortRound_short {os : RbRoot α} (ht : Balanced t n) (ho : Balanced os (n + 1)) (hor : isRed os = false)
    (hup : Fits up (Color.add c (n + 1))) (hq : (shortRound d c t x os).2 = true) :
    ∃ k, Fits up (k + 1) ∧ Short (shortRound d c t x os).1 k := by
  obtain ⟨hcolor, hshort, _⟩ := @shortRound_spec _ _ _ c d x _ ht ho hor
  cases c with
  | black =>
      refine ⟨n + 1, hup, ?_⟩
      rw [Short, hcolor]
      exact hshort hq
  | red =>
      refine ⟨n, hup, ?_⟩
      rw [Short, hcolor]
      exact hshort hq

theorem black_node (h : Balanced t (n + 1)) (hr : isRed t = false) : ∃ l x r, t = .node .black l x r := by
  cases t with
  | leaf => cases h
  | node c l x r =>
      cases c with
      | red => cases hr
      | black => exact ⟨l, x, r, rfl⟩

theorem balanced_ne_leaf (h : Balanced t (n + 1)) : t ≠ .leaf := by
  rintro rfl
  cases h

omit [DecidableEq ι] in
theorem sibling_top_ne (h : Holds addr rest m (plug (p :: up) t)) (hs : p.sibling ≠ .leaf) :
    top addr p.sibling ≠ top addr t := by
  cases t with
  | leaf =>
      intro he
      cases hsib : p.sibling with
      | leaf => exact hs hsib
      | node c l x r =>
          rw [hsib] at he
          cases he
  | node c l x r => exact sibling_ne _ _ h rfl

theorem rbEraseColor_red (h : Holds addr rest m (plug (p :: up) t)) (hs : p.sibling = .node .red l y r)
    (hsib : Balanced (.node .red l y r) (n + 1)) (hr : isRed t = false) (hbal : Balanced t n) :
    ∃ m', rbEraseColor (rounds + 2) m (top addr t) (parentOf addr (p :: up)) = some m' ∧ Holds addr rest m'
      (if (shortRound p.side .red t p.entry (p.side.pick l r)).2 then
        plug (⟨p.side, .black, y, p.side.other.pick l r⟩ :: up)
          (shortRound p.side .red t p.entry (p.side.pick l r)).1.blacken
      else (plug (⟨p.side, .black, y, p.side.other.pick l r⟩ :: up)
        (shortRound p.side .red t p.entry (p.side.pick l r)).1).blacken) := by
  have hnear : Balanced (p.side.pick l r) (n + 1) ∧ isRed (p.side.pick l r) = false := by
    cases p.side with
    | left => exact ⟨hsib.2.2.1, hsib.1⟩
    | right => exact ⟨hsib.2.2.2, hsib.2.1⟩
  obtain ⟨l', z, r', hos⟩ := black_node hnear.1 hnear.2
  have htop : top addr (p.side.pick l r) = some (addr z) := by
    rw [hos]
    rfl
  have hstep := eraseRound_step h hr (sibling_top_ne h (by rw [hs]; exact balanced_ne_leaf hsib))
  rw [plug, hs] at h
  obtain ⟨m1, e1, h1⟩ := blackSibling_red h htop
  obtain ⟨m2, e2, h2⟩ := besideBlack_holds (⟨p.side, .black, y, p.side.other.pick l r⟩ :: up) hos h1
  rw [e1, Option.bind_some, e2] at hstep
  cases hq : (shortRound p.side .red t p.entry (p.side.pick l r)).2 with
  | true =>
      have hred : isRed (shortRound p.side .red t p.entry (p.side.pick l r)).1 = true :=
        (shortRound_spec hbal hnear.1 hnear.2).1
      obtain ⟨m3, e3, h3⟩ := blacken_holds _ h2
      refine ⟨m3, ?_, h3⟩
      have hstop := eraseRound_stop h2 (.inr hred)
        (parentOf addr (⟨p.side, .black, y, p.side.other.pick l r⟩ :: up))
      rw [top_shortRound hq] at e3 hstop
      rw [hq, if_pos rfl] at hstep
      rw [← e3]
      exact (rbEraseColor_go hstep).trans (rbEraseColor_leave hstop)
  | false =>
      obtain ⟨m3, e3, h3⟩ := blackenRoot_holds h2
      refine ⟨m3, ?_, h3⟩
      rw [hq, if_neg Bool.false_ne_true] at hstep
      rw [← e3]
      exact rbEraseColor_leave hstep

theorem rbEraseColor_holds (k : Nat) (h : Holds addr rest m (plug up t)) (hfits : Fits up (n + 1)) (ht : Short t n) :
    ∃ m', rbEraseColor (up.length + k + 2) m (top addr t) (parentOf addr up) = some m' ∧
      Holds addr rest m' (eraseFix up t) := by
  induction up generalizing m t n k with
  | nil =>
      obtain ⟨m', e, h'⟩ := blacken_holds _ h
      refine ⟨m', ?_, h'⟩
      rw [← e]
      exact rbEraseColor_leave (s := ⟨m, top addr t, none⟩) (eraseRound_stop h (.inl rfl) _)
  | cons p up ih =>
      rw [eraseFix]
      cases hr : isRed t with
      | true =>
          obtain ⟨m', e, h'⟩ := blacken_holds _ h
          refine ⟨m', ?_, h'⟩
          rw [← e]
          exact rbEraseColor_leave (s := ⟨m, top addr t, _⟩) (eraseRound_stop h (.inr hr) _)
      | false =>
          rw [if_neg Bool.false_ne_true]
          obtain ⟨hsib, hpr, hup⟩ := hfits
          have hbal := ht.balanced hr
          have hstep := eraseRound_step h hr (sibling_top_ne h (balanced_ne_leaf hsib))
          have hjoin : Holds addr rest m (plug up (join p.side p.color t p.entry p.sibling)) := h
          cases hs : p.sibling with
          | leaf => exact absurd hs (balanced_ne_leaf hsib)
          | node color l o r =>
              rw [hs] at hsib hjoin
              cases color with
              | black =>
                  obtain ⟨m1, e1, h1⟩ := besideBlack_holds _ rfl hjoin
                  rw [blackSibling_black hjoin, Option.bind_some, e1] at hstep
                  simp only
                  cases hq : (shortRound p.side p.color t p.entry (.node .black l o r)).2 with
                  | true =>
                      obtain ⟨j, hfits', hshort⟩ := shortRound_short hbal hsib rfl hup hq
                      obtain ⟨m2, e2, h2⟩ := ih k h1 hfits' hshort
                      refine ⟨m2, ?_, h2⟩
                      rw [hq, if_pos rfl] at hstep
                      rw [top_shortRound hq] at e2
                      rw [← e2]
                      refine (rbEraseColor_go hstep).trans ?_
                      congr 1
                      rw [List.length_cons]
                      omega
                  | false =>
                      obtain ⟨m2, e2, h2⟩ := blackenRoot_holds h1
                      refine ⟨m2, ?_, h2⟩
                      rw [hq, if_neg Bool.false_ne_true] at hstep
                      rw [← e2]
                      exact rbEraseColor_leave hstep
              | red => exact rbEraseColor_red (p := p) h hs hsib hr hbal

-- What goes from its place.

theorem bypass_holds {near : RbRoot α} (h : Holds addr rest m (plug up (join d c .leaf x near))) {n : RbNode ι}
    (hn : m.nodes (addr x) = some n) : ∃ m', bypass m (addr x) n (top addr near) =
      some (m', c, top addr near, parentOf addr up) ∧
        Holds addr (Function.update rest (addr x) (some n)) m' (plug up near) := by
  have h0 := laid_iff.mpr h
  rw [top_join] at h0
  have h1 := Laid.take [] h0
  have hread := h1.read []
  rw [hn] at hread
  obtain rfl := Option.some.inj hread
  obtain ⟨m1, e1, h2⟩ := h1.reparent [_, _] (parentOf addr up)
  obtain ⟨m2, e2, h3⟩ := h2.relink .left (top addr near) (by simp [Piece.addrs])
  refine ⟨m2, ?_, ?_⟩
  · simp only [bypass, cell_parent, cell_color, e1, e2, Option.bind_eq_bind, Option.bind_some]
  · refine laid_iff.mp (Laid.drop (h3.exchange [.node (addr x) _, .tree _ near] ?_ fun hlies p hp => ?_)
      (Function.update_self ..) fun j hj => Function.update_of_ne hj _ _)
    · simp [Piece.addrs, addrs, RbRoot.inorder]
    · refine hlies p ?_
      simp only [List.mem_cons, List.not_mem_nil, or_false, List.nil_append, List.cons_append] at hp ⊢
      tauto

theorem cutNext_holds {path : Path α} {nc : Color} {s : RbRoot α}
    (h : Holds addr rest m (plug (path ++ ⟨.right, c, x, l⟩ :: up) (.node nc .leaf y s)))
    (hpath : ∀ f ∈ path, f.side = .left) : ∃ m' n, m.nodes (addr y) = some n ∧ n.color = nc ∧ n.right = top addr s ∧
      cutNext m (addr x) (addr y) n = some (m', parentOf addr (path ++ ⟨.right, c, y, l⟩ :: up)) ∧
      Laid addr rest m' (⟨.right, c, x, l⟩ :: up) (top addr (plug path s))
        [.tree (some (addr x)) (plug path s), .node (addr y) n] := by
  have h1 := Laid.take (d := .left) [] (laid_iff.mpr h)
  have hn := h1.read []
  obtain ⟨m1, e1, h2⟩ := h1.reparent [_, _] (parentOf addr (path ++ ⟨.right, c, x, l⟩ :: up))
  obtain ⟨m2, e2, h3⟩ := h2.hang (top addr s)
  have h3' : Laid addr rest m2 (path ++ ⟨.right, c, x, l⟩ :: up) (top addr s)
    [.node (addr y) _, .tree _ .leaf, .tree _ s] := h3
  have hpieces := h3'.exchange [.tree _ s, .node (addr y) _] (by simp [Piece.addrs, addrs, RbRoot.inorder])
    fun hlies p hp => hlies p (by
      simp only [List.mem_cons, List.not_mem_nil, or_false] at hp ⊢
      tauto)
  refine ⟨m2, _, hn, rfl, rfl, ?_, laid_shut.mp hpieces⟩
  simp only [cutNext, cell, e1, Option.bind_eq_bind, Option.bind_some]
  cases path with
  | nil =>
      simp only [List.nil_append, linkOf, parentOf] at e2 ⊢
      rw [Option.bind_some, if_pos rfl, e2]
      rfl
  | cons f path =>
      have hne : addr f.entry ≠ addr x := by
        intro he
        refine (List.nodup_cons.mp (List.nodup_append.mp h.nodup).2.1).1 (List.mem_append_right _ ?_)
        rw [he]
        exact mem_addrsUp (f := ⟨.right, c, x, l⟩) (List.mem_append_right _ List.mem_cons_self)
      have hside := hpath f List.mem_cons_self
      simp only [List.cons_append, linkOf, parentOf, hside] at e2 ⊢
      rw [Option.bind_some, if_neg hne, e2]
      rfl

theorem takePlace_holds {path : Path α} {nc : Color} {s : RbRoot α}
    (h : Holds addr rest m (plug up (.node c l x (plug path (.node nc .leaf y s)))))
    (hpath : ∀ f ∈ path, f.side = .left) (hl : l ≠ .leaf) :
    ∃ m' v, takePlace m (addr x) (addr y) =
      some (m', nc, top addr s, parentOf addr (path ++ ⟨.right, c, y, l⟩ :: up)) ∧
        Holds addr (Function.update rest (addr x) (some v)) m' (plug (path ++ ⟨.right, c, y, l⟩ :: up) s) := by
  have hplug : plug up (.node c l x (plug path (.node nc .leaf y s))) =
      plug (path ++ ⟨.right, c, x, l⟩ :: up) (.node nc .leaf y s) :=
    (plug_append path (⟨.right, c, x, l⟩ :: up) (.node nc .leaf y s)).symm
  rw [hplug] at h
  obtain ⟨m2, n, hn, hcolor, hright, e2, h4⟩ := cutNext_holds h hpath
  have h5 := h4.lower
  have ho := h5.read []
  obtain ⟨m3, e3, h6⟩ := h5.modify [_, _, _] fun _ =>
    cell .right (parentOf addr up) c (top addr (plug path s)) (top addr l)
  obtain ⟨m4, e4, h7⟩ := h6.relink .left (some (addr y)) (by simp [Piece.addrs])
  obtain ⟨m5, e5, h8⟩ := h7.reparent [_] (some (addr y))
  obtain ⟨m6, e6, h9⟩ := h8.reparent [_, _] (some (addr y))
  obtain ⟨i, hi⟩ : ∃ i, top addr l = some i := by
    cases l with
    | leaf => exact absurd rfl hl
    | node lc ll lx lr => exact ⟨addr lx, rfl⟩
  -- the pieces of the node in its new place come together
  have h9' : Laid addr rest m6 up (some (addr y))
    [.node (addr x) _, .tree _ l, .tree _ (plug path s), .node (addr y) _] := h9
  have hput := Laid.put (d := .right) [_] (h9'.perm
    [.node (addr x) _, .node (addr y) _, .tree _ (plug path s), .tree _ l]
    (List.Perm.cons _ (List.reverse_perm [_, _, _])))
  have hdrop : Laid addr rest m6 up (some (addr y))
    [.node (addr x) (cell .right (parentOf addr up) c (top addr (plug path s)) (top addr l)),
      .tree (parentOf addr up) (.node c l y (plug path s))] := hput
  refine ⟨m6, cell .right (parentOf addr up) c (top addr (plug path s)) (top addr l), ?_, ?_⟩
  · simp only [hi, onNode, cell] at e3 e5
    simp only [takePlace, hn, e2, ho, cell, hi, e3, e4, e5, e6, hcolor, hright, Option.bind_eq_bind, Option.bind_some]
  · rw [plug_append]
    refine (laid_iff (t := .node c l y (plug path s))).mp ?_
    exact Laid.drop hdrop (Function.update_self ..) fun j hj => Function.update_of_ne hj _ _

/-- The first entry of a tree on the given side. -/
def endEntry (d : Side) (t : RbRoot α) : Option α := d.pick t.inorder.head? t.inorder.getLast?

theorem endEntry_node (d : Side) (c : Color) (l : RbRoot α) (x : α) (r : RbRoot α) :
    endEntry d (.node c l x r) = (endEntry d (d.pick l r)).or (some x) := by
  cases d with
  | left => simp [endEntry, Side.pick, RbRoot.inorder, List.head?_append]
  | right =>
      simp only [endEntry, Side.pick, RbRoot.inorder, List.getLast?_append, List.getLast?_cons, Option.some_or]
      cases r.inorder.getLast? <;> rfl

omit [DecidableEq ι] in
theorem downRounds_holds (up : Path α) {i : ι} (d : Side) (k : Nat) (h : Holds addr rest m (plug up t))
    (hi : top addr t = some i) :
    ∃ x, endEntry d t = some x ∧ loop (downRound d m) (height t + k) i = some (addr x) := by
  induction t generalizing up i k with
  | leaf => cases hi
  | node c l x r ihl ihr =>
      obtain rfl := Option.some.inj hi
      have hih (up : Path α) {i : ι} (k : Nat) (h : Holds addr rest m (plug up (d.pick l r)))
          (hi : top addr (d.pick l r) = some i) : ∃ x, endEntry d (d.pick l r) = some x ∧
            loop (downRound d m) (height (d.pick l r) + k) i = some (addr x) := by
        cases d with
        | left => exact ihl up k h hi
        | right => exact ihr up k h hi
      have hle : height (d.pick l r) ≤ max (height l) (height r) := by
        cases d with
        | left => exact Nat.le_max_left _ _
        | right => exact Nat.le_max_right _ _
      rw [node_join d] at h
      have hread := read_holds _ h
      rw [height, Nat.add_right_comm, loop, downRound, hread, Option.map_some, cell_child, Option.bind_some,
        endEntry_node]
      cases hnear : top addr (d.pick l r) with
      | none =>
          refine ⟨x, ?_, rfl⟩
          cases hp : d.pick l r with
          | leaf => cases d <;> rfl
          | node c' l' y r' =>
              rw [hp] at hnear
              cases hnear
      | some j =>
          obtain ⟨y, hy, hloop⟩ := hih (⟨d, c, x, d.other.pick l r⟩ :: up)
            (max (height l) (height r) - height (d.pick l r) + k) h hnear
          refine ⟨y, ?_, ?_⟩
          · rw [hy]
            rfl
          · simp only [Sum.elim_inl]
            rw [← hloop]
            congr 1
            omega

theorem detach_holds (h : Holds addr rest m (plug pl.up pl.tree)) (hrounds : height pl.right ≤ rounds) :
    ∃ m' v, detach rounds m (addr pl.entry) =
      some (m', (gap pl).color, top addr (gap pl).child, parentOf addr (gap pl).up) ∧
        Holds addr (Function.update rest (addr pl.entry) (some v)) m' (plug (gap pl).up (gap pl).child) := by
  obtain ⟨up, c, l, x, r⟩ := pl
  rw [Place.tree] at h
  have hread := read_holds (d := .left) _ h
  cases l with
  | leaf =>
      obtain ⟨m', e, h'⟩ := bypass_holds (d := .left) h hread
      refine ⟨m', _, ?_, h'⟩
      rw [detach, hread]
      exact e
  | node lc ll lx lr =>
      cases r with
      | leaf =>
          obtain ⟨m', e, h'⟩ := bypass_holds (d := .right) h hread
          refine ⟨m', _, ?_, h'⟩
          rw [detach, hread]
          exact e
      | node rc rl rx rr =>
          obtain ⟨k, rfl⟩ := Nat.exists_eq_add_of_le hrounds
          obtain ⟨y, hy, hloop⟩ := downRounds_holds (⟨.right, c, x, .node lc ll lx lr⟩ :: up)
            (t := .node rc rl rx rr) (i := addr rx) .left k h rfl
          cases hmin : leftmost [] (.node rc rl rx rr) with
          | none => exact absurd (leftmost_none hmin) (by simp)
          | some next =>
              obtain ⟨hplug, hleft, down, hdown, hbefore⟩ := leftmost_spec hmin
              rw [List.append_nil] at hdown
              rw [← hdown] at hbefore
              rw [endEntry, Side.pick, inorder_leftmost hmin] at hy
              obtain rfl := Option.some.inj hy
              rw [plug, Place.tree, hleft] at hplug
              rw [← hplug] at h
              obtain ⟨m', v, e, h'⟩ := takePlace_holds h (side_of_before hbefore) (by simp)
              have hgap : gap ⟨up, c, .node lc ll lx lr, x, .node rc rl rx rr⟩ =
                  ⟨next.up ++ ⟨.right, c, next.entry, .node lc ll lx lr⟩ :: up, next.color, next.right⟩ := by
                rw [gap]
                simp only [hmin]
              rw [hgap]
              refine ⟨m', v, ?_, h'⟩
              rw [detach, hread, Option.bind_eq_bind, Option.bind_some]
              simp only [cell, top]
              rw [hloop, Option.bind_eq_bind, Option.bind_some]
              exact e

theorem rbErase_holds (hrb : IsRedBlack (plug pl.up pl.tree)) (h : Holds addr rest m (plug pl.up pl.tree))
    (hrounds : height (plug pl.up pl.tree) + 1 < rounds) :
    ∃ m' v, rbErase rounds m (addr pl.entry) = some m' ∧
      Holds addr (Function.update rest (addr pl.entry) (some v)) m' (eraseAt pl) := by
  have hup := length_add_height pl.up pl.tree
  rw [Place.tree, height] at hup
  obtain ⟨m1, v, e1, h1⟩ := detach_holds h (show height pl.right ≤ rounds by rw [Place.tree] at hrounds; omega)
  have hgap := length_gap pl
  obtain ⟨n, hfits, hbal, hc⟩ := gap_redBlack hrb
  rw [eraseAt, unlink]
  cases hcolor : (gap pl).color with
  | red =>
      refine ⟨m1, v, ?_, h1⟩
      rw [rbErase, e1, hcolor]
      rfl
  | black =>
      rw [hcolor] at hfits
      obtain ⟨k, hk⟩ := Nat.exists_eq_add_of_le (show (gap pl).up.length + 2 ≤ rounds by omega)
      obtain ⟨m2, e2, h2⟩ := rbEraseColor_holds k h1 hfits hbal.blacken
      refine ⟨m2, v, ?_, h2⟩
      rw [rbErase, e1, hcolor, hk, Nat.add_right_comm]
      exact e2

end OiAmc.Rbtree

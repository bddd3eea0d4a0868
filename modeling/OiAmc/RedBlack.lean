import OiAmc.RbTree

/-! Red-black trees, seen from a place in them: what stands there, and the way up to the root. -/

namespace OiAmc.RedBlack

open RbTree

inductive Side
  | left
  | right
  deriving DecidableEq, Repr

def Side.other : Side → Side
  | .left => .right
  | .right => .left

def Side.pick {β : Type} : Side → β → β → β
  | .left, l, _ => l
  | .right, _, r => r

variable {α ι : Type}

def join : Side → Color → RbRoot α → α → RbRoot α → RbRoot α
  | .left, c, near, x, far => .node c near x far
  | .right, c, near, x, far => .node c far x near

def isRed : RbRoot α → Bool
  | .node .red _ _ _ => true
  | _ => false

/-- A step up: the side that the tree below stands on, and the node above without it. -/
structure Frame (α : Type) where
  side : Side
  color : Color
  entry : α
  sibling : RbRoot α

abbrev Path (α : Type) := List (Frame α)

def plug : Path α → RbRoot α → RbRoot α
  | [], t => t
  | f :: up, t => plug up (join f.side f.color t f.entry f.sibling)

structure Place (α : Type) where
  up : Path α
  color : Color
  left : RbRoot α
  entry : α
  right : RbRoot α

def Place.tree (pl : Place α) : RbRoot α := .node pl.color pl.left pl.entry pl.right

/-- Parent and grandparent turned over. A tree on the inner side comes above both. -/
def turned (p g : Frame α) (t uncle : RbRoot α) : RbRoot α :=
  if p.side = g.side then join g.side .black t p.entry (join g.side .red p.sibling g.entry uncle)
  else
    match t with
    | .leaf => join g.side g.color (join p.side p.color .leaf p.entry p.sibling) g.entry uncle
    | .node _ l x r =>
        join g.side .black (join g.side .red p.sibling p.entry (g.side.pick l r)) x
          (join g.side .red (g.side.other.pick l r) g.entry uncle)

/-- A tree with a red root has come to a place that may be below a red node. -/
def insertFix : Path α → RbRoot α → RbRoot α
  | [], t => t.blacken
  | [p], t => (plug [p] t).blacken
  | p :: g :: up, t =>
      if p.color = .black then (plug (p :: g :: up) t).blacken
      else
        match g.sibling with
        | .node .red l u r =>
            insertFix up
              (join g.side .red (join p.side .black t p.entry p.sibling) g.entry (.node .black l u r))
        | uncle => (plug up (turned p g t uncle)).blacken

/-- A black sibling of a tree that is one black node short: what stands there behind a round, and
whether it is one short as well. -/
def shortRound (d : Side) (c : Color) (t : RbRoot α) (x : α) : RbRoot α → RbRoot α × Bool
  | .leaf => (join d c t x .leaf, true)
  | .node _ l o r =>
      if isRed (d.other.pick l r) then
        (join d c (join d .black t x (d.pick l r)) o (d.other.pick l r).blacken, false)
      else
        match d.pick l r with
        | .node .red l' y r' =>
            (join d c (join d .black t x (d.pick l' r')) y
              (join d .black (d.other.pick l' r') o (d.other.pick l r)), false)
        | _ => (join d c t x (.node .red l o r), true)

def eraseFix : Path α → RbRoot α → RbRoot α
  | [], t => t.blacken
  | p :: up, t =>
      if isRed t then plug (p :: up) t.blacken
      else
        match p.sibling with
        | .node .red l o r =>
            let q := shortRound p.side .red t p.entry (p.side.pick l r)
            let above := ⟨p.side, .black, o, p.side.other.pick l r⟩ :: up
            if q.2 then plug above q.1.blacken else (plug above q.1).blacken
        | other =>
            let q := shortRound p.side p.color t p.entry other
            if q.2 then eraseFix up q.1 else (plug up q.1).blacken

def leftmost : Path α → RbRoot α → Option (Place α)
  | _, .leaf => none
  | up, .node c .leaf x r => some ⟨up, c, .leaf, x, r⟩
  | up, .node c (.node c' l y r') x r => leftmost (⟨.left, c, x, r⟩ :: up) (.node c' l y r')

def unlink (up : Path α) (c : Color) (child : RbRoot α) : RbRoot α :=
  if c = .black then eraseFix up child else plug up child

/-- Where a node goes from a tree: its colour, and what comes to stand there. -/
structure Gap (α : Type) where
  up : Path α
  color : Color
  child : RbRoot α

/-- A node with two children gives way to the entry behind it, which goes from its own place. -/
def gap (pl : Place α) : Gap α :=
  match pl.left, pl.right with
  | .leaf, r => ⟨pl.up, pl.color, r⟩
  | l, .leaf => ⟨pl.up, pl.color, l⟩
  | l, r =>
      match leftmost [] r with
      | none => ⟨pl.up, pl.color, l⟩
      | some next => ⟨next.up ++ ⟨.right, pl.color, next.entry, l⟩ :: pl.up, next.color, next.right⟩

def eraseAt (pl : Place α) : RbRoot α := unlink (gap pl).up (gap pl).color (gap pl).child

def locate (p : α → Bool) : Path α → RbRoot α → Option (Place α)
  | _, .leaf => none
  | up, .node c l x r =>
      if p x then some ⟨up, c, l, x, r⟩
      else (locate p (⟨.left, c, x, r⟩ :: up) l).or (locate p (⟨.right, c, x, l⟩ :: up) r)

def nextAt (pl : Place α) : Option α :=
  match leftmost [] pl.right with
  | some next => some next.entry
  | none => (pl.up.find? fun f => f.side = .left).map Frame.entry

-- The order of the entries.

def before : Path α → List α
  | [] => []
  | f :: up => before up ++ f.side.pick [] (f.sibling.inorder ++ [f.entry])

def behind : Path α → List α
  | [] => []
  | f :: up => f.side.pick (f.entry :: f.sibling.inorder) [] ++ behind up

variable {p g : Frame α} {up down : Path α} {t t' l r uncle : RbRoot α} {c : Color} {x : α} {pl : Place α}

theorem inorder_plug : (plug up t).inorder = before up ++ t.inorder ++ behind up := by
  induction up generalizing t with
  | nil => exact (List.append_nil _).symm
  | cons f up ih =>
      rw [plug, ih, before, behind]
      cases hside : f.side <;> simp [join, Side.pick, RbRoot.inorder]

theorem inorder_plug_congr (h : t.inorder = t'.inorder) : (plug up t).inorder = (plug up t').inorder := by
  rw [inorder_plug, inorder_plug, h]

@[simp] theorem inorder_blacken : t.blacken.inorder = t.inorder := by
  cases t <;> rfl

theorem inorder_join_congr {d : Side} {c c' : Color} {near near' far far' : RbRoot α}
    (hn : near.inorder = near'.inorder) (hf : far.inorder = far'.inorder) : (join d c near x far).inorder = (join d c' near' x far').inorder := by
  cases d <;> simp only [join, RbRoot.inorder, hn, hf]

theorem inorder_turned : (turned p g t uncle).inorder =
    (join g.side g.color (join p.side p.color t p.entry p.sibling) g.entry uncle).inorder := by
  rw [turned.eq_def]
  cases hp : p.side <;> cases hg : g.side <;> cases t <;>
    simp [join, Side.pick, Side.other, RbRoot.inorder]

theorem inorder_insertFix : (insertFix up t).inorder = (plug up t).inorder := by
  induction up, t using insertFix.induct with
  | case1 t => exact inorder_blacken
  | case2 p t => exact inorder_blacken
  | case3 p g up t hp =>
      rw [insertFix, if_pos hp]
      exact inorder_blacken
  | case4 p g up t hp l u r hs ih =>
      rw [insertFix, if_neg hp]
      simp only [hs]
      rw [ih]
      refine inorder_plug_congr (inorder_join_congr (inorder_join_congr rfl rfl) ?_)
      rw [hs]
      rfl
  | case5 p g up t hp hs =>
      rw [insertFix, if_neg hp]
      cases hsib : g.sibling with
      | leaf =>
          simp only [inorder_blacken]
          refine inorder_plug_congr ?_
          rw [← hsib]
          exact inorder_turned
      | node color l u r =>
          cases color with
          | red => exact absurd hsib (hs l u r)
          | black =>
              simp only [inorder_blacken]
              refine inorder_plug_congr ?_
              rw [← hsib]
              exact inorder_turned

theorem inorder_shortRound {d : Side} {o : RbRoot α} :
    (shortRound d c t x o).1.inorder = (join d c t x o).inorder := by
  cases o with
  | leaf => rfl
  | node oc l o r =>
      rw [shortRound]
      split
      · cases d <;> simp [join, Side.pick, Side.other, RbRoot.inorder]
      · split
        · rename_i l' y r' hnear
          cases d with
          | left =>
              have hl : l = .node .red l' y r' := hnear
              simp [hl, join, Side.pick, Side.other, RbRoot.inorder]
          | right =>
              have hr : r = .node .red l' y r' := hnear
              simp [hr, join, Side.pick, Side.other, RbRoot.inorder]
        · cases d <;> rfl

theorem inorder_eraseFix : (eraseFix up t).inorder = (plug up t).inorder := by
  induction up generalizing t with
  | nil => exact inorder_blacken
  | cons p up ih =>
      rw [eraseFix]
      split
      · exact inorder_plug_congr inorder_blacken
      · have hblack : ((if (shortRound p.side p.color t p.entry p.sibling).2 then
            eraseFix up (shortRound p.side p.color t p.entry p.sibling).1
          else (plug up (shortRound p.side p.color t p.entry p.sibling).1).blacken) : RbRoot α).inorder =
            (plug (p :: up) t).inorder := by
          split
          · rw [ih]
            exact inorder_plug_congr inorder_shortRound
          · rw [inorder_blacken]
            exact inorder_plug_congr inorder_shortRound
        cases hs : p.sibling with
        | leaf =>
            rw [hs] at hblack
            exact hblack
        | node color l o r =>
            cases color with
            | black =>
                rw [hs] at hblack
                exact hblack
            | red =>
                -- the sibling is turned over its parent first
                have hturn : (plug (⟨p.side, .black, o, p.side.other.pick l r⟩ :: up)
                    (shortRound p.side .red t p.entry (p.side.pick l r)).1).inorder =
                      (plug (p :: up) t).inorder := by
                  have hround : (join p.side .black (shortRound p.side .red t p.entry (p.side.pick l r)).1 o
                      (p.side.other.pick l r)).inorder = (join p.side .black
                        (join p.side .red t p.entry (p.side.pick l r)) o (p.side.other.pick l r)).inorder :=
                    inorder_join_congr inorder_shortRound rfl
                  refine inorder_plug_congr (hround.trans ?_)
                  rw [hs]
                  cases p.side <;> simp [join, Side.pick, Side.other, RbRoot.inorder]
                simp only
                split
                · exact (inorder_plug_congr inorder_blacken).trans hturn
                · rw [inorder_blacken]
                  exact hturn

theorem inorder_unlink : (unlink up c t).inorder = (plug up t).inorder := by
  rw [unlink]
  split
  · exact inorder_eraseFix
  · rfl

theorem leftmost_spec (h : leftmost up t = some pl) :
    plug pl.up pl.tree = plug up t ∧ pl.left = .leaf ∧ ∃ down, pl.up = down ++ up ∧ before down = [] := by
  induction t generalizing up with
  | leaf => cases h
  | node c l x r ihl _ =>
      cases l with
      | leaf =>
          obtain rfl := Option.some.inj h
          exact ⟨rfl, rfl, [], rfl, rfl⟩
      | node c' l' y r' =>
          obtain ⟨hplug, hleft, down, hup, hdown⟩ := ihl h
          refine ⟨hplug, hleft, down ++ [⟨.left, c, x, r⟩], ?_, ?_⟩
          · rw [hup, List.append_assoc]
            rfl
          · clear hup hplug
            induction down with
            | nil => rfl
            | cons f down ih =>
                rw [before, List.append_eq_nil_iff] at hdown
                rw [List.cons_append, before, ih hdown.1, hdown.2]
                rfl

theorem side_of_before (h : before up = []) : ∀ f ∈ up, f.side = .left := by
  induction up with
  | nil => exact fun f hf => absurd hf List.not_mem_nil
  | cons f up ih =>
      rw [before, List.append_eq_nil_iff] at h
      refine List.forall_mem_cons.mpr ⟨?_, ih h.1⟩
      cases hside : f.side with
      | left => rfl
      | right =>
          rw [hside] at h
          exact absurd h.2 (List.append_ne_nil_of_right_ne_nil _ (List.cons_ne_nil _ _))

theorem plug_append (down up : Path α) (t : RbRoot α) : plug (down ++ up) t = plug up (plug down t) := by
  induction down generalizing t with
  | nil => rfl
  | cons f down ih => exact ih _

theorem leftmost_none (h : leftmost up t = none) : t = .leaf := by
  induction t generalizing up with
  | leaf => rfl
  | node c l x r ihl _ =>
      cases l with
      | leaf => cases h
      | node c' l' y r' => cases ihl h

theorem inorder_leftmost (h : leftmost [] t = some pl) :
    t.inorder = pl.entry :: (pl.right.inorder ++ behind pl.up) := by
  obtain ⟨hplug, hleft, down, hup, hdown⟩ := leftmost_spec h
  have hbefore : before pl.up = [] := by
    rw [hup, List.append_nil]
    exact hdown
  have horder := congrArg RbRoot.inorder hplug
  rw [inorder_plug, hbefore, Place.tree, RbRoot.inorder, hleft] at horder
  exact horder.symm

theorem inorder_place (pl : Place α) : (plug pl.up pl.tree).inorder =
    (before pl.up ++ pl.left.inorder) ++ pl.entry :: (pl.right.inorder ++ behind pl.up) := by
  rw [inorder_plug, Place.tree, RbRoot.inorder]
  simp only [List.append_assoc, List.cons_append]

theorem inorder_gap (pl : Place α) : (plug (gap pl).up (gap pl).child).inorder =
    (before pl.up ++ pl.left.inorder) ++ (pl.right.inorder ++ behind pl.up) := by
  rw [gap]
  split
  · rename_i hl
    rw [inorder_plug, hl]
    simp [RbRoot.inorder]
  · rename_i hr _
    rw [inorder_plug, hr]
    simp [RbRoot.inorder]
  · split
    · rename_i hmin
      rw [inorder_plug, leftmost_none hmin]
      simp [RbRoot.inorder]
    · rename_i next hmin
      obtain ⟨_, _, down, hup, hdown⟩ := leftmost_spec hmin
      rw [plug_append, plug, inorder_plug, inorder_leftmost hmin]
      have hright : (plug next.up next.right).inorder = next.right.inorder ++ behind next.up := by
        rw [inorder_plug, hup, List.append_nil, hdown]
        rfl
      simp [join, RbRoot.inorder, hright]

theorem inorder_eraseAt (pl : Place α) : (eraseAt pl).inorder =
    (before pl.up ++ pl.left.inorder) ++ (pl.right.inorder ++ behind pl.up) := by
  rw [eraseAt, inorder_unlink, inorder_gap]

-- Places and their entries.

variable {q : α → Bool}

theorem locate_spec (h : locate q up t = some pl) : plug pl.up pl.tree = plug up t ∧ q pl.entry = true := by
  induction t generalizing up with
  | leaf => cases h
  | node c l x r ihl ihr =>
      rw [locate] at h
      split at h
      · rename_i hx
        obtain rfl := Option.some.inj h
        exact ⟨rfl, hx⟩
      · rcases Option.or_eq_some_iff.mp h with h | ⟨_, h⟩
        · exact ihl h
        · exact ihr h

theorem locate_eq_none : locate q up t = none ↔ ∀ y ∈ t.inorder, q y = false := by
  induction t generalizing up with
  | leaf => exact iff_of_true rfl fun y hy => absurd hy List.not_mem_nil
  | node c l x r ihl ihr =>
      rw [locate, RbRoot.inorder, List.forall_mem_append, List.forall_mem_cons]
      cases hx : q x with
      | true => simp
      | false =>
          rw [if_neg Bool.false_ne_true, Option.or_eq_none_iff, ihl, ihr]
          exact ⟨fun h => ⟨h.1, rfl, h.2⟩, fun h => ⟨h.1, h.2.2⟩⟩

theorem locate_join (f : Frame α) (hf : q f.entry = false) (hs : ∀ y ∈ f.sibling.inorder, q y = false)
    (h : locate q (f :: up) t = some pl) :
    locate q up (join f.side f.color t f.entry f.sibling) = some pl := by
  obtain ⟨side, color, entry, sibling⟩ := f
  cases side with
  | left =>
      rw [join, locate, hf, if_neg Bool.false_ne_true, h]
      rfl
  | right =>
      rw [join, locate, hf, if_neg Bool.false_ne_true, locate_eq_none.mpr hs]
      exact h

theorem locate_plug {rest : Path α} (hup : ∀ y ∈ before up ++ behind up, q y = false)
    (h : locate q (up ++ rest) t = some pl) : locate q rest (plug up t) = some pl := by
  induction up generalizing t with
  | nil => exact h
  | cons f up ih =>
      have hmem : ∀ y ∈ f.entry :: f.sibling.inorder, y ∈ before (f :: up) ++ behind (f :: up) := by
        intro y hy
        rw [before, behind]
        cases f.side with
        | left => exact List.mem_append_right _ (List.mem_append_left _ hy)
        | right =>
            refine List.mem_append_left _ (List.mem_append_right _ ?_)
            rcases List.mem_cons.mp hy with rfl | hy
            · exact List.mem_append_right _ List.mem_cons_self
            · exact List.mem_append_left _ hy
      refine ih (fun y hy => hup y ?_) ?_
      · rw [before, behind]
        rcases List.mem_append.mp hy with hy | hy
        · exact List.mem_append_left _ (List.mem_append_left _ hy)
        · exact List.mem_append_right _ (List.mem_append_right _ hy)
      · refine locate_join f (hup _ (hmem _ List.mem_cons_self)) (fun y hy => hup y (hmem y ?_)) h
        exact List.mem_cons_of_mem _ hy

theorem locate_place (hx : q pl.entry = true) (hup : ∀ y ∈ before pl.up ++ behind pl.up, q y = false) :
    locate q [] (plug pl.up pl.tree) = some pl := by
  refine locate_plug hup ?_
  rw [Place.tree, locate, if_pos hx, List.append_nil]

theorem head_behind (up : Path α) : (behind up).head? = (up.find? fun f => f.side = .left).map Frame.entry := by
  induction up with
  | nil => rfl
  | cons f up ih =>
      rw [behind]
      cases hside : f.side with
      | left =>
          rw [List.find?_cons_of_pos (by simp [hside])]
          rfl
      | right =>
          rw [List.find?_cons_of_neg (by simp [hside])]
          exact ih

theorem nextAt_eq (pl : Place α) : nextAt pl = (pl.right.inorder ++ behind pl.up).head? := by
  rw [nextAt]
  cases hmin : leftmost [] pl.right with
  | none =>
      rw [leftmost_none hmin]
      exact (head_behind pl.up).symm
  | some next =>
      rw [inorder_leftmost hmin]
      rfl

-- The operations, on entries that are named by their addresses.

variable [DecidableEq ι]

def placeOf (addr : α → ι) (t : RbRoot α) (i : ι) : Option (Place α) :=
  locate (fun y => decide (addr y = i)) [] t

def rbInsertColor (addr : α → ι) (t : RbRoot α) (i : ι) : RbRoot α :=
  ((placeOf addr t i).map fun pl => insertFix pl.up pl.tree).getD t

def rbErase (addr : α → ι) (t : RbRoot α) (i : ι) : RbRoot α := ((placeOf addr t i).map eraseAt).getD t

def rbNext (addr : α → ι) (t : RbRoot α) (i : ι) : Option ι :=
  (placeOf addr t i).bind fun pl => (nextAt pl).map addr

variable {addr : α → ι}

theorem placeOf_mem (h : x ∈ t.inorder) :
    ∃ pl, placeOf addr t (addr x) = some pl ∧ plug pl.up pl.tree = t ∧ addr pl.entry = addr x := by
  cases hloc : placeOf addr t (addr x) with
  | none =>
      have hx := locate_eq_none.mp hloc x h
      rw [decide_eq_false_iff_not] at hx
      exact absurd rfl hx
  | some pl =>
      obtain ⟨htree, haddr⟩ := locate_spec hloc
      exact ⟨pl, rfl, htree, of_decide_eq_true haddr⟩

theorem placeOf_split (hnodup : (t.inorder.map addr).Nodup) (h : x ∈ t.inorder) :
    ∃ pl, placeOf addr t (addr x) = some pl ∧ pl.entry = x ∧
      t.inorder = (before pl.up ++ pl.left.inorder) ++ x :: (pl.right.inorder ++ behind pl.up) := by
  obtain ⟨pl, hloc, htree, haddr⟩ := @placeOf_mem _ _ _ _ _ addr h
  have horder := inorder_place pl
  rw [htree] at horder
  have hmem : pl.entry ∈ t.inorder := by
    rw [horder]
    exact List.mem_append_right _ List.mem_cons_self
  have hentry := List.inj_on_of_nodup_map hnodup hmem h haddr
  rw [hentry] at horder
  exact ⟨pl, hloc, hentry, horder⟩

/-- What the functions of rbtree.c do to a tree, entry by entry. -/
def rbtreeOps (addr : α → ι) : RbOps α ι addr where
  insertColor := rbInsertColor addr
  erase := rbErase addr
  next := rbNext addr
  inorder_insertColor t x h := by
    obtain ⟨pl, hloc, htree, _⟩ := @placeOf_mem _ _ _ _ _ addr h
    rw [rbInsertColor, hloc, Option.map_some, Option.getD_some, inorder_insertFix, htree]
  inorder_erase t x h hnodup := by
    obtain ⟨pl, hloc, _, horder⟩ := placeOf_split hnodup h
    rw [rbErase, hloc, Option.map_some, Option.getD_some, inorder_eraseAt, filter_addr hnodup horder]
  next_eq t xs x ys h hnodup := by
    have hx : x ∈ t.inorder := by
      rw [h]
      exact List.mem_append_right _ List.mem_cons_self
    obtain ⟨pl, hloc, hentry, horder⟩ := placeOf_split hnodup hx
    rw [rbNext, hloc, Option.bind_some, nextAt_eq]
    have hone := List.Nodup.of_map addr hnodup
    rw [h] at horder hone
    obtain ⟨_, hys, hne⟩ := List.nodup_append.mp hone
    have hxs : x ∉ xs := fun hmem => hne x hmem x List.mem_cons_self rfl
    obtain ⟨_, _, hbehind⟩ := (List.append_cons_inj_of_notMem hxs (List.nodup_cons.mp hys).1).mp horder
    rw [← hbehind]

end OiAmc.RedBlack

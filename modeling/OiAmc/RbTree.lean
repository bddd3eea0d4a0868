import OiAmc.StableOrder

namespace OiAmc.RbTree

open StableOrder

inductive Color
  | red
  | black
  deriving DecidableEq, Repr

inductive RbRoot (α : Type)
  | leaf
  | node (color : Color) (left : RbRoot α) (entry : α) (right : RbRoot α)

variable {α ι : Type} {before : α → Bool} {x y : α} {t : RbRoot α}

def RbRoot.inorder : RbRoot α → List α
  | .leaf => []
  | .node _ left entry right => left.inorder ++ entry :: right.inorder

/-- Link a new entry as a red leaf: from the root on to the left at an entry that it comes
before, and to the right at any other. The flag says that the walk never went to the right. -/
def RbRoot.link (before : α → Bool) (x : α) : RbRoot α → RbRoot α × Bool
  | .leaf => (.node .red .leaf x .leaf, true)
  | .node color left entry right =>
      if before entry then
        let p := left.link before x
        (.node color p.1 entry right, p.2)
      else
        let p := right.link before x
        (.node color left entry p.1, false)

/-- What the operations on red-black trees promise: they keep and follow the order of the
entries. A node is named by its address. -/
structure RbOps (α ι : Type) [DecidableEq ι] (addr : α → ι) where
  insertColor : RbRoot α → ι → RbRoot α
  erase : RbRoot α → ι → RbRoot α
  next : RbRoot α → ι → Option ι
  inorder_insertColor : ∀ t x, x ∈ t.inorder → (insertColor t (addr x)).inorder = t.inorder
  inorder_erase : ∀ t x, x ∈ t.inorder → (t.inorder.map addr).Nodup →
    (erase t (addr x)).inorder = t.inorder.filter fun y => decide (addr y ≠ addr x)
  next_eq : ∀ t xs x ys, t.inorder = xs ++ x :: ys → (t.inorder.map addr).Nodup →
    next t (addr x) = ys.head?.map addr

/-- The entries that the new one does not come before are before those that it does. -/
def Parted (before : α → Bool) (xs : List α) : Prop := xs.Pairwise fun x y => before x → before y

theorem parted_node {color : Color} {left right : RbRoot α}
    (h : Parted before (RbRoot.node color left x right).inorder) :
    Parted before left.inorder ∧ Parted before right.inorder ∧
      (∀ y ∈ left.inorder, before y → before x) ∧ ∀ y ∈ right.inorder, before x → before y := by
  obtain ⟨hl, hr, hlr⟩ := List.pairwise_append.mp h
  obtain ⟨hx, hr⟩ := List.pairwise_cons.mp hr
  exact ⟨hl, hr, fun y hy => hlr y hy x List.mem_cons_self, hx⟩

theorem inorder_link (h : Parted before t.inorder) : (t.link before x).1.inorder =
    t.inorder.filter (fun y => !before y) ++ x :: t.inorder.filter before := by
  induction t with
  | leaf => rfl
  | node color left y right ihl ihr =>
      obtain ⟨hl, hr, hly, hyr⟩ := parted_node h
      rw [RbRoot.link]
      cases hy : before y with
      | true =>
          have hnone : right.inorder.filter (fun z => !before z) = [] :=
            List.filter_eq_nil_iff.mpr fun z hz => by simp [hyr z hz hy]
          have hall : right.inorder.filter before = right.inorder :=
            List.filter_eq_self.mpr fun z hz => hyr z hz hy
          simp only [if_true, RbRoot.inorder, ihl hl, List.filter_append, List.filter_cons, hy,
            Bool.not_true, Bool.false_eq_true, if_false, hnone, hall, List.append_nil,
            List.append_assoc, List.cons_append]
      | false =>
          have hfalse (z : α) (hz : z ∈ left.inorder) : before z = false := by
            cases hb : before z with
            | false => rfl
            | true => exact absurd (hly z hz hb) (by rw [hy]; decide)
          have hall : left.inorder.filter (fun z => !before z) = left.inorder :=
            List.filter_eq_self.mpr fun z hz => by rw [hfalse z hz]; rfl
          have hnone : left.inorder.filter before = [] :=
            List.filter_eq_nil_iff.mpr fun z hz => by rw [hfalse z hz]; decide
          simp only [if_false, RbRoot.inorder, ihr hr, List.filter_append, List.filter_cons, hy,
            Bool.not_false, Bool.false_eq_true, if_true, hnone, hall, List.nil_append,
            List.append_assoc, List.cons_append]

theorem link_leftmost (h : Parted before t.inorder) :
    (t.link before x).2 = true ↔ ∀ y ∈ t.inorder, before y = true := by
  induction t with
  | leaf => exact iff_of_true rfl fun y hy => absurd hy List.not_mem_nil
  | node color left y right ihl ihr =>
      obtain ⟨hl, hr, hly, hyr⟩ := parted_node h
      rw [RbRoot.link]
      cases hy : before y with
      | true =>
          simp only [if_true, ihl hl, RbRoot.inorder, List.forall_mem_append, List.forall_mem_cons, hy,
            true_and]
          exact ⟨fun h => ⟨h, fun z hz => hyr z hz hy⟩, fun h => h.1⟩
      | false =>
          refine iff_of_false Bool.false_ne_true fun hall => ?_
          have hbefore := hall y (List.mem_append_right _ List.mem_cons_self)
          rw [hy] at hbefore
          cases hbefore

theorem head_link (h : Parted before t.inorder) : (t.link before x).1.inorder.head? =
    if (t.link before x).2 then some x else t.inorder.head? := by
  rw [inorder_link h]
  by_cases hleft : (t.link before x).2 = true
  · have hnone : t.inorder.filter (fun y => !before y) = [] :=
      List.filter_eq_nil_iff.mpr fun y hy => by simp [(link_leftmost h).mp hleft y hy]
    rw [if_pos hleft, hnone]
    rfl
  · rw [if_neg hleft]
    cases hxs : t.inorder with
    | nil =>
        refine absurd ((link_leftmost h).mpr fun y hy => ?_) hleft
        rw [hxs] at hy
        cases hy
    | cons y ys =>
        have hy : before y = false := by
          cases hb : before y with
          | false => rfl
          | true =>
              refine absurd ((link_leftmost h).mpr fun z hz => ?_) hleft
              rw [hxs] at hz
              rcases List.mem_cons.mp hz with rfl | hz
              · exact hb
              · have hpart := h
                rw [hxs] at hpart
                exact (List.pairwise_cons.mp hpart).1 z hz hb
        rw [List.filter_cons, hy]
        rfl

/-- The walk to the place of a new entry never goes to the left. -/
def RbRoot.rightmost (before : α → Bool) : RbRoot α → Bool
  | .leaf => true
  | .node _ _ entry right => if before entry then false else right.rightmost before

theorem rightmost_iff (h : Parted before t.inorder) :
    t.rightmost before = true ↔ ∀ y ∈ t.inorder, before y = false := by
  induction t with
  | leaf => exact iff_of_true rfl fun y hy => absurd hy List.not_mem_nil
  | node color left y right _ ihr =>
      obtain ⟨_, hr, hly, _⟩ := parted_node h
      rw [RbRoot.rightmost]
      cases hy : before y with
      | true =>
          refine iff_of_false Bool.false_ne_true fun hall => ?_
          have hbefore := hall y (List.mem_append_right _ List.mem_cons_self)
          rw [hy] at hbefore
          cases hbefore
      | false =>
          simp only [Bool.false_eq_true, if_false, ihr hr, RbRoot.inorder, List.forall_mem_append,
            List.forall_mem_cons, hy, true_and]
          refine ⟨fun h => ⟨fun z hz => ?_, h⟩, fun h => h.2⟩
          rw [← Bool.not_eq_true]
          intro hb
          exact absurd (hly z hz hb) (by rw [hy]; decide)

theorem last_link (h : Parted before t.inorder) : (t.link before x).1.inorder.getLast? =
    if t.rightmost before then some x else t.inorder.getLast? := by
  rw [inorder_link h]
  by_cases hright : t.rightmost before = true
  · have hnone : t.inorder.filter before = [] :=
      List.filter_eq_nil_iff.mpr fun y hy => by simp [(rightmost_iff h).mp hright y hy]
    rw [if_pos hright, hnone, List.getLast?_concat]
  · rw [if_neg hright]
    have hlate : ∃ y ∈ t.inorder, before y = true := by
      by_contra hnot
      refine hright ((rightmost_iff h).mpr fun y hy => ?_)
      rw [← Bool.not_eq_true]
      exact fun hb => hnot ⟨y, hy, hb⟩
    rcases List.eq_nil_or_concat' t.inorder with hnil | ⟨ys, y, hys⟩
    · rw [hnil] at hlate
      obtain ⟨y, hy, _⟩ := hlate
      cases hy
    · have hy : before y = true := by
        obtain ⟨z, hz, hb⟩ := hlate
        rw [hys, List.mem_append, List.mem_singleton] at hz
        rcases hz with hz | rfl
        · rw [Parted, hys] at h
          exact (List.pairwise_append.mp h).2.2 z hz y (List.mem_singleton_self y) hb
        · exact hb
      have hlast : [y].filter before = [y] := by rw [List.filter_cons, if_pos hy, List.filter_nil]
      rw [hys, @List.filter_append _ before, hlast, ← List.cons_append, ← List.append_assoc,
        List.getLast?_concat, List.getLast?_concat]

-- Trees in the order of keys.

variable {κ : Type} [LinearOrder κ] {key : α → κ} {xs as bs : List α}

theorem parted_of_sorted (hb : ∀ y, before y = decide (key x < key y))
    (hs : xs.Pairwise fun y z => key y ≤ key z) : Parted before xs := by
  refine hs.imp fun {y z} hyz hy => ?_
  rw [hb, decide_eq_true_eq] at hy ⊢
  exact hy.trans_le hyz

theorem inorder_link_key (hb : ∀ y, before y = decide (key x < key y))
    (hs : t.inorder.Pairwise fun y z => key y ≤ key z) :
    (t.link before x).1.inorder = place key x t.inorder := by
  have hlow : (t.inorder.filter fun y => !before y) = t.inorder.filter fun y => decide (key y ≤ key x) :=
    List.filter_congr fun y _ => by rw [hb, ← decide_not, decide_eq_decide, not_lt]
  have hhigh : t.inorder.filter before = t.inorder.filter fun y => decide (key x < key y) :=
    List.filter_congr fun y _ => hb y
  rw [inorder_link (parted_of_sorted hb hs), hlow, hhigh, place]

-- Entries named by their addresses.

variable [DecidableEq ι] {addr : α → ι}

theorem filter_addr (hnodup : (xs.map addr).Nodup) (hxs : xs = as ++ x :: bs) :
    (xs.filter fun y => decide (addr y ≠ addr x)) = as ++ bs := by
  rw [hxs, List.map_append, List.map_cons] at hnodup
  obtain ⟨_, hb, hab⟩ := List.nodup_append.mp hnodup
  have ha : (as.filter fun y => decide (addr y ≠ addr x)) = as := by
    refine List.filter_eq_self.mpr fun y hy => decide_eq_true fun he => ?_
    exact hab (addr y) (List.mem_map_of_mem hy) (addr x) List.mem_cons_self he
  have hb : (bs.filter fun y => decide (addr y ≠ addr x)) = bs := by
    refine List.filter_eq_self.mpr fun y hy => decide_eq_true fun he => ?_
    exact (List.nodup_cons.mp hb).1 (he ▸ List.mem_map_of_mem hy)
  rw [hxs, List.filter_append, ha, List.filter_cons, if_neg (by simp), hb]

theorem filter_addr_cons (hnodup : (xs.map addr).Nodup) (hxs : xs = x :: bs) :
    (xs.filter fun y => decide (addr y ≠ addr x)) = bs := filter_addr hnodup (hxs.trans (List.nil_append _).symm)

theorem find_addr (hnodup : (xs.map addr).Nodup) (hx : x ∈ xs) :
    xs.find? (fun y => decide (addr y = addr x)) = some x := by
  obtain ⟨y, hy⟩ : ∃ y, xs.find? (fun y => decide (addr y = addr x)) = some y :=
    Option.isSome_iff_exists.mp (List.find?_isSome.mpr ⟨x, hx, decide_eq_true rfl⟩)
  have haddr := of_decide_eq_true (@List.find?_some _ (fun y => decide (addr y = addr x)) y xs hy)
  rw [hy, List.inj_on_of_nodup_map hnodup (List.mem_of_find?_eq_some hy) hx haddr]

def RbRoot.blacken : RbRoot α → RbRoot α
  | .leaf => .leaf
  | .node _ left entry right => .node .black left entry right

def RbRoot.ofList (xs : List α) : RbRoot α := xs.foldr (fun x t => .node .black .leaf x t) .leaf

theorem inorder_ofList (xs : List α) : (RbRoot.ofList xs).inorder = xs := by
  induction xs with
  | nil => rfl
  | cons x xs ih =>
      rw [RbRoot.ofList, List.foldr_cons, RbRoot.inorder]
      exact congrArg (x :: ·) ih

/-- Operations that do not balance. -/
def plainOps (addr : α → ι) : RbOps α ι addr where
  insertColor t _ := t.blacken
  erase t i := RbRoot.ofList (t.inorder.filter fun y => decide (addr y ≠ i))
  next t i := ((t.inorder.dropWhile fun y => decide (addr y ≠ i)).drop 1).head?.map addr
  inorder_insertColor t _ _ := by cases t <;> rfl
  inorder_erase _ _ _ _ := inorder_ofList _
  next_eq t xs x ys h hnodup := by
    rw [h, List.map_append, List.map_cons] at hnodup
    have hne : ∀ y ∈ xs, decide (addr y ≠ addr x) = true := by
      intro y hy
      refine decide_eq_true fun he => ?_
      exact (List.nodup_append.mp hnodup).2.2 (addr y) (List.mem_map_of_mem hy) (addr x)
        List.mem_cons_self he
    rw [h, List.dropWhile_append_of_pos hne, List.dropWhile_cons_of_neg (by simp)]
    rfl

end OiAmc.RbTree

/-! A tree in the order of keys, beside a pointer to its leftmost entry that is kept up as
entries come and go. -/

namespace OiAmc.LeftmostTree

open RbTree StableOrder

variable {α ι κ : Type} [LinearOrder κ] {addr : α → ι} {key : α → κ}
  {t : RbRoot α} {first : Option ι} {before : α → Bool} {x : α} {rest : List α}

structure Leftmost (addr : α → ι) (key : α → κ) (t : RbRoot α) (first : Option ι) : Prop where
  sorted : t.inorder.Pairwise fun x y => key x ≤ key y
  first : first = t.inorder.head?.map addr
  addrs : (t.inorder.map addr).Nodup

theorem leftmost_leaf : Leftmost addr key (.leaf : RbRoot α) none :=
  ⟨List.Pairwise.nil, rfl, List.nodup_nil⟩

theorem Leftmost.first_eq (h : Leftmost addr key t first) (hx : t.inorder = x :: rest) :
    first = some (addr x) := by
  rw [h.first, hx]
  rfl

variable [DecidableEq ι] (ops : RbOps α ι addr)

theorem Leftmost.insert (h : Leftmost addr key t first)
    (hb : ∀ y, before y = decide (key x < key y)) (hnew : addr x ∉ t.inorder.map addr) :
    Leftmost addr key (ops.insertColor (t.link before x).1 (addr x))
        (if (t.link before x).2 then some (addr x) else first) ∧
      (ops.insertColor (t.link before x).1 (addr x)).inorder = place key x t.inorder := by
  have hpart := parted_of_sorted hb h.sorted
  have hmem : x ∈ (t.link before x).1.inorder := by
    rw [inorder_link hpart]
    exact List.mem_append_right _ List.mem_cons_self
  have horder := ops.inorder_insertColor _ _ hmem
  have hplace := horder.trans (inorder_link_key hb h.sorted)
  have hperm := @place_perm _ _ _ key x t.inorder
  refine ⟨⟨?_, ?_, ?_⟩, hplace⟩
  · rw [hplace]
    exact sorted_place h.sorted
  · rw [horder, head_link hpart, h.first]
    split <;> rfl
  · rw [hplace, (hperm.map addr).nodup_iff]
    exact List.nodup_cons.mpr ⟨hnew, h.addrs⟩

theorem Leftmost.erase (h : Leftmost addr key t first) (hx : x ∈ t.inorder) :
    Leftmost addr key (ops.erase t (addr x))
        (if first = some (addr x) then ops.next t (addr x) else first) ∧
      (ops.erase t (addr x)).inorder = t.inorder.filter fun y => decide (addr y ≠ addr x) := by
  have horder := ops.inorder_erase _ _ hx h.addrs
  obtain ⟨as, bs, hxs⟩ := List.append_of_mem hx
  refine ⟨⟨?_, ?_, ?_⟩, horder⟩
  · rw [horder]
    exact h.sorted.filter _
  · rw [horder, filter_addr h.addrs hxs, ops.next_eq _ _ _ _ hxs h.addrs, h.first, hxs]
    cases as with
    | nil => exact if_pos rfl
    | cons a as =>
        refine if_neg fun he => ?_
        have hnodup := h.addrs
        rw [hxs, List.cons_append, List.map_cons] at hnodup
        apply (List.nodup_cons.mp hnodup).1
        rw [show addr a = addr x from Option.some.inj he]
        exact List.mem_map_of_mem (List.mem_append_right _ List.mem_cons_self)
  · rw [horder]
    exact h.addrs.sublist (List.filter_sublist.map addr)

theorem Leftmost.pop (h : Leftmost addr key t first) (hx : t.inorder = x :: rest) :
    Leftmost addr key (ops.erase t (addr x)) (ops.next t (addr x)) ∧
      (ops.erase t (addr x)).inorder = rest := by
  obtain ⟨hleft, horder⟩ := h.erase ops (hx ▸ List.mem_cons_self : x ∈ t.inorder)
  rw [if_pos (h.first_eq hx)] at hleft
  exact ⟨hleft, horder.trans (filter_addr_cons h.addrs hx)⟩

end OiAmc.LeftmostTree

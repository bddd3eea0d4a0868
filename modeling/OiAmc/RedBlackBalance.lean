import OiAmc.RedBlack
import Mathlib.Algebra.Ring.Nat
import Mathlib.Data.List.Perm.Basic
import Mathlib.Data.Nat.Log

/-! No red node below a red one, and as many black nodes on every way down. -/

namespace OiAmc.RedBlack

open RbTree

variable {α ι : Type} {p g f : Frame α} {up : Path α} {t l r o : RbRoot α} {c : Color} {d : Side} {x : α}
  {pl : Place α} {n m : Nat}

/-- A red node has no red child, and every way down has n black nodes. -/
def Balanced : RbRoot α → Nat → Prop
  | .leaf, n => n = 0
  | .node .red l _ r, n => isRed l = false ∧ isRed r = false ∧ Balanced l n ∧ Balanced r n
  | .node .black l _ r, n => ∃ m, n = m + 1 ∧ Balanced l m ∧ Balanced r m

structure IsRedBlack (t : RbRoot α) : Prop where
  balanced : ∃ n, Balanced t n
  black : isRed t = false

/-- The black nodes on a way down that goes through a node of this colour. -/
def Color.add : Color → Nat → Nat
  | .red, n => n
  | .black, n => n + 1

def BlackAbove (up : Path α) : Prop := up.head?.map Frame.color = some .black

/-- A tree with n black nodes on every way down may stand below. -/
def Fits : Path α → Nat → Prop
  | [], _ => True
  | f :: up, n =>
      Balanced f.sibling n ∧ (f.color = .red → isRed f.sibling = false ∧ BlackAbove up) ∧
        Fits up (Color.add f.color n)

theorem balanced_black : Balanced (join d .black l x r) (n + 1) ↔ Balanced l n ∧ Balanced r n := by
  cases d with
  | left => simp only [join, Balanced, Nat.add_right_cancel_iff, exists_eq_left']
  | right => simp only [join, Balanced, Nat.add_right_cancel_iff, exists_eq_left', and_comm]

theorem balanced_red : Balanced (join d .red l x r) n ↔
    isRed l = false ∧ isRed r = false ∧ Balanced l n ∧ Balanced r n := by
  cases d with
  | left => rfl
  | right =>
      simp only [join, Balanced]
      tauto

theorem isRed_node : isRed (.node c l x r) = decide (c = .red) := by
  cases c <;> rfl

@[simp] theorem isRed_join : isRed (join d c l x r) = decide (c = .red) := by
  cases d <;> cases c <;> rfl

theorem blacken_of_black (h : isRed t = false) : t.blacken = t := by
  cases t with
  | leaf => rfl
  | node c l x r =>
      cases c with
      | red => cases h
      | black => rfl

theorem isRed_blacken : isRed t.blacken = false := by
  cases t <;> rfl

theorem Balanced.blacken (h : Balanced t n) : Balanced t.blacken (if isRed t then n + 1 else n) := by
  cases t with
  | leaf => exact h
  | node c l x r =>
      cases c with
      | red => exact ⟨n, rfl, h.2.2⟩
      | black => exact h

theorem Balanced.redBlack (h : Balanced t n) : IsRedBlack t.blacken := ⟨⟨_, h.blacken⟩, isRed_blacken⟩

theorem red_of_ne_black (h : c ≠ .black) : c = .red := by
  cases c with
  | red => rfl
  | black => exact absurd rfl h

theorem balanced_join (h : Fits (f :: up) n) (ht : Balanced t n) (hred : isRed t = true → f.color = .black) :
    Balanced (join f.side f.color t f.entry f.sibling) (Color.add f.color n) := by
  cases hc : f.color with
  | black => exact balanced_black.mpr ⟨ht, h.1⟩
  | red =>
      refine balanced_red.mpr ⟨?_, (h.2.1 hc).1, ht, h.1⟩
      rw [← Bool.not_eq_true]
      intro hr
      cases hc.symm.trans (hred hr)

theorem plug_redBlack (h : Fits up n) (ht : Balanced t n) (hred : isRed t = true → BlackAbove up) :
    IsRedBlack (plug up t) := by
  induction up generalizing t n with
  | nil =>
      refine ⟨⟨n, ht⟩, ?_⟩
      rw [← Bool.not_eq_true]
      intro hr
      cases hred hr
  | cons f up ih =>
      refine ih h.2.2 (balanced_join h ht fun hr => Option.some.inj (hred hr)) fun hr => ?_
      rw [isRed_join, decide_eq_true_eq] at hr
      exact (h.2.1 hr).2

theorem IsRedBlack.parts (h : IsRedBlack (plug up t)) :
    ∃ n, Fits up n ∧ Balanced t n ∧ (isRed t = true → BlackAbove up) := by
  induction up generalizing t with
  | nil =>
      obtain ⟨⟨n, hn⟩, hblack⟩ := h
      refine ⟨n, trivial, hn, fun hr => ?_⟩
      cases hblack.symm.trans hr
  | cons f up ih =>
      obtain ⟨n, hfits, hbal, hred⟩ := ih h
      cases hc : f.color with
      | black =>
          rw [hc] at hbal
          obtain ⟨m, rfl⟩ : ∃ m, n = m + 1 := by
            cases hs : f.side <;> rw [hs] at hbal <;> exact ⟨_, hbal.choose_spec.1⟩
          obtain ⟨ht, hsib⟩ := balanced_black.mp hbal
          refine ⟨m, ⟨hsib, ?_, ?_⟩, ht, fun _ => congrArg some hc⟩
          · rw [hc]
            exact fun he => absurd he (by decide)
          · rw [hc]
            exact hfits
      | red =>
          rw [hc] at hbal hred
          obtain ⟨ht, hs, hbt, hbs⟩ := balanced_red.mp hbal
          refine ⟨n, ⟨hbs, fun _ => ⟨hs, hred (isRed_join.trans (decide_eq_true rfl))⟩, ?_⟩, hbt, fun hr => ?_⟩
          · rw [hc]
            exact hfits
          · cases ht.symm.trans hr

theorem balanced_turned (hp : Balanced p.sibling n) (hps : isRed p.sibling = false) (ht : Balanced t n)
    (htr : isRed t = true) (ho : Balanced o n) (hor : isRed o = false) :
    Balanced (turned p g t o) (n + 1) ∧ isRed (turned p g t o) = false := by
  rw [turned.eq_def]
  split
  · refine ⟨balanced_black.mpr ⟨ht, balanced_red.mpr ⟨hps, hor, hp, ho⟩⟩, isRed_join⟩
  · cases t with
    | leaf => cases htr
    | node c l y r =>
        cases c with
        | black => cases htr
        | red =>
            obtain ⟨hl, hr, hbl, hbr⟩ := ht
            refine ⟨?_, isRed_join⟩
            cases g.side with
            | left =>
                exact balanced_black.mpr ⟨balanced_red.mpr ⟨hps, hl, hp, hbl⟩, balanced_red.mpr ⟨hr, hor, hbr, ho⟩⟩
            | right =>
                exact balanced_black.mpr ⟨balanced_red.mpr ⟨hps, hr, hp, hbr⟩, balanced_red.mpr ⟨hl, hor, hbl, ho⟩⟩

theorem insertFix_redBlack (h : Fits up n) (ht : Balanced t n) (hr : isRed t = true) :
    IsRedBlack (insertFix up t) := by
  induction up, t using insertFix.induct generalizing n with
  | case1 t => exact ht.redBlack
  | case2 p t =>
      have hblack : p.color = .black := by
        cases hc : p.color with
        | black => rfl
        | red => cases (h.2.1 hc).2
      exact (balanced_join h ht fun _ => hblack).redBlack
  | case3 p g up t hp =>
      rw [insertFix, if_pos hp]
      have hrb := plug_redBlack h ht fun _ => congrArg some hp
      rw [blacken_of_black hrb.black]
      exact hrb
  | case4 p g up t hp l u r hs ih =>
      rw [insertFix, if_neg hp]
      simp only [hs]
      obtain ⟨hpb, hpr, hg⟩ := h
      obtain ⟨hps, hgb⟩ := hpr (red_of_ne_black hp)
      rw [red_of_ne_black hp] at hg
      obtain ⟨hub, _, hup⟩ := hg
      rw [hs] at hub
      rw [show g.color = .black from Option.some.inj hgb] at hup
      refine ih hup (balanced_red.mpr ⟨isRed_join, rfl, balanced_black.mpr ⟨ht, hpb⟩, ?_⟩) isRed_join
      exact ⟨n, rfl, hub.2.2⟩
  | case5 p g up t hp hs =>
      rw [insertFix, if_neg hp]
      obtain ⟨hpb, hpr, hg⟩ := h
      obtain ⟨hps, hgb⟩ := hpr (red_of_ne_black hp)
      rw [red_of_ne_black hp] at hg
      obtain ⟨hub, _, hup⟩ := hg
      rw [show g.color = .black from Option.some.inj hgb] at hup
      have hor : isRed g.sibling = false := by
        cases hsib : g.sibling with
        | leaf => rfl
        | node color l u r =>
            cases color with
            | red => exact absurd hsib (hs l u r)
            | black => rfl
      obtain ⟨hb, hblack⟩ := @balanced_turned _ p g _ _ _ hpb hps ht hr hub hor
      have hrb : IsRedBlack (plug up (turned p g t g.sibling)) := by
        refine plug_redBlack hup hb fun hred => ?_
        cases hblack.symm.trans hred
      split
      · rename_i l u r hsib
        exact absurd hsib (hs l u r)
      · rw [blacken_of_black hrb.black]
        exact hrb

/-- A tree that is to be one black node short of n + 1: a red root can make up for it. -/
def Short (t : RbRoot α) (n : Nat) : Prop := Balanced t.blacken (if isRed t then n + 1 else n)

theorem Short.balanced (h : Short t n) (hr : isRed t = false) : Balanced t n := by
  rw [Short, hr, blacken_of_black hr] at h
  exact h

theorem shortRound_spec (ht : Balanced t n) (ho : Balanced o (n + 1)) (hor : isRed o = false) :
    isRed (shortRound d c t x o).1 = decide (c = .red) ∧
      ((shortRound d c t x o).2 = true → Balanced (shortRound d c t x o).1.blacken (n + 1)) ∧
      ((shortRound d c t x o).2 = false → Balanced (shortRound d c t x o).1 (Color.add c (n + 1))) := by
  cases o with
  | leaf => cases ho
  | node oc l y r =>
      cases oc with
      | red => cases hor
      | black =>
          obtain ⟨m, hm, hl, hr⟩ := ho
          obtain rfl := Nat.succ.inj hm
          have hnear : Balanced (d.pick l r) n := by cases d <;> assumption
          have hfar : Balanced (d.other.pick l r) n := by cases d <;> assumption
          have hdone (near far : RbRoot α) (w : α) (hn : Balanced near (n + 1)) (hf : Balanced far (n + 1))
              (hnr : isRed near = false) (hfr : isRed far = false) :
              Balanced (join d c near w far) (Color.add c (n + 1)) := by
            cases c with
            | black => exact balanced_black.mpr ⟨hn, hf⟩
            | red => exact balanced_red.mpr ⟨hnr, hfr, hn, hf⟩
          rw [shortRound]
          split
          · rename_i hred
            have hblack := hfar.blacken
            rw [hred] at hblack
            refine ⟨isRed_join, fun h => absurd h Bool.false_ne_true, fun _ => ?_⟩
            exact hdone _ _ _ (balanced_black.mpr ⟨ht, hnear⟩) hblack isRed_join isRed_blacken
          · rename_i hblack
            split
            · rename_i l' y' r' hpick
              rw [hpick] at hnear
              refine ⟨isRed_join, fun h => absurd h Bool.false_ne_true, fun _ => ?_⟩
              have hn : Balanced (d.pick l' r') n := by cases d with
                | left => exact hnear.2.2.1
                | right => exact hnear.2.2.2
              have hf : Balanced (d.other.pick l' r') n := by cases d with
                | left => exact hnear.2.2.2
                | right => exact hnear.2.2.1
              exact hdone _ _ _ (balanced_black.mpr ⟨ht, hn⟩) (balanced_black.mpr ⟨hf, hfar⟩) isRed_join isRed_join
            · rename_i hpick
              have hnr : isRed (d.pick l r) = false := by
                cases hp : d.pick l r with
                | leaf => rfl
                | node color l' y' r' =>
                    cases color with
                    | red => exact absurd hp (hpick l' y' r')
                    | black => rfl
              refine ⟨isRed_join, fun _ => ?_, fun h => absurd h.symm Bool.false_ne_true⟩
              have hlr : isRed l = false ∧ isRed r = false := by
                rw [Bool.not_eq_true] at hblack
                cases d with
                | left => exact ⟨hnr, hblack⟩
                | right => exact ⟨hblack, hnr⟩
              have hround : Balanced (join d .black t x (.node .red l y r)) (n + 1) :=
                balanced_black.mpr ⟨ht, hlr.1, hlr.2, hl, hr⟩
              cases d <;> exact hround

theorem eraseFix_redBlack (h : Fits up (n + 1)) (ht : Short t n) : IsRedBlack (eraseFix up t) := by
  induction up generalizing t n with
  | nil => exact ⟨⟨_, ht⟩, isRed_blacken⟩
  | cons p up ih =>
      rw [eraseFix]
      cases hr : isRed t with
      | true =>
          rw [Short, hr] at ht
          refine plug_redBlack h ht fun hred => ?_
          cases isRed_blacken.symm.trans hred
      | false =>
          have hbal := ht.balanced hr
          rw [if_neg Bool.false_ne_true]
          obtain ⟨hsib, hpr, hup⟩ := h
          have hblack (hs : isRed p.sibling = false) :
              IsRedBlack (if (shortRound p.side p.color t p.entry p.sibling).2 then
                eraseFix up (shortRound p.side p.color t p.entry p.sibling).1
              else (plug up (shortRound p.side p.color t p.entry p.sibling).1).blacken) := by
            obtain ⟨hcolor, hshort, hright⟩ := @shortRound_spec _ _ _ p.color p.side p.entry _ hbal hsib hs
            split
            · rename_i hq
              cases hc : p.color with
              | black =>
                  rw [hc] at hup hcolor hshort hq
                  refine ih hup ?_
                  rw [Short, hcolor]
                  exact hshort hq
              | red =>
                  rw [hc] at hup hcolor hshort hq
                  refine ih hup ?_
                  rw [Short, hcolor]
                  exact hshort hq
            · rename_i hq
              have hrb := plug_redBlack hup (hright (Bool.eq_false_of_not_eq_true hq)) fun hred => by
                rw [hcolor, decide_eq_true_eq] at hred
                exact (hpr hred).2
              rw [blacken_of_black hrb.black]
              exact hrb
          cases hs : p.sibling with
          | leaf =>
              rw [hs] at hsib
              cases hsib
          | node color l o r =>
              rw [hs] at hblack hsib
              cases color with
              | black => exact hblack rfl
              | red =>
                  -- a red sibling is below a black node
                  have hpc : p.color = .black := by
                    cases hc : p.color with
                    | black => rfl
                    | red =>
                        have hsr := (hpr hc).1
                        rw [hs] at hsr
                        cases hsr
                  rw [hpc] at hup
                  obtain ⟨hl, hr', hbl, hbr⟩ := hsib
                  have hnear : Balanced (p.side.pick l r) (n + 1) := by cases p.side <;> assumption
                  have hfar : Balanced (p.side.other.pick l r) (n + 1) := by cases p.side <;> assumption
                  have hnr : isRed (p.side.pick l r) = false := by cases p.side <;> assumption
                  have habove : Fits (⟨p.side, .black, o, p.side.other.pick l r⟩ :: up) (n + 1) :=
                    ⟨hfar, fun hc => Color.noConfusion hc, hup⟩
                  obtain ⟨hcolor, hshort, hright⟩ := @shortRound_spec _ _ _ .red p.side p.entry _ hbal hnear hnr
                  simp only
                  split
                  · rename_i hq
                    refine plug_redBlack habove (hshort hq) fun hred => ?_
                    cases isRed_blacken.symm.trans hred
                  · rename_i hq
                    have hrb := plug_redBlack habove (hright (Bool.eq_false_of_not_eq_true hq)) fun _ => rfl
                    rw [blacken_of_black hrb.black]
                    exact hrb

theorem balanced_node : Balanced (.node c l x r) m ↔ ∃ n, m = Color.add c n ∧
    (c = .red → isRed l = false ∧ isRed r = false) ∧ Balanced l n ∧ Balanced r n := by
  cases c with
  | red => simp [Balanced, Color.add, and_assoc]
  | black => simp [Balanced, Color.add]

theorem unlink_redBlack (h : Fits up (Color.add c n)) (ht : Balanced t n) (hc : c = .red → isRed t = false) :
    IsRedBlack (unlink up c t) := by
  rw [unlink]
  cases c with
  | black => exact eraseFix_redBlack h ht.blacken
  | red =>
      refine plug_redBlack h ht fun hred => ?_
      cases (hc rfl).symm.trans hred

theorem gap_redBlack (h : IsRedBlack (plug pl.up pl.tree)) : ∃ n, Fits (gap pl).up (Color.add (gap pl).color n) ∧
    Balanced (gap pl).child n ∧ ((gap pl).color = .red → isRed (gap pl).child = false) := by
  obtain ⟨m, hfits, hbal, hred⟩ := h.parts
  obtain ⟨n, rfl, hc, hl, hr⟩ := balanced_node.mp hbal
  rw [gap]
  split
  · exact ⟨n, hfits, hr, fun he => (hc he).2⟩
  · exact ⟨n, hfits, hl, fun he => (hc he).1⟩
  · split
    · exact ⟨n, hfits, hl, fun he => (hc he).1⟩
    · rename_i next hmin
      obtain ⟨hplug, hleft, _⟩ := leftmost_spec hmin
      -- the next entry in the place of the erased one
      have hwhole : IsRedBlack (plug (next.up ++ ⟨.right, pl.color, next.entry, pl.left⟩ :: pl.up) next.tree) := by
        rw [plug_append, hplug]
        have hnode : Balanced (.node pl.color pl.left next.entry pl.right) (Color.add pl.color n) :=
          balanced_node.mpr ⟨n, rfl, hc, hl, hr⟩
        have hroot : isRed (.node pl.color pl.left next.entry pl.right) = isRed pl.tree :=
          isRed_node.trans isRed_node.symm
        exact @plug_redBlack _ pl.up _ _ hfits hnode fun he => hred (hroot.symm.trans he)
      obtain ⟨k, hfits', hbal', _⟩ := hwhole.parts
      obtain ⟨j, rfl, hc', _, hright⟩ := balanced_node.mp hbal'
      exact ⟨j, hfits', hright, fun he => (hc' he).2⟩

theorem eraseAt_redBlack (h : IsRedBlack (plug pl.up pl.tree)) : IsRedBlack (eraseAt pl) := by
  obtain ⟨n, hfits, hbal, hc⟩ := gap_redBlack h
  exact unlink_redBlack hfits hbal hc

-- A new entry.

/-- The way down to the place of a new entry. -/
def descend (before : α → Bool) : Path α → RbRoot α → Path α
  | up, .leaf => up
  | up, .node c l y r =>
      if before y then descend before (⟨.left, c, y, r⟩ :: up) l else descend before (⟨.right, c, y, l⟩ :: up) r

theorem plug_link (before : α → Bool) (x : α) (up : Path α) (t : RbRoot α) :
    plug up (t.link before x).1 = plug (descend before up t) (.node .red .leaf x .leaf) := by
  induction t generalizing up with
  | leaf => rfl
  | node c l y r ihl ihr =>
      rw [RbRoot.link, descend]
      split
      · exact ihl (⟨.left, c, y, r⟩ :: up)
      · exact ihr (⟨.right, c, y, l⟩ :: up)

theorem plug_descend (before : α → Bool) (up : Path α) (t : RbRoot α) :
    plug (descend before up t) .leaf = plug up t := by
  induction t generalizing up with
  | leaf => rfl
  | node c l y r ihl ihr =>
      rw [descend]
      split
      · exact ihl (⟨.left, c, y, r⟩ :: up)
      · exact ihr (⟨.right, c, y, l⟩ :: up)

theorem link_perm (before : α → Bool) (x : α) (t : RbRoot α) : (t.link before x).1.inorder.Perm (x :: t.inorder) := by
  have hlink := plug_link before x [] t
  have hleaf := congrArg RbRoot.inorder (plug_descend before [] t)
  rw [plug] at hlink
  rw [inorder_plug, RbRoot.inorder, List.append_nil, plug] at hleaf
  rw [hlink, inorder_plug, ← hleaf]
  simp only [RbRoot.inorder, List.nil_append, List.append_assoc, List.cons_append]
  exact List.perm_middle

section

variable [DecidableEq ι] {addr : α → ι}

theorem placeOf_link (before : α → Bool) (h : addr x ∉ t.inorder.map addr) :
    placeOf addr (t.link before x).1 (addr x) = some ⟨descend before [] t, .red, .leaf, x, .leaf⟩ := by
  have hlink := plug_link before x [] t
  rw [plug] at hlink
  rw [hlink]
  refine @locate_place _ ⟨descend before [] t, .red, .leaf, x, .leaf⟩ _ (decide_eq_true rfl) fun y hy => ?_
  have hleaf := congrArg RbRoot.inorder (plug_descend before [] t)
  rw [inorder_plug, RbRoot.inorder, List.append_nil] at hleaf
  refine decide_eq_false fun he => h ?_
  rw [← he]
  refine List.mem_map_of_mem ?_
  rw [plug] at hleaf
  exact hleaf ▸ hy

theorem insertColor_link (before : α → Bool) (h : addr x ∉ t.inorder.map addr) :
    (rbtreeOps addr).insertColor (t.link before x).1 (addr x) =
      insertFix (descend before [] t) (.node .red .leaf x .leaf) := by
  change rbInsertColor addr _ _ = _
  rw [rbInsertColor, placeOf_link before h]
  rfl

theorem insert_redBlack (before : α → Bool) (ht : IsRedBlack t) (h : addr x ∉ t.inorder.map addr) :
    IsRedBlack ((rbtreeOps addr).insertColor (t.link before x).1 (addr x)) := by
  rw [insertColor_link before h]
  have hplug : IsRedBlack (plug (descend before [] t) .leaf) := by
    rw [plug_descend]
    exact ht
  obtain ⟨n, hfits, hleaf, _⟩ := hplug.parts
  exact insertFix_redBlack hfits ⟨rfl, rfl, hleaf, hleaf⟩ rfl

theorem erase_redBlack (ht : IsRedBlack t) (h : x ∈ t.inorder) :
    IsRedBlack ((rbtreeOps addr).erase t (addr x)) := by
  obtain ⟨pl, hloc, htree, _⟩ := @placeOf_mem _ _ _ _ _ addr h
  change IsRedBlack (rbErase addr _ _)
  rw [rbErase, hloc]
  rw [← htree] at ht
  exact eraseAt_redBlack ht

end

-- How deep a tree is.

def height : RbRoot α → Nat
  | .leaf => 0
  | .node _ l _ r => max (height l) (height r) + 1

theorem Balanced.height_le (h : Balanced t n) : height t ≤ 2 * n + if isRed t then 1 else 0 := by
  induction t generalizing n with
  | leaf => exact Nat.zero_le _
  | node c l x r ihl ihr =>
      obtain ⟨m, rfl, hc, hl, hr⟩ := balanced_node.mp h
      have hhl := ihl hl
      have hhr := ihr hr
      cases c with
      | red =>
          rw [(hc rfl).1] at hhl
          rw [(hc rfl).2] at hhr
          simp only [height, isRed, Color.add, if_true, Bool.false_eq_true, if_false] at *
          omega
      | black =>
          have hle (b : Bool) : (if b then 1 else 0 : Nat) ≤ 1 := by cases b <;> decide
          have h1 := hle (isRed l)
          have h2 := hle (isRed r)
          simp only [height, isRed, Color.add, Bool.false_eq_true, if_false]
          omega

theorem Balanced.length_ge (h : Balanced t n) : 2 ^ n ≤ t.inorder.length + 1 := by
  induction t generalizing n with
  | leaf =>
      rw [show n = 0 from h]
      exact Nat.le_refl 1
  | node c l x r ihl ihr =>
      obtain ⟨m, rfl, _, hl, hr⟩ := balanced_node.mp h
      have hhl := ihl hl
      have hhr := ihr hr
      rw [RbRoot.inorder, List.length_append, List.length_cons]
      cases c with
      | red =>
          simp only [Color.add]
          omega
      | black =>
          rw [Color.add, Nat.pow_succ]
          omega

theorem IsRedBlack.height_le (h : IsRedBlack t) : height t ≤ 2 * Nat.log 2 (t.inorder.length + 1) := by
  obtain ⟨⟨n, hn⟩, hblack⟩ := h
  have hheight := hn.height_le
  rw [hblack] at hheight
  have hlog := Nat.le_log_of_pow_le (by decide) hn.length_ge
  simp only [Bool.false_eq_true, if_false] at hheight
  omega

theorem length_descend (before : α → Bool) (up : Path α) (t : RbRoot α) :
    (descend before up t).length ≤ up.length + height t := by
  induction t generalizing up with
  | leaf => exact Nat.le_refl _
  | node c l y r ihl ihr =>
      have hl := ihl (⟨.left, c, y, r⟩ :: up)
      have hr := ihr (⟨.right, c, y, l⟩ :: up)
      rw [List.length_cons] at hl hr
      rw [descend, height]
      split <;> omega

theorem length_add_height (up : Path α) (t : RbRoot α) : up.length + height t ≤ height (plug up t) := by
  induction up generalizing t with
  | nil => exact (Nat.zero_add _).le
  | cons f up ih =>
      have hup := ih (join f.side f.color t f.entry f.sibling)
      have hjoin : height t < height (join f.side f.color t f.entry f.sibling) := by
        cases f.side with
        | left => exact Nat.lt_succ_of_le (Nat.le_max_left _ _)
        | right => exact Nat.lt_succ_of_le (Nat.le_max_right _ _)
      rw [plug, List.length_cons]
      omega

theorem length_gap (pl : Place α) : (gap pl).up.length ≤ height (plug pl.up pl.tree) := by
  have hup := length_add_height pl.up pl.tree
  rw [Place.tree, height] at hup
  rw [gap]
  split
  · exact Nat.le_of_add_right_le hup
  · exact Nat.le_of_add_right_le hup
  · split
    · exact Nat.le_of_add_right_le hup
    · rename_i next hmin
      have hnext := length_add_height next.up next.tree
      rw [(leftmost_spec hmin).1, plug, Place.tree, height] at hnext
      rw [List.length_append, List.length_cons]
      rw [Place.tree]
      omega

theorem le_length_descend (before : α → Bool) (up : Path α) (t : RbRoot α) :
    up.length ≤ (descend before up t).length := by
  induction t generalizing up with
  | leaf => exact Nat.le_refl _
  | node c l y r ihl ihr =>
      rw [descend]
      split
      · exact (Nat.le_succ _).trans (ihl (⟨.left, c, y, r⟩ :: up))
      · exact (Nat.le_succ _).trans (ihr (⟨.right, c, y, l⟩ :: up))

end OiAmc.RedBlack

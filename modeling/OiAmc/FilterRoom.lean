import OiAmc.FilterCodec
import OiAmc.Filter
import OiAmc.FilterPrint

namespace OiAmc.FilterRoom

open ByteBuffer ByteOrder OiAmc.Filter FilterLogic FilterPrint
open FilterCodec (Built ne_null_of_shaped place place_place put_of_le shaped_of_built)

variable {host : Endian} {cap p n m : Nat} {f : Fields} {t l r : SFilter} {s s' : Out} {b buf : Nat → UInt8}
  {text tl tr bs : List UInt8}

def Grown : SFilter → Prop
  | .null => True
  | .node f lchild rchild =>
      f.type = FilterType.single ∨
        (f.type = FilterType.compositeOr ∨ f.type = FilterType.compositeAnd) ∧
          (lchild = .null ↔ rchild = .null) ∧ Grown lchild ∧ Grown rchild

theorem place_nil (b : Nat → UInt8) (p : Nat) : place b p [] = b := by
  funext j
  rw [place, overlay, if_neg]
  simp only [List.length_nil]
  omega

theorem place_apart {j : Nat} (h : j < p ∨ p + bs.length ≤ j) : place b p bs j = b j := by
  rw [place, overlay, if_neg]
  omega

theorem place_at {q : Nat} {x : UInt8} (h : bs[q]? = some x) : place b p bs (p + q) = x := by
  obtain ⟨hlt, rfl⟩ := List.getElem?_eq_some_iff.mp h
  rw [place, overlay, if_pos (by omega), Nat.add_sub_cancel_left, List.getD_eq_getElem _ _ hlt]

theorem place_written (hb : ∀ j, b j ≠ 0) (hbs : Written bs) : ∀ j, place b p bs j ≠ 0 := by
  intro j
  by_cases hj : p ≤ j ∧ j < p + bs.length
  · obtain ⟨q, rfl⟩ := Nat.exists_eq_add_of_le hj.1
    have hlt : q < bs.length := by omega
    rw [place_at (List.getElem?_eq_getElem hlt)]
    exact hbs _ (List.getElem_mem hlt)
  · rw [place_apart (by omega)]
    exact hb j

theorem put_eq_some : put cap b p bs = some buf ↔ p + bs.length ≤ cap ∧ buf = place b p bs :=
  store_eq_some

/-- The octets of a filter that size is reduced by. -/
def counted (host : Endian) : SFilter → Nat
  | .null => 0
  | .node f lchild rchild =>
      nonLen f + if f.type = FilterType.single then ((simpleText host f).getD []).length + 2
        else counted host lchild + counted host rchild

/-- When its turn comes, a simple filter finds enough left of size. -/
def Turn (host : Endian) : SFilter → Int → Prop
  | .null, _ => True
  | .node f lchild rchild, size =>
      if f.type = FilterType.single then 30 ≤ size
      else Turn host lchild size ∧ Turn host rchild (size - counted host lchild)

def AllTidy (host : Endian) : SFilter → Prop
  | .null => True
  | .node f lchild rchild =>
      if f.type = FilterType.single then Tidy host f else AllTidy host lchild ∧ AllTidy host rchild

def Childed : Bool → SFilter → Prop
  | printed, .null => printed = false
  | printed, .node f lchild rchild =>
      f.type = FilterType.single ∨ Childed printed lchild ∧ Childed (printed || lchild ≠ .null) rchild

def opOf (f : Fields) : UInt8 := if f.type = FilterType.compositeOr then 0x7c else 0x26

theorem nonText_length (f : Fields) : (nonText f).length = nonLen f := by
  rw [nonText, nonLen]
  split <;> rfl

theorem fullText_single (hs : f.type = FilterType.single) (h : fullText host (.node f l r) = some text) :
    ∃ simple, simpleText host f = some simple ∧ text = nonText f ++ [0x28] ++ simple ++ [0x29] := by
  rw [fullText, if_pos hs] at h
  obtain ⟨simple, hsimple, h⟩ := Option.bind_eq_some_iff.mp h
  exact ⟨simple, hsimple, (Option.some.inj h).symm⟩

theorem fullText_compose (hs : f.type ≠ FilterType.single) (h : fullText host (.node f l r) = some text) :
    ∃ left right, fullText host l = some left ∧ fullText host r = some right ∧
      text = nonText f ++ [0x28] ++ left ++ [0x20, opOf f, opOf f, 0x20] ++ right ++ [0x29] := by
  rw [fullText, if_neg hs] at h
  obtain ⟨left, hleft, h⟩ := Option.bind_eq_some_iff.mp h
  obtain ⟨right, hright, h⟩ := Option.bind_eq_some_iff.mp h
  exact ⟨left, right, hleft, hright, (Option.some.inj h).symm⟩

theorem counted_le (h : fullText host t = some text) : counted host t ≤ text.length := by
  induction t generalizing text with
  | null => exact Nat.zero_le _
  | node f l r ihl ihr =>
      rw [counted]
      by_cases hs : f.type = FilterType.single
      · obtain ⟨simple, hsimple, rfl⟩ := fullText_single hs h
        rw [if_pos hs, hsimple]
        simp only [Option.getD_some, List.length_append, nonText_length, List.length_singleton]
        omega
      · obtain ⟨left, right, hleft, hright, rfl⟩ := fullText_compose hs h
        have hl := ihl hleft
        have hr := ihr hright
        rw [if_neg hs]
        simp only [List.length_append, nonText_length, List.length_singleton]
        omega

theorem length_compose (xs : List UInt8) (op : UInt8) (tl tr : List UInt8) :
    (xs ++ [0x28] ++ tl ++ [0x20, op, op, 0x20] ++ tr ++ [0x29]).length =
      xs.length + (tl.length + tr.length + 6) := by
  simp only [List.length_append, List.length_cons, List.length_nil]
  omega

theorem length_eq_zero (h : fullText host t = some text) : text.length = 0 ↔ t = .null := by
  cases t with
  | null =>
      obtain rfl := Option.some.inj h
      exact iff_of_true rfl rfl
  | node f l r =>
      refine iff_of_false ?_ SFilter.noConfusion
      by_cases hs : f.type = FilterType.single
      · obtain ⟨simple, -, rfl⟩ := fullText_single hs h
        simp
      · obtain ⟨left, right, -, -, rfl⟩ := fullText_compose hs h
        rw [length_compose]
        omega

theorem printed_left (htl : fullText host l = some tl) (hcl : Childed (n ≠ 0) l) :
    decide (tl.length ≠ 0) = (n ≠ 0 || l ≠ .null) := by
  by_cases hl : l = .null
  · subst hl
    obtain rfl := Option.some.inj htl
    have hn : n = 0 := by simpa [Childed] using hcl
    simp [hn]
  · have hlen : tl.length ≠ 0 := fun h => hl ((length_eq_zero htl).mp h)
    simp [hl, hlen]

/-- What is printed inside a buffer of size cap, where len is n before. -/
structure Fits (host : Endian) (cap : Nat) (t : SFilter) (text : List UInt8) (p n : Nat) (size : Int) :
    Prop where
  tidy : AllTidy host t
  room : p + text.length ≤ cap
  turn : Turn host t size
  childed : Childed (n ≠ 0) t

theorem mark_eq_some : (if f.non = 1 then put cap b p [0x21] else some b) = some buf ↔
    (f.non = 1 → p + 1 ≤ cap) ∧ buf = place b p (nonText f) := by
  rw [nonText]
  split
  · next hnon => simp only [put_eq_some, List.length_singleton, hnon, true_imp_iff]
  · next hnon =>
      simp only [Option.some.injEq, hnon, false_imp_iff, true_and, place_nil]
      exact eq_comm

theorem put_behind {q : Nat} {xs ys : List UInt8} (hq : q = p + xs.length) (h : q + ys.length ≤ cap) :
    put cap (place b p xs) q ys = some (place b p (xs ++ ys)) := by
  subst hq
  rw [put_of_le h, place_place]

theorem single_full {simple : List UInt8} (hsimple : simpleText host f = some simple) (htidy : Tidy host f)
    (hroom : p + simple.length + 2 ≤ cap) (hturn : 30 ≤ s.size) (hsize : (simple.length : Int) + 2 ≤ s.size) :
    filterSingleLogic host cap f p s =
      some ⟨place s.buf p ([0x28] ++ simple ++ [0x29]), simple.length + 2, s.size - (simple.length + 2)⟩ := by
  have h1 : put cap s.buf p [0x28] = some (place s.buf p [0x28]) :=
    put_of_le (by rw [List.length_singleton]; omega)
  have h2 : put cap (place s.buf p [0x28]) (p + 1) simple = some (place s.buf p ([0x28] ++ simple)) :=
    put_behind rfl (by omega)
  have h3 : put cap (place s.buf p ([0x28] ++ simple)) (p + (1 + simple.length)) [0x29] =
      some (place s.buf p ([0x28] ++ simple ++ [0x29])) := by
    apply put_behind
    · rw [List.length_append, List.length_singleton]
    · rw [List.length_singleton]
      omega
  rw [filterSingleLogic, if_neg (by omega)]
  simp only [h1, (tidy_iff hsimple).mp htidy, Option.bind_eq_bind, Option.bind_some, Nat.cast_add,
    Nat.cast_one]
  rw [if_pos (by omega)]
  simp only [h2, Option.bind_some]
  rw [if_pos (by omega)]
  simp only [h3, Option.bind_some]
  refine congrArg some ?_
  rw [Out.mk.injEq]
  exact ⟨rfl, by omega, by omega⟩

theorem compose_full {op : UInt8} {left right : Nat → Out → Option Out} {size1 size2 : Int}
    (hroom : p + (tl.length + tr.length + 6) ≤ cap)
    (hleft : left (p + 1) ⟨place s.buf p [0x28], s.len, s.size⟩ =
      some ⟨place (place s.buf p [0x28]) (p + 1) tl, tl.length, size1⟩)
    (hright : ∀ buf, right (p + (1 + tl.length + 4)) ⟨buf, tl.length, size1⟩ =
      some ⟨place buf (p + (1 + tl.length + 4)) tr, tr.length, size2⟩) :
    filterComposeLogic cap op true left right p s =
      some ⟨place s.buf p ([0x28] ++ tl ++ [0x20, op, op, 0x20] ++ tr ++ [0x29]), tl.length + tr.length + 6,
        size2⟩ := by
  have h1 : put cap s.buf p [0x28] = some (place s.buf p [0x28]) :=
    put_of_le (by rw [List.length_singleton]; omega)
  have h2 : put cap (place s.buf p ([0x28] ++ tl)) (p + (1 + tl.length)) [0x20, op, op, 0x20] =
      some (place s.buf p ([0x28] ++ tl ++ [0x20, op, op, 0x20])) := by
    apply put_behind
    · rw [List.length_append, List.length_singleton]
    · simp only [List.length_cons, List.length_nil]
      omega
  have h3 : put cap (place s.buf p ([0x28] ++ tl ++ [0x20, op, op, 0x20] ++ tr))
      (p + (1 + tl.length + 4 + tr.length)) [0x29] =
        some (place s.buf p ([0x28] ++ tl ++ [0x20, op, op, 0x20] ++ tr ++ [0x29])) := by
    apply put_behind
    · simp only [List.length_append, List.length_cons, List.length_nil]
    · rw [List.length_singleton]
      omega
  have hl : place (place s.buf p [0x28]) (p + 1) tl = place s.buf p ([0x28] ++ tl) :=
    place_place s.buf p [0x28] tl
  have hr : place (place s.buf p ([0x28] ++ tl ++ [0x20, op, op, 0x20])) (p + (1 + tl.length + 4)) tr =
      place s.buf p ([0x28] ++ tl ++ [0x20, op, op, 0x20] ++ tr) := by
    rw [← place_place s.buf p ([0x28] ++ tl ++ [0x20, op, op, 0x20]) tr]
    simp only [List.length_append, List.length_cons, List.length_nil]
  simp only [filterComposeLogic, if_true, h1, hleft, hl, h2, hright, hr, h3, Option.bind_eq_bind,
    Option.bind_some]
  refine congrArg some ?_
  rw [Out.mk.injEq]
  exact ⟨rfl, by omega, rfl⟩

theorem compose_children (host : Endian) (cap : Nat) (op : UInt8) (h : l = .null ↔ r = .null) (p : Nat)
    (s : Out) :
    filterComposeLogic cap op (l ≠ .null) (filterTraversalLogic host cap l)
        (filterTraversalLogic host cap r) p s =
      filterComposeLogic cap op true (filterTraversalLogic host cap l)
        (filterTraversalLogic host cap r) p s := by
  by_cases hl : l = .null
  · obtain rfl := h.mp hl
    subst hl
    rfl
  · rw [decide_eq_true hl]

theorem traversal_node (hf : Grown (.node f l r)) (p : Nat) (s : Out) :
    filterTraversalLogic host cap (.node f l r) p s =
      (if f.non = 1 then put cap s.buf p [0x21] else some s.buf).bind fun buf =>
        ((if f.type = FilterType.single then filterSingleLogic host cap f (p + nonLen f) { s with buf := buf }
          else filterComposeLogic cap (opOf f) true (filterTraversalLogic host cap l)
            (filterTraversalLogic host cap r) (p + nonLen f) { s with buf := buf })).map fun s =>
          { s with len := s.len + nonLen f, size := s.size - nonLen f } := by
  have hjoin {c : Prop} [Decidable c] (x y : Option (Nat → UInt8)) {k k' : (Nat → UInt8) → Option Out}
      (h : ∀ buf, k buf = k' buf) : (if c then x.bind k else y.bind k) = (if c then x else y).bind k' := by
    rw [funext h]
    split <;> rfl
  rw [filterTraversalLogic]
  refine hjoin _ _ fun buf => ?_
  dsimp only
  rcases hf with hs | ⟨hc, hboth, -⟩
  · rw [if_pos hs, if_pos hs]
    cases filterSingleLogic host cap f (p + nonLen f) { s with buf := buf } <;> rfl
  · have hs : f.type ≠ FilterType.single := FilterDecode.ne_single_of_composite hc
    have hchildren (op : UInt8) := compose_children host cap op hboth (p + nonLen f) { s with buf := buf }
    rw [if_neg hs, if_neg hs]
    by_cases hor : f.type = FilterType.compositeOr
    · rw [if_pos hor, opOf, if_pos hor, filterOrLogic, hchildren]
      cases filterComposeLogic cap 0x7c true _ _ (p + nonLen f) { s with buf := buf } <;> rfl
    · rw [if_neg hor, if_pos (hc.resolve_left hor), opOf, if_neg hor, filterAndLogic, hchildren]
      cases filterComposeLogic cap 0x26 true _ _ (p + nonLen f) { s with buf := buf } <;> rfl

theorem traversal_full (hf : Grown t) (ht : fullText host t = some text)
    (hfits : Fits host cap t text p s.len s.size) (hcap : (cap : Int) ≤ p + s.size) :
    filterTraversalLogic host cap t p s = some ⟨place s.buf p text, text.length, s.size - counted host t⟩ := by
  induction t generalizing text p s with
  | null =>
      obtain rfl := Option.some.inj ht
      have hlen : s.len = 0 := by simpa [Childed] using hfits.childed
      rw [filterTraversalLogic, place_nil, counted, List.length_nil, Nat.cast_zero, Int.sub_zero, ← hlen]
  | node f l r ihl ihr =>
      obtain ⟨htidy, hroom, hturn, hchilded⟩ := hfits
      rw [traversal_node hf]
      by_cases hs : f.type = FilterType.single
      · obtain ⟨simple, hsimple, rfl⟩ := fullText_single hs ht
        rw [AllTidy, if_pos hs] at htidy
        rw [Turn, if_pos hs] at hturn
        simp only [List.length_append, List.length_singleton, nonText_length] at hroom ⊢
        have hmark : (if f.non = 1 then put cap s.buf p [0x21] else some s.buf) =
            some (place s.buf p (nonText f)) := mark_eq_some.mpr ⟨fun _ => by omega, rfl⟩
        have hsingle := @single_full host cap (p + nonLen f) f ⟨place s.buf p (nonText f), s.len, s.size⟩
          simple hsimple htidy (by omega) hturn (by dsimp only; omega)
        rw [hmark, Option.bind_some, if_pos hs, hsingle, Option.map_some, counted, if_pos hs, hsimple]
        simp only [Option.getD_some, Option.some.injEq, Out.mk.injEq]
        refine ⟨?_, by omega, by push_cast; omega⟩
        rw [← nonText_length, place_place]
        simp only [List.append_assoc]
      · obtain ⟨tl, tr, htl, htr, rfl⟩ := fullText_compose hs ht
        obtain ⟨-, -, hl, hr⟩ := hf.resolve_left hs
        rw [AllTidy, if_neg hs] at htidy
        rw [Turn, if_neg hs] at hturn
        obtain ⟨hcl, hcr⟩ := hchilded.resolve_left hs
        rw [length_compose, nonText_length] at hroom
        have hmark : (if f.non = 1 then put cap s.buf p [0x21] else some s.buf) =
            some (place s.buf p (nonText f)) := mark_eq_some.mpr ⟨fun _ => by omega, rfl⟩
        have hcounted := counted_le htl
        rw [← printed_left htl hcl] at hcr
        have hleft := @ihl (p + nonLen f + 1)
          ⟨place (place s.buf p (nonText f)) (p + nonLen f) [0x28], s.len, s.size⟩ tl hl htl
          ⟨htidy.1, by omega, hturn.1, hcl⟩ (by dsimp only; push_cast; omega)
        have hright (buf : Nat → UInt8) := @ihr (p + nonLen f + (1 + tl.length + 4))
          ⟨buf, tl.length, s.size - counted host l⟩ tr hr htr ⟨htidy.2, by omega, hturn.2, hcr⟩
          (by dsimp only; push_cast; omega)
        dsimp only at hleft hright
        have hboth := @compose_full cap (p + nonLen f) ⟨place s.buf p (nonText f), s.len, s.size⟩ tl tr (opOf f)
          _ _ _ _ (by omega) hleft hright
        rw [hmark, Option.bind_some, if_neg hs, hboth, Option.map_some, counted, if_neg hs]
        simp only [Option.some.injEq, Out.mk.injEq]
        refine ⟨?_, ?_, by push_cast; omega⟩
        · rw [← nonText_length, place_place]
          simp only [List.append_assoc]
        · rw [length_compose, nonText_length]
          omega

/-- Octets were written from p on, none of them zero. -/
structure Grows (p : Nat) (b b' : Nat → UInt8) : Prop where
  front : ∀ j < p, b' j = b j
  written : (∀ j, b j ≠ 0) → ∀ j, b' j ≠ 0

theorem Grows.refl (p : Nat) (b : Nat → UInt8) : Grows p b b := ⟨fun _ _ => rfl, fun h => h⟩

theorem Grows.trans {q : Nat} {b1 b2 b3 : Nat → UInt8} (h1 : Grows p b1 b2) (h2 : Grows q b2 b3)
    (hpq : p ≤ q) : Grows p b1 b3 :=
  ⟨fun j hj => (h2.front j (by omega)).trans (h1.front j hj), fun h => h2.written (h1.written h)⟩

theorem grows_put {q : Nat} (hpq : p ≤ q) (hbs : Written bs) (h : put cap b q bs = some buf) :
    Grows p b buf := by
  obtain ⟨-, rfl⟩ := put_eq_some.mp h
  exact ⟨fun j hj => place_apart (by omega), fun hb => place_written hb hbs⟩

theorem written_octet {a : UInt8} (h : a ≠ 0) : Written [a] := List.forall_mem_singleton.mpr h

theorem opOf_ne_zero (f : Fields) : opOf f ≠ 0 := by
  rw [opOf]
  split <;> decide

theorem written_op (f : Fields) : Written [0x20, opOf f, opOf f, 0x20] := by
  intro x hx
  simp only [List.mem_cons, List.not_mem_nil, or_false] at hx
  rcases hx with rfl | rfl | rfl | rfl
  · decide
  · exact opOf_ne_zero f
  · exact opOf_ne_zero f
  · decide

theorem single_steps {simple : List UInt8} (hsimple : simpleText host f = some simple)
    (h : filterSingleLogic host cap f p s = some s') (hturn : ¬ s.size < 30) :
    Tidy host f ∧ ∃ buf, put cap s.buf p [0x28] = some buf ∧
      ((s'.buf = buf ∨ put cap buf (p + 1) simple = some s'.buf) ∧ s'.len = 1 + simple.length ∧
          s.size < 1 + simple.length + 1 ∨
        ∃ buf', put cap buf (p + 1) simple = some buf' ∧
          put cap buf' (p + (1 + simple.length)) [0x29] = some s'.buf) := by
  rw [filterSingleLogic, if_neg hturn] at h
  obtain ⟨buf, hput, h⟩ := Option.bind_eq_some_iff.mp h
  obtain ⟨tmp, htmp, h⟩ := Option.bind_eq_some_iff.mp h
  obtain rfl := tmpOf_cases hsimple htmp
  refine ⟨(tidy_iff hsimple).mpr htmp, buf, hput, ?_⟩
  simp only [Nat.cast_add, Nat.cast_one] at h
  by_cases hslot : (1 + simple.length : Int) ≤ s.size
  · rw [if_pos hslot] at h
    obtain ⟨buf', hput', h⟩ := Option.bind_eq_some_iff.mp h
    split at h
    · obtain ⟨buf'', hput'', h⟩ := Option.bind_eq_some_iff.mp h
      cases h
      exact .inr ⟨buf', hput', hput''⟩
    · next hclose =>
        cases h
        exact .inl ⟨.inr hput', rfl, by omega⟩
  · rw [if_neg hslot] at h
    obtain ⟨buf', hput', h⟩ := Option.bind_eq_some_iff.mp h
    cases hput'
    rw [if_neg (by omega)] at h
    cases h
    exact .inl ⟨.inl rfl, rfl, by omega⟩

theorem compose_steps {op : UInt8} {left right : Nat → Out → Option Out}
    (h : filterComposeLogic cap op true left right p s = some s') :
    ∃ buf s1 buf1 s2, put cap s.buf p [0x28] = some buf ∧ left (p + 1) { s with buf := buf } = some s1 ∧
      put cap s1.buf (p + (1 + s1.len)) [0x20, op, op, 0x20] = some buf1 ∧
      right (p + (1 + s1.len + 4)) { s1 with buf := buf1 } = some s2 ∧
      put cap s2.buf (p + (1 + s1.len + 4 + s2.len)) [0x29] = some s'.buf ∧
      s'.len = 1 + s1.len + 4 + s2.len + 1 := by
  simp only [filterComposeLogic, if_true, Option.bind_eq_bind, Option.bind_eq_some_iff] at h
  obtain ⟨buf, hput, s1, hleft, buf1, hput1, s2, hright, buf2, hput2, h⟩ := h
  cases h
  exact ⟨buf, s1, buf1, s2, hput, hleft, hput1, hright, hput2, rfl⟩

theorem traversal_steps (hf : Grown (.node f l r))
    (h : filterTraversalLogic host cap (.node f l r) p s = some s') :
    ∃ s1, (f.non = 1 → p + 1 ≤ cap) ∧
      (if f.type = FilterType.single then
          filterSingleLogic host cap f (p + nonLen f) { s with buf := place s.buf p (nonText f) }
        else filterComposeLogic cap (opOf f) true (filterTraversalLogic host cap l)
          (filterTraversalLogic host cap r) (p + nonLen f) { s with buf := place s.buf p (nonText f) }) = some s1 ∧
      s' = { s1 with len := s1.len + nonLen f, size := s1.size - nonLen f } := by
  rw [traversal_node hf] at h
  obtain ⟨buf, hmark, h⟩ := Option.bind_eq_some_iff.mp h
  obtain ⟨hroom, rfl⟩ := mark_eq_some.mp hmark
  obtain ⟨s1, h1, rfl⟩ := Option.map_eq_some_iff.mp h
  exact ⟨s1, hroom, h1, rfl⟩

theorem nonText_written (f : Fields) : Written (nonText f) := by
  rw [nonText]
  split
  · exact written_octet (by decide)
  · simp [Written]

theorem traversal_grows (hf : Grown t) (ht : fullText host t = some text)
    (h : filterTraversalLogic host cap t p s = some s') : Grows p s.buf s'.buf := by
  induction t generalizing text p s s' with
  | null =>
      obtain rfl := Option.some.inj h
      exact .refl _ _
  | node f l r ihl ihr =>
      obtain ⟨s1, -, h1, rfl⟩ := traversal_steps hf h
      have hmark : Grows p s.buf (place s.buf p (nonText f)) :=
        ⟨fun j hj => place_apart (.inl hj), fun hb => place_written hb (nonText_written f)⟩
      refine hmark.trans ?_ (Nat.le_add_right p (nonLen f))
      by_cases hs : f.type = FilterType.single
      · rw [if_pos hs] at h1
        obtain ⟨simple, hsimple, rfl⟩ := fullText_single hs ht
        by_cases hturn : s.size < 30
        · rw [filterSingleLogic, if_pos hturn] at h1
          cases h1
          exact .refl _ _
        · have hsimplew := simpleText_written hsimple
          obtain ⟨-, buf, hput, ⟨hbuf | hput1, -⟩ | ⟨buf', hput1, hput2⟩⟩ := single_steps hsimple h1 hturn
          · rw [hbuf]
            exact grows_put (le_refl _) (written_octet (by decide)) hput
          · exact (grows_put (le_refl _) (written_octet (by decide)) hput).trans
              (grows_put (le_refl _) hsimplew hput1) (by omega)
          · exact ((grows_put (le_refl _) (written_octet (by decide)) hput).trans
              (grows_put (le_refl _) hsimplew hput1) (by omega)).trans
              (grows_put (le_refl _) (written_octet (by decide)) hput2) (by omega)
      · rw [if_neg hs] at h1
        obtain ⟨tl, tr, htl, htr, rfl⟩ := fullText_compose hs ht
        obtain ⟨-, -, hl, hr⟩ := hf.resolve_left hs
        obtain ⟨buf, s2, buf2, s3, hput, hleft, hput2, hright, hput3, -⟩ := compose_steps h1
        have g1 := grows_put (le_refl _) (written_octet (by decide)) hput
        have g2 := ihl hl htl hleft
        have g3 := grows_put (le_refl _) (written_op f) hput2
        have g4 := ihr hr htr hright
        have g5 := grows_put (le_refl _) (written_octet (by decide)) hput3
        exact (((g1.trans g2 (by omega)).trans g3 (by omega)).trans g4 (by omega)).trans g5 (by omega)

/-- In front of n there is a place where the buffer has something else than the text. -/
def Spoiled (text : List UInt8) (p n : Nat) (buf : Nat → UInt8) : Prop :=
  ∃ q < n, ∃ a, text[q]? = some a ∧ buf (p + q) ≠ a

theorem single_short {simple : List UInt8} (hsimple : simpleText host f = some simple)
    (hcap : (cap : Int) ≤ p + s.size)
    (hfits : ¬ (Tidy host f ∧ p + simple.length + 2 ≤ cap ∧ 30 ≤ s.size))
    (h : filterSingleLogic host cap f p s = some s') : cap ≤ p + s'.len ∨ s.size < 30 ∧ s' = s := by
  by_cases hturn : s.size < 30
  · rw [filterSingleLogic, if_pos hturn] at h
    cases h
    exact .inr ⟨hturn, rfl⟩
  · left
    obtain ⟨htidy, buf, -, ⟨-, hlen, hover⟩ | ⟨buf', -, hput⟩⟩ := single_steps hsimple h hturn
    · omega
    · obtain ⟨hroom, -⟩ := put_eq_some.mp hput
      rw [List.length_singleton] at hroom
      exact absurd ⟨htidy, by omega, by omega⟩ hfits

theorem getElem?_append_of_some {α : Type} {bs cs : List α} {q : Nat} {x : α} (h : bs[q]? = some x) :
    (bs ++ cs)[q]? = some x := by
  obtain ⟨hlt, -⟩ := List.getElem?_eq_some_iff.mp h
  rw [List.getElem?_append_left hlt]
  exact h

theorem getElem?_between {α : Type} {as bs cs : List α} {q : Nat} {x : α} (h : bs[q]? = some x) :
    (as ++ bs ++ cs)[as.length + q]? = some x := by
  obtain ⟨hlt, -⟩ := List.getElem?_eq_some_iff.mp h
  rw [List.append_assoc, List.getElem?_append_right (by omega), Nat.add_sub_cancel_left,
    List.getElem?_append_left hlt]
  exact h

/-- Once the octet that follows the text is put behind what was printed, the buffer has something else. -/
def Spoils (text : List UInt8) (p : Nat) (s' : Out) : Prop :=
  ∀ x xs, x ≠ 0x28 → x ≠ 1 →
    Spoiled (text ++ x :: xs) p (s'.len + 1) (place s'.buf (p + s'.len) (x :: xs))

theorem Spoiled.spoils (h : Spoiled text p s'.len s'.buf) : Spoils text p s' := by
  intro x xs _ _
  obtain ⟨q, hq, a, ha, hne⟩ := h
  refine ⟨q, by omega, a, getElem?_append_of_some ha, ?_⟩
  rwa [place_apart (by omega)]

def Short (host : Endian) (cap : Nat) (t : SFilter) : Prop :=
  ∀ (text : List UInt8) (p : Nat) (s s' : Out), fullText host t = some text → (∀ j, p ≤ j → s.buf j = 1) →
    (cap : Int) ≤ p + s.size → ¬ Fits host cap t text p s.len s.size →
    filterTraversalLogic host cap t p s = some s' → cap ≤ p + s'.len ∨ Spoils text p s'

theorem short_null (host : Endian) (cap : Nat) : Short host cap .null := by
  intro text p s s' ht hones _ hfits h
  obtain rfl := Option.some.inj ht
  obtain rfl := Option.some.inj h
  by_cases hroom : p ≤ cap
  · right
    have hlen : s.len ≠ 0 := by
      intro hzero
      refine hfits ⟨trivial, hroom, trivial, ?_⟩
      simp [Childed, hzero]
    intro x xs _ hx
    refine ⟨0, by omega, x, rfl, ?_⟩
    rw [place_apart (by omega), hones _ (by omega)]
    exact hx.symm
  · left
    omega

theorem compose_short (hs : f.type ≠ FilterType.single) (hf : Grown (.node f l r))
    (ht : fullText host (.node f l r) = some text) (hones : ∀ j, p ≤ j → s.buf j = 1)
    (hcap : (cap : Int) ≤ p + s.size) (hfits : ¬ Fits host cap (.node f l r) text p s.len s.size)
    (hls : Short host cap l) (hrs : Short host cap r)
    (h : filterTraversalLogic host cap (.node f l r) p s = some s') : Spoiled text p s'.len s'.buf := by
  obtain ⟨s1, -, h1, rfl⟩ := traversal_steps hf h
  obtain ⟨tl, tr, htl, htr, rfl⟩ := fullText_compose hs ht
  obtain ⟨-, -, hl, hr⟩ := hf.resolve_left hs
  rw [if_neg hs] at h1
  obtain ⟨buf, s2, buf2, s3, hput, hleft, hput2, hright, hput3, hlen⟩ := compose_steps h1
  obtain ⟨-, hbuf⟩ := put_eq_some.mp hput
  obtain ⟨hroom2, hbuf2⟩ := put_eq_some.mp hput2
  obtain ⟨hroom3, hbuf3⟩ := put_eq_some.mp hput3
  have hnon := nonText_length f
  have hop : opOf f ≠ 0x28 := by
    rw [opOf]
    split <;> decide
  simp only [List.length_cons, List.length_nil] at hroom2 hroom3
  have honesl (j : Nat) (hj : p + nonLen f + 1 ≤ j) : buf j = 1 := by
    rw [hbuf, place_apart (by rw [List.length_singleton]; omega)]
    dsimp only
    rw [place_apart (by omega)]
    exact hones j (by omega)
  have hcapl : (cap : Int) ≤ (p + nonLen f + 1 : Nat) + s.size := by
    push_cast
    omega
  by_cases hfl : Fits host cap l tl (p + nonLen f + 1) s.len s.size
  · -- the left child is printed, so the right one does not fit
    have hfull := @traversal_full host cap _ l ⟨buf, s.len, s.size⟩ tl hl htl hfl hcapl
    obtain rfl := Option.some.inj (hfull.symm.trans hleft)
    dsimp only at hroom2 hbuf2 hright hroom3 hbuf3 hlen
    have hcounted := counted_le htl
    have hcapr : (cap : Int) ≤ (p + nonLen f + (1 + tl.length + 4) : Nat) + (s.size - counted host l) := by
      push_cast
      omega
    by_cases hfr : Fits host cap r tr (p + nonLen f + (1 + tl.length + 4)) tl.length (s.size - counted host l)
    · have hfull := @traversal_full host cap _ r ⟨buf2, tl.length, s.size - counted host l⟩ tr hr htr hfr
        hcapr
      obtain rfl := Option.some.inj (hfull.symm.trans hright)
      refine absurd ⟨?_, ?_, ?_, ?_⟩ hfits
      · rw [AllTidy, if_neg hs]
        exact ⟨hfl.tidy, hfr.tidy⟩
      · rw [length_compose, hnon]
        dsimp only at hroom3
        omega
      · rw [Turn, if_neg hs]
        exact ⟨hfl.turn, hfr.turn⟩
      · exact .inr ⟨hfl.childed, printed_left htl hfl.childed ▸ hfr.childed⟩
    · have honesr (j : Nat) (hj : p + nonLen f + (1 + tl.length + 4) ≤ j) : buf2 j = 1 := by
        rw [hbuf2, place_apart (by simp only [List.length_cons, List.length_nil]; omega),
          place_apart (by omega)]
        exact honesl j (by omega)
      rcases hrs tr _ ⟨buf2, tl.length, s.size - counted host l⟩ s3 htr honesr hcapr hfr hright with
        hover | hspoils
      · omega
      · obtain ⟨q, hq, a, ha, hne⟩ := hspoils 0x29 [] (by decide) (by decide)
        refine ⟨(nonText f ++ [0x28] ++ tl ++ [0x20, opOf f, opOf f, 0x20]).length + q, ?_, a, ?_, ?_⟩
        · simp only [List.length_append, List.length_cons, List.length_nil]
          omega
        · rw [List.append_assoc _ tr, List.getElem?_append_right (Nat.le_add_right _ _),
            Nat.add_sub_cancel_left]
          exact ha
        · rw [hbuf3]
          simp only [List.length_append, List.length_cons, List.length_nil, hnon]
          rwa [show p + (nonLen f + (0 + 1) + tl.length + (0 + 1 + 1 + 1 + 1) + q) =
              p + nonLen f + (1 + tl.length + 4) + q by omega, ← Nat.add_assoc (p + nonLen f)]
  · rcases hls tl _ ⟨buf, s.len, s.size⟩ s2 htl honesl hcapl hfl hleft with hover | hspoils
    · omega
    · obtain ⟨q, hq, a, ha, hne⟩ := hspoils 0x20 [opOf f, opOf f, 0x20] (by decide) (by decide)
      have hsplit : nonText f ++ [0x28] ++ tl ++ [0x20, opOf f, opOf f, 0x20] ++ tr ++ [0x29] =
          nonText f ++ [0x28] ++ (tl ++ [0x20, opOf f, opOf f, 0x20]) ++ (tr ++ [0x29]) := by
        simp only [List.append_assoc]
      have hgrows := traversal_grows hr htr hright
      refine ⟨(nonText f ++ [0x28]).length + q, ?_, a, hsplit ▸ getElem?_between ha, ?_⟩
      all_goals simp only [List.length_append, List.length_cons, List.length_nil, hnon]
      · omega
      · rw [hbuf3, place_apart (by omega), hgrows.front _ (by omega)]
        dsimp only
        rw [hbuf2, show p + (nonLen f + (0 + 1) + q) = p + nonLen f + 1 + q by omega,
          ← Nat.add_assoc (p + nonLen f)]
        exact hne

theorem not_fits_single {simple : List UInt8} {size : Int} (hs : f.type = FilterType.single)
    (h : ¬ Fits host cap (.node f l r) (nonText f ++ [0x28] ++ simple ++ [0x29]) p n size) :
    ¬ (Tidy host f ∧ p + nonLen f + simple.length + 2 ≤ cap ∧ 30 ≤ size) := by
  rintro ⟨htidy, hroom, hturn⟩
  refine h ⟨?_, ?_, ?_, .inl hs⟩
  · rw [AllTidy, if_pos hs]
    exact htidy
  · simp only [List.length_append, List.length_singleton, nonText_length]
    omega
  · rw [Turn, if_pos hs]
    exact hturn

theorem short_of_grown (hf : Grown t) : Short host cap t := by
  induction t with
  | null => exact short_null host cap
  | node f l r ihl ihr =>
      intro text p s s' ht hones hcap hfits h
      by_cases hs : f.type = FilterType.single
      · obtain ⟨simple, hsimple, rfl⟩ := fullText_single hs ht
        obtain ⟨s1, -, h1, rfl⟩ := traversal_steps hf h
        rw [if_pos hs] at h1
        have hnon := nonText_length f
        have hcap1 : (cap : Int) ≤ (p + nonLen f : Nat) + s.size := by
          push_cast
          omega
        rcases @single_short host cap _ f ⟨place s.buf p (nonText f), s.len, s.size⟩ s1 simple hsimple hcap1
          (not_fits_single hs hfits) h1 with hover | ⟨-, rfl⟩
        · left
          dsimp only
          omega
        · -- the bracket of the filter is not there, whatever comes in its place
          right
          intro x xs hx _
          have hbracket : (nonText f ++ [0x28] ++ (simple ++ [0x29]))[(nonText f).length + 0]? = some 0x28 :=
            getElem?_between rfl
          rw [← List.append_assoc, Nat.add_zero, hnon] at hbracket
          refine ⟨nonLen f, by dsimp only; omega, 0x28, getElem?_append_of_some hbracket, ?_⟩
          dsimp only
          rcases Nat.eq_zero_or_pos s.len with hzero | hpos
          · have hat : place (place s.buf p (nonText f)) (p + (s.len + nonLen f)) (x :: xs)
                (p + (s.len + nonLen f) + 0) = x := place_at rfl
            rw [hzero, Nat.zero_add, Nat.add_zero] at hat
            rw [hzero, Nat.zero_add, hat]
            exact hx
          · rw [place_apart (by omega), place_apart (by omega), hones _ (by omega)]
            decide
      · obtain ⟨-, -, hl, hr⟩ := hf.resolve_left hs
        exact .inr (compose_short hs hf ht hones hcap hfits (ihl hl) (ihr hr) h).spoils

/-- Only the buffer is written, and a part of the text, that a zero ends, stands there. -/
def PrintsTo (host : Endian) (t : SFilter) (text : List UInt8) (buf : Nat → UInt8) (size : Nat) : Prop :=
  ∃ buf' n, filterGetExpression host t buf size = some buf' ∧ n < size ∧ buf' n = 0 ∧
    entries buf' 0 n <+: text

/-- That is so whatever the buffer holds before. -/
def Prints (host : Endian) (t : SFilter) (size : Nat) : Prop :=
  ∃ text, fullText host t = some text ∧ ∀ buf, PrintsTo host t text buf size

/-- A simple filter that is left out, where its mark has the room. -/
def LeftOut (size : Nat) : SFilter → Prop
  | .null => False
  | .node f _ _ => f.type = FilterType.single ∧ nonLen f < size ∧ size < 30

/-- The text is printed with what ends it: the texts of the simple filters fit into tmp, the whole
text fits into the buffer, enough of size is left when the turn of a simple filter comes, and a
composite one without children comes first. -/
structure Whole (host : Endian) (t : SFilter) (text : List UInt8) (size : Nat) : Prop where
  tidy : AllTidy host t
  room : text.length < size
  turn : Turn host t size
  childed : Childed false t

theorem entries_place (b : Nat → UInt8) (p : Nat) (bs : List UInt8) :
    entries (place b p bs) p bs.length = bs := by
  rw [place, entries_overlay, map_getD_range]

theorem prints_whole (hf : Grown t) (ht : fullText host t = some text) (h : Whole host t text n)
    (buf : Nat → UInt8) : PrintsTo host t text buf n := by
  have hroom := h.room
  have hfull := @traversal_full host n 0 t ⟨buf, 0, n⟩ text hf ht ⟨h.tidy, by omega, h.turn, h.childed⟩
    (by dsimp only; omega)
  have hend : put n (place buf 0 text) text.length [0] = some (place (place buf 0 text) text.length [0]) :=
    put_of_le (by rw [List.length_singleton]; omega)
  refine ⟨place (place buf 0 text) text.length [0], text.length, ?_, hroom, ?_, ?_⟩
  · rw [filterGetExpression, hfull]
    exact hend
  · have hat : place (place buf 0 text) text.length [0] (text.length + 0) = 0 := place_at rfl
    exact hat
  · rw [place, entries_overlay_of_le _ _ _ (by omega), entries_place]

theorem prints_leftOut (hf : Grown t) (ht : fullText host t = some text) (h : LeftOut n t)
    (buf : Nat → UInt8) : PrintsTo host t text buf n := by
  cases t with
  | null => exact h.elim
  | node f l r =>
      obtain ⟨hs, hmark, hsmall⟩ := h
      obtain ⟨simple, -, rfl⟩ := fullText_single hs ht
      have hnon := nonText_length f
      have hput : (if f.non = 1 then put n buf 0 [0x21] else some buf) = some (place buf 0 (nonText f)) := by
        refine mark_eq_some.mpr ⟨fun hone => ?_, rfl⟩
        rw [nonLen, if_pos hone] at hmark
        omega
      have hend : put n (place buf 0 (nonText f)) (nonLen f) [0] =
          some (place (place buf 0 (nonText f)) (nonLen f) [0]) :=
        put_of_le (by rw [List.length_singleton]; omega)
      refine ⟨place (place buf 0 (nonText f)) (nonLen f) [0], nonLen f, ?_, hmark, ?_, ?_⟩
      · rw [filterGetExpression, traversal_node hf]
        simp only [hput, Option.bind_some, if_pos hs]
        rw [filterSingleLogic, if_pos (by dsimp only; omega)]
        simpa using hend
      · have hat : place (place buf 0 (nonText f)) (nonLen f) [0] (nonLen f + 0) = 0 := place_at rfl
        exact hat
      · rw [place, entries_overlay_of_le _ _ _ (by omega), ← hnon, entries_place, List.append_assoc,
          List.append_assoc]
        exact List.prefix_append _ _

theorem whole_of_prints {size : Nat} (hf : Grown t) (ht : fullText host t = some text)
    (h : PrintsTo host t text (fun _ => 1) size) : Whole host t text size ∨ LeftOut size t := by
  obtain ⟨buf', n, hprint, hn, hzero, hprefix⟩ := h
  obtain ⟨s1, h1, hput⟩ := Option.bind_eq_some_iff.mp hprint
  obtain ⟨hroom, rfl⟩ := put_eq_some.mp hput
  rw [List.length_singleton] at hroom
  have hcap : (size : Int) ≤ (0 : Nat) + (size : Int) := by omega
  by_cases hfits : Fits host size t text 0 0 size
  · have hfull := @traversal_full host size 0 t ⟨fun _ => 1, 0, size⟩ text hf ht hfits hcap
    obtain rfl := Option.some.inj (hfull.symm.trans h1)
    exact .inl ⟨hfits.tidy, hroom, hfits.turn, hfits.childed⟩
  · right
    cases t with
    | null =>
        obtain rfl := Option.some.inj ht
        exact absurd ⟨trivial, Nat.zero_le _, trivial, rfl⟩ hfits
    | node f l r =>
        by_cases hs : f.type = FilterType.single
        · obtain ⟨simple, hsimple, rfl⟩ := fullText_single hs ht
          obtain ⟨s2, -, h2, rfl⟩ := traversal_steps hf h1
          rw [if_pos hs] at h2
          have hcap2 : (size : Int) ≤ (0 + nonLen f : Nat) + (size : Int) := by omega
          rcases @single_short host size _ f ⟨place (fun _ => 1) 0 (nonText f), 0, size⟩ s2 simple hsimple hcap2
            (not_fits_single hs hfits) h2 with hover | ⟨hsmall, rfl⟩
          · dsimp only at hroom
            omega
          · dsimp only at hroom hsmall
            exact ⟨hs, by omega, by omega⟩
        · obtain ⟨-, -, hl, hr⟩ := hf.resolve_left hs
          obtain ⟨q, hq, a, ha, hne⟩ := compose_short hs hf ht (fun _ _ => rfl) hcap hfits (short_of_grown hl)
            (short_of_grown hr) h1
          -- the text ends where the zero is, behind the spoiled place
          have hwritten := (traversal_grows hf ht h1).written fun _ => (by decide : (1 : UInt8) ≠ 0)
          have hend : n = s1.len := by
            by_contra hother
            refine hwritten n ?_
            rwa [place_apart (by rw [List.length_singleton]; omega)] at hzero
          have hlt : q < (entries (place s1.buf s1.len [0]) 0 n).length := by
            rw [length_entries]
            omega
          have hat := hprefix.getElem hlt
          obtain ⟨hqt, ha⟩ := List.getElem?_eq_some_iff.mp ha
          rw [getElem_entries, ha, place_apart (by omega)] at hat
          exact absurd hat hne

/-- The text of a filter is printed as it should be just when all of it is, or when it is a simple filter
and left out. -/
theorem prints_iff (host : Endian) (t : SFilter) (hf : Grown t) (size : Nat) :
    Prints host t size ↔ ∃ text, fullText host t = some text ∧ (Whole host t text size ∨ LeftOut size t) := by
  constructor
  · rintro ⟨text, ht, h⟩
    exact ⟨text, ht, whole_of_prints hf ht (h fun _ => 1)⟩
  · rintro ⟨text, ht, hwhole | hleft⟩
    · exact ⟨text, ht, prints_whole hf ht hwhole⟩
    · exact ⟨text, ht, prints_leftOut hf ht hleft⟩

theorem grown_of_built (h : Built t) : Grown t := by
  have hshaped := shaped_of_built h
  clear h
  induction t with
  | null => trivial
  | node f l r ihl ihr =>
      rcases hshaped with ⟨hs, -⟩ | ⟨hc, -, -, hl, hr⟩
      · exact .inl hs
      · exact .inr ⟨hc, iff_of_false (ne_null_of_shaped hl) (ne_null_of_shaped hr), ihl hl, ihr hr⟩

theorem built_twoImei : Built (filterOr imeiFilter imeiFilter) := by
  have h : filterSingle .imei 1 DataType.byte1 [7] none = some imeiFilter := rfl
  have himei : Built imeiFilter := .single SFilter.noConfusion h
  exact .or himei himei

theorem prints_iff_two : Prints .little (filterOr imeiFilter imeiFilter) 64 ↔
    ∃ text, fullText .little (filterOr imeiFilter imeiFilter) = some text ∧
      (Whole .little (filterOr imeiFilter imeiFilter) text 64 ∨ LeftOut 64 (filterOr imeiFilter imeiFilter)) :=
  prints_iff .little (filterOr imeiFilter imeiFilter) (grown_of_built built_twoImei) 64

/-- Without room for its simple filters a composite one is still written. -/
theorem brackets_outside : ¬ ∀ t, Built t → ∀ size, 0 < size → Prints .little t size := by
  intro h
  obtain ⟨text, -, hall⟩ := h (filterOr imeiFilter imeiFilter) built_twoImei 5 (by decide)
  obtain ⟨buf', n, hprint, -⟩ := hall fun _ => 0
  have hnone :
      (filterGetExpression .little (filterOr imeiFilter imeiFilter) (fun _ => 0) 5).isSome = false := by
    decide
  rw [hprint] at hnone
  cases hnone

end OiAmc.FilterRoom

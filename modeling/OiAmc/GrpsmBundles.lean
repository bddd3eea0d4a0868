import OiAmc.GrpsmPush
import Mathlib.Data.List.Forall2
import Mathlib.Data.List.Nodup
import Mathlib.Data.Fintype.Card
import Mathlib.Data.Fintype.EquivFin

namespace OiAmc.GrpsmFiling

open BoundedFill GrpsmLinks GrpsmPush

/-- Where the two passes of grpsm_init_fiber put a link. -/
inductive Place
  | foreign
  | nlink
  | olink
  | vc
  | lcas
  deriving DecidableEq

def place (fiber : UInt8) (groupcfg : List GroupCfg) (l : LinkInfo) : Place :=
  if l.fiber ≠ fiber then .foreign
  else if l.vcValid = 0 then .nlink
  else if (isLinkInGroup l groupcfg).isSome then .olink
  else if l.isLcas = 0 then .vc
  else .lcas

def placed (fiber : UInt8) (groupcfg : List GroupCfg) (k : Place) (ps : List LinkPtr) :
    List LinkPtr :=
  ps.filter fun p => place fiber groupcfg p.link = k

def countPtr (cells : List BundleCell) (p : LinkPtr) : Option (List BundleCell) :=
  countBundle cells p.link

variable {fiber : UInt8} {groupcfg : List GroupCfg}

theorem countLink_eq (n : FiberCounts) (p : LinkPtr) :
    countLink fiber groupcfg n p = match place fiber groupcfg p.link with
      | .foreign => some n
      | .nlink => some { n with numNlinks := n.numNlinks + 1 }
      | .olink => some { n with numOlinks := n.numOlinks + 1 }
      | .vc => (countPtr n.vcs p).map fun vcs => { n with vcs := vcs }
      | .lcas => (countPtr n.lcas p).map fun lcas => { n with lcas := lcas } := by
  rw [countLink, place, countPtr, countPtr]
  split_ifs <;> rfl

theorem placeLink_eq (n : FiberCounts) (f : GrpsmFiber) (p : LinkPtr) :
    placeLink groupcfg n f p = match place f.fiber groupcfg p.link with
      | .foreign => some f
      | .nlink => (put n.numNlinks f.nlinks p).map fun nlinks => { f with nlinks := nlinks }
      | .olink => (put n.numOlinks f.olinks p).map fun olinks => { f with olinks := olinks }
      | .vc => (fileLink f.vcs p).map fun vcs => { f with vcs := vcs }
      | .lcas => (fileLink f.lcas p).map fun lcas => { f with lcas := lcas } := by
  rw [placeLink, place]
  split_ifs <;> rfl

theorem countLinks_eq (ps : List LinkPtr) (n : FiberCounts) :
    ps.foldlM (countLink fiber groupcfg) n =
      ((placed fiber groupcfg .vc ps).foldlM countPtr n.vcs).bind fun vcs =>
      ((placed fiber groupcfg .lcas ps).foldlM countPtr n.lcas).map fun lcas =>
        ⟨n.numNlinks + (placed fiber groupcfg .nlink ps).length,
          n.numOlinks + (placed fiber groupcfg .olink ps).length, vcs, lcas⟩ := by
  induction ps generalizing n with
  | nil => rfl
  | cons p ps ih =>
      rw [List.foldlM_cons, countLink_eq]
      cases h : place fiber groupcfg p.link with
      | foreign => simpa [placed, h] using ih n
      | nlink =>
          have hn := ih { n with numNlinks := n.numNlinks + 1 }
          simpa [placed, h, Nat.add_assoc, Nat.add_comm 1] using hn
      | olink =>
          have ho := ih { n with numOlinks := n.numOlinks + 1 }
          simpa [placed, h, Nat.add_assoc, Nat.add_comm 1] using ho
      | vc =>
          cases hc : countPtr n.vcs p with
          | none => simp [placed, h, hc]
          | some vcs => simpa [placed, h, hc] using ih _
      | lcas =>
          cases hc : countPtr n.lcas p with
          | none => simp [placed, h, hc]
          | some lcas => simpa [placed, h, hc] using ih _

theorem placeLinks_eq (n : FiberCounts) (ps : List LinkPtr) (f : GrpsmFiber) :
    ps.foldlM (placeLink groupcfg n) f =
      ((placed f.fiber groupcfg .nlink ps).foldlM (put n.numNlinks) f.nlinks).bind fun nlinks =>
      ((placed f.fiber groupcfg .olink ps).foldlM (put n.numOlinks) f.olinks).bind fun olinks =>
      ((placed f.fiber groupcfg .vc ps).foldlM fileLink f.vcs).bind fun vcs =>
      ((placed f.fiber groupcfg .lcas ps).foldlM fileLink f.lcas).map fun lcas =>
        ⟨f.fiber, nlinks, olinks, vcs, lcas⟩ := by
  induction ps generalizing f with
  | nil => rfl
  | cons p ps ih =>
      rw [List.foldlM_cons, placeLink_eq]
      cases h : place f.fiber groupcfg p.link with
      | foreign => simpa [placed, h] using ih f
      | nlink =>
          cases hc : put n.numNlinks f.nlinks p with
          | none => simp [placed, h, hc]
          | some xs => simpa [placed, h, hc] using ih _
      | olink =>
          cases hc : put n.numOlinks f.olinks p with
          | none => simp [placed, h, hc]
          | some xs => simpa [placed, h, hc] using ih _
      | vc =>
          cases hc : fileLink f.vcs p with
          | none => simp [placed, h, hc]
          | some xs => simpa [placed, h, hc] using ih _
      | lcas =>
          cases hc : fileLink f.lcas p with
          | none => simp [placed, h, hc]
          | some xs => simpa [placed, h, hc] using ih _


end OiAmc.GrpsmFiling

namespace OiAmc.GrpsmBundles

open BoundedFill GrpsmLinks GrpsmPush GrpsmFiling

def linkKey (l : LinkInfo) : UInt8 × UInt8 := (l.channelRate, l.svcType)

def svcKey (s : GrpsmSvc) : UInt8 × UInt8 := (s.channelRate, s.svcType)

def cellKey (c : BundleCell) : UInt8 × UInt8 := (packedRate c.packed, packedType c.packed)

def FitsNibbles (l : LinkInfo) : Prop := l.channelRate.toNat < 16 ∧ l.svcType.toNat < 16

def keyed (k : UInt8 × UInt8) (ps : List LinkPtr) : List LinkPtr :=
  ps.filter fun p => linkKey p.link = k

theorem packedRate_lt (p : UInt8) : (packedRate p).toNat < 16 := by
  have h : (packedRate p).toNat ≤ 15 := by simpa [packedRate] using Nat.and_le_right
  omega

theorem packedType_lt (p : UInt8) : (packedType p).toNat < 16 := by
  have h : (packedType p).toNat ≤ 15 := by simpa [packedType] using Nat.and_le_right
  omega

theorem unpack_pack_nibbles : ∀ r t : Fin 16,
    packedRate (((UInt8.ofNat r.val &&& 0xf) <<< 4) ||| (UInt8.ofNat t.val &&& 0xf)) =
        UInt8.ofNat r.val ∧
      packedType (((UInt8.ofNat r.val &&& 0xf) <<< 4) ||| (UInt8.ofNat t.val &&& 0xf)) =
        UInt8.ofNat t.val := by
  decide

theorem cellKey_pack {l : LinkInfo} (h : FitsNibbles l) (n : UInt16) :
    cellKey ⟨packRateType l, n⟩ = linkKey l := by
  have hu := unpack_pack_nibbles ⟨_, h.1⟩ ⟨_, h.2⟩
  simp only [UInt8.ofNat_toNat] at hu
  exact Prod.ext hu.1 hu.2

theorem matches_cell (l : LinkInfo) (c : BundleCell) :
    (l.channelRate = packedRate c.packed ∧ l.svcType = packedType c.packed) ↔
      linkKey l = cellKey c := by
  simp [linkKey, cellKey]

theorem matches_svc (l : LinkInfo) (s : GrpsmSvc) :
    (l.channelRate = s.channelRate ∧ l.svcType = s.svcType) ↔ linkKey l = svcKey s := by
  simp [linkKey, svcKey]

theorem nibble_keys_length {ks : List (UInt8 × UInt8)} (hn : ks.Nodup)
    (h : ∀ k ∈ ks, k.1.toNat < 16 ∧ k.2.toNat < 16) : ks.length ≤ 256 := by
  have hinj : ∀ a ∈ ks, ∀ b ∈ ks,
      a.1.toNat * 16 + a.2.toNat = b.1.toNat * 16 + b.2.toNat → a = b := by
    intro a ha b hb he
    have h1 := h a ha
    have h2 := h b hb
    exact Prod.ext (UInt8.toNat_inj.mp (by omega)) (UInt8.toNat_inj.mp (by omega))
  have hs : ks.map (fun k => k.1.toNat * 16 + k.2.toNat) ⊆ List.range 256 := by
    intro x hx
    obtain ⟨k, hk, rfl⟩ := List.mem_map.mp hx
    have := h k hk
    rw [List.mem_range]
    omega
  have hl := (List.subperm_of_subset (List.Nodup.map_on hinj hn) hs).length_le
  simpa using hl

theorem bumpBundle_none {l : LinkInfo} {cells : List BundleCell} :
    bumpBundle l cells = none ↔ linkKey l ∉ cells.map cellKey := by
  induction cells with
  | nil => simp [bumpBundle]
  | cons c cs ih =>
      simp only [bumpBundle, matches_cell, List.map_cons, List.mem_cons, not_or]
      split
      · next h => simp [h]
      · next h => simp [h, ih]

theorem bumpBundle_some {l : LinkInfo} {cells : List BundleCell}
    (hn : (cells.map cellKey).Nodup) (hm : linkKey l ∈ cells.map cellKey) :
    bumpBundle l cells = some (cells.map fun c =>
      if linkKey l = cellKey c then { c with count := c.count + 1 } else c) := by
  induction cells with
  | nil => simp at hm
  | cons c cs ih =>
      simp only [List.map_cons, List.nodup_cons] at hn
      simp only [bumpBundle, matches_cell]
      split
      · next h =>
          have hrest : ∀ d ∈ cs, linkKey l ≠ cellKey d := fun d hd he =>
            hn.1 (h ▸ he ▸ List.mem_map_of_mem hd)
          have hid : cs.map (fun c => if linkKey l = cellKey c then
              { c with count := c.count + 1 } else c) = cs := by
            refine (List.map_congr_left fun d hd => ?_).trans (List.map_id cs)
            rw [if_neg (hrest d hd), id_eq]
          simp only [List.map_cons, if_pos h, hid]
      · next h =>
          have ht := (List.mem_cons.mp hm).resolve_left h
          simp only [ih hn.2 ht, Option.map_some, List.map_cons, if_neg h]

/-- What the counting pass knows after a list of links that all fit: one cell
for each key, in which the number of links stands modulo 2 ^ 16. -/
structure Counted (ps : List LinkPtr) (cells : List BundleCell) : Prop where
  nodup : (cells.map cellKey).Nodup
  count : ∀ c ∈ cells, c.count.toNat = (keyed (cellKey c) ps).length % 65536
  covers : ∀ p ∈ ps, linkKey p.link ∈ cells.map cellKey

theorem cellKey_bump (c : BundleCell) (n : UInt16) : cellKey { c with count := n } = cellKey c := rfl

theorem keyed_snoc (k : UInt8 × UInt8) (ps : List LinkPtr) (p : LinkPtr) :
    keyed k (ps ++ [p]) = keyed k ps ++ if linkKey p.link = k then [p] else [] := by
  by_cases h : linkKey p.link = k <;> simp [keyed, h]

theorem counted_bump {ps : List LinkPtr} {cells : List BundleCell} {p : LinkPtr}
    (h : Counted ps cells) (hm : linkKey p.link ∈ cells.map cellKey) :
    Counted (ps ++ [p]) (cells.map fun c => if linkKey p.link = cellKey c then
      { c with count := c.count + 1 } else c) := by
  have hkeys : (cells.map fun c => if linkKey p.link = cellKey c then
      { c with count := c.count + 1 } else c).map cellKey = cells.map cellKey := by
    rw [List.map_map]
    apply List.map_congr_left
    intro c _
    simp only [Function.comp_apply]
    split <;> rfl
  constructor
  · rw [hkeys]
    exact h.nodup
  · intro c' hc'
    obtain ⟨c, hc, rfl⟩ := List.mem_map.mp hc'
    have hn := h.count c hc
    split
    · next he =>
        rw [cellKey_bump, keyed_snoc, if_pos he, List.length_append, List.length_singleton,
          UInt16.toNat_add, hn]
        simp
    · next he => rw [keyed_snoc, if_neg he, List.append_nil, hn]
  · intro q hq
    rw [hkeys]
    rcases List.mem_append.mp hq with hq | hq
    · exact h.covers q hq
    · rwa [List.mem_singleton.mp hq]

theorem counted_new {ps : List LinkPtr} {cells : List BundleCell} {p : LinkPtr}
    (h : Counted ps cells) (hf : FitsNibbles p.link) (hm : linkKey p.link ∉ cells.map cellKey) :
    Counted (ps ++ [p]) (cells ++ [⟨packRateType p.link, 1⟩]) := by
  have hkey := cellKey_pack hf 1
  constructor
  · rw [List.map_append, List.map_singleton, hkey]
    apply List.nodup_append.mpr ⟨h.nodup, List.nodup_singleton _, _⟩
    rintro a ha b hb rfl
    exact hm (List.mem_singleton.mp hb ▸ ha)
  · intro c hc
    rcases List.mem_append.mp hc with hc | hc
    · have hne : linkKey p.link ≠ cellKey c := fun he => hm (he ▸ List.mem_map_of_mem hc)
      rw [keyed_snoc, if_neg hne, List.append_nil, h.count c hc]
    · -- the new key occurs in none of the links counted before
      rw [List.mem_singleton.mp hc, hkey, keyed_snoc, if_pos rfl]
      have hnil : keyed (linkKey p.link) ps = [] := by
        refine List.filter_eq_nil_iff.mpr fun q hq he => hm ?_
        rw [← of_decide_eq_true he]
        exact h.covers q hq
      simp [hnil]
  · intro q hq
    rw [List.map_append, List.mem_append]
    rcases List.mem_append.mp hq with hq | hq
    · exact Or.inl (h.covers q hq)
    · right
      rw [List.mem_singleton.mp hq, List.map_singleton, hkey]
      exact List.mem_singleton_self _

theorem Counted.length_le {ps : List LinkPtr} {cells : List BundleCell} (h : Counted ps cells) :
    cells.length ≤ 256 := by
  have hlen := nibble_keys_length h.nodup (by
    intro k hk
    obtain ⟨c, _, rfl⟩ := List.mem_map.mp hk
    exact ⟨packedRate_lt _, packedType_lt _⟩)
  rwa [List.length_map] at hlen

theorem counted_snoc {ps : List LinkPtr} {cells : List BundleCell} {p : LinkPtr}
    (h : Counted ps cells) (hf : FitsNibbles p.link) :
    ∃ cells', countPtr cells p = some cells' ∧ Counted (ps ++ [p]) cells' := by
  rw [countPtr, countBundle]
  by_cases hm : linkKey p.link ∈ cells.map cellKey
  · rw [bumpBundle_some h.nodup hm]
    exact ⟨_, rfl, counted_bump h hm⟩
  · rw [bumpBundle_none.mpr hm]
    have hnew := counted_new h hf hm
    have hlen := hnew.length_le
    rw [List.length_append, List.length_singleton] at hlen
    exact ⟨_, put_eq_some.mpr ⟨hlen, rfl⟩, hnew⟩

theorem counted_run {ps qs : List LinkPtr} {cells : List BundleCell} (h : Counted qs cells)
    (hf : ∀ p ∈ ps, FitsNibbles p.link) :
    ∃ cells', ps.foldlM countPtr cells = some cells' ∧ Counted (qs ++ ps) cells' := by
  induction ps generalizing qs cells with
  | nil => exact ⟨cells, rfl, by simpa using h⟩
  | cons p ps ih =>
      obtain ⟨c1, h1, h1'⟩ := counted_snoc h (hf p (by simp))
      obtain ⟨c2, h2, h2'⟩ := ih h1' (fun q hq => hf q (by simp [hq]))
      refine ⟨c2, ?_, by simpa using h2'⟩
      simpa [List.foldlM_cons, h1] using h2

theorem counted_all {ps : List LinkPtr} (hf : ∀ p ∈ ps, FitsNibbles p.link) :
    ∃ cells, ps.foldlM countPtr [] = some cells ∧ Counted ps cells := by
  have hnil : Counted [] [] := ⟨by simp, by simp, by simp⟩
  simpa using counted_run hnil hf

/-- What filing a list of links does to a bundle: it takes some links of its
own key, in order, and nothing else changes. -/
structure Filed (ps : List LinkPtr) (s s' : GrpsmSvc) : Prop where
  key : svcKey s' = svcKey s
  sqlinks : s'.sqlinks = s.sqlinks
  sqStatus : s'.sqStatus = s.sqStatus
  sqPre : s'.sqPre = s.sqPre
  links : ∃ ys, ys.Sublist (keyed (svcKey s) ps) ∧ s'.links = s.links ++ ys

theorem Filed.refl (ps : List LinkPtr) (s : GrpsmSvc) : Filed ps s s :=
  ⟨rfl, rfl, rfl, rfl, [], List.nil_sublist _, (List.append_nil _).symm⟩

theorem Filed.trans {p : LinkPtr} {ps : List LinkPtr} {s s' s'' : GrpsmSvc}
    (h : Filed [p] s s') (h' : Filed ps s' s'') : Filed (p :: ps) s s'' := by
  obtain ⟨ys, hy, hl⟩ := h.links
  obtain ⟨zs, hz, hl'⟩ := h'.links
  rw [h.key] at hz
  refine ⟨h'.key.trans h.key, h'.sqlinks.trans h.sqlinks, h'.sqStatus.trans h.sqStatus,
    h'.sqPre.trans h.sqPre, ys ++ zs, ?_, by rw [hl', hl, List.append_assoc]⟩
  have happ : keyed (svcKey s) (p :: ps) = keyed (svcKey s) [p] ++ keyed (svcKey s) ps :=
    List.filter_append [p] ps
  rw [happ]
  exact hy.append hz

theorem fileLink_filed {p : LinkPtr} {svcs svcs' : List GrpsmSvc}
    (h : fileLink svcs p = some svcs') : List.Forall₂ (Filed [p]) svcs svcs' := by
  induction svcs generalizing svcs' with
  | nil => cases h; exact .nil
  | cons s ss ih =>
      simp only [fileLink, matches_svc] at h
      split at h
      · next hk =>
          obtain ⟨links, hp, rfl⟩ := Option.map_eq_some_iff.mp h
          obtain ⟨_, rfl⟩ := put_eq_some.mp hp
          refine .cons ⟨rfl, rfl, rfl, rfl, [p], ?_, rfl⟩
            (List.forall₂_same.mpr fun s _ => Filed.refl [p] s)
          simp [keyed, hk]
      · obtain ⟨ss', hs, rfl⟩ := Option.map_eq_some_iff.mp h
        exact .cons (Filed.refl [p] s) (ih hs)

theorem fileLinks_filed {ps : List LinkPtr} {svcs svcs' : List GrpsmSvc}
    (h : ps.foldlM fileLink svcs = some svcs') : List.Forall₂ (Filed ps) svcs svcs' := by
  induction ps generalizing svcs with
  | nil => cases h; exact List.forall₂_same.mpr fun s _ => Filed.refl [] s
  | cons p ps ih =>
      rw [List.foldlM_cons] at h
      obtain ⟨svcs1, h1, h2⟩ := Option.bind_eq_some_iff.mp h
      have hf := fileLink_filed h1
      have hr := ih h2
      clear h h1 h2 ih
      induction hf generalizing svcs' with
      | nil => cases hr; exact .nil
      | cons ha _ iht =>
          cases hr with
          | cons hb hrest => exact .cons (ha.trans hb) (iht hrest)

def takeKeyed (ps : List LinkPtr) (s : GrpsmSvc) : GrpsmSvc :=
  { s with links := s.links ++ keyed (svcKey s) ps }

def HasRoom (ps : List LinkPtr) (s : GrpsmSvc) : Prop :=
  keyed (svcKey s) ps = [] ∨ s.links.length + (keyed (svcKey s) ps).length ≤ s.numAlloc

theorem svcKey_takeKeyed (ps : List LinkPtr) (s : GrpsmSvc) : svcKey (takeKeyed ps s) = svcKey s :=
  rfl

theorem fileLink_eq_some {p : LinkPtr} {svcs svcs' : List GrpsmSvc}
    (hn : (svcs.map svcKey).Nodup) :
    fileLink svcs p = some svcs' ↔
      (∀ s ∈ svcs, HasRoom [p] s) ∧ svcs' = svcs.map (takeKeyed [p]) := by
  induction svcs generalizing svcs' with
  | nil => simp [fileLink, eq_comm]
  | cons s ss ih =>
      simp only [List.map_cons, List.nodup_cons] at hn
      simp only [fileLink, matches_svc, List.forall_mem_cons, List.map_cons]
      split
      · next hk =>
          have hrest : ∀ t ∈ ss, keyed (svcKey t) [p] = [] := by
            intro t ht
            have hne : linkKey p.link ≠ svcKey t := fun he =>
              hn.1 (hk ▸ he ▸ List.mem_map_of_mem ht)
            simp [keyed, hne]
          have hid : ss.map (takeKeyed [p]) = ss := by
            refine (List.map_congr_left fun t ht => ?_).trans (List.map_id ss)
            simp [takeKeyed, hrest t ht]
          have hown : keyed (svcKey s) [p] = [p] := by simp [keyed, hk]
          have hroom : ∀ t ∈ ss, HasRoom [p] t := fun t ht => Or.inl (hrest t ht)
          simp only [Option.map_eq_some_iff, put_eq_some, hid, takeKeyed, hown]
          simp only [HasRoom, hown, List.cons_ne_nil, false_or, List.length_singleton,
            Nat.add_one_le_iff]
          constructor
          · rintro ⟨links, ⟨hl, rfl⟩, rfl⟩; exact ⟨⟨hl, hroom⟩, rfl⟩
          · rintro ⟨⟨hl, _⟩, rfl⟩; exact ⟨_, ⟨hl, rfl⟩, rfl⟩
      · next hk =>
          have hown : keyed (svcKey s) [p] = [] := by simp [keyed, hk]
          have hs : takeKeyed [p] s = s := by simp [takeKeyed, hown]
          have hroom : HasRoom [p] s := Or.inl hown
          simp only [Option.map_eq_some_iff, ih hn.2, hs, hroom, true_and]
          constructor
          · rintro ⟨ss', ⟨hr, rfl⟩, rfl⟩; exact ⟨hr, rfl⟩
          · rintro ⟨hr, rfl⟩; exact ⟨_, ⟨hr, rfl⟩, rfl⟩

theorem keyed_cons (k : UInt8 × UInt8) (p : LinkPtr) (ps : List LinkPtr) :
    keyed k (p :: ps) = keyed k [p] ++ keyed k ps :=
  List.filter_append [p] ps

theorem takeKeyed_cons (p : LinkPtr) (ps : List LinkPtr) (s : GrpsmSvc) :
    takeKeyed ps (takeKeyed [p] s) = takeKeyed (p :: ps) s := by
  simp only [takeKeyed, keyed_cons (svcKey s) p ps, ← List.append_assoc]
  rfl

theorem hasRoom_cons (p : LinkPtr) (ps : List LinkPtr) (s : GrpsmSvc) :
    HasRoom (p :: ps) s ↔ HasRoom [p] s ∧ HasRoom ps (takeKeyed [p] s) := by
  have hl : (takeKeyed [p] s).links.length = s.links.length + (keyed (svcKey s) [p]).length :=
    List.length_append
  have ha : (takeKeyed [p] s).numAlloc = s.numAlloc := rfl
  simp only [HasRoom, svcKey_takeKeyed, keyed_cons (svcKey s) p ps, hl, ha, List.length_append,
    ← List.length_eq_zero_iff]
  omega

/-- With one bundle for each key, filing either gives every bundle all links
of its key in their order, or runs past the end of some bundle's array. -/
theorem fileLinks_eq_some {ps : List LinkPtr} {svcs svcs' : List GrpsmSvc}
    (hn : (svcs.map svcKey).Nodup) :
    ps.foldlM fileLink svcs = some svcs' ↔
      (∀ s ∈ svcs, HasRoom ps s) ∧ svcs' = svcs.map (takeKeyed ps) := by
  induction ps generalizing svcs with
  | nil =>
      have hid : svcs.map (takeKeyed []) = svcs := by
        refine (List.map_congr_left fun t _ => ?_).trans (List.map_id svcs)
        simp [takeKeyed, keyed]
      simp [HasRoom, keyed, hid, eq_comm]
  | cons p ps ih =>
      have hnodup : ((svcs.map (takeKeyed [p])).map svcKey).Nodup := by
        rwa [List.map_map, show svcKey ∘ takeKeyed [p] = svcKey from rfl]
      have htake : (svcs.map (takeKeyed [p])).map (takeKeyed ps) = svcs.map (takeKeyed (p :: ps)) := by
        rw [List.map_map]
        exact List.map_congr_left fun s _ => takeKeyed_cons p ps s
      rw [forall₂_congr fun s (_ : s ∈ svcs) => hasRoom_cons p ps s]
      simp only [List.foldlM_cons, Option.bind_eq_bind, Option.bind_eq_some_iff, fileLink_eq_some hn]
      constructor
      · rintro ⟨_, ⟨hr1, rfl⟩, h2⟩
        obtain ⟨hr2, rfl⟩ := (ih hnodup).mp h2
        exact ⟨fun s hs => ⟨hr1 s hs, hr2 _ (List.mem_map_of_mem hs)⟩, htake⟩
      · rintro ⟨hr, rfl⟩
        refine ⟨_, ⟨fun s hs => (hr s hs).1, rfl⟩, (ih hnodup).mpr ⟨?_, htake.symm⟩⟩
        intro t ht
        obtain ⟨s, hs, rfl⟩ := List.mem_map.mp ht
        exact (hr s hs).2

theorem svcKey_newSvc (c : BundleCell) : svcKey (newSvc c) = cellKey c := rfl

/-- The two passes over the links of one kind, on tables whose fields fit: the
second pass stays inside the arrays exactly when no 16-bit count wrapped. -/
theorem passes_eq_some {ps : List LinkPtr} {cells : List BundleCell} {svcs : List GrpsmSvc}
    (hc : Counted ps cells) :
    ps.foldlM fileLink (cells.map newSvc) = some svcs ↔
      (∀ k, (keyed k ps).length < 65536) ∧ svcs = (cells.map newSvc).map (takeKeyed ps) := by
  have hkeys : (cells.map newSvc).map svcKey = cells.map cellKey := by
    rw [List.map_map]; rfl
  rw [fileLinks_eq_some (hkeys ▸ hc.nodup)]
  apply and_congr_left
  intro _
  have hroom (c : BundleCell) (h : c ∈ cells) :
      HasRoom ps (newSvc c) ↔ (keyed (cellKey c) ps).length < 65536 := by
    have hn := hc.count c h
    have hl : (newSvc c).links.length = 0 := rfl
    have ha : (newSvc c).numAlloc = c.count.toNat := rfl
    rw [HasRoom, svcKey_newSvc, hl, ha, hn, ← List.length_eq_zero_iff]
    omega
  constructor
  · intro h k
    by_cases hk : k ∈ cells.map cellKey
    · obtain ⟨c, hcm, rfl⟩ := List.mem_map.mp hk
      exact (hroom c hcm).mp (h _ (List.mem_map_of_mem hcm))
    · have hnil : keyed k ps = [] := List.filter_eq_nil_iff.mpr fun p hp he =>
        hk (of_decide_eq_true he ▸ hc.covers p hp)
      simp [hnil]
  · intro h s hs
    obtain ⟨c, hcm, rfl⟩ := List.mem_map.mp hs
    exact (hroom c hcm).mpr (h _)

end OiAmc.GrpsmBundles

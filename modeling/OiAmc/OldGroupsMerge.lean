import OiAmc.OldGroups
import OiAmc.PartialLists

namespace OiAmc.OldGroupsMerge

open Function PartialLists SgfpGroup OldGroups

/-- What a group says: its id, its size and its links. -/
abbrev Content := Int × Int × List (Option SlinkInfo)

def content (g : SgroupInfo) : Content :=
  (g.groupId, g.linkarraysSize, (List.range g.linkarraysSize.toNat).map g.link)

def Has (c : Content) (p : UInt8 × UInt8) : Prop := ∃ l, some l ∈ c.2.2 ∧ l.member = p

def Apart (c c' : Content) : Prop := ∀ p, Has c p → ¬ Has c' p

/-- No channel and no id twice. -/
structure Consistent (cs : List Content) : Prop where
  apart : cs.Pairwise Apart
  ids : (cs.map Prod.fst).Nodup

theorem Consistent.sublist {cs cs' : List Content} (h : Consistent cs) (hs : cs'.Sublist cs) :
    Consistent cs' := ⟨h.apart.sublist hs, h.ids.sublist (hs.map _)⟩

theorem Consistent.append {cs cs' : List Content} (h : Consistent cs) (h' : Consistent cs')
    (hapart : ∀ c ∈ cs, ∀ c' ∈ cs', Apart c c') (hids : ∀ c ∈ cs, ∀ c' ∈ cs', c.1 ≠ c'.1) :
    Consistent (cs ++ cs') := by
  refine ⟨List.pairwise_append.mpr ⟨h.apart, h'.apart, hapart⟩, ?_⟩
  rw [List.map_append, List.nodup_append]
  refine ⟨h.ids, h'.ids, fun a ha b hb => ?_⟩
  obtain ⟨c, hc, rfl⟩ := List.mem_map.mp ha
  obtain ⟨c', hc', rfl⟩ := List.mem_map.mp hb
  exact hids c hc c' hc'

variable {st st' : MapState} {g : SgroupInfo} {gs : List SgroupInfo} {ports : Nat → PortState}
  {m : SetMap} {i n : Nat} {links : List SlinkInfo}

theorem copyLinks_eq_some : copyLinks g = some links ↔ 0 ≤ g.linkarraysSize ∧
    List.Forall₂ (fun j l => g.link j = some l) (List.range g.linkarraysSize.toNat) links := by
  rw [copyLinks]
  split
  · exact iff_of_false (by simp) fun h => by omega
  · rw [mapM_eq_some]
    exact (and_iff_right (by omega)).symm

structure CopyOf (g d : SgroupInfo) : Prop where
  id : d.groupId = g.groupId
  size : d.linkarraysSize = g.linkarraysSize
  links : ∃ links, copyLinks g = some links ∧ d.linkarrays = some links

theorem CopyOf.content {d : SgroupInfo} (h : CopyOf g d) : content d = OldGroupsMerge.content g := by
  obtain ⟨links, hcopy, hlinks⟩ := h.links
  obtain ⟨_, hall⟩ := copyLinks_eq_some.mp hcopy
  rw [OldGroupsMerge.content, OldGroupsMerge.content, h.id, h.size]
  refine congrArg _ (congrArg _ (List.map_congr_left fun j hj => ?_))
  have hlen : j < links.length := by
    rw [← hall.length_eq]
    exact List.length_range.symm ▸ List.mem_range.mp hj
  have hget := hall.get (List.length_range.symm ▸ List.mem_range.mp hj) hlen
  rw [List.get_eq_getElem, List.getElem_range] at hget
  rw [hget, SgroupInfo.link, hlinks, Option.bind_some, List.getElem?_eq_getElem hlen]
  rfl

theorem putGroup_eq_some {xs ys : List SgroupInfo} {f : SgroupInfo → SgroupInfo}
    (h : putGroup xs i f = some ys) : ∃ x, ys.take (i + 1) = xs.take i ++ [f x] ∧
      ys.length = xs.length := by
  rw [putGroup] at h
  split at h
  · next hi =>
      obtain rfl := Option.some.inj h
      refine ⟨xs[i], ?_, List.length_modify _ _ _⟩
      have hlen : (xs.take i).length = i := List.length_take_of_le (Nat.le_of_lt hi)
      rw [List.modify_eq_take_cons_drop hi, List.take_append, hlen, Nat.add_sub_cancel_left,
        List.take_succ_cons, List.take_zero, List.take_of_length_le (by omega)]
  · cases h

/-- The first n entries of an array. -/
def contents (xs : List SgroupInfo) (n : Nat) : List Content := (xs.take n).map content

abbrev Copies (gs ds : List SgroupInfo) : Prop := List.Forall₂ CopyOf gs ds

theorem Copies.contents {ds : List SgroupInfo} (h : Copies gs ds) : ds.map content = gs.map content :=
  map_eq_of_forall₂ (h.imp fun _ _ hd => hd.content)

theorem Copies.append {gs' ds ds' : List SgroupInfo} (h : Copies gs ds) (h' : Copies gs' ds') :
    Copies (gs ++ gs') (ds ++ ds') := List.rel_append h h'

/-- The old groups that check_old_group keeps. -/
def keptGroups (ports : Nat → PortState) (m : SetMap) (gs : List SgroupInfo) : List SgroupInfo :=
  gs.filter fun g => flagged ports m g (List.range g.linkarraysSize.toNat) = some false

theorem checkGroups_kept (h : gs.foldlM (checkGroup ports m) st = some st') :
    (∃ copies, st'.deal.take st'.dealCount = st.deal.take st.dealCount ++ copies ∧
      Copies (keptGroups ports m gs) copies) ∧
    st' = { st with deal := st'.deal, dealCount := st'.dealCount } := by
  induction gs generalizing st with
  | nil =>
      obtain rfl := Option.some.inj h
      exact ⟨⟨[], (List.append_nil _).symm, .nil⟩, rfl⟩
  | cons g gs ih =>
      rw [List.foldlM_cons] at h
      obtain ⟨st1, h1, h2⟩ := Option.bind_eq_some_iff.mp h
      obtain ⟨⟨copies, hdeal, hcopies⟩, hst⟩ := ih h2
      obtain ⟨flag, hflag, h1⟩ := Option.bind_eq_some_iff.mp h1
      cases flag with
      | true =>
          obtain rfl := Option.some.inj h1
          rw [keptGroups, List.filter_cons_of_neg (by rw [hflag]; decide)]
          exact ⟨⟨copies, hdeal, hcopies⟩, hst⟩
      | false =>
          obtain ⟨links, hlinks, h1⟩ := Option.bind_eq_some_iff.mp h1
          obtain ⟨deal, hput, h1⟩ := Option.bind_eq_some_iff.mp h1
          split at h1
          · cases h1
          · obtain rfl := Option.some.inj h1
            obtain ⟨x, htake, _⟩ := putGroup_eq_some hput
            rw [keptGroups, List.filter_cons_of_pos (by rw [hflag]; decide)]
            refine ⟨⟨_, ?_, .cons (b := { x with
              groupId := g.groupId
              flag := g.flag
              isValid := 1
              linkarraysSize := g.linkarraysSize
              linkarrays := some links }) ⟨rfl, rfl, links, hlinks, rfl⟩ hcopies⟩, hst⟩
            rw [hdeal]
            change deal.take (st.dealCount + 1) ++ _ = _
            rw [htake, List.append_assoc]
            rfl

theorem markFirst_length (id : Int) (n : Nat) (gs : List SgroupInfo) :
    (markFirst id n gs).length = gs.length := by
  induction gs generalizing n with
  | nil => cases n <;> rfl
  | cons g gs ih =>
      cases n with
      | zero => rfl
      | succ n =>
          rw [markFirst]
          split
          · rfl
          · rw [List.length_cons, List.length_cons, ih]

theorem markFirst_content (id : Int) (n : Nat) (gs : List SgroupInfo) :
    (markFirst id n gs).map content = gs.map content := by
  induction gs generalizing n with
  | nil => cases n <;> rfl
  | cons g gs ih =>
      cases n with
      | zero => rfl
      | succ n =>
          rw [markFirst]
          split
          · rfl
          · rw [List.map_cons, List.map_cons, ih]

theorem markFirst_copies (id : Int) {n : Nat} {ds : List SgroupInfo} (h : Copies gs (ds.take n)) :
    Copies gs ((markFirst id n ds).take n) := by
  induction ds generalizing gs n with
  | nil =>
      rw [List.eq_nil_of_length_eq_zero (markFirst_length id n [])]
      exact h
  | cons d ds ih =>
      cases n with
      | zero => exact h
      | succ n =>
          rw [List.take_succ_cons] at h
          obtain ⟨g, gs, hd, hds, rfl⟩ := List.forall₂_cons_right_iff.mp h
          rw [markFirst]
          split
          · exact .cons ⟨hd.id, hd.size, hd.links⟩ hds
          · exact .cons hd (ih hds)

def FirstFlagged (ids : List Int) : List Int → List SgroupInfo → Prop
  | _, [] => True
  | seen, g :: gs => (g.groupId ∈ ids → g.groupId ∉ seen → g.flag = 1) ∧
      FirstFlagged ids (g.groupId :: seen) gs

theorem FirstFlagged.of_seen {ids seen : List Int} {id : Int} (h : FirstFlagged ids seen gs)
    (hid : id ∈ seen) : FirstFlagged (ids ++ [id]) seen gs := by
  induction gs generalizing seen with
  | nil => exact trivial
  | cons g gs ih =>
      refine ⟨fun hmem hseen => h.1 ?_ hseen, ih h.2 (List.mem_cons_of_mem _ hid)⟩
      refine (List.mem_append.mp hmem).resolve_right fun hmem => hseen ?_
      exact (List.mem_singleton.mp hmem).symm ▸ hid

theorem markFirst_flagged {ids seen : List Int} {id : Int} {n : Nat}
    (h : FirstFlagged ids seen (gs.take n)) (hid : id ∉ seen) :
    FirstFlagged (ids ++ [id]) seen ((markFirst id n gs).take n) := by
  induction gs generalizing n seen with
  | nil =>
      rw [List.eq_nil_of_length_eq_zero (markFirst_length id n []), List.take_nil]
      exact trivial
  | cons g gs ih =>
      cases n with
      | zero => exact trivial
      | succ n =>
          rw [List.take_succ_cons] at h
          obtain ⟨hg, hrest⟩ := h
          rw [markFirst]
          split
          · next hsame =>
              refine ⟨fun _ _ => rfl, FirstFlagged.of_seen hrest ?_⟩
              rw [← hsame]
              exact List.mem_cons_self
          · next hother =>
              refine ⟨fun hmem => hg ?_, ih hrest fun hmem => ?_⟩
              · exact (List.mem_append.mp hmem).resolve_right fun hmem => hother (List.mem_singleton.mp hmem)
              · rcases List.mem_cons.mp hmem with he | hmem
                · exact hother he.symm
                · exact hid hmem

theorem FirstFlagged.flagged {ids seen : List Int} (h : FirstFlagged ids seen gs)
    (hnodup : (gs.map fun g => g.groupId).Nodup) (hseen : ∀ g ∈ gs, g.groupId ∉ seen) :
    ∀ g ∈ gs, g.groupId ∈ ids → g.flag = 1 := by
  induction gs generalizing seen with
  | nil => exact List.forall_mem_nil _
  | cons g gs ih =>
      obtain ⟨hnot, hnodup⟩ := List.nodup_cons.mp hnodup
      obtain ⟨hg, hgs⟩ := List.forall_mem_cons.mp hseen
      refine List.forall_mem_cons.mpr ⟨fun hid => h.1 hid hg, ih h.2 hnodup fun d hd hmem => ?_⟩
      rcases List.mem_cons.mp hmem with he | hmem
      · exact hnot (List.mem_map.mpr ⟨d, hd, he⟩)
      · exact hgs d hd hmem

theorem putNew_eq_some {flag : Int} (h : putNew st g flag = some st') :
    (∃ d, st'.new.take st'.newCount = st.new.take st.newCount ++ [d] ∧ CopyOf g d) ∧
      st' = { st with new := st'.new, newCount := st'.newCount } := by
  obtain ⟨links, hlinks, h⟩ := Option.bind_eq_some_iff.mp h
  obtain ⟨new, hput, h⟩ := Option.bind_eq_some_iff.mp h
  split at h
  · cases h
  · obtain rfl := Option.some.inj h
    obtain ⟨x, htake, _⟩ := putGroup_eq_some hput
    exact ⟨⟨_, htake, rfl, rfl, links, hlinks, rfl⟩, rfl⟩

theorem putSet_eq_some (h : putSet st g = some st') :
    (∃ d, st'.set.take st'.setCount = st.set.take st.setCount ++ [d] ∧ CopyOf g d) ∧
      st' = { st with set := st'.set, setCount := st'.setCount } ∧ st'.set.length = st.set.length := by
  obtain ⟨links, hlinks, h⟩ := Option.bind_eq_some_iff.mp h
  obtain ⟨set, hput, h⟩ := Option.bind_eq_some_iff.mp h
  split at h
  · cases h
  · obtain rfl := Option.some.inj h
    obtain ⟨x, htake, hlen⟩ := putGroup_eq_some hput
    exact ⟨⟨_, htake, rfl, rfl, links, hlinks, rfl⟩, rfl, hlen⟩

/-- After k rounds of the first loop copies of the first k learned groups are new groups, and
their ids are flagged. -/
theorem learnedRounds {k : Nat} (hk : k ≤ st.setCount) (h : (List.range k).foldlM learnedRound st = some st') :
    (∃ news, st'.new.take st'.newCount = st.new.take st.newCount ++ news ∧ Copies (st.set.take k) news) ∧
      (∀ kept, Copies kept (st.deal.take st.dealSize) → Copies kept (st'.deal.take st.dealSize)) ∧
      FirstFlagged ((contents st.set k).map Prod.fst) [] (st'.deal.take st.dealSize) ∧
      st' = { st with new := st'.new, newCount := st'.newCount, deal := st'.deal } := by
  induction k generalizing st' with
  | zero =>
      obtain rfl := Option.some.inj h
      have hnone (seen : List Int) (gs : List SgroupInfo) : FirstFlagged [] seen gs := by
        induction gs generalizing seen with
        | nil => exact trivial
        | cons g gs ih => exact ⟨fun hmem => absurd hmem List.not_mem_nil, ih _⟩
      exact ⟨⟨[], (List.append_nil _).symm, .nil⟩, fun _ h => h, hnone _ _, rfl⟩
  | succ k ih =>
      rw [foldlM_range_succ] at h
      obtain ⟨st1, h1, h2⟩ := Option.bind_eq_some_iff.mp h
      obtain ⟨⟨news, hnew, hnews⟩, hdeal, hflag, hst⟩ := ih (by omega) h1
      obtain ⟨g, hg, h2⟩ := Option.bind_eq_some_iff.mp h2
      obtain ⟨⟨d, hput, hd⟩, hst'⟩ := putNew_eq_some h2
      have hset : st1.set = st.set := by rw [hst]
      have hsize : st1.dealSize = st.dealSize := by rw [hst]
      rw [hset] at hg
      have htake : st.set.take (k + 1) = st.set.take k ++ [g] := by
        rw [List.take_add_one, hg]
        rfl
      have hmark : st'.deal = markFirst g.groupId st.dealSize st1.deal := by
        rw [hst', ← hsize]
      have hcontents : contents st.set (k + 1) = contents st.set k ++ [content g] := by
        rw [contents, htake, List.map_append]
        rfl
      refine ⟨⟨news ++ [d], ?_, ?_⟩, fun kept hkept => ?_, ?_, ?_⟩
      · rw [hput, ← List.append_assoc]
        exact congrArg (· ++ [d]) hnew
      · rw [htake]
        exact hnews.append (.cons hd .nil)
      · rw [hmark]
        exact markFirst_copies _ (hdeal kept hkept)
      · rw [hcontents, List.map_append, hmark]
        exact markFirst_flagged hflag List.not_mem_nil
      · rw [hst', hst]

/-- After k rounds of the second loop copies of the kept groups up to k without flag are new
groups and groups to be set. -/
theorem oldRounds {k : Nat} (hk : k ≤ st.dealSize) (h : (List.range k).foldlM oldRound st = some st') :
    (∃ extra news, st'.set.take st'.setCount = st.set.take st.setCount ++ extra ∧
      st'.new.take st'.newCount = st.new.take st.newCount ++ news ∧
      Copies ((st.deal.take k).filter fun d => d.flag ≠ 1) extra ∧
      Copies ((st.deal.take k).filter fun d => d.flag ≠ 1) news) ∧
      st'.deal = st.deal ∧ st'.set.length = st.set.length := by
  induction k generalizing st' with
  | zero =>
      obtain rfl := Option.some.inj h
      exact ⟨⟨[], [], (List.append_nil _).symm, (List.append_nil _).symm, .nil, .nil⟩, rfl, rfl⟩
  | succ k ih =>
      rw [foldlM_range_succ] at h
      obtain ⟨st1, h1, h2⟩ := Option.bind_eq_some_iff.mp h
      obtain ⟨⟨extra, news, hset, hnew, hextra, hnews⟩, hdeal, hlen⟩ := ih (by omega) h1
      obtain ⟨g, hg, h2⟩ := Option.bind_eq_some_iff.mp h2
      rw [hdeal] at hg
      have htake : st.deal.take (k + 1) = st.deal.take k ++ [g] := by
        rw [List.take_add_one, hg]
        rfl
      rw [htake, List.filter_append]
      split at h2
      · next hflag =>
          obtain rfl := Option.some.inj h2
          rw [List.filter_cons_of_neg (by simpa using hflag), List.filter_nil, List.append_nil]
          exact ⟨⟨extra, news, hset, hnew, hextra, hnews⟩, hdeal, hlen⟩
      · next hflag =>
          obtain ⟨st2, h2, h3⟩ := Option.bind_eq_some_iff.mp h2
          obtain ⟨⟨d, hput, hd⟩, hst2⟩ := putNew_eq_some h2
          obtain ⟨⟨d', htake', hd'⟩, hst', hlen'⟩ := putSet_eq_some h3
          have hset2 : st2.set.take st2.setCount = st1.set.take st1.setCount := by rw [hst2]
          have hnew2 : st'.new.take st'.newCount = st2.new.take st2.newCount := by rw [hst']
          rw [List.filter_cons_of_pos (by simpa using hflag), List.filter_nil]
          refine ⟨⟨extra ++ [d'], news ++ [d], ?_, ?_, hextra.append (.cons hd' .nil),
            hnews.append (.cons hd .nil)⟩, ?_, ?_⟩
          · rw [htake', hset2, hset, List.append_assoc]
          · rw [hnew2, hput, hnew, List.append_assoc]
          · rw [hst', hst2]
            exact hdeal
          · rw [hlen', hst2]
            exact hlen

theorem has_iff {p : UInt8 × UInt8} : Has (content g) p ↔
    ∃ j < g.linkarraysSize.toNat, ∃ l, g.link j = some l ∧ l.member = p := by
  constructor
  · intro ⟨l, hl, hp⟩
    obtain ⟨j, hj, hlink⟩ := List.mem_map.mp hl
    exact ⟨j, List.mem_range.mp hj, l, hlink, hp⟩
  · intro ⟨j, hj, l, hlink, hp⟩
    exact ⟨l, List.mem_map.mpr ⟨j, List.mem_range.mpr hj, hlink⟩, hp⟩

def MapOf (gs : List SgroupInfo) (m : SetMap) : Prop := ∀ p, (∃ g ∈ gs, Has (content g) p) →
  (m p).valid = 1 ∧ ∃ g ∈ gs, Has (content g) p ∧ (m p).groupid = g.groupId

theorem mapLinks {m' : SetMap} {k : Nat} (h : (List.range k).foldlM (mapLink g) m = some m')
    (p : UInt8 × UInt8) : (∃ j < k, ∃ l, g.link j = some l ∧ l.member = p ∧ InMap l ∧
        m' p = ⟨g.groupId, g.linkarraysSize, l.vcValid, l.svcType, 1⟩) ∨
      (m' p = m p ∧ ∀ j < k, ∀ l, g.link j = some l → l.member ≠ p) := by
  induction k generalizing m' with
  | zero =>
      obtain rfl := Option.some.inj h
      exact .inr ⟨rfl, fun j hj => absurd hj (Nat.not_lt_zero j)⟩
  | succ k ih =>
      rw [foldlM_range_succ] at h
      obtain ⟨m1, h1, h2⟩ := Option.bind_eq_some_iff.mp h
      obtain ⟨l, hl, h2⟩ := Option.bind_eq_some_iff.mp h2
      split at h2
      · next hin =>
        obtain rfl := Option.some.inj h2
        by_cases hp : l.member = p
        · subst hp
          rw [update_self]
          exact .inl ⟨k, Nat.lt_succ_self k, l, hl, rfl, hin, rfl⟩
        · rw [update_of_ne (Ne.symm hp)]
          rcases ih h1 with ⟨j, hj, hlast⟩ | ⟨hsame, hout⟩
          · exact .inl ⟨j, by omega, hlast⟩
          · refine .inr ⟨hsame, fun j hj l' hl' => ?_⟩
            by_cases hjk : j = k
            · rw [hjk, hl] at hl'
              exact Option.some.inj hl' ▸ hp
            · exact hout j (by omega) l' hl'
      · cases h2

theorem mapOf_fold {done : List SgroupInfo} {m' : SetMap} (hm : MapOf done m)
    (h : gs.foldlM mapGroup m = some m') : MapOf (done ++ gs) m' := by
  induction gs generalizing done m with
  | nil =>
      obtain rfl := Option.some.inj h
      rw [List.append_nil]
      exact hm
  | cons g gs ih =>
      rw [List.foldlM_cons] at h
      obtain ⟨m1, h1, h2⟩ := Option.bind_eq_some_iff.mp h
      rw [List.append_cons]
      refine ih (fun p hp => ?_) h2
      rcases mapLinks h1 p with ⟨j, hj, l, hl, hmem, -, hentry⟩ | ⟨hsame, hout⟩
      · rw [hentry]
        exact ⟨rfl, g, List.mem_append_right _ List.mem_cons_self, has_iff.mpr ⟨j, hj, l, hl, hmem⟩, rfl⟩
      · obtain ⟨g', hg', hhas⟩ := hp
        have hdone : g' ∈ done := by
          refine (List.mem_append.mp hg').resolve_right fun he => ?_
          obtain rfl := List.mem_singleton.mp he
          obtain ⟨j, hj, l, hl, hmem⟩ := has_iff.mp hhas
          exact hout j hj l hl hmem
        obtain ⟨hvalid, g'', hg'', hhas'', hid⟩ := hm p ⟨g', hdone, hhas⟩
        rw [hsame]
        exact ⟨hvalid, g'', List.mem_append_left _ hg'', hhas'', hid⟩

theorem flagged_false {js : List Nat} (h : flagged ports m g js = some false) : ∀ j ∈ js, ∃ l,
    g.link j = some l ∧ ¬ (ports (l.fiber.toNat % 4)).alarm ∧ ¬ Conflict (m l.member) g l := by
  induction js with
  | nil => exact List.forall_mem_nil _
  | cons j js ih =>
      obtain ⟨l, hl, h⟩ := Option.bind_eq_some_iff.mp h
      split at h
      · cases h
      · next halarm =>
          split at h
          · cases h
          · split at h
            · cases h
            · next hconflict =>
                exact List.forall_mem_cons.mpr ⟨⟨l, hl, halarm, hconflict⟩, ih h⟩

theorem kept_clear (hmap : MapOf gs m)
    (hkept : flagged ports m g (List.range g.linkarraysSize.toNat) = some false)
    (hid : g.groupId ∉ (gs.map content).map Prod.fst) :
    (∀ g' ∈ gs, Apart (content g) (content g')) ∧
      ∀ l, some l ∈ (content g).2.2 → ¬ (ports (l.fiber.toNat % 4)).alarm := by
  refine ⟨fun g' hg' p hp hp' => ?_, fun l hl => ?_⟩
  · obtain ⟨hvalid, g'', hg'', _, hgroup⟩ := hmap p ⟨g', hg', hp'⟩
    obtain ⟨j, hj, l, hl, rfl⟩ := has_iff.mp hp
    obtain ⟨l', hl', _, hconflict⟩ := flagged_false hkept j (List.mem_range.mpr hj)
    obtain rfl := Option.some.inj (hl.symm.trans hl')
    refine hconflict ⟨.inr (.inl fun hsame => hid ?_), hvalid⟩
    rw [← hsame, hgroup]
    exact List.mem_map.mpr ⟨content g'', List.mem_map_of_mem hg'', rfl⟩
  · obtain ⟨j, hj, hlink⟩ := List.mem_map.mp hl
    obtain ⟨l', hl', halarm, _⟩ := flagged_false hkept j hj
    obtain rfl := Option.some.inj (hlink.symm.trans hl')
    exact halarm

/-- The sets of groups after the history is merged in: what is added are old groups, clear of the
learned ones and of alarms. -/
structure Merged (ports : Nat → PortState) (st st' : MapState) : Prop where
  set : Consistent (contents st'.set st'.setCount)
  new : Consistent (contents st'.new st'.newCount)
  added : ∃ extra, st'.set.take st'.setCount = st.set.take st.setCount ++ extra ∧
    contents st'.new st'.newCount = contents st.set st.setCount ++ extra.map content ∧
    ∀ d ∈ extra, ∃ o ∈ st.old, content d = content o ∧
      (∀ g ∈ st.set.take st.setCount, Apart (content o) (content g)) ∧
      ∀ l, some l ∈ (content o).2.2 → ¬ (ports (l.fiber.toNat % 4)).alarm

theorem checkOldGroup_kept {st1 : MapState} (hdeal : st.dealCount = 0)
    (h : checkOldGroup (some ports) st = some st1) : ∃ m,
      buildMap (st.set.take st.setCount) = some m ∧
      Copies (keptGroups ports m st.old) (st1.deal.take st1.dealSize) ∧
      st1 = { st with deal := st1.deal, dealCount := st1.dealCount, dealSize := st1.dealSize } := by
  obtain ⟨m, hm, h⟩ := Option.bind_eq_some_iff.mp h
  obtain ⟨ports', hports, h⟩ := Option.bind_eq_some_iff.mp h
  obtain rfl := Option.some.inj hports
  obtain ⟨st0, hcheck, h⟩ := Option.bind_eq_some_iff.mp h
  obtain rfl := Option.some.inj h
  obtain ⟨⟨copies, htake, hcopies⟩, hst0⟩ := checkGroups_kept hcheck
  rw [hdeal, List.take_zero, List.nil_append] at htake
  refine ⟨m, hm, ?_, ?_⟩
  · change Copies _ (st0.deal.take st0.dealCount)
    rw [htake]
    exact hcopies
  · conv_lhs => rw [hst0]

theorem mapOf_build (h : buildMap gs = some m) : MapOf gs m := by
  have hnone : MapOf [] fun _ => ⟨0, 0, 0, 0, 0⟩ := fun p ⟨_, hg, _⟩ => absurd hg List.not_mem_nil
  exact mapOf_fold hnone h

theorem merged {st1 st2 : MapState} (hlearned : Consistent (contents st.set st.setCount))
    (hold : Consistent (st.old.map content)) (hnew : st.newCount = 0) (hdeal : st.dealCount = 0)
    (h1 : checkOldGroup (some ports) st = some st1) (h2 : updateNewMap st1 = some st2) :
    Merged ports st st2 := by
  obtain ⟨m, hm, hkept, hst1⟩ := checkOldGroup_kept hdeal h1
  obtain ⟨stl, hl, h2⟩ := Option.bind_eq_some_iff.mp h2
  have hmap := mapOf_build hm
  have hkeptC : Consistent ((keptGroups ports m st.old).map content) :=
    hold.sublist (List.filter_sublist.map _)
  have hset1 : st1.set.take st1.setCount = st.set.take st.setCount := by rw [hst1]
  have hcontents1 : contents st1.set st1.setCount = contents st.set st.setCount := by rw [hst1]
  have hnew1 : st1.new.take st1.newCount = [] := by
    rw [hst1]
    change st.new.take st.newCount = []
    rw [hnew, List.take_zero]
  obtain ⟨⟨news, hnewl, hnews⟩, hdeall, hfirst, hstl⟩ := learnedRounds (Nat.le_refl _) hl
  rw [hnew1, List.nil_append] at hnewl
  rw [hset1] at hnews
  rw [hcontents1] at hfirst
  have hkeptl : Copies (keptGroups ports m st.old) (stl.deal.take st1.dealSize) := hdeall _ hkept
  have hidsl : ((stl.deal.take st1.dealSize).map fun d => d.groupId).Nodup := by
    have hids := hkeptC.ids
    rw [← hkeptl.contents, List.map_map] at hids
    exact hids
  have hflag := hfirst.flagged hidsl fun _ _ => List.not_mem_nil
  have hsize : stl.dealSize = st1.dealSize := by rw [hstl]
  have hsetl : stl.set.take stl.setCount = st.set.take st.setCount := by rw [hstl, hst1]
  obtain ⟨⟨extra, more, hset2, hnew2, hextra, hmore⟩, _, _⟩ := oldRounds (Nat.le_refl _) h2
  rw [hsetl] at hset2
  rw [hnewl] at hnew2
  rw [hsize] at hextra hmore
  have hnew' : contents st2.new st2.newCount = contents st.set st.setCount ++ extra.map content := by
    rw [contents, hnew2, List.map_append, hnews.contents, hmore.contents, hextra.contents]
    rfl
  have hfrom : ∀ d ∈ extra, ∃ o ∈ keptGroups ports m st.old, content d = content o ∧
      o.groupId ∉ (contents st.set st.setCount).map Prod.fst := by
    intro d hd
    obtain ⟨d', hd', hcopy⟩ := forall₂_mem_right hextra hd
    obtain ⟨hd', hne⟩ := List.mem_filter.mp hd'
    obtain ⟨o, ho, hcopy'⟩ := forall₂_mem_right hkeptl hd'
    refine ⟨o, ho, hcopy.content.trans hcopy'.content, fun hid => of_decide_eq_true hne (hflag d' hd' ?_)⟩
    rw [hcopy'.id]
    exact hid
  have hadded : ∀ d ∈ extra, ∃ o ∈ st.old, content d = content o ∧
      (∀ g ∈ st.set.take st.setCount, Apart (content o) (content g)) ∧
      ∀ l, some l ∈ (content o).2.2 → ¬ (ports (l.fiber.toNat % 4)).alarm := by
    intro d hd
    obtain ⟨o, ho, he, hid⟩ := hfrom d hd
    obtain ⟨ho, hkept⟩ := List.mem_filter.mp ho
    exact ⟨o, ho, he, kept_clear hmap (of_decide_eq_true hkept) hid⟩
  have hboth : Consistent (contents st.set st.setCount ++ extra.map content) := by
    refine hlearned.append ?_ (fun c hc c' hc' p hp hp' => ?_) fun c hc c' hc' he => ?_
    · rw [hextra.contents]
      exact hkeptC.sublist (hkeptl.contents ▸ List.filter_sublist.map _)
    · obtain ⟨g, hg, rfl⟩ := List.mem_map.mp hc
      obtain ⟨d, hd, rfl⟩ := List.mem_map.mp hc'
      obtain ⟨o, _, heo, hapart, _⟩ := hadded d hd
      exact hapart g hg p (heo ▸ hp') hp
    · obtain ⟨d, hd, rfl⟩ := List.mem_map.mp hc'
      obtain ⟨o, _, heo, hid⟩ := hfrom d hd
      refine hid (List.mem_map.mpr ⟨c, hc, ?_⟩)
      rw [he, heo]
      rfl
  refine ⟨?_, hnew' ▸ hboth, extra, hset2, hnew', hadded⟩
  rw [contents, hset2, List.map_append]
  exact hboth

end OiAmc.OldGroupsMerge

import OiAmc.GrpsmReuse
import OiAmc.MixedRadix

namespace OiAmc.GrpsmCartesian

open PartialMachine GrpsmLinks GrpsmPush GrpsmSearch GrpsmProduct GrpsmGet GrpsmRound GrpsmRemove
open GrpsmReuse MixedRadix

variable {cands : List (List LinkPtr)} {links : List LinkInfo} {svc : GrpsmSvc} {sq : Nat} {p : LinkPtr}

def groupOf (c : List LinkPtr) : GroupCfg := ⟨c.map fun q => channelOf q.link, 0⟩

theorem fillLevels_choice {total g : Nat} (cands : List (List LinkPtr)) (i cm : Nat) (t : ChannelTable)
    (hcm : 0 < cm) (hne : ∀ c ∈ cands, c ≠ []) (htotal : cm * product cands = total) (hg : g < total) :
    (List.range cands.length).map (fun n => fillLevels total i cm cands t g (i + n)) =
      (choice cands (g / cm)).map fun q => channelOf q.link := by
  induction cands generalizing i cm t with
  | nil => rfl
  | cons ls cs ih =>
      have hlen : 0 < ls.length := List.length_pos_iff.mpr (hne ls (by simp))
      have hne' : ∀ c ∈ cs, c ≠ [] := fun d hd => hne d (by simp [hd])
      have hdigit : g / cm % ls.length < ls.length := Nat.mod_lt _ hlen
      have hcm' : 0 < cm * ls.length := Nat.mul_pos hcm hlen
      have hhead := fillLevels_head ls cs i cm t hcm hne htotal hg hdigit
      rw [product_cons, ← Nat.mul_assoc] at htotal
      have hrest := ih (i + 1) (cm * ls.length) (fillLevel (total / (cm * ls.length)) cm i ls t) hcm'
        hne' htotal
      rw [← Nat.div_div_eq_div_mul g] at hrest
      rw [List.length_cons, List.range_succ_eq_map, List.map_cons, Nat.add_zero, hhead,
        choice_cons cs _ hdigit, List.map_cons, ← hrest, List.map_map]
      congr 1
      refine List.map_congr_left fun n _ => ?_
      rw [Function.comp_apply, fillLevels, Nat.succ_eq_add_one, Nat.add_assoc, Nat.add_comm 1 n]

theorem grpsmCfgFromSqlinks_eq (hne : ∀ c ∈ cands, c ≠ []) : grpsmCfgFromSqlinks cands =
    if product cands ≤ intMax then some ((choices cands).map groupOf) else none := by
  rw [grpsmCfgFromSqlinks, numGroups_eq hne]
  split_ifs
  swap
  · rfl
  rw [Option.bind_some, if_neg (product_pos hne).ne', choices, List.map_map]
  refine congrArg some (List.map_congr_left fun g hg => ?_)
  have hslots := fillLevels_choice cands 0 1 (fun _ _ => ⟨0, 0, 0, 0⟩) Nat.one_pos hne
    (Nat.one_mul _) (List.mem_range.mp hg)
  simp only [Nat.zero_add, Nat.div_one] at hslots
  rw [hslots]
  rfl

/-- A bundle that a call may search: one of a handle that was pushed and then asked any number of
times, with the links of any groups removed. -/
def Searched (links : List LinkInfo) (svc : GrpsmSvc) : Prop :=
  ∃ ctl ctl0 ctl1 groupcfg calls outs, grpsmPush ctl links groupcfg = some (0, ctl0) ∧
    run grpsmGet ctl0 calls = some (ctl1, outs) ∧
    ∃ f ∈ ctl1.fibers, ∃ s ∈ f.vcs ++ f.lcas, ∃ pre, svc = grpsmRemoveOlinksFromSvc f.fiber pre s

theorem Searched.nodup (h : Searched links svc) (k : Nat) : (svc.sqlinks k).Nodup := by
  obtain ⟨ctl, ctl0, ctl1, groupcfg, calls, outs, hpush, hrun, f, hf, s, hs, pre, rfl⟩ := h
  have hinv : HandleInv links ctl1 :=
    run_preserves (fun _ _ _ _ hs h => grpsmGet_inv hs h) (grpsmPush_inv hpush).1 hrun
  have hsvc : SvcInv links f.fiber s := by
    rcases List.mem_append.mp hs with hs | hs
    · exact ((hinv.fibers f hf).vcs s hs).1
    · exact ((hinv.fibers f hf).lcas s hs).1
  exact (hsvc.nodup k).sublist (removeOlinks_sublist pre s k)

structure Candidates (svc : GrpsmSvc) (sq : Nat) (p : LinkPtr) (cands : List (List LinkPtr)) : Prop where
  length : cands.length = sq + 1
  near : ∀ i < sq, ∃ ls, cands[i]? = some ls ∧ ls ≠ [] ∧ ls.Nodup ∧
    ∀ q, q ∈ ls ↔ q ∈ svc.sqlinks i ∧ grpsmNearMfi p.link q.link = true
  base : cands[sq]? = some [p]

theorem candidates_of_init (hn : ∀ k, (svc.sqlinks k).Nodup)
    (h : grpsmInitSqlinks svc p.link sq [[p]] = some cands) : Candidates svc sq p cands := by
  obtain ⟨hall, rfl⟩ := grpsmInitSqlinks_eq_some.mp h
  refine ⟨by simp, fun i hi => ⟨nearLinks svc p.link i, ?_, hall i hi, (hn i).filter _, fun q => ?_⟩, ?_⟩
  · rw [List.getElem?_append_left (by simpa using hi)]
    simp [hi]
  · exact List.mem_filter
  · rw [List.getElem?_append_right (by simp)]
    simp

theorem Candidates.cases (h : Candidates svc sq p cands) {c : List LinkPtr} (hc : c ∈ cands) :
    c ≠ [] ∧ c.Nodup := by
  obtain ⟨i, hi, rfl⟩ := List.getElem_of_mem hc
  have hlength := h.length
  rcases Nat.lt_or_ge i sq with hlt | hge
  · obtain ⟨ls, hls, hne, hnodup, -⟩ := h.near i hlt
    rw [List.getElem?_eq_getElem hi, Option.some.injEq] at hls
    exact hls ▸ ⟨hne, hnodup⟩
  · obtain rfl : i = sq := by omega
    have hbase := h.base
    rw [List.getElem?_eq_getElem hi, Option.some.injEq] at hbase
    exact hbase ▸ ⟨List.cons_ne_nil _ _, List.nodup_singleton _⟩

/-- The groups are the combinations of the candidates, each of them once; and neither their
number nor one of the running products leaves an int or is zero. -/
structure IsProduct (svc : GrpsmSvc) (sq : Nat) (p : LinkPtr) (cands : List (List LinkPtr))
    (gs : List GroupCfg) : Prop where
  candidates : Candidates svc sq p cands
  number : gs.length = product cands
  channels : ∀ g ∈ gs, g.chs.length = sq + 1 ∧ g.chs[sq]? = some (channelOf p.link)
  combinations : ∃ combos : List (List LinkPtr), gs = combos.map groupOf ∧ combos.Nodup ∧
    ∀ c, c ∈ combos ↔ List.Forall₂ (· ∈ ·) c cands
  running : ∀ n ≤ cands.length, 0 < product (cands.take n) ∧ product (cands.take n) ≤ intMax

theorem take_product (h : Candidates svc sq p cands) {n : Nat} :
    0 < product (cands.take n) ∧ product (cands.take n) ≤ product cands := by
  have hpos (l : List (List LinkPtr)) (hl : ∀ c ∈ l, c ∈ cands) : 0 < product l :=
    product_pos fun c hc => (h.cases (hl c hc)).1
  have hsplit : product cands = product (cands.take n) * product (cands.drop n) := by
    rw [product, product, product, ← List.prod_append, ← List.map_append, List.take_append_drop]
  refine ⟨hpos _ fun c => List.mem_of_mem_take, ?_⟩
  rw [hsplit]
  exact Nat.le_mul_of_pos_right _ (hpos _ fun c => List.mem_of_mem_drop)

theorem isProduct_choices (h : Candidates svc sq p cands) (hint : product cands ≤ intMax) :
    IsProduct svc sq p cands ((choices cands).map groupOf) where
  candidates := h
  number := by rw [List.length_map, length_choices]; rfl
  channels := by
    intro g hg
    obtain ⟨c, hc, rfl⟩ := List.mem_map.mp hg
    have hc := mem_choices.mp hc
    have hlength : c.length = sq + 1 := hc.length_eq.trans h.length
    refine ⟨by rw [groupOf, List.length_map, hlength], ?_⟩
    have hcands := h.length
    have hsq : sq < c.length := by omega
    have hbase := h.base
    have hmem := hc.get hsq (by omega)
    rw [List.getElem?_eq_getElem (by omega), Option.some.injEq] at hbase
    simp only [List.get_eq_getElem, hbase, List.mem_singleton] at hmem
    simp [groupOf, hsq, hmem]
  combinations := ⟨choices cands, rfl, nodup_choices fun c hc => (h.cases hc).2, fun _ => mem_choices⟩
  running := fun _ _ => ⟨(take_product h).1, (take_product h).2.trans hint⟩

/-- The groups of a base link are the product of the candidate lists just where the number of
the combinations is an int. -/
theorem grpsm_cfg_product_iff (hsvc : Searched links svc)
    (hinit : grpsmInitSqlinks svc p.link sq [[p]] = some cands) :
    (∃ gs, grpsmCfgFromSqlinks cands = some gs ∧ IsProduct svc sq p cands gs) ↔
      product cands ≤ intMax := by
  have h := candidates_of_init hsvc.nodup hinit
  have heq := grpsmCfgFromSqlinks_eq fun c hc => (h.cases hc).1
  constructor
  · rintro ⟨gs, hgs, hprod⟩
    by_contra hint
    rw [heq, if_neg hint] at hgs
    cases hgs
  · intro hint
    rw [if_pos hint] at heq
    exact ⟨_, heq, isProduct_choices h hint⟩

/-- Two links on each of the levels below a top, and one on the top, all with one MFI. -/
def pairs (top : Nat) : List LinkInfo :=
  (List.range (2 * top + 1)).map fun i => vcLink (.ofNat i) (.ofNat (i / 2)) 0

/-- The first VC bundle that a push makes. -/
def pushed (links : List LinkInfo) : Option GrpsmSvc :=
  (grpsmPush grpsmOpen links []).bind fun r =>
    if r.1 = 0 then r.2.fibers.head?.bind fun f => f.vcs.head? else none

theorem pushed_searched (h : pushed links = some svc) : Searched links svc := by
  obtain ⟨⟨rc, ctl⟩, hpush, h⟩ := Option.bind_eq_some_iff.mp h
  split at h
  swap
  · cases h
  next hrc =>
    obtain ⟨f, hf, h⟩ := Option.bind_eq_some_iff.mp h
    refine ⟨grpsmOpen, ctl, ctl, [], [], [], ?_, rfl, f, List.mem_of_head? hf, svc,
      List.mem_append_left _ (List.mem_of_head? h), [], rfl⟩
    rw [hpush, show rc = 0 from hrc]

def combinations (svc : GrpsmSvc) (sq : Nat) : Option Nat :=
  (svc.sqlinks sq).head?.bind fun p => (grpsmInitSqlinks svc p.link sq [[p]]).map product

theorem combinations_eq_some {n : Nat} (h : ((pushed links).bind fun svc => combinations svc sq) = some n) :
    ∃ svc p cands, Searched links svc ∧ p ∈ svc.sqlinks sq ∧
      grpsmInitSqlinks svc p.link sq [[p]] = some cands ∧ product cands = n := by
  obtain ⟨svc, hsvc, h⟩ := Option.bind_eq_some_iff.mp h
  obtain ⟨p, hp, h⟩ := Option.bind_eq_some_iff.mp h
  obtain ⟨cands, hcands, hn⟩ := Option.map_eq_some_iff.mp h
  exact ⟨svc, p, cands, pushed_searched hsvc, List.mem_of_head? hp, hcands, hn⟩

theorem grpsm_cfg_product_pair : ∃ svc p cands, Searched (pairs 1) svc ∧
    grpsmInitSqlinks svc p.link 1 [[p]] = some cands ∧
    ∃ gs, grpsmCfgFromSqlinks cands = some gs ∧ IsProduct svc 1 p cands gs := by
  have htwo : ((pushed (pairs 1)).bind fun svc => combinations svc 1) = some 2 := by decide
  obtain ⟨svc, p, cands, hsvc, -, hinit, hn⟩ := combinations_eq_some htwo
  refine ⟨svc, p, cands, hsvc, hinit, (grpsm_cfg_product_iff hsvc hinit).mpr ?_⟩
  rw [hn]
  decide

/-- With 31 levels of two links the number of groups is no int any more. -/
theorem pairs_overflow : ¬∀ links svc sq p cands, Searched links svc → p ∈ svc.sqlinks sq →
    grpsmInitSqlinks svc p.link sq [[p]] = some cands →
    ∃ gs, grpsmCfgFromSqlinks cands = some gs ∧ IsProduct svc sq p cands gs := by
  intro h
  have hover : ((pushed (pairs 31)).bind fun svc => combinations svc 31) = some 2147483648 := by
    decide +kernel
  obtain ⟨svc, p, cands, hsvc, hp, hinit, hn⟩ := combinations_eq_some hover
  obtain ⟨gs, hgs, hprod⟩ := h _ svc 31 p cands hsvc hp hinit
  have hint := (hprod.running cands.length (Nat.le_refl _)).2
  rw [List.take_length, hn] at hint
  exact absurd hint (by decide)

end OiAmc.GrpsmCartesian

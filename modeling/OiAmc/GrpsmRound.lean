import OiAmc.GrpsmGet
import OiAmc.GrpsmProduct
import Mathlib.Data.List.Forall2

namespace OiAmc.GrpsmRound

open PartialLists GrpsmLinks GrpsmSearch GrpsmProduct GrpsmGet

def nearLinks (svc : GrpsmSvc) (blink : LinkInfo) (i : Nat) : List LinkPtr :=
  (svc.sqlinks i).filter fun p => grpsmNearMfi blink p.link

def Listed (svc : GrpsmSvc) (ch : GroupChannel) : Prop :=
  ∃ i, ∃ p ∈ svc.sqlinks i, ch = channelOf p.link

theorem grpsmInitSqlinks_eq_some {svc : GrpsmSvc} {blink : LinkInfo} {n : Nat}
    {cands cs : List (List LinkPtr)} :
    grpsmInitSqlinks svc blink n cands = some cs ↔
      (∀ i < n, nearLinks svc blink i ≠ []) ∧
        cs = (List.range n).map (nearLinks svc blink) ++ cands := by
  induction n generalizing cands with
  | zero =>
      constructor
      · intro h; cases h; simp
      · intro h; rw [h.2]; rfl
  | succ n ih =>
      change (if nearLinks svc blink n = [] then none
        else grpsmInitSqlinks svc blink n (nearLinks svc blink n :: cands)) = some cs ↔ _
      split
      · next h =>
          refine ⟨fun hc => absurd hc (by simp), fun hc => absurd h (hc.1 n (Nat.lt_succ_self n))⟩
      · next h =>
          rw [ih, List.range_succ, List.map_append, List.append_assoc]
          refine and_congr_left fun _ => ⟨fun hall i hi => ?_, fun hall i hi => hall i (by omega)⟩
          rcases Nat.lt_succ_iff_lt_or_eq.mp hi with hi | rfl
          · exact hall i hi
          · exact h

/-- The candidate lists of a base link: the near links of every lower level,
and the link itself. -/
def candidates (svc : GrpsmSvc) (sq : Nat) (p : LinkPtr) : List (List LinkPtr) :=
  (List.range sq).map (nearLinks svc p.link) ++ [[p]]

theorem blinkGroups_spec {svc : GrpsmSvc} {sq : Nat} {p : LinkPtr} {gs : List GroupCfg}
    (hp : p ∈ svc.sqlinks sq) (h : blinkGroups svc sq p = some gs) :
    (gs ≠ [] ↔ ∀ i < sq, nearLinks svc p.link i ≠ []) ∧
      ∀ g ∈ gs, ∀ ch ∈ g.chs, Listed svc ch := by
  rw [blinkGroups] at h
  split at h
  · next hnone =>
      cases h
      refine ⟨⟨fun hne => absurd rfl hne, fun hall => ?_⟩, by simp⟩
      rw [grpsmInitSqlinks_eq_some.mpr ⟨hall, rfl⟩] at hnone
      cases hnone
  · next cands hc =>
      obtain ⟨hall, rfl⟩ := grpsmInitSqlinks_eq_some.mp hc
      have hne : ∀ c ∈ candidates svc sq p, c ≠ [] := by
        intro c hc
        rcases List.mem_append.mp hc with hc | hc
        · obtain ⟨i, hi, rfl⟩ := List.mem_map.mp hc
          exact hall i (List.mem_range.mp hi)
        · simp [List.mem_singleton.mp hc]
      have hlisted : ∀ c ∈ candidates svc sq p, ∀ q ∈ c, Listed svc (channelOf q.link) := by
        intro c hc q hq
        rcases List.mem_append.mp hc with hc | hc
        · obtain ⟨i, _, rfl⟩ := List.mem_map.mp hc
          exact ⟨i, q, (List.mem_filter.mp hq).1, rfl⟩
        · rw [List.mem_singleton.mp hc, List.mem_singleton] at hq
          exact ⟨sq, q, hq ▸ hp, rfl⟩
      obtain ⟨hlen, hslots⟩ := grpsmCfgFromSqlinks_spec hne h
      refine ⟨⟨fun _ => hall, fun _ => ?_⟩, fun g hg ch hch => ?_⟩
      · exact List.length_pos_iff.mp (hlen ▸ product_pos hne)
      · obtain ⟨hg', hslot⟩ := hslots g hg
        obtain ⟨n, hn, rfl⟩ := List.getElem_of_mem hch
        obtain ⟨q, hq, he⟩ := hslot n (hg' ▸ hn)
        rw [List.getElem?_eq_getElem hn, Option.some.injEq] at he
        exact he ▸ hlisted _ (List.get_mem _ _) q hq

theorem sqGroups_listed {svc : GrpsmSvc} {sq : Nat} {gs : List GroupCfg}
    (h : grpsmGetVcsFromSvcSq svc sq = some gs) : ∀ g ∈ gs, ∀ ch ∈ g.chs, Listed svc ch := by
  rw [grpsmGetVcsFromSvcSq] at h
  split at h
  · cases h
    intro g hg ch hch
    obtain ⟨p, hp, rfl⟩ := List.mem_map.mp hg
    exact ⟨0, p, hp, List.mem_singleton.mp hch⟩
  · obtain ⟨gss, hgss, rfl⟩ := Option.map_eq_some_iff.mp h
    intro g hg
    obtain ⟨gs, hgs, hg⟩ := List.mem_flatten.mp hg
    have hall := mapM_eq_some.mp hgss
    obtain ⟨i, hi, rfl⟩ := List.getElem_of_mem hgs
    have hi' : i < (svc.sqlinks sq).length := hall.length_eq ▸ hi
    exact (blinkGroups_spec (List.getElem_mem hi') (hall.get hi' hi)).2 g hg

theorem grpsmGetVcsFromSvc_listed {vcPartial : Bool} {svc svc' : GrpsmSvc} {gs : List GroupCfg}
    (h : grpsmGetVcsFromSvc vcPartial svc = some (svc', gs)) :
    svc'.sqlinks = svc.sqlinks ∧ ∀ g ∈ gs, ∀ ch ∈ g.chs, Listed svc ch := by
  rw [grpsmGetVcsFromSvc] at h
  split at h
  · cases h; simp
  · split at h
    · cases h; simp
    · next sq hsq =>
        obtain ⟨cfg, hc, he⟩ := Option.map_eq_some_iff.mp h
        obtain ⟨rfl, rfl⟩ := Prod.mk.inj he
        exact ⟨rfl, sqGroups_listed hc⟩

theorem lcasChannels_listed {svc : GrpsmSvc} {lm : LinkInfo} {n : Nat}
    {chs chs' : List GroupChannel} (hchs : ∀ ch ∈ chs, Listed svc ch)
    (h : lcasChannels svc lm n chs = some chs') : ∀ ch ∈ chs', Listed svc ch := by
  induction n generalizing chs with
  | zero => cases h; exact hchs
  | succ n ih =>
      rw [lcasChannels] at h
      split at h
      · next p hp =>
          refine ih (List.forall_mem_cons.mpr ⟨⟨n, p, List.mem_of_find?_eq_some hp, rfl⟩, hchs⟩) h
      · cases h

theorem grpsmGetLcasFromSvc_listed {svc : GrpsmSvc} :
    ∀ g ∈ grpsmGetLcasFromSvc svc, ∀ ch ∈ g.chs, Listed svc ch := by
  intro g hg
  obtain ⟨p, hp, hg⟩ := List.mem_filterMap.mp hg
  obtain ⟨chs, hc, rfl⟩ := Option.map_eq_some_iff.mp hg
  obtain ⟨i, _, hp⟩ := List.mem_flatMap.mp hp
  refine lcasChannels_listed (fun ch hch => ?_) hc
  exact ⟨i, p, (List.mem_filter.mp hp).1, List.mem_singleton.mp hch⟩

/-- A fiber in a VC round: the links of the groups handed in are taken out of
every bundle, and every bundle is then searched. -/
structure VcRound (vcPartial : Bool) (pre : List GroupCfg) (f : GrpsmFiber)
    (r : GrpsmFiber × List GroupCfg) : Prop where
  fiber : r.1.fiber = f.fiber
  lcas : r.1.lcas = f.lcas
  vcs : ∃ rs, List.Forall₂ (fun s q =>
      grpsmGetVcsFromSvc vcPartial (grpsmRemoveOlinksFromSvc f.fiber pre s) = some q) f.vcs rs ∧
    r.1.vcs = rs.map Prod.fst ∧ r.2 = (rs.map Prod.snd).flatten

theorem searchFiber_eq_some {vcPartial : Bool} {pre : List GroupCfg} {f : GrpsmFiber}
    {r : GrpsmFiber × List GroupCfg} (h : searchFiber vcPartial (filterFiber pre f) = some r) :
    VcRound vcPartial pre f r := by
  obtain ⟨rs, hrs, rfl⟩ := Option.map_eq_some_iff.mp h
  exact ⟨rfl, rfl, rs, List.forall₂_map_left_iff.mp (mapM_eq_some.mp hrs), rfl, rfl⟩

theorem grpsmGetVc_cases {ctl ctl' : GrpsmCtl} {pre gs : List GroupCfg}
    (h : grpsmGetVc ctl pre = some (ctl', gs)) :
    ∃ rs, List.Forall₂ (VcRound ctl.vcPartial pre) ctl.fibers rs ∧
      ctl' = { ctl with fibers := rs.map Prod.fst } ∧ gs = (rs.map Prod.snd).flatten := by
  obtain ⟨rs, hrs, he⟩ := Option.map_eq_some_iff.mp h
  obtain ⟨rfl, rfl⟩ := Prod.mk.inj he
  refine ⟨rs, ?_, rfl, rfl⟩
  exact (List.forall₂_map_left_iff.mp (mapM_eq_some.mp hrs)).imp fun _ _ => searchFiber_eq_some

/-- The copies that are appended to the recorded groups: one of the first group
for every group handed in, or none. -/
def recorded (fresh : Nat → Fresh) : List GroupCfg → List GroupCfg
  | [] => []
  | cfg :: cfgs =>
      if cfg.result = 0 then []
      else (List.range (cfgs.length + 1)).map fun i => copyCfg (fresh i) cfg

theorem updateVgroups_eq (fresh : Nat → Fresh) (ctl : GrpsmCtl) (pre : List GroupCfg) :
    grpsmUpdateVgroups fresh ctl pre = { ctl with vgroups := ctl.vgroups ++ recorded fresh pre } := by
  cases pre with
  | nil => simp [grpsmUpdateVgroups, recorded]
  | cons cfg cfgs =>
      by_cases h : cfg.result = 0
      · simp [grpsmUpdateVgroups, recorded, h]
      · have hfold (xs : List Nat) (c : GrpsmCtl) :
            xs.foldl (fun ctl i => if cfg.result ≠ 0 then
              { ctl with vgroups := ctl.vgroups ++ [copyCfg (fresh i) cfg] } else ctl) c =
            { c with vgroups := c.vgroups ++ xs.map fun i => copyCfg (fresh i) cfg } := by
          induction xs generalizing c with
          | nil => simp
          | cons x xs ih =>
              rw [List.foldl_cons, ih]
              simp [h]
        rw [grpsmUpdateVgroups, if_neg (by simp [h]), hfold, recorded, if_neg h, List.length_cons]

def removedBy (ctl : GrpsmCtl) (call : GetCall) : List GroupCfg :=
  if ctl.lcasGot then call.pre.take call.numTrygroups.toNat else []

def isPartial (ctl : GrpsmCtl) (call : GetCall) : Bool :=
  ctl.lcasGot && decide (call.numTrygroups < call.pre.length)

def HandsLcas (ctl : GrpsmCtl) (call : GetCall) : Prop :=
  call.preGroupcfg = none ∧ grpsmGetLcas ctl ≠ []

structure RunsRound (ctl : GrpsmCtl) (call : GetCall) (ctl' : GrpsmCtl) (gs : List GroupCfg) :
    Prop where
  noLcas : ¬ HandsLcas ctl call
  inside : ctl.lcasGot = true → ¬ call.readsOutside ctl
  links : ctl'.links = ctl.links
  got : ctl'.lcasGot = true
  vgroups : ctl'.vgroups = ctl.vgroups ++ recorded call.fresh call.pre
  rounds : ∃ rs, List.Forall₂ (VcRound (isPartial ctl call) (removedBy ctl call)) ctl.fibers rs ∧
    ctl'.fibers = rs.map Prod.fst ∧ gs = (rs.map Prod.snd).flatten

theorem grpsmGet_of_lcas {ctl : GrpsmCtl} {call : GetCall} (h : HandsLcas ctl call) :
    grpsmGet ctl call = some (ctl, grpsmGetLcas ctl) := by
  rw [grpsmGet, h.1]
  exact if_pos h.2

theorem grpsmGet_of_not_lcas {ctl : GrpsmCtl} {call : GetCall} (h : ¬ HandsLcas ctl call) :
    grpsmGet ctl call =
      if ctl.lcasGot = true ∧ call.readsOutside ctl then none
      else grpsmGetVc { ctl with
        vgroups := ctl.vgroups ++ recorded call.fresh call.pre, lcasGot := true,
        vcPartial := isPartial ctl call } (removedBy ctl call) := by
  have hlcas : (if call.preGroupcfg.isNone then grpsmGetLcas ctl else []) = [] := by
    cases hp : call.preGroupcfg with
    | none =>
        rw [HandsLcas, hp] at h
        simpa using h
    | some pre => rfl
  simp only [grpsmGet, hlcas, updateVgroups_eq, ne_eq, not_true_eq_false, if_false]
  cases hg : ctl.lcasGot with
  | false => simp [isPartial, removedBy, hg]
  | true =>
      simp [isPartial, removedBy, hg, GetCall.readsOutside]
      congr

theorem grpsmGet_cases {ctl ctl' : GrpsmCtl} {call : GetCall} {gs : List GroupCfg}
    (h : grpsmGet ctl call = some (ctl', gs)) :
    (HandsLcas ctl call ∧ ctl' = ctl ∧ gs = grpsmGetLcas ctl) ∨
      RunsRound ctl call ctl' gs := by
  by_cases hl : HandsLcas ctl call
  · rw [grpsmGet_of_lcas hl, Option.some.injEq, Prod.mk.injEq] at h
    exact Or.inl ⟨hl, h.1.symm, h.2.symm⟩
  · rw [grpsmGet_of_not_lcas hl] at h
    split at h
    · cases h
    · next hout =>
        obtain ⟨rs, hrs, rfl, rfl⟩ := grpsmGetVc_cases h
        exact Or.inr ⟨hl, fun hg hr => hout ⟨hg, hr⟩, rfl, rfl, rfl, rs, hrs, rfl, rfl⟩

end OiAmc.GrpsmRound

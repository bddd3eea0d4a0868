import OiAmc.GrpsmReuse

namespace OiAmc.GrpsmRecord

open PartialMachine GrpsmLinks GrpsmPush GrpsmSearch GrpsmGet GrpsmRound GrpsmReuse

def reported (pre : List GroupCfg) : List GroupCfg := pre.filter fun cfg => cfg.result ≠ 0

/-- The call appends the groups reported successful, with all their channels. -/
def RecordsReported (fresh : Nat → Fresh) (ctl : GrpsmCtl) (pre : List GroupCfg) : Prop :=
  ∃ added, (grpsmUpdateVgroups fresh ctl pre).vgroups = ctl.vgroups ++ added ∧
    added.map GroupCfg.members = (reported pre).map GroupCfg.members

/-- All groups failed, or all succeeded without having a channel. -/
def Uniform (pre : List GroupCfg) : Prop :=
  (∀ cfg ∈ pre, cfg.result = 0) ∨ ∀ cfg ∈ pre, cfg.result ≠ 0 ∧ cfg.chs = []

instance (pre : List GroupCfg) : Decidable (Uniform pre) :=
  inferInstanceAs (Decidable ((∀ cfg ∈ pre, cfg.result = 0) ∨
    ∀ cfg ∈ pre, cfg.result ≠ 0 ∧ cfg.chs = []))

theorem recordsReported_iff {fresh : Nat → Fresh} {ctl : GrpsmCtl} {pre : List GroupCfg} :
    RecordsReported fresh ctl pre ↔
      (recorded fresh pre).map GroupCfg.members = (reported pre).map GroupCfg.members := by
  rw [RecordsReported, updateVgroups_eq]
  constructor
  · intro h
    obtain ⟨added, he, ha⟩ := h
    rw [List.append_cancel_left he]
    exact ha
  · intro h
    exact ⟨_, rfl, h⟩

@[simp] theorem copyCfg_chs_length (fresh : Fresh) (cfg : GroupCfg) :
    (copyCfg fresh cfg).chs.length = cfg.chs.length := by
  simp [copyCfg]

/-- The channel number of the last copied channel is beyond the bytes that the
call of memcpy moves. -/
theorem copyCfg_last {fresh : Fresh} {cfg : GroupCfg} (h : cfg.chs ≠ []) :
    ((copyCfg fresh cfg).members.getLast?.map Prod.snd) =
      some ((fresh.chs (6 * (cfg.chs.length - 1) + 2)).toUInt16 |||
        ((fresh.chs (6 * (cfg.chs.length - 1) + 3)).toUInt16 <<< 8)) := by
  obtain ⟨n, hn⟩ : ∃ n, cfg.chs.length = n + 1 :=
    ⟨cfg.chs.length - 1, by have := List.length_pos_iff.mpr h; omega⟩
  rw [GroupCfg.members, copyCfg, hn, List.range_succ]
  simp [channelAt, GroupChannel.member]
  rw [if_neg (by omega), if_neg (by omega)]

theorem sameMembers_empty {pre : List GroupCfg} {cfg : GroupCfg} {cfgs : List GroupCfg}
    (hpre : pre = cfg :: cfgs) (hok : cfg.result ≠ 0)
    (h : ∀ fresh, (recorded fresh pre).map GroupCfg.members = (reported pre).map GroupCfg.members) :
    cfg.chs = [] := by
  subst hpre
  by_contra hne
  -- two calls of malloc that hand out different bytes
  have hhead (fresh : Nat → Fresh) :
      (copyCfg (fresh 0) cfg).members = cfg.members := by
    have hf := congrArg List.head? (h fresh)
    simpa [recorded, hok, reported, List.range_succ_eq_map] using hf
  have h0 := @copyCfg_last ⟨fun _ => 0, 0⟩ cfg hne
  have h1 := @copyCfg_last ⟨fun _ => 1, 0⟩ cfg hne
  rw [hhead fun _ => ⟨fun _ => 0, 0⟩] at h0
  rw [hhead fun _ => ⟨fun _ => 1, 0⟩] at h1
  have hbytes := Option.some.inj (h0.symm.trans h1)
  simp only at hbytes
  exact absurd hbytes (by decide)

theorem recorded_uniform {fresh : Nat → Fresh} {pre : List GroupCfg} (h : Uniform pre) :
    (recorded fresh pre).map GroupCfg.members = (reported pre).map GroupCfg.members := by
  cases pre with
  | nil => rfl
  | cons cfg cfgs =>
      rcases h with h | h
      · have hnone : reported (cfg :: cfgs) = [] := by
          apply List.filter_eq_nil_iff.mpr
          intro g hg
          simp [h g hg]
        rw [hnone, recorded, if_pos (h cfg (by simp))]
      · have hall : reported (cfg :: cfgs) = cfg :: cfgs :=
          List.filter_eq_self.mpr fun g hg => by simpa using (h g hg).1
        have hempty : (cfg :: cfgs).map GroupCfg.members =
            (cfg :: cfgs).map fun _ => ([] : List (UInt8 × UInt16)) := by
          apply List.map_congr_left
          intro g hg
          rw [GroupCfg.members, (h g hg).2]
          rfl
        have hcopy (i : Nat) : (copyCfg (fresh i) cfg).members = [] := by
          rw [GroupCfg.members, copyCfg, (h cfg (by simp)).2]
          rfl
        rw [hall, hempty, recorded, if_neg (h cfg (by simp)).1, List.map_map]
        simp [Function.comp_def, hcopy, List.replicate_succ]

theorem recordsReported_uniform (ctl : GrpsmCtl) (pre : List GroupCfg) :
    (∀ fresh, RecordsReported fresh ctl pre) ↔ Uniform pre := by
  simp only [recordsReported_iff]
  refine ⟨fun h => ?_, fun h fresh => recorded_uniform h⟩
  cases pre with
  | nil => exact Or.inl (by simp)
  | cons cfg cfgs =>
      have h0 := h fun _ => ⟨fun _ => 0, 0⟩
      by_cases hok : cfg.result = 0
      · left
        rw [recorded, if_pos hok, List.map_nil, eq_comm, List.map_eq_nil_iff] at h0
        exact fun g hg => by simpa using List.filter_eq_nil_iff.mp h0 g hg
      · right
        have hchs := sameMembers_empty rfl hok h
        rw [recorded, if_neg hok] at h0
        have hlen := congrArg List.length h0
        simp only [List.length_map, List.length_range] at hlen
        have hall : reported (cfg :: cfgs) = cfg :: cfgs :=
          List.filter_eq_self.mpr (List.length_filter_eq_length_iff.mp hlen.symm)
        intro g hg
        refine ⟨by simpa using List.filter_eq_self.mp hall g hg, ?_⟩
        have hin : g.members ∈ (reported (cfg :: cfgs)).map GroupCfg.members := by
          rw [hall]; exact List.mem_map_of_mem hg
        rw [← h0] at hin
        obtain ⟨c, hc, hm⟩ := List.mem_map.mp hin
        obtain ⟨i, _, rfl⟩ := List.mem_map.mp hc
        rw [GroupCfg.members, copyCfg, hchs] at hm
        exact List.map_eq_nil_iff.mp hm.symm

def reportedAll (calls : List GetCall) : List GroupCfg := calls.flatMap fun call => reported call.pre

/-- Every call appends the groups that it recorded; a call that hands out LCAS
groups was handed none. -/
theorem grpsmGet_vgroups {ctl ctl' : GrpsmCtl} {call : GetCall} {gs : List GroupCfg}
    (h : grpsmGet ctl call = some (ctl', gs)) :
    ctl'.vgroups = ctl.vgroups ++ recorded call.fresh call.pre := by
  rcases grpsmGet_cases h with ⟨hl, rfl, _⟩ | hr
  · simp [GetCall.pre, hl.1, recorded]
  · exact hr.vgroups

theorem run_vgroups {ctl ctl' : GrpsmCtl} {calls : List GetCall} {outs : List (List GroupCfg)}
    (hu : ∀ call ∈ calls, Uniform call.pre) (h : run grpsmGet ctl calls = some (ctl', outs)) :
    ctl'.vgroups.map GroupCfg.members =
      ctl.vgroups.map GroupCfg.members ++ (reportedAll calls).map GroupCfg.members := by
  induction calls generalizing ctl outs with
  | nil =>
      rw [run_nil, Option.some.injEq, Prod.mk.injEq] at h
      simp [h.1, reportedAll]
  | cons call calls ih =>
      obtain ⟨ctl1, gs, outs', h1, h2, _⟩ := run_cons.mp h
      have hc := @recorded_uniform call.fresh _ (hu call (by simp))
      rw [ih (fun c hc => hu c (by simp [hc])) h2, grpsmGet_vgroups h1, List.map_append, hc,
        reportedAll, reportedAll, List.flatMap_cons, List.map_append, List.append_assoc]

/-- What grpsm_stat has to say of a link when these groups are successful. -/
def statAmong (groups : List GroupCfg) (link : LinkInfo) : GroupStat :=
  match groups.findIdx? fun cfg => decide (link.member ∈ cfg.members) with
  | some index => ⟨link, true, index + 1⟩
  | none => ⟨link, false, 0⟩

theorem grpsmStat_eq (ctl : GrpsmCtl) (groups : List GroupCfg)
    (h : ctl.vgroups.map GroupCfg.members = groups.map GroupCfg.members) :
    grpsmStat ctl = ctl.links.map (statAmong groups) := by
  have hidx (link : LinkInfo) : isLinkInGroup link ctl.vgroups =
      groups.findIdx? fun cfg => decide (link.member ∈ cfg.members) := by
    have hmap (gs : List GroupCfg) : gs.findIdx? (fun cfg => decide (link.member ∈ cfg.members)) =
        (gs.map GroupCfg.members).findIdx? fun ms => decide (link.member ∈ ms) := by
      rw [List.findIdx?_map]
      rfl
    rw [isLinkInGroup_eq, hmap, hmap, h]
  apply List.map_congr_left
  intro link _
  rw [hidx]
  rfl

/-- In a run whose calls are handed uniform lists, the handle records the groups
reported successful and grpsm_stat tells them; and no other list is recorded
right on every outcome of malloc. -/
theorem grpsmGet_records {ctl ctl0 ctl1 : GrpsmCtl} {links : List LinkInfo}
    {groupcfg : List GroupCfg} {calls : List GetCall} {outs : List (List GroupCfg)}
    (hpush : grpsmPush ctl links groupcfg = some (0, ctl0))
    (hrun : run grpsmGet ctl0 calls = some (ctl1, outs)) :
    ((∀ call ∈ calls, Uniform call.pre) →
      ctl1.vgroups.map GroupCfg.members = (reportedAll calls).map GroupCfg.members ∧
      grpsmStat ctl1 = links.map (statAmong (reportedAll calls))) ∧
    ∀ pre, (∀ fresh, RecordsReported fresh ctl1 pre) ↔ Uniform pre := by
  refine ⟨fun hu => ?_, recordsReported_uniform ctl1⟩
  obtain ⟨hinv, _, hnil⟩ := grpsmPush_inv hpush
  have hinv1 : HandleInv links ctl1 :=
    run_preserves (fun _ _ _ _ hs h => grpsmGet_inv hs h) hinv hrun
  have hv := run_vgroups hu hrun
  rw [hnil, List.map_nil, List.nil_append] at hv
  exact ⟨hv, hinv1.table ▸ grpsmStat_eq ctl1 _ hv⟩

theorem grpsmGet_records_failed : ∃ ctl1 outs,
    ((grpsmPush grpsmOpen [vcLink 1 0 0, vcLink 2 0 0] []).bind fun r =>
      run grpsmGet r.2 [zeroedCall none 0, zeroedCall (some [⟨[channelOf (vcLink 1 0 0)], 0⟩]) 1]) =
        some (ctl1, outs) ∧
    (grpsmStat ctl1).map GroupStat.grouped = [false, false] := by
  refine ⟨_, _, rfl, ?_⟩
  have h := (@grpsmGet_records grpsmOpen _ _ [vcLink 1 0 0, vcLink 2 0 0] []
    [zeroedCall none 0, zeroedCall (some [⟨[channelOf (vcLink 1 0 0)], 0⟩]) 1] _ rfl rfl).1
    (by decide)
  exact congrArg (List.map GroupStat.grouped) h.2

/-- A failed group before a successful one: nothing is recorded. -/
theorem mixed_results_lost : ∃ ctl1 outs,
    ((grpsmPush grpsmOpen [vcLink 1 0 0, vcLink 2 0 0] []).bind fun r =>
      run grpsmGet r.2 [zeroedCall none 0, zeroedCall (some [⟨[channelOf (vcLink 1 0 0)], 0⟩,
        ⟨[channelOf (vcLink 2 0 0)], 1⟩]) 2]) = some (ctl1, outs) ∧
    ctl1.vgroups = [] ∧ (grpsmStat ctl1).map GroupStat.grouped = [false, false] ∧
    ¬ ∀ ctl fresh, RecordsReported fresh ctl [⟨[channelOf (vcLink 1 0 0)], 0⟩,
        ⟨[channelOf (vcLink 2 0 0)], 1⟩] := by
  refine ⟨_, _, rfl, rfl, rfl, fun h => ?_⟩
  exact absurd (recordsReported_iff.mp (h grpsmOpen fun _ => ⟨fun _ => 0, 0⟩)) (by decide)

end OiAmc.GrpsmRecord

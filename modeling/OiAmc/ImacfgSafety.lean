import OiAmc.ImacfgSlots

/-! When loading a configuration leaves no array, and what the checks do not see of TC links. -/

namespace OiAmc.Imacfg

open Cconfig Function Numerals

structure Validated (cfg : ImaCfg) : Prop where
  rx : ∀ s < cfg.grpNumAll.toNat, ∀ t < cfg.grpNumAll.toNat, s ≠ t → cfg.grpMode s = 2 →
    cfg.grpMode t = 2 → (rxOf (cfg.grpCfg s)).Disjoint (rxOf (cfg.grpCfg t))
  tc : ∀ s < cfg.grpNumAll.toNat, ∀ t < cfg.grpNumAll.toNat, s ≠ t → cfg.grpMode s = 1 →
    cfg.grpMode t = 1 → (cfg.grpCfg s).rxLinks 0 ≠ (cfg.grpCfg t).rxLinks 0
  rxTc : ∀ s < cfg.grpNumAll.toNat, ∀ t < cfg.grpNumAll.toNat, cfg.grpMode s = 2 →
    cfg.grpMode t = 1 → ((cfg.grpCfg t).rxLinks 0).toNat ∉ rxOf (cfg.grpCfg s)
  tx : ∀ s < cfg.grpNumAll.toNat, ∀ t < cfg.grpNumAll.toNat, s ≠ t → cfg.grpMode s = 2 →
    cfg.grpMode t = 2 → (txOf (cfg.grpCfg s)).Disjoint (txOf (cfg.grpCfg t))
  lid : ∀ s < cfg.grpNumAll.toNat, cfg.grpMode s = 2 → (lidOf (cfg.grpCfg s)).Nodup
  counts : ∀ s < cfg.grpNumAll.toNat, (cfg.grpCfg s).numRxLinks.toNat ≤ IMA_MAX_LINKS_OF_IMA_GRP ∧
    (cfg.grpCfg s).numTxLinks.toNat ≤ IMA_MAX_LINKS_OF_IMA_GRP

/-- No array is left, and a configuration that is loaded is a valid one. -/
def Sound (r : Except Stop ImaCfg) : Prop :=
  r ≠ .error .outside ∧ ∀ cfg, r = .ok cfg → Validated cfg

section

variable (h : CConfig)

/-- The number of slots, which has to fit in an unsigned char. -/
def slotsNum : Nat := (start h (grpCount h) + unknowns h (grpCount h)) % 256

/-- The link of a slot of TC mode, 0 where no TC link came to it. -/
def tcLink (s : Nat) : Int := (tcAt h (grpCount h) s).getD 0

/-- Sections up to the first that is refused are inside of the arrays, and where none is
refused, so are the links that the checks look up. -/
structure Safe : Prop where
  sections : ∀ i < grpCount h, (∀ k < i, ¬Refused h k) → Inside h i
  checks : (∀ i < grpCount h, ¬Refused h i) →
    ChecksInside (slotsNum h) (slotMode h (grpCount h)) (slotGrp h (grpCount h))

/-- No receive link of the slots comes twice, no transmit link of the groups, and no link id
in a group. -/
structure Passes : Prop where
  rx : (rxItems (slotsNum h) (slotGrp h (grpCount h))).Nodup
  tx : (txItems (slotsNum h) (slotMode h (grpCount h)) (slotGrp h (grpCount h))).Nodup
  lids : ∀ s < slotsNum h, (lidItems (slotMode h (grpCount h)) (slotGrp h (grpCount h)) s).Nodup

/-- The TC links differ from each other and from the links of the groups, and none is put over
a group with too many transmit links. -/
structure TcApart : Prop where
  tc : ∀ s < slotsNum h, ∀ t < slotsNum h, s ≠ t → slotMode h (grpCount h) s = 1 →
    slotMode h (grpCount h) t = 1 → tcLink h s ≠ tcLink h t
  rx : ∀ s < slotsNum h, ∀ t < slotsNum h, slotMode h (grpCount h) s = 2 →
    slotMode h (grpCount h) t = 1 → (tcLink h t).toNat ∉ rxOf (slotGrp h (grpCount h) s)
  counts : ∀ s < slotsNum h, slotMode h (grpCount h) s ≠ 2 →
    (slotGrp h (grpCount h) s).numTxLinks.toNat ≤ IMA_MAX_LINKS_OF_IMA_GRP

end

section

variable {h : CConfig} {n s t : Nat} {grpMode : Nat → UInt8} {grpCfg : Nat → CfgImaGrp}

theorem Markable.disjoint {room : Nat} {f : Nat → List Nat}
    (hm : Markable room ((List.range n).flatMap f)) (hs : s < n) (ht : t < n) (hst : s ≠ t) :
    (f s).Disjoint (f t) := by
  have hp := List.pairwise_iff_getElem.mp (List.nodup_flatMap.mp hm.2).2
  have hlen : (List.range n).length = n := List.length_range
  rcases Nat.lt_or_gt_of_ne hst with hlt | hgt
  · have hd := hp s t (by omega) (by omega) hlt
    rwa [List.getElem_range, List.getElem_range] at hd
  · have hd := hp t s (by omega) (by omega) hgt
    rw [List.getElem_range, List.getElem_range] at hd
    exact hd.symm

theorem capped_of_length_le {room : Nat} {xs : List Nat}
    (hle : xs.length ≤ IMA_MAX_LINKS_OF_IMA_GRP) : capped room xs = xs := if_pos hle

theorem rxOf_length (g : CfgImaGrp) : (rxOf g).length = g.numRxLinks.toNat := by simp [rxOf]

theorem txOf_length (g : CfgImaGrp) : (txOf g).length = g.numTxLinks.toNat := by simp [txOf]

theorem Checked.rx_disjoint (hc : Checked n grpMode grpCfg) (hs : s < n) (ht : t < n)
    (hst : s ≠ t) : (Imacfg.rxOf (grpCfg s)).Disjoint (Imacfg.rxOf (grpCfg t)) := by
  have hd := hc.rx.disjoint hs ht hst
  rwa [capped_of_length_le (by rw [rxOf_length]; exact (hc.rxOf hs).1),
    capped_of_length_le (by rw [rxOf_length]; exact (hc.rxOf ht).1)] at hd

theorem Checked.tx_disjoint (hc : Checked n grpMode grpCfg) (hs : s < n) (ht : t < n)
    (hst : s ≠ t) (hs2 : grpMode s = 2) (ht2 : grpMode t = 2) :
    (Imacfg.txOf (grpCfg s)).Disjoint (Imacfg.txOf (grpCfg t)) := by
  have hd := hc.tx.disjoint hs ht hst
  rwa [if_pos hs2, if_pos ht2,
    capped_of_length_le (by rw [txOf_length]; exact (hc.txOf hs hs2).1),
    capped_of_length_le (by rw [txOf_length]; exact (hc.txOf ht ht2).1)] at hd

theorem Checked.lid_nodup (hc : Checked n grpMode grpCfg) (hs : s < n) (hs2 : grpMode s = 2) :
    (lidOf (grpCfg s)).Nodup := by
  have hl := hc.lids s hs
  rw [lidItems, if_pos hs2] at hl
  exact (markable_capped.mp hl).2.2

theorem grpNumAll_slots (h : CConfig) :
    (fillTo h (grpCount h)).grpNumAll.toNat = slotsNum h := by
  rw [grpNumAll_fillTo, show (grpCount h : Int) + start h (grpCount h) - grpCount h +
    unknowns h (grpCount h) = ((start h (grpCount h) + unknowns h (grpCount h) : Nat) : Int) by omega,
    ofInt_natCast, UInt8.toNat_ofNat', slotsNum]

theorem slotGrp_tcLink (h1 : slotMode h (grpCount h) s = 1) :
    (slotGrp h (grpCount h) s).rxLinks 0 = .ofInt (tcLink h s) := by
  have hmode : ¬(s < grpCount h ∧ mode h s = 2 ∧ ¬Late h (grpCount h) s) := by
    intro hc
    rw [slotMode_two.mpr hc] at h1
    exact absurd h1 (by decide)
  rw [slotGrp, if_neg hmode, tcLink]
  cases hat : tcAt h (grpCount h) s with
  | none =>
      have hown : ¬(s < grpCount h ∧ mode h s = 2) := fun hc => hmode
        ⟨hc.1, hc.2, fun hl => by
          have hsome := hl.1
          rw [hat] at hsome
          cases hsome⟩
      rw [if_neg hown]
      rfl
  | some phy => simp [tcOf]

theorem tcLink_linked (hacc : Accepted h (grpCount h)) (s : Nat) : Linked (tcLink h s) := by
  rw [tcLink]
  cases hat : tcAt h (grpCount h) s with
  | none => exact ⟨le_rfl, by decide⟩
  | some phy =>
      rw [tcAt, Option.bind_eq_some_iff] at hat
      obtain ⟨e, he, hphy⟩ := hat
      cases e with
      | ima i => cases hphy
      | tc phy' =>
          obtain rfl : phy' = phy := Option.some.inj hphy
          obtain ⟨hpos, hlt⟩ := tc_entry hacc (List.mem_of_getElem? he)
          exact ⟨hpos.le, hlt⟩

theorem validated_iff (hacc : Accepted h (grpCount h))
    (hc : Checked (slotsNum h) (slotMode h (grpCount h)) (slotGrp h (grpCount h))) :
    Validated (fillTo h (grpCount h)) ↔ TcApart h := by
  obtain ⟨hmode, hgrp⟩ := fillTo_slots hacc
  have hnum := grpNumAll_slots h
  have hlink : ∀ s, slotMode h (grpCount h) s = 1 →
      ((slotGrp h (grpCount h) s).rxLinks 0).toNat = (tcLink h s).toNat := by
    intro s h1
    obtain ⟨h0, hlt⟩ := tcLink_linked hacc s
    rw [slotGrp_tcLink h1]
    exact toNat_ofInt h0 (hlt.trans (by decide))
  have hlinks : ∀ s t, slotMode h (grpCount h) s = 1 → slotMode h (grpCount h) t = 1 →
      ((slotGrp h (grpCount h) s).rxLinks 0 = (slotGrp h (grpCount h) t).rxLinks 0 ↔
        tcLink h s = tcLink h t) := by
    intro s t hs ht
    have h0 := (tcLink_linked hacc s).1
    have h0' := (tcLink_linked hacc t).1
    rw [← UInt16.toNat_inj, hlink s hs, hlink t ht]
    omega
  constructor
  · rintro ⟨hrx, htc, hrxTc, htx, hlid, hcounts⟩
    rw [hmode, hgrp, hnum] at *
    refine ⟨fun s hs t ht hst hs1 ht1 heq => ?_, fun s hs t ht hs2 ht1 hmem => ?_,
      fun s hs _ => (hcounts s hs).2⟩
    · exact htc s hs t ht hst hs1 ht1 ((hlinks s t hs1 ht1).mpr heq)
    · exact hrxTc s hs t ht hs2 ht1 (by rwa [hlink t ht1])
  · rintro ⟨htc, hrx, hcounts⟩
    constructor
    all_goals simp only [hmode, hgrp, hnum]
    · exact fun s hs t ht hst _ _ => hc.rx_disjoint hs ht hst
    · exact fun s hs t ht hst hs1 ht1 heq =>
        htc s hs t ht hst hs1 ht1 ((hlinks s t hs1 ht1).mp heq)
    · exact fun s hs t ht hs2 ht1 hmem => hrx s hs t ht hs2 ht1 (by rwa [hlink t ht1] at hmem)
    · exact fun s hs t ht hst hs2 ht2 => hc.tx_disjoint hs ht hst hs2 ht2
    · exact fun s hs hs2 => hc.lid_nodup hs hs2
    · intro s hs
      refine ⟨(hc.rxOf hs).1, ?_⟩
      by_cases hs2 : slotMode h (grpCount h) s = 2
      · exact (hc.txOf hs hs2).1
      · exact hcounts s hs hs2

theorem checked_of_passes
    (hin : ChecksInside (slotsNum h) (slotMode h (grpCount h)) (slotGrp h (grpCount h)))
    (hp : Passes h) :
    Checked (slotsNum h) (slotMode h (grpCount h)) (slotGrp h (grpCount h)) := by
  refine ⟨markable_of_not_trips hin.rx hp.rx, markable_of_not_trips (hin.tx hp.rx) hp.tx, ?_⟩
  exact fun s hs => markable_of_not_trips
    (hin.lids hp.rx hp.tx s hs fun t ht => hp.lids t (by omega)) (hp.lids s hs)

theorem Checked.passes
    (hc : Checked (slotsNum h) (slotMode h (grpCount h)) (slotGrp h (grpCount h))) : Passes h :=
  ⟨hc.rx.2, hc.tx.2, fun s hs => (hc.lids s hs).2⟩

theorem checks_fillTo (hacc : Accepted h (grpCount h)) :
    (checks (fillTo h (grpCount h)) = .ok () ↔
      Checked (slotsNum h) (slotMode h (grpCount h)) (slotGrp h (grpCount h))) ∧
    (checks (fillTo h (grpCount h)) ≠ .error .outside ↔
      ChecksInside (slotsNum h) (slotMode h (grpCount h)) (slotGrp h (grpCount h))) := by
  obtain ⟨hmode, hgrp⟩ := fillTo_slots hacc
  rw [checks_ok, checks_outside, hmode, hgrp, grpNumAll_slots]
  exact ⟨Iff.rfl, Iff.rfl⟩

theorem inside_iff_safe {text : Text} (hload : cfgInitialize text = some h) :
    imacfgLoad h ≠ .error .outside ↔ Safe h := by
  obtain hacc | ⟨i, hi, hacc, hbad⟩ := accepted_or h (grpCount h)
  · have hrefused : ∀ i < grpCount h, ¬Refused h i := fun i hi => (hacc i hi).2
    have hloaded : imacfgLoad h ≠ .error .outside ↔
        checks (fillTo h (grpCount h)) ≠ .error .outside := by
      rw [imacfgLoad_accepted hload hacc]
      cases checks (fillTo h (grpCount h)) <;> simp [bind, Except.bind]
    rw [hloaded, (checks_fillTo hacc).2]
    exact ⟨fun hin => ⟨fun i hi _ => (hacc i hi).1, fun _ => hin⟩, fun hs => hs.checks hrefused⟩
  · obtain ⟨hout, hfail, -⟩ := loadSection_accepted (i := i) hload (fillTo h i)
    rcases hbad with hbad | ⟨hin, hr⟩
    · rw [imacfgLoad_error hload hacc hi (hout hbad)]
      refine ⟨fun h => absurd rfl h, fun hs => ?_⟩
      exact absurd (hs.sections i hi fun k hk => (hacc k hk).2) hbad
    · rw [imacfgLoad_error hload hacc hi (hfail hin hr)]
      refine ⟨fun _ => ⟨fun k hk hpre => ?_, fun hall => absurd hr (hall i hi)⟩, fun _ => by simp⟩
      rcases Nat.lt_trichotomy k i with hlt | rfl | hgt
      · exact (hacc k hlt).1
      · exact hin
      · exact absurd hr (hpre i hgt)

theorem imacfgLoad_sound_iff {text : Text} (hload : cfgInitialize text = some h) :
    Sound (imacfgLoad h) ↔
      Safe h ∧ ((∀ i < grpCount h, ¬Refused h i) → Passes h → TcApart h) := by
  rw [Sound, inside_iff_safe hload]
  refine and_congr_right fun hsafe => ?_
  constructor
  · intro hvalid hrefused hp
    have hacc : Accepted h (grpCount h) := fun i hi =>
      ⟨hsafe.sections i hi fun k hk => hrefused k (by omega), hrefused i hi⟩
    have hc := checked_of_passes (hsafe.checks hrefused) hp
    refine (validated_iff hacc hc).mp (hvalid _ ?_)
    rw [imacfgLoad_accepted hload hacc, (checks_fillTo hacc).1.mpr hc]
    rfl
  · intro hapart cfg hok
    obtain ⟨hacc, rfl, hchecks⟩ := imacfgLoad_ok hload hok
    have hc := (checks_fillTo hacc).1.mp hchecks
    exact (validated_iff hacc hc).mpr (hapart (fun i hi => (hacc i hi).2) hc.passes)

end

theorem not_trips_nil (room : Nat) : ¬Trips room [] := by
  rintro ⟨pre, x, post, hnil, -⟩
  simp at hnil

def tcPair : Text := "[IMA Group]\nmode = TC\nPhyLinkID = 1,2\n".toList

set_option maxRecDepth 4000 in
theorem tcPair_sound : ∃ h, cfgInitialize tcPair = some h ∧ Sound (imacfgLoad h) := by
  have hsome : (cfgInitialize tcPair).isSome := by decide
  obtain ⟨h, hh⟩ := Option.isSome_iff_exists.mp hsome
  have hsection : ∀ h ∈ cfgInitialize tcPair, grpCount h = 1 ∧ mode h 0 = 1 ∧
      (∀ v ∈ value h 0 "mode", v.length < 128) ∧ (∀ v ∈ value h 0 "PhyLinkID", v.length < 512) ∧
      (∀ phy ∈ tcNumbers h 0, 0 ≤ phy ∧ phy < MAX_LNK_NUM) ∧
      (tcNumbers h 0).length ≤ slotRoom - start h 0 := by decide
  have hslots : ∀ h ∈ cfgInitialize tcPair,
      rxItems (slotsNum h) (slotGrp h (grpCount h)) = [] ∧
      (∀ s < slotsNum h, slotMode h (grpCount h) s ≠ 2) ∧
      (∀ s < slotsNum h, ∀ t < slotsNum h, s ≠ t → tcLink h s ≠ tcLink h t) ∧
      ∀ s < slotsNum h, (slotGrp h (grpCount h) s).numTxLinks.toNat ≤
        IMA_MAX_LINKS_OF_IMA_GRP := by decide
  obtain ⟨hcount, h1, hmode, hlist, hlinked, hroom⟩ := hsection h hh
  obtain ⟨hrx, hmodes, hapart, hcounts⟩ := hslots h hh
  have htx : txItems (slotsNum h) (slotMode h (grpCount h)) (slotGrp h (grpCount h)) = [] :=
    List.flatMap_eq_nil_iff.mpr fun s hs => if_neg (hmodes s (List.mem_range.mp hs))
  refine ⟨h, hh, (imacfgLoad_sound_iff hh).mpr ⟨⟨fun i hi _ => ?_, fun _ => ⟨?_, fun _ => ?_, ?_⟩⟩, ?_⟩⟩
  · obtain rfl : i = 0 := by omega
    exact ⟨by decide, hmode, fun h2 => by omega, fun _ => ⟨hlist, hlinked, hroom⟩⟩
  · rw [hrx]
    exact not_trips_nil _
  · rw [htx]
    exact not_trips_nil _
  · intro _ _ s hs _
    rw [lidItems, if_neg (hmodes s hs)]
    exact not_trips_nil _
  · exact fun _ _ => ⟨fun s hs t ht hst _ _ => hapart s hs t ht hst,
      fun s hs t ht hs2 => absurd hs2 (hmodes s hs), fun s hs _ => hcounts s hs⟩

def tcTwice : Text := "[IMA Group]\nmode = TC\nPhyLinkID = 1,1\n".toList

set_option maxRecDepth 4000 in
/-- A TC link that is listed twice is loaded twice. -/
theorem tcTwice_not_sound : ¬∀ text h, cfgInitialize text = some h → Sound (imacfgLoad h) := by
  intro hall
  obtain ⟨h, hh, hload⟩ : ∃ h, cfgInitialize tcTwice = some h ∧
      (imacfgLoad h).toOption.map (fun cfg => (cfg.grpNumAll, cfg.grpMode 0, cfg.grpMode 1,
        (cfg.grpCfg 0).rxLinks 0, (cfg.grpCfg 1).rxLinks 0)) = some (2, 1, 1, 1, 1) := by
    have hrun : (cfgInitialize tcTwice).bind (fun h => (imacfgLoad h).toOption.map
        (fun cfg => (cfg.grpNumAll, cfg.grpMode 0, cfg.grpMode 1, (cfg.grpCfg 0).rxLinks 0,
          (cfg.grpCfg 1).rxLinks 0))) = some (2, 1, 1, 1, 1) := by decide
    exact Option.bind_eq_some_iff.mp hrun
  cases hcfg : imacfgLoad h with
  | error e =>
      rw [hcfg] at hload
      cases hload
  | ok cfg =>
      rw [hcfg] at hload
      have hvalid := (hall tcTwice h hh).2 cfg hcfg
      simp only [Except.toOption, Option.map_some, Option.some.injEq, Prod.mk.injEq] at hload
      obtain ⟨hnum, hm0, hm1, hr0, hr1⟩ := hload
      refine hvalid.tc 0 ?_ 1 ?_ (by decide) hm0 hm1 (hr0.trans hr1.symm)
      all_goals rw [hnum]; decide

def linkOutside : Text :=
  ("[IMA Group]\nmode = IMA\nRx Links Num = 1\nTx Links Num = 1\nRxLink = 300\n" ++
    "TxLink = 0[1]-3\n").toList

set_option maxRecDepth 4000 in
example : (cfgInitialize linkOutside).bind (fun h => match imacfgLoad h with
    | .error e => some e
    | .ok _ => none) = some .outside := by
  decide

end OiAmc.Imacfg

import OiAmc.RamInfo
import OiAmc.SetInfoRam
import OiAmc.ByteBuffer

namespace OiAmc.RamContents

open Function PartialLists SgfpGroup SetInfo SetInfoEntries SetInfoRam RamInfo WriteList

variable {σ : Type} {fpga : Fpga σ} {s : σ} {v op portGroup : UInt8} {regs : Regs} {g : SgroupInfo}
  {gs : List SgroupInfo} {groupMaxnum linkMaxnum : Int} {next next' : UInt32} {ws : List Write}

theorem regs_writes (s : σ) (ws : List Write) :
    fpga.regs (fpga.writes s ws) = SetInfo.writes (fpga.regs s) ws := by
  induction ws generalizing s with
  | nil => rfl
  | cons w ws ih =>
      refine (ih (fpga.write s w.1 w.2)).trans ?_
      rw [fpga.regs_write]
      rfl

theorem ram1_writes (s : σ) (ws : List Write) : fpga.ram1 (fpga.writes s ws) =
    store (fpga.ram1 s) ((strobes 0x02 (fpga.regs s) ws).map fun e => (place e, entryData e)) := by
  induction ws generalizing s with
  | nil => rfl
  | cons w ws ih =>
      have hregs : fpga.regs (fpga.write s w.1 w.2) = write (fpga.regs s) w := fpga.regs_write _ _ _
      refine (ih (fpga.write s w.1 w.2)).trans ?_
      rw [strobes, List.map_append, store_append, hregs]
      congr 1
      refine (fpga.ram1_write s w.1 w.2).trans ?_
      by_cases hw : w = (.cfgMix, 0x02)
      · rw [if_pos hw, if_pos hw]
        rfl
      · rw [if_neg hw, if_neg hw]
        rfl

theorem ram2_writes (s : σ) (ws : List Write) : fpga.ram2 (fpga.writes s ws) =
    store (fpga.ram2 s) ((strobes 0x06 (fpga.regs s) ws).map fun l => (place l, l .ramData0)) := by
  induction ws generalizing s with
  | nil => rfl
  | cons w ws ih =>
      have hregs : fpga.regs (fpga.write s w.1 w.2) = write (fpga.regs s) w := fpga.regs_write _ _ _
      refine (ih (fpga.write s w.1 w.2)).trans ?_
      rw [strobes, List.map_append, store_append, hregs]
      congr 1
      refine (fpga.ram2_write s w.1 w.2).trans ?_
      by_cases hw : w = (.cfgMix, 0x06)
      · rw [if_pos hw, if_pos hw]
        rfl
      · rw [if_neg hw, if_neg hw]
        rfl

theorem writes_keep {r : Reg} (h : ∀ w ∈ ws, w.1 ≠ r) : SetInfo.writes regs ws r = regs r := by
  induction ws generalizing regs with
  | nil => rfl
  | cons w ws ih =>
      refine (ih fun w hw => h w (List.mem_cons_of_mem _ hw)).trans ?_
      exact update_of_ne (h w List.mem_cons_self).symm _ _

theorem strobes_keep {r : Reg} (h : ∀ w ∈ ws, w.1 ≠ r) : ∀ e ∈ strobes v regs ws, e r = regs r := by
  induction ws generalizing regs with
  | nil => exact List.forall_mem_nil _
  | cons w ws ih =>
      have hw : write regs w r = regs r := update_of_ne (h w List.mem_cons_self).symm _ _
      intro e he
      rcases List.mem_append.mp he with he | he
      · split at he
        · obtain rfl := List.mem_singleton.mp he
          exact hw
        · cases he
      · exact (ih (fun w hw => h w (List.mem_cons_of_mem _ hw)) e he).trans hw

/-- The registers that are set once at the start of a call. -/
def Head (r : Reg) : Prop := r = .ramGroup ∨ r = .cfgOp

theorem setGroup_keeps {r : Reg} (hr : Head r)
    (h : setGroup false linkMaxnum g next = some (ws, next')) : ∀ w ∈ ws, w.1 ≠ r := by
  have hid : ∀ w ∈ idWrites false g.groupId ++ [(.cfgMix, 0x00)], w.1 ≠ r := by
    rcases hr with rfl | rfl <;> simp [idWrites, addrWrites]
  have hlink (addr : UInt32) (link : SlinkInfo) : ∀ w ∈ linkWrites false addr link, w.1 ≠ r := by
    rcases hr with rfl | rfl <;> simp [linkWrites, addrWrites]
  by_cases hsize : g.linkarraysSize < 1 ∨ g.linkarraysSize > linkMaxnum
  · rw [setGroup, if_pos hsize] at h
    obtain ⟨rfl, _⟩ := Prod.mk.inj (Option.some.inj h)
    exact hid
  · obtain ⟨_, first, wss, _, hwss, rfl⟩ := setGroup_eq_some (by omega) (by omega) h
    have hram (first : SlinkInfo) (next : UInt32) : ∀ w ∈
        ram1Writes first g.isValid g.linkarraysSize next ++
          [(.cfgMix, 0x00), (.cfgMix, 0x02), (.cfgMix, 0x04)], w.1 ≠ r := by
      rcases hr with rfl | rfl <;> simp [ram1Writes]
    intro w hw
    rw [if_neg Bool.false_ne_true] at hw
    rcases List.mem_append.mp hw with hw | hw
    · rw [List.append_assoc] at hw
      rcases List.mem_append.mp hw with hw | hw
      · exact hid w hw
      · exact hram first next w hw
    · obtain ⟨ws, hws, hw⟩ := List.mem_flatten.mp hw
      obtain ⟨j, _, link, _, rfl⟩ := forall₂_mem_right hwss hws
      exact hlink _ _ w hw

theorem setGroups_keeps {r : Reg} (hr : Head r)
    (h : setGroups false groupMaxnum linkMaxnum gs next = some ws) : ∀ w ∈ ws, w.1 ≠ r := by
  induction gs generalizing next ws with
  | nil =>
      cases h
      exact List.forall_mem_nil _
  | cons g gs ih =>
      rw [setGroups] at h
      split at h
      · exact ih h
      · obtain ⟨⟨ws1, next1⟩, h1, h⟩ := Option.bind_eq_some_iff.mp h
        obtain ⟨rest, h2, h⟩ := Option.bind_eq_some_iff.mp h
        obtain rfl := Option.some.inj h
        intro w hw
        rcases List.mem_append.mp hw with hw | hw
        · exact setGroup_keeps hr h1 w hw
        · exact ih h2 w hw

theorem entries_ids {es ls : List Regs} (h : Entries false gs next es ls) :
    es.map (fun e => e .ramAddr) = gs.map fun g => lowOctet g.groupId := by
  induction h with
  | nil => rfl
  | cons hentry _ _ ih => rw [List.map_cons, List.map_cons, hentry.id, ih]

theorem entries_linkAddrs {es ls : List Regs} (h : Entries false gs next es ls)
    (hfit : next.toNat + totalLinks gs ≤ 256) :
    ls.map (fun l => (l .ramAddr).toNat) = List.range' next.toNat (totalLinks gs) := by
  induction h with
  | nil => rfl
  | @cons g gs next e ls es ls' _ hlinks hrest ih =>
      rw [totalLinks_cons] at hfit
      have hof (n : Nat) (hn : n ≤ g.linkarraysSize.toNat) :
          (next + .ofNat n).toNat = next.toNat + n := by
        rw [UInt32.toNat_add, UInt32.toNat_ofNat']
        omega
      rw [hof _ (Nat.le_refl _)] at ih
      have hmap : ls.map (fun l => (l .ramAddr).toNat) =
          (List.range g.linkarraysSize.toNat).map fun j => (next + .ofNat j).toNat % 256 :=
        map_eq_of_forall₂ (hlinks.imp fun j l hl => hl.addr)
      rw [List.map_append, hmap, ih (by omega), totalLinks_cons, ← List.range'_append_1]
      congr 1
      rw [List.range'_eq_map_range]
      refine List.map_congr_left fun j hj => ?_
      have hj := List.mem_range.mp hj
      rw [hof j (by omega), Nat.mod_eq_of_lt (by omega)]

theorem entries_mem {es ls : List Regs} (h : Entries false gs next es ls)
    (hfit : next.toNat + totalLinks gs ≤ 256) (hg : g ∈ gs) : ∃ start : UInt32,
      start.toNat + g.linkarraysSize.toNat ≤ next.toNat + totalLinks gs ∧
      (∃ e ∈ es, EntryFor false g start e) ∧
      ∀ j < g.linkarraysSize.toNat, ∃ l ∈ ls, LinkFor false g start j l := by
  induction h with
  | nil => cases hg
  | @cons g' gs next e ls es ls' hentry hlinks hrest ih =>
      rw [totalLinks_cons] at hfit ⊢
      rcases List.mem_cons.mp hg with rfl | hg
      · refine ⟨next, by omega, ⟨e, List.mem_cons_self, hentry⟩, fun j hj => ?_⟩
        obtain ⟨l, hl, hfor⟩ := forall₂_mem_left hlinks (List.mem_range.mpr hj)
        exact ⟨l, List.mem_append_left _ hl, hfor⟩
      · have hnext : (next + .ofNat g'.linkarraysSize.toNat).toNat =
            next.toNat + g'.linkarraysSize.toNat := by
          rw [UInt32.toNat_add, UInt32.toNat_ofNat']
          omega
        rw [hnext] at ih
        obtain ⟨start, hstart, ⟨e', he, hfor⟩, hlinks'⟩ := ih (by omega) hg
        refine ⟨start, by omega, ⟨e', List.mem_cons_of_mem _ he, hfor⟩, fun j hj => ?_⟩
        obtain ⟨l, hl, hfor⟩ := hlinks' j hj
        exact ⟨l, List.mem_append_right _ hl, hfor⟩

structure Stored (ram1 : Place → UInt32) (ram2 : Place → UInt8) (portGroup : UInt8)
    (bank : Option Bank) (gs : List SgroupInfo) : Prop where
  entry : ∀ g ∈ gs, ∃ start : UInt32, start.toNat + g.linkarraysSize.toNat ≤ 256 ∧
    (∃ first, g.link 0 = some first ∧ ram1 (portGroup, bank, lowOctet g.groupId) =
      ram1Data first g.isValid g.linkarraysSize start) ∧
    ∀ j < g.linkarraysSize.toNat, ∃ link, g.link j = some link ∧
      ram2 (portGroup, bank, .ofNat (start.toNat + j)) = linkOctet link
  rest : ∀ a, (∀ g ∈ gs, lowOctet g.groupId ≠ a) → ram1 (portGroup, bank, a) = 0

theorem stored_of_entries {es ls : List Regs} {bank : Option Bank} {m1 : Place → UInt32}
    {m2 : Place → UInt8} (h : Entries false gs 0 es ls)
    (hids : (gs.map fun g => lowOctet g.groupId).Nodup) (hfit : totalLinks gs ≤ 256)
    (hes : ∀ e ∈ es, place e = (portGroup, bank, e .ramAddr))
    (hls : ∀ l ∈ ls, place l = (portGroup, bank, l .ramAddr)) (hzero : ∀ p, m1 p = 0) :
    Stored (store m1 (es.map fun e => (place e, entryData e)))
      (store m2 (ls.map fun l => (place l, l .ramData0))) portGroup bank gs := by
  have hkeys1 : (es.map fun e => (place e, entryData e)).map Prod.fst =
      (gs.map fun g => lowOctet g.groupId).map fun a => (portGroup, bank, a) := by
    rw [← entries_ids h, List.map_map, List.map_map]
    exact List.map_congr_left hes
  have hkeys2 : (ls.map fun l => (place l, l .ramData0)).map Prod.fst =
      (ls.map fun l => l .ramAddr).map fun a => (portGroup, bank, a) := by
    rw [List.map_map, List.map_map]
    exact List.map_congr_left hls
  have hplace : Injective fun a : UInt8 => (portGroup, bank, a) := fun a b hab =>
    (Prod.mk.inj (Prod.mk.inj hab).2).2
  have hfit' : (0 : UInt32).toNat + totalLinks gs ≤ 256 := by
    rw [UInt32.toNat_zero]
    omega
  have haddrs : (ls.map fun l => l .ramAddr).Nodup := by
    refine List.Nodup.of_map UInt8.toNat ?_
    rw [List.map_map]
    change (ls.map fun l => (l .ramAddr).toNat).Nodup
    rw [entries_linkAddrs h hfit']
    exact List.nodup_range'
  refine ⟨fun g hg => ?_, fun a ha => ?_⟩
  · obtain ⟨start, hstart, ⟨e, he, hentry⟩, hlinks⟩ := entries_mem h hfit' hg
    rw [UInt32.toNat_zero] at hstart
    refine ⟨start, by omega, ?_, fun j hj => ?_⟩
    · obtain ⟨first, hfirst, hdata⟩ := hentry.data rfl
      refine ⟨first, hfirst, ?_⟩
      rw [← hdata]
      refine store_of_mem m1 (hkeys1 ▸ hids.map hplace) (List.mem_map.mpr ⟨e, he, ?_⟩)
      rw [hes e he, hentry.id]
    · obtain ⟨l, hl, haddr, link, hlink, hdata⟩ := hlinks j hj
      simp only [linkRamAddr, linkAddrs, Bool.false_eq_true, if_false] at haddr
      refine ⟨link, hlink, ?_⟩
      rw [← hdata]
      refine store_of_mem m2 (hkeys2 ▸ haddrs.map hplace) (List.mem_map.mpr ⟨l, hl, ?_⟩)
      rw [hls l hl]
      congr 3
      apply UInt8.toNat_inj.mp
      rw [haddr, UInt32.toNat_add, UInt32.toNat_ofNat', UInt8.toNat_ofNat']
      omega
  · refine (store_of_not_mem m1 ?_).trans (hzero _)
    rw [hkeys1]
    intro hmem
    obtain ⟨a', ha', he⟩ := List.mem_map.mp hmem
    obtain ⟨g, hg, rfl⟩ := List.mem_map.mp ha'
    exact ha g hg (hplace he)

/-- A call on empty RAM leaves the groups that it writes in one bank, and the registers on its
port group. -/
theorem stored_of_call {sg : List SgroupInfo} {portGroup setType : Int}
    (h : setInfoRule false sg portGroup setType = some (0, ws)) (hzero : ∀ p, fpga.ram1 s p = 0)
    (hids : ((programmed (groupMax false setType) (linkMax false setType) sg).map fun g =>
      lowOctet g.groupId).Nodup)
    (hfit : totalLinks (programmed (groupMax false setType) (linkMax false setType) sg) ≤ 256) :
    ∃ first op, (sg.head? >>= fun g => g.link 0) = some first ∧
      setOp false setType first.channelRate =
        some (op, groupMax false setType, linkMax false setType) ∧
      fpga.regs (fpga.writes s ws) .ramGroup = lowOctet portGroup ∧
      Stored (fpga.ram1 (fpga.writes s ws)) (fpga.ram2 (fpga.writes s ws)) (lowOctet portGroup)
        (bankOf op) (programmed (groupMax false setType) (linkMax false setType) sg) ∧
      ∀ group bank a, bank ≠ bankOf op → fpga.ram1 (fpga.writes s ws) (group, bank, a) = 0 := by
  have hentries := setInfoRule_entries (fpga.regs s) h
  obtain ⟨first, op, ws', hfirst, hop, hws, rfl⟩ := setInfoRule_ok h
  have hkeep {r : Reg} (hr : Head r) := setGroups_keeps hr hws
  have hplace (v : UInt8) (h0 : v ≠ 0x00) (h1 : v ≠ 0x01) : ∀ e ∈ strobes v (fpga.regs s)
      ((if false then [] else [(.ramGroup, lowOctet portGroup)]) ++ [(.cfgOp, op)] ++ ws' ++
        [(.cfgMix, 0x00), (.cfgMix, 0x01)]), place e = (lowOctet portGroup, bankOf op, e .ramAddr) := by
    intro e he
    rw [strobes_call h0 h1] at he
    rw [place, strobes_keep (hkeep (.inl rfl)) e he, strobes_keep (hkeep (.inr rfl)) e he]
    rfl
  refine ⟨first, op, hfirst, hop, ?_, ?_, fun group bank a hne => ?_⟩
  · rw [regs_writes, SetInfo.writes_append, writes_keep (by simp), SetInfo.writes_append,
      writes_keep (hkeep (.inl rfl))]
    rfl
  · rw [ram1_writes, ram2_writes]
    exact stored_of_entries hentries hids hfit (hplace 0x02 (by decide) (by decide))
      (hplace 0x06 (by decide) (by decide)) hzero
  · rw [ram1_writes, store_of_not_mem _ ?_, hzero]
    intro hmem
    rw [List.map_map] at hmem
    obtain ⟨e, he, hkey⟩ := List.mem_map.mp hmem
    have hkey : place e = (group, bank, a) := hkey
    rw [hplace 0x02 (by decide) (by decide) e he] at hkey
    exact hne (Prod.mk.inj (Prod.mk.inj hkey).2).1.symm

end OiAmc.RamContents

import OiAmc.PartialLists
import OiAmc.SetInfo
import Mathlib.Tactic.IntervalCases

namespace OiAmc.SetInfoEntries

open Function PartialLists SgfpGroup SetInfo

/-- The start of the links that an entry of the group RAM records, and their number. -/
def entryAddr (x86 : Bool) (regs : Regs) : Nat :=
  if x86 then (regs .ramData2).toNat * 16 + (regs .ramData1).toNat / 16 else (regs .ramData1).toNat

def entryCount (x86 : Bool) (regs : Regs) : Nat :=
  if x86 then (regs .ramData3).toNat else (regs .ramData2).toNat

/-- How many link entries the recorded address can tell apart. -/
def linkRamSize (x86 : Bool) : Nat := if x86 then 4096 else 256

/-- The entry of the link RAM that the registers name. -/
def linkRamAddr (x86 : Bool) (regs : Regs) : Nat :=
  if x86 then (regs .ramAddr1).toNat * 256 + (regs .ramAddr).toNat else (regs .ramAddr).toNat

def linkAddrs (x86 : Bool) : Nat := if x86 then 65536 else 256

def Programmed (groupMaxnum linkMaxnum : Int) (g : SgroupInfo) : Prop :=
  g.groupId < groupMaxnum ∧ 1 ≤ g.linkarraysSize ∧ g.linkarraysSize ≤ linkMaxnum

instance (groupMaxnum linkMaxnum : Int) (g : SgroupInfo) :
    Decidable (Programmed groupMaxnum linkMaxnum g) := inferInstanceAs (Decidable (_ ∧ _))

def programmed (groupMaxnum linkMaxnum : Int) (sg : List SgroupInfo) : List SgroupInfo :=
  sg.filter fun g => Programmed groupMaxnum linkMaxnum g

/-- An entry of the group RAM, as it is read back. -/
def entryData (regs : Regs) : UInt32 :=
  ((regs .ramData3).toUInt32 <<< 24) ||| ((regs .ramData2).toUInt32 <<< 16) |||
    ((regs .ramData1).toUInt32 <<< 8) ||| ((regs .ramData0).toUInt32 <<< 0)

structure EntryFor (x86 : Bool) (g : SgroupInfo) (next : UInt32) (e : Regs) : Prop where
  id : e .ramAddr = lowOctet g.groupId
  idHigh : x86 = true → e .ramAddr1 = if g.groupId > 255 then highOctet g.groupId else 0
  addr : entryAddr x86 e = next.toNat % linkRamSize x86
  count : entryCount x86 e = g.linkarraysSize.toNat % 256
  data : x86 = false → ∃ first, g.link 0 = some first ∧
    entryData e = ram1Data first g.isValid g.linkarraysSize next

def linkOctet (link : SlinkInfo) : UInt8 :=
  ((link.fiber &&& 0x03) <<< 6) ||| ((link.channel &&& 0x3f) <<< 0)

structure LinkFor (x86 : Bool) (g : SgroupInfo) (next : UInt32) (j : Nat) (l : Regs) : Prop where
  addr : linkRamAddr x86 l = (next + .ofNat j).toNat % linkAddrs x86
  data : ∃ link, g.link j = some link ∧ l .ramData0 = linkOctet link

inductive Entries (x86 : Bool) : List SgroupInfo → UInt32 → List Regs → List Regs → Prop
  | nil (next : UInt32) : Entries x86 [] next [] []
  | cons {g : SgroupInfo} {gs : List SgroupInfo} {next : UInt32} {e : Regs} {ls es ls' : List Regs}
      (he : EntryFor x86 g next e)
      (hl : List.Forall₂ (LinkFor x86 g next) (List.range g.linkarraysSize.toNat) ls)
      (hrest : Entries x86 gs (next + .ofNat g.linkarraysSize.toNat) es ls') :
      Entries x86 (g :: gs) next (e :: es) (ls ++ ls')

variable {x86 : Bool} {v : UInt8} {regs : Regs} {g : SgroupInfo} {gs : List SgroupInfo}
  {groupMaxnum linkMaxnum : Int} {next next' : UInt32} {ws : List Write}

theorem strobes_none (h : ∀ w ∈ ws, w ≠ (.cfgMix, v)) : strobes v regs ws = [] := by
  induction ws generalizing regs with
  | nil => rfl
  | cons w ws ih =>
      rw [strobes, if_neg (h w List.mem_cons_self), ih fun w hw => h w (List.mem_cons_of_mem _ hw)]
      rfl

theorem linkWrites_mix (hv : v ≠ 0x04) (hv' : v ≠ 0x06) (addr : UInt32) (link : SlinkInfo) :
    ∀ w ∈ linkWrites x86 addr link, w ≠ (.cfgMix, v) := by
  intro w hw he
  subst he
  cases x86 <;> simp [linkWrites, addrWrites, hv, hv'] at hw

theorem count_octet (first : SlinkInfo) (isValid linksize : Int) (addr : UInt32) :
    ((ram1Data first isValid linksize addr >>> 16) &&& 0xff).toUInt8 = lowOctet linksize := by
  apply UInt8.toBitVec_inj.mp
  apply BitVec.eq_of_getLsbD_eq
  intro i hi
  simp only [ram1Data]
  interval_cases i <;> simp

theorem addr_octet (first : SlinkInfo) (isValid linksize : Int) (addr : UInt32) :
    ((ram1Data first isValid linksize addr >>> 8) &&& 0xff).toUInt8 = addr.toUInt8 := by
  apply UInt8.toBitVec_inj.mp
  apply BitVec.eq_of_getLsbD_eq
  intro i hi
  simp only [ram1Data]
  interval_cases i <;> simp

theorem addr_high (addr : UInt32) : ((addr &&& 0xff0) >>> 4).toUInt8.toNat = addr.toNat / 16 % 256 := by
  rw [UInt32.toNat_toUInt8, UInt32.toNat_shiftRight, UInt32.toNat_and, Nat.shiftRight_and_distrib]
  change (addr.toNat >>> 4 &&& (2 ^ 8 - 1)) % 256 = _
  rw [Nat.and_two_pow_sub_one_eq_mod, Nat.shiftRight_eq_div_pow]
  omega

theorem addr_low (addr : UInt32) (fiber : UInt8) :
    (((addr &&& 0x00f) <<< 4).toUInt8 ||| ((fiber &&& 0x3c) >>> 2)).toNat / 16 = addr.toNat % 16 := by
  have h : (((addr &&& 0x00f) <<< 4).toUInt8 ||| ((fiber &&& 0x3c) >>> 2)) >>> 4 =
      (addr &&& 0xf).toUInt8 := by
    apply UInt8.toBitVec_inj.mp
    apply BitVec.eq_of_getLsbD_eq
    intro i hi
    interval_cases i <;> simp
  have h' := congrArg UInt8.toNat h
  rw [UInt8.toNat_shiftRight, Nat.shiftRight_eq_div_pow] at h'
  change _ / 16 = _ at h'
  rw [h', UInt32.toNat_toUInt8, UInt32.toNat_and]
  change (addr.toNat &&& (2 ^ 4 - 1)) % 256 = _
  rw [Nat.and_two_pow_sub_one_eq_mod]
  omega

theorem addr_octets (addr : UInt32) (fiber : UInt8) :
    ((addr &&& 0xff0) >>> 4).toUInt8.toNat * 16 +
      (((addr &&& 0x00f) <<< 4).toUInt8 ||| ((fiber &&& 0x3c) >>> 2)).toNat / 16 =
      addr.toNat % 4096 := by
  rw [addr_high, addr_low]
  omega

theorem data_octets (data : UInt32) :
    (((data >>> 24) &&& 0xff).toUInt8.toUInt32 <<< 24) |||
      (((data >>> 16) &&& 0xff).toUInt8.toUInt32 <<< 16) |||
      (((data >>> 8) &&& 0xff).toUInt8.toUInt32 <<< 8) |||
      (((data >>> 0) &&& 0xff).toUInt8.toUInt32 <<< 0) = data := by
  apply UInt32.toBitVec_inj.mp
  apply BitVec.eq_of_getLsbD_eq
  intro i hi
  interval_cases i <;> simp [-UInt32.toUInt32_toUInt8]

theorem link_strobe {j : Nat} {link : SlinkInfo} (hlink : g.link j = some link) :
    ∃ l, strobes 0x06 regs (linkWrites x86 (next + .ofNat j) link) = [l] ∧ LinkFor x86 g next j l := by
  generalize haddr : next + .ofNat j = addr
  have hlow : (addr &&& 0xff).toUInt8.toNat = addr.toNat % 256 := by
    rw [UInt32.toNat_toUInt8, UInt32.toNat_and]
    change (addr.toNat &&& (2 ^ 8 - 1)) % 256 = _
    rw [Nat.and_two_pow_sub_one_eq_mod]
    omega
  have hhigh : (if addr > 255 then ((addr >>> 8) &&& 0xff).toUInt8 else 0).toNat =
      addr.toNat / 256 % 256 := by
    split
    · rw [UInt32.toNat_toUInt8, UInt32.toNat_and, UInt32.toNat_shiftRight]
      change (addr.toNat >>> 8 &&& (2 ^ 8 - 1)) % 256 = _
      rw [Nat.and_two_pow_sub_one_eq_mod, Nat.shiftRight_eq_div_pow]
      omega
    · next h =>
        have hle : addr.toNat ≤ 255 := UInt32.le_iff_toNat_le.mp (UInt32.not_lt.mp h)
        change 0 = _
        omega
  rw [linkWrites]
  cases x86 with
  | false => exact ⟨_, rfl, by rw [haddr]; exact hlow, link, hlink, rfl⟩
  | true =>
      refine ⟨_, rfl, ?_, link, hlink, rfl⟩
      rw [haddr]
      change UInt8.toNat (if addr > 255 then ((addr >>> 8) &&& 0xff).toUInt8 else 0) * 256 +
        ((addr &&& 0xff).toUInt8).toNat = addr.toNat % 65536
      rw [hlow, hhigh]
      omega

theorem setGroup_eq_some (hsize : 1 ≤ g.linkarraysSize) (hmax : g.linkarraysSize ≤ linkMaxnum)
    (h : setGroup x86 linkMaxnum g next = some (ws, next')) :
    next' = next + .ofNat g.linkarraysSize.toNat ∧ ∃ first wss, g.link 0 = some first ∧
      List.Forall₂ (fun j ws => ∃ link, g.link j = some link ∧ linkWrites x86 (next + .ofNat j) link = ws)
        (List.range g.linkarraysSize.toNat) wss ∧
      ws = idWrites x86 g.groupId ++ [(.cfgMix, 0x00)] ++
        (if x86 then ram1WritesX86 else ram1Writes) first g.isValid g.linkarraysSize next ++
        [(.cfgMix, 0x00), (.cfgMix, 0x02), (.cfgMix, 0x04)] ++ wss.flatten := by
  rw [setGroup, if_neg (by omega)] at h
  obtain ⟨first, hfirst, h⟩ := Option.bind_eq_some_iff.mp h
  obtain ⟨links, hlinks, h⟩ := Option.bind_eq_some_iff.mp h
  obtain ⟨rfl, rfl⟩ := Prod.mk.inj (Option.some.inj h)
  obtain ⟨wss, hwss, rfl⟩ := Option.map_eq_some_iff.mp hlinks
  refine ⟨rfl, first, wss, hfirst, (mapM_eq_some.mp hwss).imp fun j ws hj => ?_, rfl⟩
  exact Option.map_eq_some_iff.mp hj

theorem setGroup_entry (regs : Regs) (hsize : 1 ≤ g.linkarraysSize) (hmax : g.linkarraysSize ≤ linkMaxnum)
    (h : setGroup x86 linkMaxnum g next = some (ws, next')) :
    ∃ e, strobes 0x02 regs ws = [e] ∧ EntryFor x86 g next e := by
  obtain ⟨_, first, wss, hfirst, hwss, rfl⟩ := setGroup_eq_some hsize hmax h
  have hnone : ∀ w ∈ wss.flatten, w ≠ (.cfgMix, 0x02) := by
    intro w hw
    obtain ⟨ws, hws, hw⟩ := List.mem_flatten.mp hw
    obtain ⟨j, _, link, _, rfl⟩ := forall₂_mem_right hwss hws
    exact linkWrites_mix (by decide) (by decide) _ _ w hw
  have hcount : (lowOctet g.linkarraysSize).toNat = g.linkarraysSize.toNat % 256 := by
    rw [lowOctet, UInt8.toNat_ofNat']
    omega
  rw [strobes_append, strobes_none hnone, List.append_nil]
  cases x86 with
  | false =>
      have hdata := data_octets (ram1Data first g.isValid g.linkarraysSize next)
      simp only [Bool.false_eq_true, if_false, ram1Writes, count_octet, addr_octet] at hdata ⊢
      refine ⟨_, rfl, rfl, nofun, ?_, ?_, fun _ => ⟨first, hfirst, ?_⟩⟩
      · exact UInt32.toNat_toUInt8 next
      · exact hcount
      · exact hdata
  | true =>
      simp only [if_true, ram1WritesX86]
      refine ⟨_, rfl, rfl, fun _ => rfl, ?_, ?_, nofun⟩
      · exact addr_octets next first.fiber
      · exact hcount

theorem setGroup_links (regs : Regs) (hsize : 1 ≤ g.linkarraysSize) (hmax : g.linkarraysSize ≤ linkMaxnum)
    (h : setGroup x86 linkMaxnum g next = some (ws, next')) :
    List.Forall₂ (LinkFor x86 g next) (List.range g.linkarraysSize.toNat) (strobes 0x06 regs ws) := by
  obtain ⟨_, first, wss, _, hwss, rfl⟩ := setGroup_eq_some hsize hmax h
  have hflat (js : List Nat) (regs : Regs) (wss : List (List Write))
      (hall : List.Forall₂ (fun j ws => ∃ link, g.link j = some link ∧
        linkWrites x86 (next + .ofNat j) link = ws) js wss) :
      List.Forall₂ (LinkFor x86 g next) js (strobes 0x06 regs wss.flatten) := by
    induction hall generalizing regs with
    | nil => exact .nil
    | cons hj _ ih =>
        obtain ⟨link, hlink, rfl⟩ := hj
        obtain ⟨l, hl, hfor⟩ := @link_strobe x86 regs g next _ link hlink
        rw [List.flatten_cons, strobes_append, hl]
        exact .cons hfor (ih _)
  rw [strobes_append, strobes_none]
  · exact hflat _ _ _ hwss
  · cases x86 <;> simp [idWrites, addrWrites, ram1Writes, ram1WritesX86]

theorem setGroup_skipped (h : g.linkarraysSize < 1 ∨ g.linkarraysSize > linkMaxnum) :
    setGroup x86 linkMaxnum g next = some (idWrites x86 g.groupId ++ [(.cfgMix, 0x00)], next) ∧
      strobes 0x02 regs (idWrites x86 g.groupId ++ [(.cfgMix, 0x00)]) = [] ∧
      strobes 0x06 regs (idWrites x86 g.groupId ++ [(.cfgMix, 0x00)]) = [] := by
  refine ⟨if_pos h, strobes_none ?_, strobes_none ?_⟩ <;>
    cases x86 <;> simp [idWrites, addrWrites]

theorem setGroups_entries {sg : List SgroupInfo}
    (h : setGroups x86 groupMaxnum linkMaxnum sg next = some ws) :
    Entries x86 (programmed groupMaxnum linkMaxnum sg) next (strobes 0x02 regs ws)
      (strobes 0x06 regs ws) := by
  induction sg generalizing next regs ws with
  | nil =>
      cases h
      exact .nil next
  | cons g gs ih =>
      rw [setGroups] at h
      split at h
      · next hid =>
          have hout : ¬ Programmed groupMaxnum linkMaxnum g := fun hp => by have := hp.1; omega
          rw [programmed, List.filter_cons_of_neg (by simpa using hout)]
          exact ih h
      · next hid =>
          obtain ⟨⟨ws1, next1⟩, h1, h⟩ := Option.bind_eq_some_iff.mp h
          obtain ⟨rest, h2, h⟩ := Option.bind_eq_some_iff.mp h
          obtain rfl := Option.some.inj h
          rw [strobes_append, strobes_append]
          by_cases hsize : g.linkarraysSize < 1 ∨ g.linkarraysSize > linkMaxnum
          · obtain ⟨hg, hs2, hs6⟩ := @setGroup_skipped x86 regs g linkMaxnum next hsize
            obtain ⟨rfl, rfl⟩ := Prod.mk.inj (Option.some.inj (hg.symm.trans h1))
            have hout : ¬ Programmed groupMaxnum linkMaxnum g := fun hp => by
              obtain ⟨_, hp⟩ := hp
              omega
            rw [hs2, hs6, programmed, List.filter_cons_of_neg (by simpa using hout)]
            exact ih h2
          · have hp : Programmed groupMaxnum linkMaxnum g := ⟨by omega, by omega, by omega⟩
            obtain ⟨e, hs2, he⟩ := setGroup_entry regs hp.2.1 hp.2.2 h1
            have hl := setGroup_links regs hp.2.1 hp.2.2 h1
            obtain ⟨rfl, _⟩ := setGroup_eq_some hp.2.1 hp.2.2 h1
            rw [hs2, programmed, List.filter_cons_of_pos (by simpa using hp)]
            exact .cons he hl (ih h2)

def groupMax (x86 : Bool) (setType : Int) : Int :=
  if setType = setTryGroup then tryGroupMaxnum x86 else setGroupMaxnum x86

def linkMax (x86 : Bool) (setType : Int) : Int :=
  if setType = setTryGroup then tryLinkMaxnum x86 else setLinkMaxnum x86

theorem setOp_eq_some {setType : Int} {rate op : UInt8}
    (h : setOp x86 setType rate = some (op, groupMaxnum, linkMaxnum)) :
    groupMaxnum = groupMax x86 setType ∧ linkMaxnum = linkMax x86 setType := by
  rw [setOp] at h
  rw [groupMax, linkMax]
  split at h
  · next htry =>
      rw [if_pos htry, if_pos htry]
      split at h
      · cases h
        exact ⟨rfl, rfl⟩
      · split at h <;> cases h
        exact ⟨rfl, rfl⟩
  · next htry =>
      rw [if_neg htry, if_neg htry]
      split at h
      · split at h
        · cases h
          exact ⟨rfl, rfl⟩
        · split at h <;> cases h
          exact ⟨rfl, rfl⟩
      · cases h

theorem setInfoRule_ok {sg : List SgroupInfo} {portGroup setType : Int}
    (h : setInfoRule x86 sg portGroup setType = some (0, ws)) :
    ∃ first op ws', (sg.head? >>= fun g => g.link 0) = some first ∧
      setOp x86 setType first.channelRate = some (op, groupMax x86 setType, linkMax x86 setType) ∧
      setGroups x86 (groupMax x86 setType) (linkMax x86 setType) sg 0 = some ws' ∧
      ws = (if x86 then [] else [(.ramGroup, lowOctet portGroup)]) ++ [(.cfgOp, op)] ++ ws' ++
        [(.cfgMix, 0x00), (.cfgMix, 0x01)] := by
  rw [setInfoRule] at h
  split at h
  · cases h
  · obtain ⟨first, hfirst, h⟩ := Option.bind_eq_some_iff.mp h
    cases hop : setOp x86 setType first.channelRate with
    | none =>
        rw [hop] at h
        cases h
    | some o =>
        obtain ⟨op, groupMaxnum, linkMaxnum⟩ := o
        obtain ⟨rfl, rfl⟩ := setOp_eq_some hop
        rw [hop] at h
        obtain ⟨ws', hws, h⟩ := Option.bind_eq_some_iff.mp h
        obtain ⟨_, rfl⟩ := Prod.mk.inj (Option.some.inj h)
        exact ⟨first, op, ws', hfirst, hop, hws, rfl⟩

def headWrites (x86 : Bool) (portGroup : Int) (op : UInt8) : List Write :=
  (if x86 then [] else [(.ramGroup, lowOctet portGroup)]) ++ [(.cfgOp, op)]

theorem strobes_call {portGroup : Int} {op : UInt8} {ws' : List Write} (h0 : v ≠ 0x00) (h1 : v ≠ 0x01) :
    strobes v regs ((if x86 then [] else [(.ramGroup, lowOctet portGroup)]) ++ [(.cfgOp, op)] ++ ws' ++
      [(.cfgMix, 0x00), (.cfgMix, 0x01)]) =
    strobes v (writes regs (headWrites x86 portGroup op)) ws' := by
  have hhead : strobes v regs (headWrites x86 portGroup op) = [] := by
    refine strobes_none ?_
    cases x86 <;> simp [headWrites]
  have htail (regs : Regs) : strobes v regs [(.cfgMix, 0x00), (.cfgMix, 0x01)] = [] :=
    strobes_none (by simp [h0.symm, h1.symm])
  rw [strobes_append, htail, List.append_nil, strobes_append]
  change strobes v regs (headWrites x86 portGroup op) ++ _ = _
  rw [hhead]
  rfl

theorem setInfoRule_entries (regs : Regs) {sg : List SgroupInfo} {portGroup setType : Int}
    (h : setInfoRule x86 sg portGroup setType = some (0, ws)) :
    Entries x86 (programmed (groupMax x86 setType) (linkMax x86 setType) sg) 0
      (strobes 0x02 regs ws) (strobes 0x06 regs ws) := by
  obtain ⟨first, op, ws', _, _, hws, rfl⟩ := setInfoRule_ok h
  rw [strobes_call (by decide) (by decide), strobes_call (by decide) (by decide)]
  exact setGroups_entries hws

def HasLinks (g : SgroupInfo) : Prop := ∀ j < g.linkarraysSize.toNat, ∃ link, g.link j = some link

theorem setGroup_defined (h : HasLinks g) (next : UInt32) :
    ∃ p, setGroup x86 linkMaxnum g next = some p := by
  rw [setGroup]
  split
  · exact ⟨_, rfl⟩
  · next hsize =>
      obtain ⟨first, hfirst⟩ := h 0 (by omega)
      have hlinks : ∀ j ∈ List.range g.linkarraysSize.toNat,
          ∃ ws, (g.link j).map (linkWrites x86 (next + .ofNat j)) = some ws := by
        intro j hj
        obtain ⟨link, hlink⟩ := h j (List.mem_range.mp hj)
        exact ⟨linkWrites x86 (next + .ofNat j) link, by rw [hlink, Option.map_some]⟩
      obtain ⟨wss, hwss⟩ := mapM_isSome hlinks
      simp only [hfirst, allLinkWrites, hwss, Option.map_some, Option.bind_eq_bind, Option.bind_some]
      exact ⟨_, rfl⟩

theorem setGroups_defined {sg : List SgroupInfo} (h : ∀ g ∈ sg, HasLinks g) (next : UInt32) :
    ∃ ws, setGroups x86 groupMaxnum linkMaxnum sg next = some ws := by
  induction sg generalizing next with
  | nil => exact ⟨[], rfl⟩
  | cons g gs ih =>
      have hgs := ih fun g hg => h g (List.mem_cons_of_mem _ hg)
      rw [setGroups]
      split
      · exact hgs next
      · obtain ⟨⟨ws, next'⟩, hg⟩ := @setGroup_defined x86 g linkMaxnum (h g List.mem_cons_self) next
        obtain ⟨rest, hrest⟩ := hgs next'
        simp only [hg, hrest, Option.bind_eq_bind, Option.bind_some]
        exact ⟨_, rfl⟩

theorem setInfoRule_defined {sg : List SgroupInfo} {setType : Int} {first : SlinkInfo} {op : UInt8}
    (h : ∀ g ∈ sg, HasLinks g) (hfirst : (sg.head? >>= fun g => g.link 0) = some first)
    (hop : setOp x86 setType first.channelRate = some (op, groupMaxnum, linkMaxnum))
    (portGroup : Int) : ∃ ws, setInfoRule x86 sg portGroup setType = some (0, ws) := by
  obtain ⟨ws, hws⟩ := @setGroups_defined x86 groupMaxnum linkMaxnum sg h 0
  have htype : ¬ (setType ≠ setTryGroup ∧ setType ≠ setOkGroup) := by
    intro ⟨htry, hok⟩
    rw [setOp, if_neg htry, if_neg hok] at hop
    cases hop
  rw [setInfoRule]
  simp only [if_neg htype, hfirst, hop, hws, Option.bind_eq_bind, Option.bind_some]
  exact ⟨_, rfl⟩

def plainLink (channel : UInt8) : SlinkInfo :=
  { SlinkInfo.zero with channel := channel, channelRate := rateC12 }

def plainGroup (id : Int) (n : Nat) : SgroupInfo :=
  ⟨id, 0, 1, n, some (List.replicate n (plainLink 0)), 0, 0⟩

end OiAmc.SetInfoEntries

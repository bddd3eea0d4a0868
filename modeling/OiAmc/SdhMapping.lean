import OiAmc.ByteBuffer
import OiAmc.PartialMachine

namespace OiAmc.SdhMapping

open Function PartialMachine WriteList

def E1_RULE_LOCAL : UInt8 := 1

def E1_RULE_GLOBAL : UInt8 := 2

def FPGA_VERSION_HP : Nat := 1

def FPGA_VERSION_LP : Nat := 2

def LIST_TYPE_HP_TO_LP_AU4 : UInt8 := 0x03

def LIST_TYPE_LP_SEL : UInt8 := 0x06

def LIST_TYPE_LP_E1USER : UInt8 := 0x07

def LIST_TYPE_LP_DEVMAP : UInt8 := 0x08

def LIST_TYPE_LP_64KPPP_SEL : UInt8 := 0x09

def LIST_TYPE_LP_LOCAL_E1USER : UInt8 := 0x0a

def LIST_TYPE_LP_LOCAL_LM : UInt8 := 0x0b

def LIST_TYPE_LP_LOCAL_64KPPP : UInt8 := 0x0c

def LIST_TYPE_LP_GLOBLA_E1USER : UInt8 := 0x0d

def LIST_TYPE_LP_GLOBLA_LM : UInt8 := 0x0e

def LIST_TYPE_LP_GLOBLA_64KPPP : UInt8 := 0x0f

def LIST_TYPE_LP_E1GFP_USER : UInt8 := 0x20

def LIST_TYPE_LP_E1GFP_DEVMAP : UInt8 := 0x21

def LIST_TYPE_LP_LOCAL_E1GFP : UInt8 := 0x22

def LIST_TYPE_LP_GLOBAL_E1GFP : UInt8 := 0x23

structure SdhE1userMap where
  au4 : UInt8
  e1 : UInt8
  rule : UInt8
  sel : UInt8
  enable : UInt8
  userChassisid : UInt8
  userSlot : UInt8
  userPort : UInt8
  userE1 : UInt8

structure SdhE1linkmapMap where
  lmpSel : UInt8
  map : SdhE1userMap

structure SdhE164kMap where
  e164kSel : UInt8
  map : SdhE1userMap

structure SdhE1gfpMap where
  e1gfpSel : UInt8
  map : SdhE1userMap

structure SetList where
  listCfgExtReg : UInt8
  listCfgEn : UInt8
  listCfgCh : UInt8
  listCfgInfoH : UInt8
  listCfgInfoL : UInt8
  listCfgType : UInt8

structure ChEn where
  swChSel : UInt8
  swE1Sel : UInt8
  swChEn : UInt8
  swCfgEn : UInt8

abbrev Key := UInt8 × UInt8 × UInt8

/-- The registers, and what the device keeps behind them. -/
structure Fpga where
  sdhtype : Nat
  setList : SetList
  lists : Key → UInt8 × UInt8
  chEn : ChEn
  enabled : UInt8 × UInt8 → UInt8

/-- Where list_cfg_en rises, the device takes the entry over. -/
def writeListEn (v : UInt8) (d : Fpga) : Fpga :=
  { d with
    setList.listCfgEn := v
    lists := if d.setList.listCfgEn = 0 ∧ v = 1 then
        update d.lists (d.setList.listCfgType, d.setList.listCfgCh, d.setList.listCfgExtReg)
          (d.setList.listCfgInfoL, d.setList.listCfgInfoH)
      else d.lists }

def writeSwCfgEn (v : UInt8) (d : Fpga) : Fpga :=
  { d with
    chEn.swCfgEn := v
    enabled := if d.chEn.swCfgEn = 0 ∧ v = 1 then
        update d.enabled (d.chEn.swChSel, d.chEn.swE1Sel) d.chEn.swChEn
      else d.enabled }

def sdhCfgRule (listType chan selAddr sel ratio : UInt8) (d : Fpga) : Int × Fpga :=
  let d := { d with setList.listCfgType := listType }
  let d := { d with setList.listCfgCh := chan }
  let d := if listType ≠ LIST_TYPE_HP_TO_LP_AU4 then
      { d with
        setList.listCfgExtReg := selAddr
        setList.listCfgInfoL := sel
        setList.listCfgInfoH := ratio }
    else
      { d with
        setList.listCfgExtReg := 0
        setList.listCfgInfoL := sel
        setList.listCfgInfoH := 0 }
  (0, writeListEn 1 (writeListEn 0 d))

def sdhCfgChannleEn (port channel e1 en : UInt8) (d : Fpga) : Int × Fpga :=
  if d.sdhtype = FPGA_VERSION_LP then
    let d := { d with chEn.swChSel := channel &&& 0x0f, chEn.swE1Sel := e1, chEn.swChEn := en }
    (0, writeSwCfgEn 1 (writeSwCfgEn 0 d))
  else if d.sdhtype = FPGA_VERSION_HP then
    let d := { d with
      chEn.swChSel := ((port &&& 0x03) <<< 6) ||| (channel &&& 0x3f)
      chEn.swE1Sel := 0
      chEn.swChEn := en }
    (0, writeSwCfgEn 1 (writeSwCfgEn 0 d))
  else (-1, d)

/-- `if (ret != 0) goto err_exit` -/
def orExit (r : Int × Fpga) (next : Fpga → Int × Fpga) : Int × Fpga :=
  if r.1 ≠ 0 then (-1, r.2) else next r.2

def setMap (user devmap : UInt8) (own : Option (UInt8 × UInt8)) (localType globalType : UInt8) (channel : Bool)
    (map : SdhE1userMap) (d : Fpga) : Int × Fpga :=
  orExit (sdhCfgRule user map.au4 map.e1 map.userE1 map.userPort d) fun d =>
  orExit (sdhCfgRule devmap map.au4 map.e1 map.userSlot map.userChassisid d) fun d =>
  orExit (match own with
    | some (type, sel) => sdhCfgRule type map.au4 map.e1 sel map.enable d
    | none => (0, d)) fun d =>
  orExit (if map.rule = E1_RULE_LOCAL then sdhCfgRule localType map.au4 map.e1 map.sel map.enable d
    else if map.rule = E1_RULE_GLOBAL then sdhCfgRule globalType map.au4 map.e1 map.sel map.enable d
    else (-1, d)) fun d =>
  if channel then orExit (sdhCfgChannleEn 0 map.au4 map.e1 map.enable d) fun d => (0, d) else (0, d)

/-- An argument that cannot be copied is `none`. -/
def ofUser {α : Type} (arg : Option α) (d : Fpga) (f : α → Fpga → Int × Fpga) : Int × Fpga :=
  match arg with
  | none => (-1, d)
  | some a => f a d

def oicFopsIoctlSetSdhE1user (arg : Option SdhE1userMap) (d : Fpga) : Int × Fpga :=
  ofUser arg d (setMap LIST_TYPE_LP_E1USER LIST_TYPE_LP_DEVMAP none LIST_TYPE_LP_LOCAL_E1USER
    LIST_TYPE_LP_GLOBLA_E1USER true)

def oicFopsIoctlSetSdhE1linkmap (arg : Option SdhE1linkmapMap) (d : Fpga) : Int × Fpga :=
  ofUser arg d fun lm => setMap LIST_TYPE_LP_E1USER LIST_TYPE_LP_DEVMAP (some (LIST_TYPE_LP_SEL, lm.lmpSel))
    LIST_TYPE_LP_LOCAL_LM LIST_TYPE_LP_GLOBLA_LM true lm.map

def oicFopsIoctlSetSdhE164k (arg : Option SdhE164kMap) (d : Fpga) : Int × Fpga :=
  ofUser arg d fun m => setMap LIST_TYPE_LP_E1USER LIST_TYPE_LP_DEVMAP
    (some (LIST_TYPE_LP_64KPPP_SEL, m.e164kSel)) LIST_TYPE_LP_LOCAL_64KPPP LIST_TYPE_LP_GLOBLA_64KPPP true m.map

/-- e1gfp_sel is not looked at, and no channel is enabled. -/
def oicFopsIoctlSetSdhE1gfp (arg : Option SdhE1gfpMap) (d : Fpga) : Int × Fpga :=
  ofUser arg d fun m => setMap LIST_TYPE_LP_E1GFP_USER LIST_TYPE_LP_E1GFP_DEVMAP none LIST_TYPE_LP_LOCAL_E1GFP
    LIST_TYPE_LP_GLOBAL_E1GFP false m.map

inductive Call
  | e1user (arg : Option SdhE1userMap)
  | e1linkmap (arg : Option SdhE1linkmapMap)
  | e164k (arg : Option SdhE164kMap)
  | e1gfp (arg : Option SdhE1gfpMap)

def ioctl : Call → Fpga → Int × Fpga
  | .e1user arg => oicFopsIoctlSetSdhE1user arg
  | .e1linkmap arg => oicFopsIoctlSetSdhE1linkmap arg
  | .e164k arg => oicFopsIoctlSetSdhE164k arg
  | .e1gfp arg => oicFopsIoctlSetSdhE1gfp arg

def step (d : Fpga) (c : Call) : Option (Fpga × Int) := some ((ioctl c d).2, (ioctl c d).1)

structure Kind where
  user : UInt8
  devmap : UInt8
  own : Option (UInt8 × UInt8)
  localType : UInt8
  globalType : UInt8
  channel : Bool

variable {d d' : Fpga} {k : Kind} {map : SdhE1userMap}

def before (k : Kind) (map : SdhE1userMap) : List (Key × (UInt8 × UInt8)) :=
  [((k.user, map.au4, map.e1), (map.userE1, map.userPort)),
    ((k.devmap, map.au4, map.e1), (map.userSlot, map.userChassisid))] ++
    k.own.toList.map fun o => ((o.1, map.au4, map.e1), (o.2, map.enable))

def ruled (k : Kind) (map : SdhE1userMap) : List (Key × (UInt8 × UInt8)) :=
  if map.rule = E1_RULE_LOCAL then [((k.localType, map.au4, map.e1), (map.sel, map.enable))]
  else if map.rule = E1_RULE_GLOBAL then [((k.globalType, map.au4, map.e1), (map.sel, map.enable))]
  else []

/-- The tables of a kind, of which none is written twice. -/
def Kind.Apart (k : Kind) : Prop :=
  LIST_TYPE_HP_TO_LP_AU4 ∉ [k.user, k.devmap, k.localType, k.globalType] ++ k.own.toList.map Prod.fst ∧
    ([k.user, k.devmap] ++ k.own.toList.map Prod.fst ++ [k.localType]).Nodup ∧
    ([k.user, k.devmap] ++ k.own.toList.map Prod.fst ++ [k.globalType]).Nodup

def ValidRule (map : SdhE1userMap) : Prop := map.rule = E1_RULE_LOCAL ∨ map.rule = E1_RULE_GLOBAL

instance (map : SdhE1userMap) : Decidable (ValidRule map) := inferInstanceAs (Decidable (_ ∨ _))

def KnownType (d : Fpga) : Prop := d.sdhtype = FPGA_VERSION_LP ∨ d.sdhtype = FPGA_VERSION_HP

instance (d : Fpga) : Decidable (KnownType d) := inferInstanceAs (Decidable (_ ∨ _))

/-- A state with some entries written, and the channels as they were. -/
structure Wrote (d : Fpga) (ws : List (Key × (UInt8 × UInt8))) (d' : Fpga) : Prop where
  lists : d'.lists = store d.lists ws
  enabled : d'.enabled = d.enabled
  sdhtype : d'.sdhtype = d.sdhtype

theorem Wrote.trans {d'' : Fpga} {ws ws' : List (Key × (UInt8 × UInt8))} (h : Wrote d ws d')
    (h' : Wrote d' ws' d'') : Wrote d (ws ++ ws') d'' :=
  ⟨by rw [store_append, ← h.lists, h'.lists], h'.enabled.trans h.enabled, h'.sdhtype.trans h.sdhtype⟩

theorem writeListEn_rise (d : Fpga) : (writeListEn 1 (writeListEn 0 d)).lists =
    update d.lists (d.setList.listCfgType, d.setList.listCfgCh, d.setList.listCfgExtReg)
      (d.setList.listCfgInfoL, d.setList.listCfgInfoH) := by
  rw [writeListEn, if_pos ⟨rfl, rfl⟩, writeListEn, if_neg fun h => absurd h.2 (by decide)]

theorem sdhCfgRule_wrote {listType : UInt8} (h : listType ≠ LIST_TYPE_HP_TO_LP_AU4) (chan selAddr sel ratio : UInt8)
    (d : Fpga) : ∃ d', sdhCfgRule listType chan selAddr sel ratio d = (0, d') ∧
      Wrote d [((listType, chan, selAddr), (sel, ratio))] d' := by
  refine ⟨(sdhCfgRule listType chan selAddr sel ratio d).2, rfl, ?_⟩
  rw [sdhCfgRule, if_pos h]
  exact ⟨writeListEn_rise _, rfl, rfl⟩

theorem sdhCfgChannleEn_lists (port channel e1 en : UInt8) (d : Fpga) :
    (sdhCfgChannleEn port channel e1 en d).2.lists = d.lists := by
  rw [sdhCfgChannleEn]
  split
  · rfl
  · split <;> rfl

theorem sdhCfgChannleEn_rc (port channel e1 en : UInt8) (d : Fpga) :
    (sdhCfgChannleEn port channel e1 en d).1 = if KnownType d then 0 else -1 := by
  by_cases hlp : d.sdhtype = FPGA_VERSION_LP
  · rw [sdhCfgChannleEn, if_pos hlp]
    exact (if_pos (.inl hlp)).symm
  · by_cases hhp : d.sdhtype = FPGA_VERSION_HP
    · rw [sdhCfgChannleEn, if_neg hlp, if_pos hhp]
      exact (if_pos (.inr hhp)).symm
    · rw [sdhCfgChannleEn, if_neg hlp, if_neg hhp]
      exact (if_neg (not_or.mpr ⟨hlp, hhp⟩)).symm

theorem orExit_zero (d : Fpga) (next : Fpga → Int × Fpga) : orExit (0, d) next = next d := rfl

def Kind.set (k : Kind) (map : SdhE1userMap) (d : Fpga) : Int × Fpga :=
  setMap k.user k.devmap k.own k.localType k.globalType k.channel map d

theorem own_wrote (hk : k.Apart) (map : SdhE1userMap) (d : Fpga) : ∃ d',
    (match k.own with
      | some (type, sel) => sdhCfgRule type map.au4 map.e1 sel map.enable d
      | none => (0, d)) = (0, d') ∧
    Wrote d (k.own.toList.map fun o => ((o.1, map.au4, map.e1), (o.2, map.enable))) d' := by
  cases ho : k.own with
  | none => exact ⟨d, rfl, rfl, rfl, rfl⟩
  | some o =>
      apply sdhCfgRule_wrote
      intro he
      exact hk.1 (List.mem_append_right _ (by rw [ho, ← he]; exact List.mem_singleton_self _))

theorem set_before (hk : k.Apart) (map : SdhE1userMap) (d : Fpga) : ∃ d1, Wrote d (before k map) d1 ∧
    k.set map d = orExit (if map.rule = E1_RULE_LOCAL then
        sdhCfgRule k.localType map.au4 map.e1 map.sel map.enable d1
      else if map.rule = E1_RULE_GLOBAL then sdhCfgRule k.globalType map.au4 map.e1 map.sel map.enable d1
      else (-1, d1)) fun d =>
        if k.channel then orExit (sdhCfgChannleEn 0 map.au4 map.e1 map.enable d) fun d => (0, d)
        else (0, d) := by
  have hapart := hk.1
  simp only [List.mem_append, List.mem_cons, List.not_mem_nil, or_false, not_or] at hapart
  obtain ⟨⟨huser, hdevmap, -, -⟩, -⟩ := hapart
  obtain ⟨d1, h1, hw1⟩ := sdhCfgRule_wrote (Ne.symm huser) map.au4 map.e1 map.userE1 map.userPort d
  obtain ⟨d2, h2, hw2⟩ := sdhCfgRule_wrote (Ne.symm hdevmap) map.au4 map.e1 map.userSlot map.userChassisid d1
  obtain ⟨d3, h3, hw3⟩ := own_wrote hk map d2
  refine ⟨d3, (hw1.trans hw2).trans hw3, ?_⟩
  rw [Kind.set, setMap, h1, orExit_zero, h2, orExit_zero, h3, orExit_zero]

theorem set_invalid (hk : k.Apart) (hrule : ¬ ValidRule map) (d : Fpga) :
    (k.set map d).1 = -1 ∧ Wrote d (before k map) (k.set map d).2 := by
  obtain ⟨d1, hw, he⟩ := set_before hk map d
  obtain ⟨hlocal, hglobal⟩ := not_or.mp hrule
  rw [he, if_neg hlocal, if_neg hglobal]
  exact ⟨rfl, hw⟩

theorem set_valid (hk : k.Apart) (hrule : ValidRule map) (d : Fpga) :
    (k.set map d).1 = (if k.channel ∧ ¬ KnownType d then -1 else 0) ∧
      (k.set map d).2.lists = store d.lists (before k map ++ ruled k map) := by
  obtain ⟨d1, hw, he⟩ := set_before hk map d
  have hapart := hk.1
  simp only [List.mem_append, List.mem_cons, List.not_mem_nil, or_false, not_or] at hapart
  obtain ⟨⟨-, -, hlocal, hglobal⟩, -⟩ := hapart
  -- one of the two tables, by the rule
  obtain ⟨d2, hruled, hw2⟩ : ∃ d2, (if map.rule = E1_RULE_LOCAL then
        sdhCfgRule k.localType map.au4 map.e1 map.sel map.enable d1
      else if map.rule = E1_RULE_GLOBAL then sdhCfgRule k.globalType map.au4 map.e1 map.sel map.enable d1
      else (-1, d1)) = (0, d2) ∧ Wrote d1 (ruled k map) d2 := by
    by_cases hl : map.rule = E1_RULE_LOCAL
    · rw [if_pos hl, ruled, if_pos hl]
      exact sdhCfgRule_wrote (Ne.symm hlocal) _ _ _ _ d1
    · have hg := hrule.resolve_left hl
      rw [if_neg hl, if_pos hg, ruled, if_neg hl, if_pos hg]
      exact sdhCfgRule_wrote (Ne.symm hglobal) _ _ _ _ d1
  have hall := hw.trans hw2
  have htype : KnownType d2 ↔ KnownType d := by rw [KnownType, KnownType, hall.sdhtype]
  rw [he, hruled, orExit_zero]
  by_cases hchannel : k.channel = true
  · rw [if_pos hchannel]
    by_cases hknown : KnownType d
    · rw [orExit, sdhCfgChannleEn_rc, if_pos (htype.mpr hknown), if_neg (by simp),
        if_neg fun h => h.2 hknown]
      exact ⟨rfl, (sdhCfgChannleEn_lists _ _ _ _ _).trans hall.lists⟩
    · rw [orExit, sdhCfgChannleEn_rc, if_neg (mt htype.mp hknown), if_pos (by decide),
        if_pos ⟨hchannel, hknown⟩]
      exact ⟨rfl, (sdhCfgChannleEn_lists _ _ _ _ _).trans hall.lists⟩
  · rw [if_neg hchannel, if_neg fun h => hchannel h.1]
    exact ⟨rfl, hall.lists⟩

def kindOf : Call → Kind
  | .e1user _ => ⟨LIST_TYPE_LP_E1USER, LIST_TYPE_LP_DEVMAP, none, LIST_TYPE_LP_LOCAL_E1USER,
      LIST_TYPE_LP_GLOBLA_E1USER, true⟩
  | .e1linkmap arg => ⟨LIST_TYPE_LP_E1USER, LIST_TYPE_LP_DEVMAP,
      arg.map fun lm => (LIST_TYPE_LP_SEL, lm.lmpSel), LIST_TYPE_LP_LOCAL_LM, LIST_TYPE_LP_GLOBLA_LM, true⟩
  | .e164k arg => ⟨LIST_TYPE_LP_E1USER, LIST_TYPE_LP_DEVMAP,
      arg.map fun m => (LIST_TYPE_LP_64KPPP_SEL, m.e164kSel), LIST_TYPE_LP_LOCAL_64KPPP,
      LIST_TYPE_LP_GLOBLA_64KPPP, true⟩
  | .e1gfp _ => ⟨LIST_TYPE_LP_E1GFP_USER, LIST_TYPE_LP_E1GFP_DEVMAP, none, LIST_TYPE_LP_LOCAL_E1GFP,
      LIST_TYPE_LP_GLOBAL_E1GFP, false⟩

def mapOf : Call → Option SdhE1userMap
  | .e1user arg => arg
  | .e1linkmap arg => arg.map (·.map)
  | .e164k arg => arg.map (·.map)
  | .e1gfp arg => arg.map (·.map)

theorem kind_apart (c : Call) : (kindOf c).Apart := by
  cases c with
  | e1user arg =>
      simp only [Kind.Apart, kindOf, Option.toList, List.map]
      decide
  | e1linkmap arg =>
      cases arg with
      | none => exact ⟨by decide, by decide, by decide⟩
      | some lm =>
          simp only [Kind.Apart, kindOf, Option.map, Option.toList, List.map]
          decide
  | e164k arg =>
      cases arg with
      | none => exact ⟨by decide, by decide, by decide⟩
      | some m =>
          simp only [Kind.Apart, kindOf, Option.map, Option.toList, List.map]
          decide
  | e1gfp arg =>
      simp only [Kind.Apart, kindOf, Option.toList, List.map]
      decide

theorem ioctl_eq (c : Call) (d : Fpga) : ioctl c d = match mapOf c with
    | none => (-1, d)
    | some map => (kindOf c).set map d := by
  cases c with
  | e1user arg => cases arg <;> rfl
  | e1linkmap arg => cases arg <;> rfl
  | e164k arg => cases arg <;> rfl
  | e1gfp arg => cases arg <;> rfl

def written (c : Call) : List (Key × (UInt8 × UInt8)) :=
  match mapOf c with
  | none => []
  | some map => before (kindOf c) map ++ ruled (kindOf c) map

/-- The entries of the calls that returned 0. -/
def succeeded (calls : List Call) (rcs : List Int) : List (Key × (UInt8 × UInt8)) :=
  (calls.zip rcs).flatMap fun e => if e.2 = 0 then written e.1 else []

/-- A call whose rule is no rule, or whose channel is of no known type, finds the entries that it writes
as they are to be. -/
def Meets (d : Fpga) (c : Call) : Prop := ∀ map ∈ mapOf c,
  if ValidRule map then (kindOf c).channel → ¬ KnownType d → ∀ w ∈ written c, d.lists w.1 = w.2
  else ∀ w ∈ before (kindOf c) map, d.lists w.1 = w.2

theorem entries_nodup {types : List UInt8} (h : types.Nodup) (au4 e1 : UInt8) :
    (types.map fun t => (t, au4, e1)).Nodup :=
  h.map fun _ _ he => (Prod.mk.inj he).1

theorem before_keys (k : Kind) (map : SdhE1userMap) : (before k map).map Prod.fst =
    ([k.user, k.devmap] ++ k.own.toList.map Prod.fst).map fun t => (t, map.au4, map.e1) := by
  rw [before, List.map_append, List.map_append, List.map_map, List.map_map]
  rfl

theorem before_nodup (hk : k.Apart) (map : SdhE1userMap) : ((before k map).map Prod.fst).Nodup := by
  rw [before_keys]
  apply entries_nodup
  exact hk.2.1.of_append_left

theorem written_nodup (c : Call) : ((written c).map Prod.fst).Nodup := by
  rw [written]
  cases mapOf c with
  | none => exact List.nodup_nil
  | some map =>
      have hk := kind_apart c
      change ((before (kindOf c) map ++ ruled (kindOf c) map).map Prod.fst).Nodup
      rw [List.map_append, before_keys, ruled]
      split
      · have h := entries_nodup hk.2.1 map.au4 map.e1
        rwa [List.map_append] at h
      · split
        · have h := entries_nodup hk.2.2 map.au4 map.e1
          rwa [List.map_append] at h
        · rw [List.map_nil, List.append_nil]
          exact entries_nodup hk.2.1.of_append_left map.au4 map.e1

theorem ioctl_lists (c : Call) (d : Fpga) :
    (ioctl c d).2.lists = store d.lists (if (ioctl c d).1 = 0 then written c else []) ↔ Meets d c := by
  cases hmap : mapOf c with
  | none =>
      have he : ioctl c d = (-1, d) := by rw [ioctl_eq, hmap]
      rw [he, if_neg (by simp)]
      refine ⟨fun _ map h => ?_, fun _ => rfl⟩
      rw [hmap] at h
      cases h
  | some map =>
      have hk := kind_apart c
      have he : ioctl c d = (kindOf c).set map d := by rw [ioctl_eq, hmap]
      have hw : written c = before (kindOf c) map ++ ruled (kindOf c) map := by rw [written, hmap]
      have hmeets : Meets d c ↔ if ValidRule map then (kindOf c).channel → ¬ KnownType d →
          ∀ w ∈ written c, d.lists w.1 = w.2 else ∀ w ∈ before (kindOf c) map, d.lists w.1 = w.2 := by
        rw [Meets, hmap]
        exact ⟨fun h => h map rfl, fun h _ hm => by obtain rfl := Option.some.inj hm; exact h⟩
      rw [he, hmeets]
      by_cases hrule : ValidRule map
      · obtain ⟨hrc, hlists⟩ := set_valid hk hrule d
        rw [hrc, hlists, ← hw, if_pos hrule]
        by_cases hfail : (kindOf c).channel ∧ ¬ KnownType d
        · rw [if_pos hfail, if_neg (by decide)]
          rw [show store d.lists [] = d.lists from rfl, store_eq_self (written_nodup c)]
          exact ⟨fun h _ _ => h, fun h => h hfail.1 hfail.2⟩
        · rw [if_neg hfail, if_pos rfl]
          exact ⟨fun _ hc ht => absurd ⟨hc, ht⟩ hfail, fun _ => rfl⟩
      · obtain ⟨hrc, hwrote⟩ := set_invalid hk hrule d
        rw [hrc, hwrote.lists, if_neg hrule, if_neg (by decide)]
        exact store_eq_self (before_nodup hk map)

theorem succeeded_cons (c : Call) (calls : List Call) (rc : Int) (rcs : List Int) :
    succeeded (c :: calls) (rc :: rcs) = (if rc = 0 then written c else []) ++ succeeded calls rcs := rfl

theorem tables_of_run (calls : List Call) (d : Fpga) : (∀ cs rcs t, cs <+: calls →
      run step d cs = some (t, rcs) → t.lists = store d.lists (succeeded cs rcs)) ↔
    Guarded step Meets d calls := by
  induction calls generalizing d with
  | nil =>
      refine ⟨fun _ => trivial, fun _ cs rcs t hcs hr => ?_⟩
      obtain rfl := List.prefix_nil.mp hcs
      obtain ⟨rfl, rfl⟩ := Prod.mk.inj (Option.some.inj hr)
      rfl
  | cons c calls ih =>
      have hstep : step d c = some ((ioctl c d).2, (ioctl c d).1) := rfl
      constructor
      · intro h
        have hmeets : (ioctl c d).2.lists = store d.lists (if (ioctl c d).1 = 0 then written c else []) := by
          have hone := h [c] [(ioctl c d).1] (ioctl c d).2
            (List.cons_prefix_cons.mpr ⟨rfl, List.nil_prefix⟩) rfl
          rwa [succeeded_cons, show succeeded [] [] = [] from rfl, List.append_nil] at hone
        refine ⟨(ioctl_lists c d).mp hmeets, fun p hp => ?_⟩
        obtain rfl := Option.some.inj (hstep.symm.trans hp)
        refine (ih _).mp fun cs rcs t hcs hr => ?_
        have hall := h (c :: cs) ((ioctl c d).1 :: rcs) t (List.cons_prefix_cons.mpr ⟨rfl, hcs⟩)
          (run_cons.mpr ⟨_, _, _, hstep, hr, rfl⟩)
        rw [hall, succeeded_cons, store_append, hmeets]
      · rintro ⟨hmeets, hnext⟩ cs rcs t hcs hr
        rcases cs with - | ⟨c', cs⟩
        · obtain ⟨rfl, rfl⟩ := Prod.mk.inj (Option.some.inj hr)
          rfl
        · obtain ⟨rfl, hrest⟩ := List.cons_prefix_cons.mp hcs
          obtain ⟨d', rc, rcs', h1, h2, rfl⟩ := run_cons.mp hr
          obtain ⟨rfl, rfl⟩ := Prod.mk.inj (Option.some.inj (hstep.symm.trans h1))
          have ht := (ih _).mpr (hnext _ hstep) cs rcs' t hrest h2
          rw [ht, succeeded_cons, store_append, (ioctl_lists c' d).mpr hmeets]

/-- A call with a rule that is none fails. It leaves the tables as they were just when it finds the entries
ahead of the rule as they are to be. The tables are those of the calls that succeeded all through a run
just when every call of it is such. -/
theorem mapping_atomic_iff (d : Fpga) : (∀ c, ∀ map ∈ mapOf c, ¬ ValidRule map →
      (ioctl c d).1 = -1 ∧ (ioctl c d).2.enabled = d.enabled ∧
        ((ioctl c d).2.lists = d.lists ↔ ∀ w ∈ before (kindOf c) map, d.lists w.1 = w.2)) ∧
    ∀ calls, (∀ cs rcs t, cs <+: calls → run step d cs = some (t, rcs) →
        t.lists = store d.lists (succeeded cs rcs)) ↔ Guarded step Meets d calls := by
  refine ⟨fun c map hmap hrule => ?_, fun calls => tables_of_run calls d⟩
  have hk := kind_apart c
  obtain ⟨hrc, hwrote⟩ := set_invalid hk hrule d
  rw [ioctl_eq, hmap]
  refine ⟨hrc, hwrote.enabled, ?_⟩
  rw [hwrote.lists]
  exact store_eq_self (before_nodup hk map)

def blank : Fpga := ⟨FPGA_VERSION_LP, ⟨0, 0, 0, 0, 0, 0⟩, fun _ => (0, 0), ⟨0, 0, 0, 0⟩, fun _ => 0⟩

def noRule : SdhE1userMap := ⟨0, 1, 0, 0, 1, 2, 3, 4, 5⟩

/-- A call without a rule fails, and another user has the entry. -/
theorem noRule_written : ¬ ∀ (c : Call) (d : Fpga), ∀ map ∈ mapOf c, ¬ ValidRule map →
    (ioctl c d).1 = -1 ∧ (ioctl c d).2.lists = d.lists ∧ (ioctl c d).2.enabled = d.enabled := by
  intro h
  have hlists := (h (.e1user (some noRule)) blank noRule rfl (by decide)).2.1
  have hentry := congrFun hlists (LIST_TYPE_LP_E1USER, 0, 1)
  exact absurd hentry (by decide)

end OiAmc.SdhMapping

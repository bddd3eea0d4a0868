import OiAmc.NmServer
import OiAmc.PartialMachine

namespace OiAmc.NmStore

open KeyedList NmComponent NmGlb PartialMachine

/-- What a board reports of its components: counts and the octets of the records. -/
inductive Report
  | e1phy (phycnt pcnt : UInt8) (records : List UInt8)
  | fpgaInfo (idTypes : List (UInt8 × UInt8))
  | fpga (flag : FpgaData) (id type pcnt : UInt8) (records : List UInt8)
  | switch (pcnt : UInt8) (records : List UInt8)
  deriving DecidableEq, Repr

def Report.kind : Report → Kind
  | .e1phy .. => .e1phy
  | .fpgaInfo _ => .fpgaInfo
  | .fpga flag id type _ _ => .fpga flag id type
  | .switch .. => .switch

def Report.module : Report → UInt8
  | .e1phy .. => nmModuleE1phy
  | .fpgaInfo _ | .fpga .. => nmModuleFpga
  | .switch .. => nmModuleSwitch

def Report.cmd : Report → UInt8
  | .e1phy .. => nmCmdGetE1phyStatus
  | .fpgaInfo _ => nmCmdGetFpgaInfo
  | .fpga .status .. => nmCmdGetFpgaStatus
  | .fpga .stat .. => nmCmdGetFpgaStat
  | .fpga .fstat .. => nmCmdGetFpgaFlowStat
  | .switch .. => nmCmdGetSwPortStatus

def idTypeOctets (idTypes : List (UInt8 × UInt8)) : List UInt8 :=
  idTypes.flatMap fun p => [p.1, p.2]

def Report.data : Report → List UInt8
  | .e1phy phycnt pcnt records => phycnt :: pcnt :: records
  | .fpgaInfo idTypes => UInt8.ofNat idTypes.length :: idTypeOctets idTypes
  | .fpga _ id type pcnt records => id :: type :: pcnt :: records
  | .switch pcnt records => pcnt :: records

def Report.WellFormed : Report → Prop
  | .e1phy phycnt pcnt records => records.length = phycnt.toNat * pcnt.toNat * nmPortSize
  | .fpgaInfo idTypes => idTypes.length ≤ 255
  | .fpga flag _ _ pcnt records => records.length = pcnt.toNat * flag.size
  | .switch pcnt records => records.length = pcnt.toNat * swPortStatusSize

instance : DecidablePred Report.WellFormed
  | .e1phy _ _ _ => inferInstanceAs (Decidable (_ = _))
  | .fpgaInfo _ => inferInstanceAs (Decidable (_ ≤ _))
  | .fpga _ _ _ _ _ => inferInstanceAs (Decidable (_ = _))
  | .switch _ _ => inferInstanceAs (Decidable (_ = _))

inductive Act
  | openComp (allocs : Allocs) (comp : UInt32)
  | report (allocs : Allocs) (r : Report)
  | query (alloc : Bool) (lki : NmLkaddrInfo) (kind : Kind)

inductive Event
  | opened
  | reported (r : Report)
  | answered (lki : NmLkaddrInfo) (kind : Kind) (reply : Option NmData)
  deriving DecidableEq, Repr

def step (ctl : NmComponentCtl) : Act → Option (NmComponentCtl × Event)
  | .openComp allocs comp => some (nmComponentOpenComp allocs ctl comp, .opened)
  | .report allocs r =>
      (nmComponentLprocess allocs ctl r.module r.cmd r.data).map fun ctl => (ctl, .reported r)
  | .query alloc lki kind =>
      (getPkt alloc ctl lki kind).map fun reply => (ctl, .answered lki kind reply)

/-- The handle for a kind of data is open, and data of an FPGA is about a registered one. -/
def Has (ctl : NmComponentCtl) : Kind → Prop
  | .e1phy => ctl.e1phy.isSome
  | .fpgaInfo => ctl.fpga.isSome
  | .fpga _ id type => ∃ fpga, ctl.fpga = some fpga ∧
      (lookup FpgaComponent.idType (id, type) fpga.lsthd).isSome
  | .switch => ctl.sw.isSome

def Proper (ctl : NmComponentCtl) : Act → Prop
  | .report _ r => r.WellFormed ∧ Has ctl r.kind
  | .openComp .. | .query .. => True

/-- The counts of the E1 phys do not change, the ids and types that are registered are reported
again, and the octets from the id on read as the count and the records of the data. -/
def Right (ctl : NmComponentCtl) : Report → Prop
  | .e1phy phycnt pcnt _ => ∀ e1hd, ctl.e1phy = some e1hd → e1hd.data.isSome →
      e1hd.phycnt = phycnt ∧ e1hd.pcnt = pcnt
  | .fpgaInfo idTypes => idTypes.Nodup ∧ ∀ fpga, ctl.fpga = some fpga →
      ∀ entry ∈ fpga.lsthd, entry.idType ∈ idTypes
  | .fpga flag id type pcnt records =>
      id = pcnt ∧ (type :: pcnt :: records).take (pcnt.toNat * flag.size) = records
  | .switch .. => True

def Fits (ctl : NmComponentCtl) : Act → Prop
  | .report allocs r => (∀ i, allocs.data i = true) ∧ Right ctl r
  | .query alloc _ _ => alloc = true
  | .openComp .. => True

def Event.reported? : Event → Option Report
  | .reported r => some r
  | _ => none

def lastReport (es : List Event) (kind : Kind) : Option Report :=
  lookup Report.kind kind (es.filterMap Event.reported?).reverse

def Answers (lki : NmLkaddrInfo) : Report → NmData → Prop
  | .e1phy phycnt pcnt records, reply =>
      reply = ⟨6 + records.length, NmLkaddrInfo.octets lki ++ phycnt :: pcnt :: records⟩
  | .fpgaInfo idTypes, reply => ∃ idTypes', idTypes'.Perm idTypes ∧
      reply = ⟨5 + idTypes.length * 2,
        NmLkaddrInfo.octets lki ++ UInt8.ofNat idTypes.length :: idTypeOctets idTypes'⟩
  | .fpga _ id type pcnt records, reply =>
      reply = ⟨7 + records.length, NmLkaddrInfo.octets lki ++ id :: type :: pcnt :: records⟩
  | .switch pcnt records, reply =>
      reply = ⟨5 + records.length, NmLkaddrInfo.octets lki ++ pcnt :: records⟩

def Answered (es : List Event) : Prop :=
  ∀ as lki kind reply bs, es = as ++ .answered lki kind reply :: bs →
    ∀ r, lastReport as kind = some r → ∃ data, reply = some data ∧ Answers lki r data

variable {ctl : NmComponentCtl} {es : List Event} {r : Report} {kind : Kind} {size : Nat}
  {block : Block} {fpga : FpgaComponentCtl} {allocs : Allocs} {lki : NmLkaddrInfo}

theorem lastReport_reported (es : List Event) (r : Report) (kind : Kind) :
    lastReport (es ++ [.reported r]) kind = if r.kind = kind then some r else lastReport es kind := by
  rw [lastReport, List.filterMap_append, List.reverse_append]
  exact lookup_cons

theorem lastReport_quiet {e : Event} (h : e.reported? = none) (es : List Event) (kind : Kind) :
    lastReport (es ++ [e]) kind = lastReport es kind := by
  have hnone : [e].filterMap Event.reported? = [] := List.filterMap_cons_none h
  rw [lastReport, List.filterMap_append, hnone, List.append_nil, lastReport]

def heard (last : Kind → Option Report) (r : Report) (kind : Kind) : Option Report :=
  if r.kind = kind then some r else last kind

theorem heard_self (last : Kind → Option Report) (r : Report) : heard last r r.kind = some r :=
  if_pos rfl

theorem heard_other (last : Kind → Option Report) (h : r.kind ≠ kind) :
    heard last r kind = last kind := if_neg h

def Stores (size : Nat) (block : Block) : Option Report → Prop
  | none => block = ⟨0, none⟩
  | some (.fpga _ _ _ pcnt records) | some (.switch pcnt records) =>
      block = ⟨pcnt, some records⟩ ∧ records.length = pcnt.toNat * size
  | some _ => False

def StoresE1phy (e1hd : NmE1phyComponent) : Option Report → Prop
  | none => e1hd = nmE1phyOpen
  | some (.e1phy phycnt pcnt records) => e1hd = ⟨phycnt, pcnt, some records⟩ ∧
      records.length = phycnt.toNat * pcnt.toNat * nmPortSize
  | some _ => False

structure Registered (fpga : FpgaComponentCtl) (last : Kind → Option Report) : Prop where
  cnt : fpga.cnt = fpga.lsthd.length
  apart : (fpga.lsthd.map FpgaComponent.idType).Nodup
  stores : ∀ entry ∈ fpga.lsthd, ∀ flag : FpgaData,
    Stores flag.size (entry.block flag) (last (.fpga flag entry.id entry.type))
  rest : ∀ flag id type, (id, type) ∉ fpga.lsthd.map FpgaComponent.idType →
    last (.fpga flag id type) = none
  info : ∀ r, last .fpgaInfo = some r → ∃ idTypes, r = .fpgaInfo idTypes ∧
    (fpga.lsthd.map FpgaComponent.idType).Perm idTypes ∧ idTypes.length ≤ 255

structure Holds (ctl : NmComponentCtl) (last : Kind → Option Report) : Prop where
  kinds : ∀ kind r, last kind = some r → r.kind = kind
  e1phy : ∀ e1hd, ctl.e1phy = some e1hd → StoresE1phy e1hd (last .e1phy)
  noE1phy : ctl.e1phy = none → last .e1phy = none
  fpga : ∀ fpga, ctl.fpga = some fpga → Registered fpga last
  noFpga : ctl.fpga = none → last .fpgaInfo = none ∧ ∀ flag id type, last (.fpga flag id type) = none
  sw : ∀ sw, ctl.sw = some sw → Stores swPortStatusSize sw (last .switch)
  noSw : ctl.sw = none → last .switch = none

theorem memcpyTo_all {old da : List UInt8} {len : Nat} (hold : old.length = len)
    (hda : len ≤ da.length) : memcpyTo old da len = some (da.take len) := by
  rw [memcpyTo, if_pos (Nat.le_of_eq hold.symm), memcpy, if_pos hda, Option.map_some,
    List.drop_of_length_le (Nat.le_of_eq hold), List.append_nil]

theorem memcpy_all (records : List UInt8) : memcpy records records.length = some records := by
  rw [memcpy, if_pos (Nat.le_refl _), List.take_length]

theorem stores_add {last : Option Report} (h : Stores size block last) {pcnt : UInt8}
    {da records : List UInt8} (hda : pcnt.toNat * size ≤ da.length)
    (hrecords : da.take (pcnt.toNat * size) = records) :
    block.add size true pcnt da = some ⟨pcnt, some records⟩ := by
  have hnew : (if true then (memcpy da (pcnt.toNat * size)).map fun data => ⟨pcnt, some data⟩
      else some ⟨pcnt, none⟩ : Option Block) = some ⟨pcnt, some records⟩ := by
    rw [if_pos rfl, memcpy, if_pos hda, hrecords, Option.map_some]
  rw [Block.add]
  by_cases hpcnt : block.pcnt = pcnt
  · rw [if_pos hpcnt]
    cases hdata : block.data with
    | none => exact hnew
    | some old =>
        have hold : old.length = pcnt.toNat * size := by
          rcases last with _ | ⟨_ | _ | ⟨_, _, _, pcnt', records'⟩ | ⟨pcnt', records'⟩⟩
          · rw [show block = ⟨0, none⟩ from h] at hdata
            cases hdata
          · exact h.elim
          · exact h.elim
          all_goals
            obtain ⟨hblock, hlen⟩ := h
            rw [hblock] at hdata hpcnt
            cases hdata
            rw [hlen, show pcnt' = pcnt from hpcnt]
        dsimp only
        rw [memcpyTo_all hold hda, hrecords, Option.map_some, ← hpcnt]
  · rw [if_neg hpcnt]
    exact hnew

theorem e1phy_add {e1hd : NmE1phyComponent} {last : Option Report} (h : StoresE1phy e1hd last)
    {phycnt pcnt : UInt8} {records : List UInt8}
    (hlen : records.length = phycnt.toNat * pcnt.toNat * nmPortSize)
    (hsame : e1hd.data.isSome → e1hd.phycnt = phycnt ∧ e1hd.pcnt = pcnt) :
    nmE1phyAddData true e1hd phycnt pcnt records = some ⟨phycnt, pcnt, some records⟩ := by
  rw [nmE1phyAddData]
  cases hdata : e1hd.data with
  | none =>
      dsimp only
      rw [if_pos rfl, ← hlen, memcpy_all, Option.map_some]
  | some old =>
      have hcounts := hsame (by rw [hdata]; rfl)
      have hold : old.length = phycnt.toNat * pcnt.toNat * nmPortSize := by
        rcases last with _ | ⟨phycnt', pcnt', records'⟩ | _ | _ | _
        · rw [show e1hd = nmE1phyOpen from h] at hdata
          cases hdata
        · obtain ⟨he, hlen'⟩ := h
          rw [he] at hdata hcounts
          cases hdata
          obtain ⟨rfl, rfl⟩ : phycnt' = phycnt ∧ pcnt' = pcnt := hcounts
          exact hlen'
        all_goals exact h.elim
      dsimp only
      rw [if_pos hcounts, memcpyTo_all hold (Nat.le_of_eq hlen.symm), ← hlen, List.take_length, Option.map_some,
        ← hcounts.1, ← hcounts.2]

theorem lookup_idType (h : (fpga.lsthd.map FpgaComponent.idType).Nodup) {entry : FpgaComponent}
    (hentry : entry ∈ fpga.lsthd) :
    lookup FpgaComponent.idType (entry.id, entry.type) fpga.lsthd = some entry :=
  lookup_eq h hentry

@[simp] theorem idType_setBlock (entry : FpgaComponent) (block : Block) (flag : FpgaData) :
    (entry.setBlock block flag).idType = entry.idType := by
  cases flag <;> rfl

theorem block_setBlock (entry : FpgaComponent) (block : Block) (flag flag' : FpgaData) :
    (entry.setBlock block flag).block flag' = if flag' = flag then block else entry.block flag' := by
  cases flag <;> cases flag' <;> rfl

theorem fpga_kind_ne {flag flag' : FpgaData} {id id' type type' : UInt8} (pcnt : UInt8)
    (records : List UInt8) (h : ¬ (flag = flag' ∧ id = id' ∧ type = type')) :
    (Report.fpga flag id type pcnt records).kind ≠ .fpga flag' id' type' :=
  fun he => h ((Kind.fpga.injEq ..).mp he)

theorem registered_fpga {last : Kind → Option Report} (h : Registered fpga last) {flag : FpgaData}
    {id type pcnt : UInt8} {records : List UInt8}
    (hlen : records.length = pcnt.toNat * flag.size) (hid : id = pcnt)
    (hrecords : (type :: pcnt :: records).take (pcnt.toNat * flag.size) = records)
    (hhas : (lookup FpgaComponent.idType (id, type) fpga.lsthd).isSome) (hall : ∀ i, allocs.data i = true) :
    ∃ fpga', addFpgaData allocs fpga (id :: type :: pcnt :: records) flag = some fpga' ∧
      Registered fpga' (heard last (.fpga flag id type pcnt records)) := by
  obtain ⟨entry, hentry⟩ := Option.isSome_iff_exists.mp hhas
  obtain ⟨hmem, hkey⟩ := lookup_some hentry
  obtain ⟨rfl, rfl⟩ := Prod.mk.inj hkey
  have hda : pcnt.toNat * flag.size ≤ (entry.type :: pcnt :: records).length := by
    rw [List.length_cons, List.length_cons, hlen]
    omega
  have hadd := stores_add (h.stores entry hmem flag) hda hrecords
  refine ⟨{ fpga with
    lsthd := alter FpgaComponent.idType (entry.id, entry.type)
      (fun entry => entry.setBlock ⟨pcnt, some records⟩ flag) fpga.lsthd }, ?_, ?_⟩
  · rw [addFpgaData, nmComponentLprocDecodeIdType, Option.bind_some, nmFpgaAddData, hentry]
    simp only [List.head?_cons, List.tail_cons, Option.bind_eq_bind, Option.bind_some, hall, hid, hadd]
    rfl
  · have hkeys : (alter FpgaComponent.idType (entry.id, entry.type)
        (fun entry => entry.setBlock ⟨pcnt, some records⟩ flag) fpga.lsthd).map
          FpgaComponent.idType = fpga.lsthd.map FpgaComponent.idType :=
      map_alter fun e _ hk => (idType_setBlock e _ _).trans hk
    refine ⟨?_, ?_, fun e he flag' => ?_, fun flag' id' type' hout => ?_, fun r hr => ?_⟩
    · rw [length_alter]
      exact h.cnt
    · rw [hkeys]
      exact h.apart
    · rcases mem_alter.mp he with ⟨hold, hne⟩ | ⟨old, hold, hk, rfl⟩
      · have hne' : ¬ (flag = flag' ∧ entry.id = e.id ∧ entry.type = e.type) := fun heq =>
          hne (Prod.ext heq.2.1.symm heq.2.2.symm)
        rw [heard_other last (fpga_kind_ne pcnt records hne')]
        exact h.stores e hold flag'
      · obtain rfl : old = entry :=
          List.inj_on_of_nodup_map h.apart hold hmem hk
        have hname : (old.setBlock ⟨pcnt, some records⟩ flag).id = old.id ∧
            (old.setBlock ⟨pcnt, some records⟩ flag).type = old.type :=
          Prod.mk.inj (idType_setBlock old _ flag)
        rw [block_setBlock, hname.1, hname.2]
        by_cases hflag : flag' = flag
        · subst hflag
          have hself := heard_self last (.fpga flag' old.id old.type pcnt records)
          rw [if_pos rfl, show heard last _ (.fpga flag' old.id old.type) = _ from hself]
          exact ⟨rfl, hlen⟩
        · rw [if_neg hflag, heard_other last (fpga_kind_ne pcnt records fun he => hflag he.1.symm)]
          exact h.stores old hold flag'
    · rw [hkeys] at hout
      have hne : ¬ (flag = flag' ∧ entry.id = id' ∧ entry.type = type') := by
        rintro ⟨-, rfl, rfl⟩
        exact hout (List.mem_map_of_mem hmem)
      rw [heard_other last (fpga_kind_ne pcnt records hne)]
      exact h.rest flag' id' type' hout
    · rw [hkeys]
      exact h.info r hr

theorem addIdType_registered {last : Kind → Option Report} (h : Registered fpga last)
    (hinfo : last .fpgaInfo = none) (id type : UInt8) :
    Registered (nmFpgaAddIdType true fpga id type) last ∧
      ∀ p, p ∈ (nmFpgaAddIdType true fpga id type).lsthd.map FpgaComponent.idType ↔
        p = (id, type) ∨ p ∈ fpga.lsthd.map FpgaComponent.idType := by
  rw [nmFpgaAddIdType]
  cases hfind : lookup FpgaComponent.idType (id, type) fpga.lsthd with
  | some entry =>
      refine ⟨h, fun p => ⟨Or.inr, ?_⟩⟩
      rintro (rfl | hp)
      · exact lookup_isSome_iff.mp (by rw [hfind]; rfl)
      · exact hp
  | none =>
      have hnew := lookup_none_iff.mp hfind
      simp only [if_true]
      refine ⟨⟨?_, ?_, fun entry hentry flag => ?_, fun flag id' type' hout => ?_, fun r hr => ?_⟩,
        fun p => List.mem_cons⟩
      · rw [List.length_cons, h.cnt]
      · exact List.nodup_cons.mpr ⟨hnew, h.apart⟩
      · rcases List.mem_cons.mp hentry with rfl | hold
        · rw [h.rest flag id type hnew]
          cases flag <;> rfl
        · exact h.stores entry hold flag
      · exact h.rest flag id' type' fun hmem => hout (List.mem_cons_of_mem _ hmem)
      · rw [hinfo] at hr
        cases hr

theorem addIdTypes_registered {alloc : Nat → Bool} (hall : ∀ i, alloc i = true)
    {last : Kind → Option Report} (hinfo : last .fpgaInfo = none)
    (idTypes : List (UInt8 × UInt8)) (h : Registered fpga last) :
    ∃ fpga', addIdTypes alloc idTypes.length fpga (idTypeOctets idTypes) = some fpga' ∧
      Registered fpga' last ∧ ∀ p, p ∈ fpga'.lsthd.map FpgaComponent.idType ↔
        p ∈ idTypes ∨ p ∈ fpga.lsthd.map FpgaComponent.idType := by
  induction idTypes generalizing fpga with
  | nil => exact ⟨fpga, rfl, h, fun p => by simp⟩
  | cons p idTypes ih =>
      obtain ⟨hreg, hmem⟩ := addIdType_registered h hinfo p.1 p.2
      obtain ⟨fpga', hadd, hreg', hmem'⟩ := ih hreg
      refine ⟨fpga', ?_, hreg', fun q => ?_⟩
      · rw [List.length_cons, idTypeOctets, List.flatMap_cons, ← idTypeOctets]
        simp only [List.cons_append, List.nil_append, addIdTypes, hall]
        exact hadd
      · rw [hmem', hmem, List.mem_cons]
        exact or_left_comm.trans or_assoc.symm

theorem Registered.forget {last : Kind → Option Report} (h : Registered fpga last) :
    Registered fpga fun kind => if kind = .fpgaInfo then none else last kind where
  cnt := h.cnt
  apart := h.apart
  stores entry hentry flag := by
    rw [if_neg (by simp)]
    exact h.stores entry hentry flag
  rest flag id type hout := by
    rw [if_neg (by simp)]
    exact h.rest flag id type hout
  info r hr := by
    rw [if_pos rfl] at hr
    cases hr

theorem registered_info {last : Kind → Option Report} (h : Registered fpga last)
    {idTypes : List (UInt8 × UInt8)} (hlen : idTypes.length ≤ 255) (hnodup : idTypes.Nodup)
    (hold : ∀ entry ∈ fpga.lsthd, entry.idType ∈ idTypes) (hall : ∀ i, allocs.data i = true) :
    ∃ fpga', nmComponentLprocFpgaInfo allocs fpga
        (UInt8.ofNat idTypes.length :: idTypeOctets idTypes) = some fpga' ∧
      Registered fpga' (heard last (.fpgaInfo idTypes)) := by
  obtain ⟨fpga', hadd, hreg, hmem⟩ := addIdTypes_registered hall (if_pos rfl) idTypes h.forget
  have hcnt : (UInt8.ofNat idTypes.length).toNat = idTypes.length :=
    UInt8.toNat_ofNat_of_lt' (Nat.lt_succ_of_le hlen)
  have hperm : (fpga'.lsthd.map FpgaComponent.idType).Perm idTypes := by
    refine (List.perm_ext_iff_of_nodup hreg.apart hnodup).mpr fun p => ?_
    rw [hmem]
    constructor
    · rintro (hp | hp)
      · exact hp
      · obtain ⟨entry, hentry, rfl⟩ := List.mem_map.mp hp
        exact hold entry hentry
    · exact Or.inl
  refine ⟨fpga', by rw [nmComponentLprocFpgaInfo, hcnt, hadd], hreg.cnt, hreg.apart,
    fun entry hentry flag => ?_, fun flag id type hout => ?_, fun r hr => ?_⟩
  · have hstores := hreg.stores entry hentry flag
    rw [if_neg (by simp)] at hstores
    rw [heard_other last (r := .fpgaInfo idTypes) (by simp [Report.kind])]
    exact hstores
  · have hrest := hreg.rest flag id type hout
    rw [if_neg (by simp)] at hrest
    rw [heard_other last (r := .fpgaInfo idTypes) (by simp [Report.kind])]
    exact hrest
  · have hself := heard_self last (.fpgaInfo idTypes)
    obtain rfl := Option.some.inj (hr.symm.trans hself)
    exact ⟨idTypes, rfl, hperm, hlen⟩

theorem Registered.congr {last last' : Kind → Option Report} (h : Registered fpga last)
    (hdata : ∀ flag id type, last' (.fpga flag id type) = last (.fpga flag id type))
    (hinfo : last' .fpgaInfo = last .fpgaInfo) : Registered fpga last' where
  cnt := h.cnt
  apart := h.apart
  stores entry hentry flag := by
    rw [hdata]
    exact h.stores entry hentry flag
  rest flag id type hout := (hdata flag id type).trans (h.rest flag id type hout)
  info r hr := h.info r (hinfo.symm.trans hr)

theorem heard_kinds {last : Kind → Option Report} (h : ∀ kind r, last kind = some r → r.kind = kind)
    (r : Report) (kind : Kind) (r' : Report) (hr : heard last r kind = some r') : r'.kind = kind := by
  by_cases hk : r.kind = kind
  · rw [heard, if_pos hk] at hr
    exact Option.some.inj hr ▸ hk
  · exact h kind r' ((heard_other last hk).symm.trans hr)

theorem e1phy_holds {last : Kind → Option Report} (h : Holds ctl last) {phycnt pcnt : UInt8}
    {records : List UInt8} (hlen : records.length = phycnt.toNat * pcnt.toNat * nmPortSize) :
    Holds { ctl with e1phy := some ⟨phycnt, pcnt, some records⟩ }
      (heard last (.e1phy phycnt pcnt records)) where
  kinds := heard_kinds h.kinds _
  e1phy e1hd he := by
    obtain rfl := Option.some.inj he
    exact ⟨rfl, hlen⟩
  noE1phy he := by cases he
  fpga fpga hf := (h.fpga fpga hf).congr (fun _ _ _ => rfl) rfl
  noFpga hf := h.noFpga hf
  sw sw hs := h.sw sw hs
  noSw hs := h.noSw hs

theorem switch_holds {last : Kind → Option Report} (h : Holds ctl last) {pcnt : UInt8}
    {records : List UInt8} (hlen : records.length = pcnt.toNat * swPortStatusSize) :
    Holds { ctl with sw := some ⟨pcnt, some records⟩ } (heard last (.switch pcnt records)) where
  kinds := heard_kinds h.kinds _
  e1phy e1hd he := h.e1phy e1hd he
  noE1phy he := h.noE1phy he
  fpga fpga hf := (h.fpga fpga hf).congr (fun _ _ _ => rfl) rfl
  noFpga hf := h.noFpga hf
  sw sw hs := by
    obtain rfl := Option.some.inj hs
    exact ⟨rfl, hlen⟩
  noSw hs := by cases hs

theorem fpga_holds {last : Kind → Option Report} (h : Holds ctl last)
    (hr : r.kind ≠ .e1phy ∧ r.kind ≠ .switch) (hfpga : Registered fpga (heard last r)) :
    Holds { ctl with fpga := some fpga } (heard last r) where
  kinds := heard_kinds h.kinds _
  e1phy e1hd he := by
    rw [heard_other last hr.1]
    exact h.e1phy e1hd he
  noE1phy he := (heard_other last hr.1).trans (h.noE1phy he)
  fpga fpga hf := Option.some.inj hf ▸ hfpga
  noFpga hf := by cases hf
  sw sw hs := by
    rw [heard_other last hr.2]
    exact h.sw sw hs
  noSw hs := (heard_other last hr.2).trans (h.noSw hs)

theorem lprocFpga_data (allocs : Allocs) (hf : ctl.fpga = some fpga) {flag : FpgaData}
    {id type pcnt : UInt8} {records data : List UInt8} :
    nmComponentLprocFpga allocs ctl (Report.cmd (.fpga flag id type pcnt records)) data =
      (addFpgaData allocs fpga data flag).map fun fpga => { ctl with fpga := some fpga } := by
  rw [nmComponentLprocFpga, hf]
  cases flag <;> rfl

theorem report_holds {last : Kind → Option Report} (h : Holds ctl last) (hwf : r.WellFormed)
    (hhas : Has ctl r.kind) (hall : ∀ i, allocs.data i = true) (hright : Right ctl r) :
    ∃ ctl', nmComponentLprocess allocs ctl r.module r.cmd r.data = some ctl' ∧
      Holds ctl' (heard last r) := by
  cases r with
  | e1phy phycnt pcnt records =>
      obtain ⟨e1hd, he⟩ := Option.isSome_iff_exists.mp hhas
      have hadd := e1phy_add (h.e1phy e1hd he) hwf (hright e1hd he)
      refine ⟨_, ?_, e1phy_holds h hwf⟩
      change nmComponentLprocess allocs ctl nmModuleE1phy nmCmdGetE1phyStatus
        (phycnt :: pcnt :: records) = _
      rw [nmComponentLprocess, if_pos rfl, nmComponentLprocE1phy, he]
      dsimp only
      rw [if_pos rfl, nmComponentLprocE1phyStatus, hall, hadd, Option.map_some]
  | fpgaInfo idTypes =>
      obtain ⟨fpga, hf⟩ := Option.isSome_iff_exists.mp hhas
      obtain ⟨fpga', hadd, hreg⟩ := registered_info (h.fpga fpga hf) hwf hright.1
        (hright.2 fpga hf) hall
      refine ⟨_, ?_, fpga_holds h ⟨by simp [Report.kind], by simp [Report.kind]⟩ hreg⟩
      change nmComponentLprocess allocs ctl nmModuleFpga nmCmdGetFpgaInfo
        (UInt8.ofNat idTypes.length :: idTypeOctets idTypes) = _
      rw [nmComponentLprocess, if_neg (by decide), if_pos rfl, nmComponentLprocFpga, hf]
      dsimp only
      rw [if_pos rfl, hadd, Option.map_some]
  | fpga flag id type pcnt records =>
      obtain ⟨fpga, hf, hreg⟩ := hhas
      obtain ⟨fpga', hadd, hreg'⟩ := registered_fpga (h.fpga fpga hf) hwf hright.1 hright.2 hreg
        hall
      refine ⟨_, ?_, fpga_holds h ⟨by simp [Report.kind], by simp [Report.kind]⟩ hreg'⟩
      change nmComponentLprocess allocs ctl nmModuleFpga
        (Report.cmd (.fpga flag id type pcnt records)) (id :: type :: pcnt :: records) = _
      rw [nmComponentLprocess, if_neg (by decide), if_pos rfl, lprocFpga_data allocs hf, hadd,
        Option.map_some]
  | switch pcnt records =>
      obtain ⟨sw, hs⟩ := Option.isSome_iff_exists.mp hhas
      have hadd : sw.add swPortStatusSize true pcnt records = some ⟨pcnt, some records⟩ :=
        stores_add (h.sw sw hs) (Nat.le_of_eq hwf.symm) (List.take_of_length_le (Nat.le_of_eq hwf))
      refine ⟨_, ?_, switch_holds h hwf⟩
      change nmComponentLprocess allocs ctl nmModuleSwitch nmCmdGetSwPortStatus (pcnt :: records) = _
      rw [nmComponentLprocess, if_neg (by decide), if_neg (by decide), if_pos rfl,
        nmComponentLprocSwitch, if_pos rfl, hs]
      dsimp only
      rw [nmSwitchAddData, hall]
      simp only [List.head?_cons, List.tail_cons, Option.bind_eq_bind, Option.bind_some, hadd,
        Option.map_some]

theorem opened_cases {α : Type} (comp flag : UInt32) (alloc : Bool) (fresh : α)
    (handle : Option α) : opened comp flag alloc fresh handle = handle ∨
      handle = none ∧ opened comp flag alloc fresh handle = some fresh := by
  rw [opened]
  split
  · cases handle <;> cases alloc <;> simp
  · exact Or.inl rfl

theorem openComp_cases (allocs : Allocs) (ctl : NmComponentCtl) (comp : UInt32) :
    let ctl' := nmComponentOpenComp allocs ctl comp
    (ctl'.e1phy = ctl.e1phy ∨ ctl.e1phy = none ∧ ctl'.e1phy = some nmE1phyOpen) ∧
      (ctl'.fpga = ctl.fpga ∨ ctl.fpga = none ∧ ctl'.fpga = some nmFpgaOpen) ∧
      (ctl'.sw = ctl.sw ∨ ctl.sw = none ∧ ctl'.sw = some nmSwitchOpen) := by
  have he := opened_cases comp nmComponentE1phy allocs.e1phy nmE1phyOpen ctl.e1phy
  have hf := opened_cases comp nmComponentFpga allocs.fpga nmFpgaOpen ctl.fpga
  have hs := opened_cases comp nmComponentSwitch allocs.sw nmSwitchOpen ctl.sw
  dsimp only
  rw [nmComponentOpenComp]
  dsimp only
  split
  · exact ⟨he, Or.inl rfl, Or.inl rfl⟩
  · split
    · exact ⟨he, hf, Or.inl rfl⟩
    · exact ⟨he, hf, hs⟩

theorem registered_open {last : Kind → Option Report}
    (h : last .fpgaInfo = none ∧ ∀ flag id type, last (.fpga flag id type) = none) :
    Registered nmFpgaOpen last where
  cnt := rfl
  apart := List.nodup_nil
  stores entry hentry := absurd hentry List.not_mem_nil
  rest flag id type _ := h.2 flag id type
  info r hr := by
    rw [h.1] at hr
    cases hr

theorem openComp_holds {last : Kind → Option Report} (h : Holds ctl last) (comp : UInt32) :
    Holds (nmComponentOpenComp allocs ctl comp) last := by
  obtain ⟨he, hf, hs⟩ := openComp_cases allocs ctl comp
  refine ⟨h.kinds, fun e1hd he' => ?_, fun he' => ?_, fun fpga hf' => ?_, fun hf' => ?_,
    fun sw hs' => ?_, fun hs' => ?_⟩
  · rcases he with he | ⟨hnone, he⟩
    · exact h.e1phy e1hd (he ▸ he')
    · obtain rfl := Option.some.inj (he.symm.trans he')
      rw [h.noE1phy hnone]
      rfl
  · rcases he with he | ⟨hnone, -⟩
    · exact h.noE1phy (he ▸ he')
    · exact h.noE1phy hnone
  · rcases hf with hf | ⟨hnone, hf⟩
    · exact h.fpga fpga (hf ▸ hf')
    · obtain rfl := Option.some.inj (hf.symm.trans hf')
      exact registered_open (h.noFpga hnone)
  · rcases hf with hf | ⟨hnone, -⟩
    · exact h.noFpga (hf ▸ hf')
    · exact h.noFpga hnone
  · rcases hs with hs | ⟨hnone, hs⟩
    · exact h.sw sw (hs ▸ hs')
    · obtain rfl := Option.some.inj (hs.symm.trans hs')
      rw [h.noSw hnone]
      rfl
  · rcases hs with hs | ⟨hnone, -⟩
    · exact h.noSw (hs ▸ hs')
    · exact h.noSw hnone

theorem nmData_full {dlen : Nat} {octets : List UInt8} (h : octets.length = dlen) :
    nmData true dlen octets = some (some ⟨dlen, octets⟩) := by
  rw [nmData, if_neg (by simp), if_pos (Nat.le_of_eq h)]

theorem stores_kind {last : Option Report} (h : Stores size block last) (hr : last = some r) :
    ∃ records, block = ⟨block.pcnt, some records⟩ ∧
      records.length = block.pcnt.toNat * size ∧
      ((∃ flag id type, r = .fpga flag id type block.pcnt records) ∨
        r = .switch block.pcnt records) := by
  subst hr
  cases r with
  | e1phy | fpgaInfo => exact h.elim
  | fpga flag id type pcnt records =>
      obtain ⟨rfl, hlen⟩ := h
      exact ⟨records, rfl, hlen, Or.inl ⟨flag, id, type, rfl⟩⟩
  | switch pcnt records =>
      obtain ⟨rfl, hlen⟩ := h
      exact ⟨records, rfl, hlen, Or.inr rfl⟩

theorem memcpyFrom_all {records : List UInt8} {len : Nat} (h : records.length = len) :
    memcpyFrom (some records) len = some records := by
  rw [← h]
  exact memcpy_all records

theorem e1phy_answers {last : Option Report} {e1hd : NmE1phyComponent}
    (h : StoresE1phy e1hd last) (hr : last = some r) :
    ∃ data, nmE1phyGetDataPkt true e1hd lki = some (some data) ∧ Answers lki r data := by
  subst hr
  cases r with
  | e1phy phycnt pcnt records =>
      obtain ⟨rfl, hlen⟩ := h
      refine ⟨_, ?_, rfl⟩
      rw [nmE1phyGetDataPkt, if_neg (by simp), memcpyFrom_all hlen, Option.bind_some, hlen]
      rw [nmData_full (by simp [NmLkaddrInfo.octets, hlen]; omega)]
  | _ => exact h.elim

theorem sw_answers {last : Option Report} (h : Stores swPortStatusSize block last)
    (hr : last = some r) (hkind : r.kind = .switch) :
    ∃ data, nmSwGetStatusPkt true block lki = some (some data) ∧ Answers lki r data := by
  obtain ⟨records, hblock, hlen, ⟨_, _, _, rfl⟩ | rfl⟩ := stores_kind h hr
  · cases hkind
  · refine ⟨_, ?_, rfl⟩
    rw [nmSwGetStatusPkt, if_neg (by simp), hblock, memcpyFrom_all hlen, Option.bind_some, hlen,
      nmData_full (by simp [NmLkaddrInfo.octets, hlen]; omega)]

theorem fpga_answers {last : Kind → Option Report} (h : Registered fpga last) {flag : FpgaData}
    {id type : UInt8} (hr : last (.fpga flag id type) = some r)
    (hkind : r.kind = .fpga flag id type) :
    ∃ data, nmFpgaGetDataPkt true fpga id type lki flag = some (some data) ∧
      Answers lki r data := by
  have hin : (id, type) ∈ fpga.lsthd.map FpgaComponent.idType := by
    by_contra hout
    rw [h.rest flag id type hout] at hr
    cases hr
  obtain ⟨entry, hmem, hidType⟩ := List.mem_map.mp hin
  obtain ⟨rfl, rfl⟩ := Prod.mk.inj hidType
  obtain ⟨records, hblock, hlen, ⟨_, _, _, rfl⟩ | rfl⟩ := stores_kind (h.stores entry hmem flag) hr
  · obtain ⟨rfl, rfl, rfl⟩ := (Kind.fpga.injEq ..).mp hkind
    refine ⟨_, ?_, rfl⟩
    rw [nmFpgaGetDataPkt, lookup_idType h.apart hmem]
    dsimp only
    rw [if_neg (by simp), hblock, memcpyFrom_all hlen, Option.bind_some, hlen,
      nmData_full (by simp [NmLkaddrInfo.octets, hlen]; omega)]
  · cases hkind

theorem fpgaInfo_pkt {last : Kind → Option Report} (h : Registered fpga last)
    (lki : NmLkaddrInfo) :
    nmFpgaGetIdTypePkt true fpga lki = some (some ⟨5 + fpga.lsthd.length * 2,
      NmLkaddrInfo.octets lki ++ UInt8.ofNat fpga.lsthd.length ::
        idTypeOctets (fpga.lsthd.map FpgaComponent.idType)⟩) := by
  have hoctets : (if 0 < fpga.cnt then fpga.lsthd.flatMap fun entry => [entry.id, entry.type]
      else []) = idTypeOctets (fpga.lsthd.map FpgaComponent.idType) := by
    rw [idTypeOctets, List.flatMap_map]
    by_cases hpos : 0 < fpga.cnt
    · rw [if_pos hpos]
      rfl
    · have hnil : fpga.lsthd = [] := List.length_eq_zero_iff.mp (by rw [← h.cnt]; omega)
      rw [if_neg hpos, hnil]
      rfl
  have hlen (l : List (UInt8 × UInt8)) : (idTypeOctets l).length = l.length * 2 := by
    simp [idTypeOctets]
  rw [nmFpgaGetIdTypePkt, hoctets, h.cnt, nmData_full]
  rw [List.length_append, List.length_cons, hlen, List.length_map]
  simp only [NmLkaddrInfo.octets, List.length_cons, List.length_nil]
  omega

theorem fpgaInfo_answers {last : Kind → Option Report} (h : Registered fpga last)
    (hr : last .fpgaInfo = some r) :
    ∃ data, nmFpgaGetIdTypePkt true fpga lki = some (some data) ∧ Answers lki r data := by
  obtain ⟨idTypes, rfl, hperm, -⟩ := h.info r hr
  have hcnt : fpga.lsthd.length = idTypes.length := by
    rw [← hperm.length_eq, List.length_map]
  refine ⟨_, fpgaInfo_pkt h lki, _, hperm, ?_⟩
  rw [hcnt]

theorem query_answers {last : Kind → Option Report} (h : Holds ctl last) (lki : NmLkaddrInfo)
    (hr : last kind = some r) :
    ∃ data, getPkt true ctl lki kind = some (some data) ∧ Answers lki r data := by
  have hkind := h.kinds kind r hr
  cases kind with
  | e1phy =>
      cases he : ctl.e1phy with
      | none => rw [h.noE1phy he] at hr; cases hr
      | some e1hd =>
          rw [getPkt, he]
          exact e1phy_answers (h.e1phy e1hd he) hr
  | fpgaInfo =>
      cases hf : ctl.fpga with
      | none => rw [(h.noFpga hf).1] at hr; cases hr
      | some fpga =>
          rw [getPkt, hf]
          exact fpgaInfo_answers (h.fpga fpga hf) hr
  | fpga flag id type =>
      cases hf : ctl.fpga with
      | none => rw [(h.noFpga hf).2 flag id type] at hr; cases hr
      | some fpga =>
          rw [getPkt, hf]
          exact fpga_answers (h.fpga fpga hf) hr hkind
  | switch =>
      cases hs : ctl.sw with
      | none => rw [h.noSw hs] at hr; cases hr
      | some sw =>
          rw [getPkt, hs]
          exact sw_answers (h.sw sw hs) hr hkind

theorem stores_empty {last : Option Report} (h : Stores size block last) :
    ∃ records, memcpyFrom block.data (block.pcnt.toNat * size) = some records ∧
      records.length = block.pcnt.toNat * size := by
  cases last with
  | none =>
      obtain rfl : block = ⟨0, none⟩ := h
      have hzero : (0 : UInt8).toNat * size = 0 := Nat.zero_mul size
      exact ⟨[], by rw [memcpyFrom, if_pos hzero], hzero.symm⟩
  | some r =>
      obtain ⟨records, hblock, hlen, -⟩ := stores_kind h rfl
      rw [hblock]
      exact ⟨records, memcpyFrom_all hlen, hlen⟩

theorem query_quiet {last : Kind → Option Report} (h : Holds ctl last) (lki : NmLkaddrInfo)
    (hr : last kind = none) : ∃ reply, getPkt true ctl lki kind = some reply := by
  cases kind with
  | e1phy =>
      cases he : ctl.e1phy with
      | none => exact ⟨none, by rw [getPkt, he]⟩
      | some e1hd =>
          have hstores := h.e1phy e1hd he
          rw [hr] at hstores
          obtain rfl : e1hd = nmE1phyOpen := hstores
          rw [getPkt, he]
          exact ⟨_, rfl⟩
  | fpgaInfo =>
      cases hf : ctl.fpga with
      | none => exact ⟨none, by rw [getPkt, hf]⟩
      | some fpga =>
          rw [getPkt, hf]
          exact ⟨_, fpgaInfo_pkt (h.fpga fpga hf) lki⟩
  | fpga flag id type =>
      cases hf : ctl.fpga with
      | none => exact ⟨none, by rw [getPkt, hf]⟩
      | some fpga =>
          rw [getPkt, hf]
          dsimp only
          rw [nmFpgaGetDataPkt]
          cases hfind : lookup FpgaComponent.idType (id, type) fpga.lsthd with
          | none => exact ⟨none, rfl⟩
          | some entry =>
              obtain ⟨records, hcopy, hlen⟩ :=
                stores_empty ((h.fpga fpga hf).stores entry (lookup_some hfind).1 flag)
              dsimp only
              rw [if_neg (by simp), hcopy, Option.bind_some,
                nmData_full (by simp [NmLkaddrInfo.octets, hlen]; omega)]
              exact ⟨_, rfl⟩
  | switch =>
      cases hs : ctl.sw with
      | none => exact ⟨none, by rw [getPkt, hs]⟩
      | some sw =>
          obtain ⟨records, hcopy, hlen⟩ := stores_empty (h.sw sw hs)
          rw [getPkt, hs]
          dsimp only
          rw [nmSwGetStatusPkt, if_neg (by simp), hcopy, Option.bind_some,
            nmData_full (by simp [NmLkaddrInfo.octets, hlen]; omega)]
          exact ⟨_, rfl⟩

/-- What is held is what the events say was reported last, and replies were right. -/
structure Kept (ctl : NmComponentCtl) (es : List Event) : Prop where
  holds : Holds ctl (lastReport es)
  answered : Answered es

theorem answered_nil : Answered [] := by
  intro as lki kind reply bs he
  cases as <;> cases he

theorem answered_snoc (h : Answered es) {e : Event}
    (he : ∀ lki kind reply, e = .answered lki kind reply → ∀ r, lastReport es kind = some r →
      ∃ data, reply = some data ∧ Answers lki r data) : Answered (es ++ [e]) := by
  intro as lki kind reply bs heq
  rcases output_snoc heq with ⟨rfl, hlast⟩ | ⟨bs', hes⟩
  · exact he lki kind reply hlast.symm
  · exact h as lki kind reply bs' hes

theorem kept_open (addr : Nat) : Kept (nmComponentOpen addr) [] where
  holds := by
    refine ⟨fun kind r hr => ?_, fun e1hd he => ?_, fun _ => rfl, fun fpga hf => ?_,
      fun _ => ⟨rfl, fun _ _ _ => rfl⟩, fun sw hs => ?_, fun _ => rfl⟩
    · cases hr
    · cases he
    · cases hf
    · cases hs
  answered := answered_nil

theorem step_kept (ctl : NmComponentCtl) (es : List Event) (act : Act) (h : Kept ctl es)
    (hok : Proper ctl act ∧ Fits ctl act) :
    ∃ ctl' e, step ctl act = some (ctl', e) ∧ Kept ctl' (es ++ [e]) := by
  cases act with
  | openComp allocs comp =>
      refine ⟨_, _, rfl, ?_, answered_snoc h.answered fun _ _ _ he => by cases he⟩
      rw [funext (lastReport_quiet rfl es)]
      exact openComp_holds h.holds comp
  | report allocs r =>
      obtain ⟨⟨hwf, hhas⟩, hall, hright⟩ := hok
      obtain ⟨ctl', hstep, hholds⟩ := report_holds h.holds hwf hhas hall hright
      refine ⟨ctl', .reported r, by rw [step, hstep, Option.map_some], ?_,
        answered_snoc h.answered fun _ _ _ he => by cases he⟩
      rw [funext (lastReport_reported es r)]
      exact hholds
  | query alloc lki kind =>
      obtain rfl : alloc = true := hok.2
      have hreply : ∃ reply, getPkt true ctl lki kind = some reply ∧
          ∀ r, lastReport es kind = some r → ∃ data, reply = some data ∧ Answers lki r data := by
        cases hr : lastReport es kind with
        | none =>
            obtain ⟨reply, hget⟩ := query_quiet h.holds lki hr
            exact ⟨reply, hget, fun r he => by cases he⟩
        | some r =>
            obtain ⟨data, hget, hdata⟩ := query_answers h.holds lki hr
            refine ⟨some data, hget, fun r' he => ?_⟩
            obtain rfl := Option.some.inj he
            exact ⟨data, rfl, hdata⟩
      obtain ⟨reply, hget, hright⟩ := hreply
      refine ⟨ctl, .answered lki kind reply, by rw [step, hget, Option.map_some], ?_,
        answered_snoc h.answered fun _ _ _ he => ?_⟩
      · rw [funext (lastReport_quiet rfl es)]
        exact h.holds
      · cases he
        exact hright

/-- The component data of a board answers every query with the last report of that kind, as
long as the reports are such that the octets which are stored are theirs. -/
theorem component_answers (addr : Nat) (acts : List Act)
    (hproper : Guarded step Proper (nmComponentOpen addr) acts)
    (hfits : Guarded step Fits (nmComponentOpen addr) acts) :
    ∃ ctl es, run step (nmComponentOpen addr) acts = some (ctl, es) ∧ Answered es := by
  obtain ⟨ctl, es, hrun, h⟩ := guarded_log step_kept (kept_open addr) (guarded_and hproper hfits)
  exact ⟨ctl, es, hrun, h.answered⟩

def allocated : Allocs := ⟨true, true, true, true, fun _ => true⟩

/-- Records that read the same from two octets before their start on. -/
def storeActs : List Act :=
  [.openComp allocated 0x19, .report allocated (.fpgaInfo [(1, 2)]),
    .report allocated (.fpga .status 1 2 1 [2, 1, 2, 1, 2, 1, 2, 1, 2, 1, 2, 1, 2, 1, 2, 1, 2, 1, 2, 1]),
    .query true ⟨1, 2, 3, 4⟩ (.fpga .status 1 2)]

theorem storeActs_answers :
    ∃ ctl es, run step (nmComponentOpen 0) storeActs = some (ctl, es) ∧ Answered es := by
  refine component_answers 0 storeActs ?_ ?_
  · refine guarded_cons trivial rfl (guarded_cons ⟨by decide, rfl⟩ rfl (guarded_cons ?_ rfl
      (guarded_cons trivial rfl trivial)))
    exact ⟨by decide, _, rfl, by decide⟩
  · refine guarded_cons trivial rfl (guarded_cons ⟨fun _ => rfl, by decide, ?_⟩ rfl
      (guarded_cons ⟨fun _ => rfl, rfl, by decide⟩ rfl (guarded_cons rfl rfl trivial)))
    rintro fpga ⟨⟩ entry hentry
    cases hentry

/-- The id is stored as the count, and the octets from the type on as the records. -/
theorem fpgaData_misplaced :
    ¬ ∀ acts, Guarded step Proper (nmComponentOpen 0) acts →
      ∃ ctl es, run step (nmComponentOpen 0) acts = some (ctl, es) ∧ Answered es := by
  intro h
  obtain ⟨ctl, es, hrun, hanswered⟩ := h
    [.openComp allocated 0x19, .report allocated (.fpgaInfo [(1, 2)]),
      .report allocated (.fpga .status 1 2 1 (List.replicate 20 7)),
      .query true ⟨1, 2, 3, 4⟩ (.fpga .status 1 2)]
    (guarded_cons trivial rfl (guarded_cons ⟨by decide, rfl⟩ rfl
      (guarded_cons ⟨by decide, _, rfl, by decide⟩ rfl (guarded_cons trivial rfl trivial))))
  cases hrun
  obtain ⟨data, hdata, hright⟩ := hanswered [_, _, _] _ _ _ [] rfl _ rfl
  exact absurd (hdata.trans (congrArg some hright)) (by decide)

end OiAmc.NmStore

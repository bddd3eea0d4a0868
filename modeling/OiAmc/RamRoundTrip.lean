import OiAmc.RamDecode
import Mathlib.Algebra.BigOperators.Group.List.Basic
import Mathlib.Data.List.Sort

namespace OiAmc.RamRoundTrip

open PartialLists SgfpGroup SetInfo SetInfoEntries SetInfoRam RamInfo RamContents RamReading RamDecode

def byId (sg : List SgroupInfo) : List SgroupInfo := sg.mergeSort fun g g' => g.groupId ≤ g'.groupId

def setTypeOf : Mode → Int
  | .tryMode => setTryGroup
  | .setMode => setOkGroup

variable {σ : Type} {fpga : Fpga σ} {sg : List SgroupInfo} {rinfo : RamInfo}

theorem ids_nodup (h : Loadable sg) : (sg.map fun g => g.groupId.toNat).Nodup := by
  refine (List.nodup_map_iff_inj_on h.ids.of_map).mpr fun g hg g' hg' he => ?_
  refine List.inj_on_of_nodup_map h.ids hg hg' ?_
  have := h.id g hg
  have := h.id g' hg'
  omega

theorem length_le (h : Loadable sg) : sg.length ≤ 255 := by
  have hlen : sg.length ≤ totalLinks sg := by
    have hpos : ∀ n ∈ sg.map fun g => g.linkarraysSize.toNat, 1 ≤ n := by
      intro n hn
      obtain ⟨g, hg, rfl⟩ := List.mem_map.mp hn
      obtain ⟨ls, _, hsize, h1, _⟩ := h.links g hg
      omega
    have hsum := List.length_le_sum_of_one_le _ hpos
    rw [List.length_map] at hsum
    exact hsum
  have := h.total
  omega

theorem filled_iff (h : Loadable sg) :
    (∀ i < sg.length, Filled sg i) ↔ ∀ g ∈ sg, g.groupId < sg.length := by
  have hlen : (sg.map fun g => g.groupId.toNat).length = (List.range sg.length).length := by
    rw [List.length_map, List.length_range]
  constructor
  · intro hall g hg
    have hsub : List.range sg.length ⊆ sg.map fun g => g.groupId.toNat := by
      intro i hi
      obtain ⟨g, hg, he⟩ := hall i (List.mem_range.mp hi)
      exact List.mem_map.mpr ⟨g, hg, he⟩
    have hperm := (List.nodup_range.subperm hsub).perm_of_length_le (Nat.le_of_eq hlen)
    have hmem := hperm.mem_iff.mpr (List.mem_map.mpr ⟨g, hg, rfl⟩)
    have := List.mem_range.mp hmem
    have := h.id g hg
    omega
  · intro hall i hi
    have hsub : (sg.map fun g => g.groupId.toNat) ⊆ List.range sg.length := by
      intro n hn
      obtain ⟨g, hg, rfl⟩ := List.mem_map.mp hn
      have := hall g hg
      have := h.id g hg
      exact List.mem_range.mpr (by omega)
    have hperm := ((ids_nodup h).subperm hsub).perm_of_length_le (Nat.le_of_eq hlen.symm)
    exact List.mem_map.mp (hperm.mem_iff.mpr (List.mem_range.mpr hi))

theorem count_eq (h : Loadable sg) (hall : ∀ g ∈ sg, g.groupId < sg.length) :
    (List.range 255).countP (Filled sg ·) = sg.length := by
  have hperm : ((List.range 255).filter (Filled sg ·)).Perm (sg.map fun g => g.groupId.toNat) := by
    refine (List.perm_ext_iff_of_nodup (List.nodup_range.filter _) (ids_nodup h)).mpr fun i => ?_
    rw [List.mem_filter, List.mem_map, decide_eq_true_iff, List.mem_range]
    refine and_iff_right_of_imp fun ⟨g, hg, he⟩ => ?_
    have := hall g hg
    have := length_le h
    omega
  rw [List.countP_eq_length_filter, hperm.length_eq, List.length_map]

theorem byId_perm : (byId sg).Perm sg := List.mergeSort_perm _ _

theorem byId_getElem (h : Loadable sg) (hall : ∀ g ∈ sg, g.groupId < sg.length) {i : Nat}
    (hi : i < (byId sg).length) : ((byId sg)[i]).groupId.toNat = i := by
  have hsorted : ((byId sg).map fun g => g.groupId.toNat).Pairwise (· ≤ ·) := by
    refine List.pairwise_map.mpr ?_
    refine (@List.pairwise_mergeSort SgroupInfo (fun g g' => decide (g.groupId ≤ g'.groupId))
      (by simp only [decide_eq_true_iff]; omega) (by simp; omega) sg).imp fun hle => ?_
    have hle := of_decide_eq_true hle
    omega
  have hperm : ((byId sg).map fun g => g.groupId.toNat).Perm (List.range sg.length) := by
    refine (List.perm_ext_iff_of_nodup ?_ List.nodup_range).mpr fun i => ?_
    · exact (byId_perm.map _).nodup_iff.mpr (ids_nodup h)
    · rw [(byId_perm.map _).mem_iff, List.mem_range]
      constructor
      · intro hi
        obtain ⟨g, hg, rfl⟩ := List.mem_map.mp hi
        have := hall g hg
        have := h.id g hg
        omega
      · intro hi
        exact List.mem_map.mpr ((filled_iff h).mpr hall i hi)
  have heq := hperm.eq_of_pairwise' hsorted (List.pairwise_lt_range.imp Nat.le_of_lt)
  have hget : ((byId sg).map fun g => g.groupId.toNat)[i]? = (List.range sg.length)[i]? := by rw [heq]
  rw [List.getElem?_map, List.getElem?_eq_getElem hi, List.getElem?_range (byId_perm.length_eq ▸ hi)] at hget
  exact Option.some.inj hget

theorem tryMode_iff (h : Loadable sg) (hholds : Holds rinfo.ram1 rinfo.ram2 sg) :
    analysisRamInfo rinfo .tryMode = some ((byId sg).map readBack) ↔
      ∀ g ∈ sg, g.groupId < sg.length := by
  have hle := length_le h
  have hlen : ((byId sg).map readBack).length = sg.length := by
    rw [List.length_map, byId_perm.length_eq]
  rw [analysisRamInfo, countEntries_eq hholds, mapM_eq_some, List.forall₂_iff_get]
  constructor
  · intro ⟨hcount, hget⟩
    rw [List.length_range, hlen] at hcount
    refine (filled_iff h).mp fun i hi => ?_
    by_contra hnot
    have hi' : i < (byId sg).length := byId_perm.length_eq.symm ▸ hi
    have hx := hget i (by rw [List.length_range]; omega) (by rw [hlen]; exact hi)
    rw [List.get_eq_getElem, List.get_eq_getElem, List.getElem_range, List.getElem_map] at hx
    have hsize := tryGroup_size hholds (by omega) hnot hx
    obtain ⟨ls, _, hls, h1, _⟩ := h.links _ (byId_perm.mem_iff.mp (List.getElem_mem hi'))
    change ((((byId sg)[i]).linkarraysSize.toNat : Int)) = 0 at hsize
    omega
  · intro hall
    refine ⟨by rw [List.length_range, hlen, count_eq h hall], fun i hi hi' => ?_⟩
    rw [hlen] at hi'
    have hi'' : i < (byId sg).length := byId_perm.length_eq.symm ▸ hi'
    have hid := byId_getElem h hall hi''
    have hmem := byId_perm.mem_iff.mp (List.getElem_mem hi'')
    rw [List.get_eq_getElem, List.get_eq_getElem, List.getElem_range, List.getElem_map]
    have hgroup := tryGroup_filled hholds hmem (by omega)
    rw [hid] at hgroup
    exact hgroup

/-- The rounds of SET_MODE go over one bank only. -/
structure OneBank (rinfo : RamInfo) (sg : List SgroupInfo) (ram1s : List UInt32) (ram2s : List UInt8)
    (bound : Nat → Nat → Nat) : Prop where
  holds : Holds ram1s ram2s sg
  inPlace : ∀ i, bound i i = i
  count : countEntries rinfo.ram1C4 + countEntries rinfo.ram1C12 = countEntries ram1s
  round : ∀ i < 256, ∀ st, setRound rinfo st i = readGroup ram1s ram2s i (bound i st.1) st

theorem countEntries_nil {ram1s : List UInt32} {ram2s : List UInt8} (h : Holds ram1s ram2s []) :
    countEntries ram1s = 0 := by
  rw [countEntries_eq h, List.countP_eq_zero]
  intro i _
  have hnot : ¬ Filled [] i := fun ⟨g, hg, _⟩ => List.not_mem_nil hg
  exact of_decide_eq_false (decide_eq_false hnot) ∘ of_decide_eq_true

theorem not_filled_nil (i : Nat) : ¬ Filled [] i := fun ⟨_, hg, _⟩ => List.not_mem_nil hg

theorem oneBank_c4 (h : Holds rinfo.ram1C4 rinfo.ram2C4 sg)
    (h12 : Holds rinfo.ram1C12 rinfo.ram2C12 []) :
    OneBank rinfo sg rinfo.ram1C4 rinfo.ram2C4 fun i _ => i := by
  refine ⟨h, fun _ => rfl, ?_, fun i hi st => ?_⟩
  · rw [countEntries_nil h12, Nat.add_zero]
  · rw [setRound]
    refine Eq.trans (congrArg _ (funext fun st => ?_)) (Option.bind_fun_some _)
    exact readGroup_empty h12 hi (not_filled_nil i) st.1 st

theorem oneBank_c12 (h : Holds rinfo.ram1C12 rinfo.ram2C12 sg)
    (h4 : Holds rinfo.ram1C4 rinfo.ram2C4 []) :
    OneBank rinfo sg rinfo.ram1C12 rinfo.ram2C12 fun _ gid => gid := by
  refine ⟨h, fun _ => rfl, ?_, fun i hi st => ?_⟩
  · rw [countEntries_nil h4, Nat.zero_add]
  · rw [setRound, readGroup_empty h4 hi (not_filled_nil i)]
    rfl

variable {ram1s : List UInt32} {ram2s : List UInt8} {bound : Nat → Nat → Nat} {n : Nat}

theorem setRounds_places (h : OneBank rinfo sg ram1s ram2s bound) {k gid : Nat} {xs : List SgroupInfo}
    (hk : k ≤ 256) (hrun : (List.range k).foldlM (setRound rinfo) (0, List.replicate n .zero) =
      some (gid, xs)) : gid = (List.range k).countP (Filled sg ·) ∧ xs.length = n ∧
        ∀ m, gid ≤ m → m < n → xs[m]? = some .zero := by
  induction k generalizing gid xs with
  | zero =>
      obtain ⟨rfl, rfl⟩ := Prod.mk.inj (Option.some.inj hrun)
      refine ⟨rfl, List.length_replicate, fun m _ hm => ?_⟩
      rw [List.getElem?_replicate, if_pos hm]
  | succ k ih =>
      rw [foldlM_range_succ] at hrun
      obtain ⟨⟨gid', xs'⟩, hrun', hround⟩ := Option.bind_eq_some_iff.mp hrun
      obtain ⟨rfl, hlen, hzero⟩ := ih (by omega) hrun'
      rw [h.round k (by omega)] at hround
      rw [List.range_succ, List.countP_append, List.countP_singleton]
      by_cases hfill : Filled sg k
      · obtain ⟨hgid, hlen', hsame⟩ := readGroup_step h.holds hfill hround
        rw [if_pos (decide_eq_true hfill)]
        refine ⟨hgid, hlen'.trans hlen, fun m hm hm' => ?_⟩
        rw [hsame m (by omega)]
        exact hzero m (by omega) hm'
      · rw [readGroup_empty h.holds (by omega) hfill] at hround
        obtain ⟨rfl, rfl⟩ := Prod.mk.inj (Option.some.inj hround)
        rw [if_neg (by simpa using hfill), Nat.add_zero]
        exact ⟨rfl, hlen, hzero⟩

theorem setRounds_inPlace (h : Loadable sg) (hbank : OneBank rinfo sg ram1s ram2s bound)
    (hall : ∀ g ∈ sg, g.groupId < sg.length) {k : Nat} (hk : k ≤ sg.length) : ∃ xs,
      (List.range k).foldlM (setRound rinfo) (0, List.replicate sg.length .zero) = some (k, xs) ∧
      xs.length = sg.length ∧ ∀ m < k, xs[m]? = ((byId sg).map readBack)[m]? := by
  have hle := length_le h
  induction k with
  | zero => exact ⟨_, rfl, List.length_replicate, fun m hm => absurd hm (Nat.not_lt_zero m)⟩
  | succ k ih =>
      obtain ⟨xs, hrun, hlen, hget⟩ := ih (by omega)
      have hk' : k < (byId sg).length := by
        rw [byId_perm.length_eq]
        omega
      have hid := byId_getElem h hall hk'
      have hmem := byId_perm.mem_iff.mp (List.getElem_mem hk')
      have hgroup := readGroup_inPlace hbank.holds hmem xs (by omega)
      rw [hid] at hgroup
      refine ⟨xs.set k (readBack (byId sg)[k]), ?_, List.length_set.trans hlen, fun m hm => ?_⟩
      · rw [foldlM_range_succ, hrun, Option.bind_some, hbank.round k (by omega), hbank.inPlace, hgroup]
      · by_cases hmk : m = k
        · subst hmk
          rw [List.getElem?_set_self (by omega), List.getElem?_map, List.getElem?_eq_getElem hk',
            Option.map_some]
        · rw [List.getElem?_set_ne (Ne.symm hmk)]
          exact hget m (by omega)

theorem setMode_iff (h : Loadable sg) (hbank : OneBank rinfo sg ram1s ram2s bound) :
    analysisRamInfo rinfo .setMode = some ((byId sg).map readBack) ↔
      ∀ g ∈ sg, g.groupId < sg.length := by
  have hle := length_le h
  have hlen : ((byId sg).map readBack).length = sg.length := by
    rw [List.length_map, byId_perm.length_eq]
  simp only [analysisRamInfo]
  rw [hbank.count, countEntries_eq hbank.holds]
  constructor
  · intro hrun
    obtain ⟨⟨gid, xs⟩, hrun, rfl⟩ := Option.map_eq_some_iff.mp hrun
    have hcount : (List.range 255).countP (Filled sg ·) ≤ 255 := by
      refine List.countP_le_length.trans ?_
      rw [List.length_range]
    obtain ⟨hgid, hn, hzero⟩ := setRounds_places hbank (by omega) hrun
    rw [hlen] at hn
    rw [← hn] at hgid hzero
    have hfull : ¬ gid < sg.length := by
      intro hlt
      have hx := hzero gid (Nat.le_refl _) hlt
      rw [List.getElem?_map] at hx
      obtain ⟨g, _, hg⟩ := Option.map_eq_some_iff.mp hx
      have hvalid : (1 : Int) = 0 := congrArg SgroupInfo.isValid hg
      exact absurd hvalid (by decide)
    have hall := List.countP_eq_length.mp (Nat.le_antisymm List.countP_le_length
      (by rw [List.length_range, ← hgid]; omega))
    exact (filled_iff h).mp fun i hi => of_decide_eq_true (hall i (List.mem_range.mpr hi))
  · intro hall
    obtain ⟨xs, hrun, hn, hget⟩ := setRounds_inPlace h hbank hall (Nat.le_refl _)
    rw [count_eq h hall, hrun, Option.map_some]
    congr 1
    refine List.ext_getElem? fun m => ?_
    by_cases hm : m < sg.length
    · exact hget m hm
    · rw [List.getElem?_eq_none (hn.symm ▸ Nat.not_lt.mp hm), List.getElem?_eq_none (by omega)]

theorem programmed_eq (h : Loadable sg) (setType : Int) :
    programmed (groupMax false setType) (linkMax false setType) sg = sg := by
  refine List.filter_eq_self.mpr fun g hg => decide_eq_true ?_
  obtain ⟨ls, _, hsize, h1, h64, _⟩ := h.links g hg
  have hgroups : groupMax false setType = 256 := ite_self _
  have hlinks : linkMax false setType = 256 := ite_self _
  rw [hgroups, hlinks]
  have := h.id g hg
  exact ⟨by omega, by omega, by omega⟩

theorem lowOctets_nodup (h : Loadable sg) : (sg.map fun g => lowOctet g.groupId).Nodup := by
  refine (List.nodup_map_iff_inj_on h.ids.of_map).mpr fun g hg g' hg' he => ?_
  refine List.inj_on_of_nodup_map h.ids hg hg' ?_
  have hid := h.id g hg
  have hid' := h.id g' hg'
  rw [lowOctet_ofNat hid.1 hid.2, lowOctet_ofNat hid'.1 hid'.2] at he
  have hval := congrArg UInt8.toNat he
  rw [UInt8.toNat_ofNat', UInt8.toNat_ofNat'] at hval
  omega

theorem first_rate (h : Loadable sg) : ∃ first, (sg.head? >>= fun g => g.link 0) = some first ∧
    (first.channelRate = rateC4 ∨ first.channelRate = rateC12) := by
  obtain ⟨g, gs, rfl⟩ := List.exists_cons_of_ne_nil h.nonempty
  obtain ⟨ls, hls, _, h1, _⟩ := h.links g List.mem_cons_self
  obtain ⟨l, ls, rfl⟩ := List.exists_cons_of_length_pos h1
  obtain ⟨rate, hrate, hall⟩ := h.rate
  refine ⟨l, ?_, ?_⟩
  · change g.link 0 = some l
    rw [SgroupInfo.link, hls]
    rfl
  · rw [hall g List.mem_cons_self _ hls l List.mem_cons_self]
    exact hrate

theorem call_defined (h : Loadable sg) (portGroup : Int) (mode : Mode) :
    ∃ ws, setInfoRule false sg portGroup (setTypeOf mode) = some (0, ws) := by
  obtain ⟨first, hfirst, hrate⟩ := first_rate h
  have hlinks : ∀ g ∈ sg, HasLinks g := by
    intro g hg j hj
    obtain ⟨ls, hls, hsize, _⟩ := h.links g hg
    refine ⟨ls[j], ?_⟩
    rw [SgroupInfo.link, hls, Option.bind_some, List.getElem?_eq_getElem]
  have hop : ∃ op groupMaxnum linkMaxnum, setOp false (setTypeOf mode) first.channelRate =
      some (op, groupMaxnum, linkMaxnum) := by
    rcases hrate with hrate | hrate <;> rw [hrate] <;> cases mode <;> exact ⟨_, _, _, rfl⟩
  obtain ⟨op, groupMaxnum, linkMaxnum, hop⟩ := hop
  exact setInfoRule_defined hlinks hfirst hop portGroup

theorem readBack_iff {s : σ} {portGroup : Int} {mode : Mode} {ws : List Write}
    (hzero : ∀ p, fpga.ram1 s p = 0) (h : Loadable sg)
    (hws : setInfoRule false sg portGroup (setTypeOf mode) = some (0, ws)) :
    sgfplibGetGroup fpga (fpga.writes s ws) mode = some ((byId sg).map readBack) ↔
      ∀ g ∈ sg, g.groupId < sg.length := by
  have htotal := h.total
  obtain ⟨first, op, hfirst, hop, hgroup, hstored, hrest⟩ := stored_of_call hws hzero
    (by rw [programmed_eq h]; exact lowOctets_nodup h) (by rw [programmed_eq h]; omega)
  obtain ⟨first', hfirst', hrate⟩ := first_rate h
  obtain rfl : first' = first := Option.some.inj (hfirst'.symm.trans hfirst)
  rw [programmed_eq h] at hstored
  have hbank (bank : Bank) (hb : bankOf op = some bank) := holds_of_stored h (hb ▸ hstored)
  cases mode with
  | tryMode =>
      have hb : bankOf op = some .tryRam := by
        rcases hrate with hrate | hrate <;> rw [hrate] at hop <;> cases hop <;> rfl
      obtain ⟨h1, h2⟩ := getFpgaTryGroup_eq hgroup
      refine tryMode_iff h ?_
      rw [h1, h2]
      exact hbank .tryRam hb
  | setMode =>
      obtain ⟨h1, h2, h3, h4⟩ := getFpgaGroup_eq hgroup
      rcases hrate with hrate | hrate <;> rw [hrate] at hop <;> cases hop
      · refine setMode_iff h (oneBank_c4 ?_ ?_)
        · rw [h1, h3]
          exact hbank .c4Ram rfl
        · rw [h2]
          exact holds_nil _ fun a => hrest _ _ a (by decide)
      · refine setMode_iff h (oneBank_c12 ?_ ?_)
        · rw [h2, h4]
          exact hbank .c12Ram rfl
        · rw [h1]
          exact holds_nil _ fun a => hrest _ _ a (by decide)

/-- The groups that are programmed come back, in the order of their ids, exactly if no id is
above the number of groups. -/
theorem round_trip_iff (fpga : Fpga σ) (s : σ) (hzero : ∀ p, fpga.ram1 s p = 0) (h : Loadable sg)
    (portGroup : Int) (mode : Mode) : ∃ ws,
      setInfoRule false sg portGroup (setTypeOf mode) = some (0, ws) ∧
      (sgfplibGetGroup fpga (fpga.writes s ws) mode = some ((byId sg).map readBack) ↔
        ∀ g ∈ sg, g.groupId < sg.length) := by
  obtain ⟨ws, hws⟩ := call_defined h portGroup mode
  exact ⟨ws, hws, readBack_iff hzero h hws⟩

abbrev PlainRam : Type := Regs × (Place → UInt32) × (Place → UInt8)

def plainWrite (s : PlainRam) (r : Reg) (v : UInt8) : PlainRam :=
  let regs := Function.update s.1 r v
  (regs, if (r, v) = (.cfgMix, 0x02) then Function.update s.2.1 (place regs) (entryData regs) else s.2.1,
    if (r, v) = (.cfgMix, 0x06) then Function.update s.2.2 (place regs) (regs .ramData0) else s.2.2)

def plainGet (s : PlainRam) (i : Fin 4) : UInt8 :=
  let at_ (bank : Bank) : Place := (s.1 .ramGroup, some bank, s.1 .ramAddr)
  if s.1 .selectInfo = 0x23 then
    s.2.2 (at_ (if i.val = 2 then .tryRam else if i.val = 1 then .c4Ram else .c12Ram))
  else
    let bank := if s.1 .selectInfo = 0x20 then .tryRam else if s.1 .selectInfo = 0x21 then .c4Ram else .c12Ram
    ((s.2.1 (at_ bank) >>> (8 * .ofNat i.val)) &&& 0xff).toUInt8

theorem plainGet_ram1 (s : PlainRam) (bank : Bank) (_ : s.1 .cfgOp = 0x80)
    (hsel : s.1 .selectInfo = (match bank with | .tryRam => 0x20 | .c4Ram => 0x21 | .c12Ram => 0x22)) :
    ((plainGet s 3).toUInt32 <<< 24) ||| ((plainGet s 2).toUInt32 <<< 16) |||
      ((plainGet s 1).toUInt32 <<< 8) ||| ((plainGet s 0).toUInt32 <<< 0) =
      s.2.1 (s.1 .ramGroup, some bank, s.1 .ramAddr) := by
  cases bank <;> simp only [plainGet, hsel] <;> exact data_octets _

theorem plainGet_ram2 (s : PlainRam) (bank : Bank) (_ : s.1 .cfgOp = 0x80) (hsel : s.1 .selectInfo = 0x23) :
    plainGet s (match bank with | .tryRam => 2 | .c4Ram => 1 | .c12Ram => 0) =
      s.2.2 (s.1 .ramGroup, some bank, s.1 .ramAddr) := by
  cases bank <;> simp only [plainGet, hsel] <;> rfl

theorem plainWrite_regs (s : PlainRam) (r : Reg) (v : UInt8) :
    (plainWrite s r v).1 = Function.update s.1 r v := rfl

theorem plainWrite_ram1 (s : PlainRam) (r : Reg) (v : UInt8) : (plainWrite s r v).2.1 =
    let regs := Function.update s.1 r v
    if (r, v) = (.cfgMix, 0x02) then Function.update s.2.1 (place regs) (entryData regs) else s.2.1 := rfl

theorem plainWrite_ram2 (s : PlainRam) (r : Reg) (v : UInt8) : (plainWrite s r v).2.2 =
    let regs := Function.update s.1 r v
    if (r, v) = (.cfgMix, 0x06) then Function.update s.2.2 (place regs) (regs .ramData0) else s.2.2 := rfl

def plainFpga : Fpga PlainRam where
  write := plainWrite
  getVal := plainGet
  regs := Prod.fst
  ram1 s := s.2.1
  ram2 s := s.2.2
  regs_write := plainWrite_regs
  ram1_write := plainWrite_ram1
  ram2_write := plainWrite_ram2
  shows_ram1 := plainGet_ram1
  shows_ram2 := plainGet_ram2

def emptyRam : PlainRam := (fun _ => 0, fun _ => 0, fun _ => 0)

theorem loadable_plain (ids : List (Int × Nat)) (hne : ids ≠ []) (hnodup : (ids.map Prod.fst).Nodup)
    (hid : ∀ p ∈ ids, 0 ≤ p.1 ∧ p.1 ≤ 255 ∧ 1 ≤ p.2 ∧ p.2 ≤ 64) (htotal : (ids.map Prod.snd).sum ≤ 255) :
    Loadable (ids.map fun p => plainGroup p.1 p.2) where
  nonempty := by simpa using hne
  ids := by simpa [Function.comp_def, plainGroup] using hnodup
  id := by
    intro g hg
    obtain ⟨p, hp, rfl⟩ := List.mem_map.mp hg
    exact ⟨(hid p hp).1, (hid p hp).2.1⟩
  valid := by
    intro g hg
    obtain ⟨p, _, rfl⟩ := List.mem_map.mp hg
    rfl
  links := by
    intro g hg
    obtain ⟨p, hp, rfl⟩ := List.mem_map.mp hg
    refine ⟨_, rfl, ?_, ?_, ?_, fun l hl => ?_⟩
    · rw [List.length_replicate]
      rfl
    · rw [List.length_replicate]
      exact (hid p hp).2.2.1
    · rw [List.length_replicate]
      exact (hid p hp).2.2.2
    · obtain rfl := List.eq_of_mem_replicate hl
      decide
  rate := by
    refine ⟨rateC12, .inr rfl, fun g hg ls hls l hl => ?_⟩
    obtain ⟨p, _, rfl⟩ := List.mem_map.mp hg
    obtain rfl := Option.some.inj hls
    obtain rfl := List.eq_of_mem_replicate hl
    rfl
  total := by
    rw [totalLinks, List.map_map]
    exact htotal

theorem round_trip_iff_pair : ∃ ws,
    setInfoRule false [plainGroup 1 2, plainGroup 0 1] 3 setOkGroup = some (0, ws) ∧
    sgfplibGetGroup plainFpga (plainFpga.writes emptyRam ws) .setMode =
      some ((byId [plainGroup 1 2, plainGroup 0 1]).map readBack) := by
  have h : Loadable [plainGroup 1 2, plainGroup 0 1] :=
    loadable_plain [(1, 2), (0, 1)] (by decide) (by decide) (by decide) (by decide)
  obtain ⟨ws, hws, hiff⟩ := round_trip_iff plainFpga emptyRam (fun _ => rfl) h 3 .setMode
  exact ⟨ws, hws, hiff.mpr (by decide)⟩

/-- A single group with id 5 is counted, and then looked for in entry 0. -/
theorem gap_loses_group : ¬ ∀ (σ : Type) (fpga : Fpga σ) (s : σ) (sg : List SgroupInfo) (portGroup : Int)
    (mode : Mode) (ws : List Write), (∀ p, fpga.ram1 s p = 0) → Loadable sg →
    setInfoRule false sg portGroup (setTypeOf mode) = some (0, ws) →
    sgfplibGetGroup fpga (fpga.writes s ws) mode = some ((byId sg).map readBack) := by
  intro hall
  have h : Loadable [plainGroup 5 1] :=
    loadable_plain [(5, 1)] (by decide) (by decide) (by decide) (by decide)
  obtain ⟨ws, hws⟩ := call_defined h 0 .setMode
  have hback := hall _ plainFpga emptyRam _ 0 .setMode ws (fun _ => rfl) h hws
  exact absurd ((readBack_iff (fun _ => rfl) h hws).mp hback) (by decide)

end OiAmc.RamRoundTrip

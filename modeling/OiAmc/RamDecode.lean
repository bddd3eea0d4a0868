import OiAmc.RamContents
import OiAmc.RamInfo

namespace OiAmc.RamDecode

open Function PartialLists SgfpGroup SetInfo SetInfoEntries SetInfoRam RamInfo WriteList RamContents
  RamReading

/-- The groups of one call, as the learning program hands them over. -/
structure Loadable (sg : List SgroupInfo) : Prop where
  nonempty : sg ≠ []
  ids : (sg.map fun g => g.groupId).Nodup
  id : ∀ g ∈ sg, 0 ≤ g.groupId ∧ g.groupId ≤ 255
  valid : ∀ g ∈ sg, g.isValid = 1
  links : ∀ g ∈ sg, ∃ ls, g.linkarrays = some ls ∧ g.linkarraysSize = ls.length ∧
    1 ≤ ls.length ∧ ls.length ≤ 64 ∧ ∀ l ∈ ls, l.fiberRate ≤ 15 ∧ l.fiber ≤ 3 ∧ l.channel ≤ 63
  rate : ∃ rate, (rate = rateC4 ∨ rate = rateC12) ∧
    ∀ g ∈ sg, ∀ ls, g.linkarrays = some ls → ∀ l ∈ ls, l.channelRate = rate
  total : totalLinks sg ≤ 255

/-- A link as it comes back: its place, and the rates of the group. -/
def readLink (first l : SlinkInfo) : SlinkInfo :=
  { SlinkInfo.zero with
    fiber := l.fiber
    fiberRate := first.fiberRate
    channel := l.channel
    channelRate := first.channelRate }

def readBack (g : SgroupInfo) : SgroupInfo :=
  { emptyGroup g.linkarraysSize.toNat with
    linkarrays := g.linkarrays.map fun ls => ls.map (readLink (ls.headD .zero)) }

theorem linkSize_data (first : SlinkInfo) (isValid linksize : Int) (addr : UInt32) :
    linkSize (ram1Data first isValid linksize addr) = (lowOctet linksize).toNat := by
  have h : (ram1Data first isValid linksize addr &&& 0xff0000) >>> 16 =
      (lowOctet linksize).toUInt32 := by
    apply UInt32.toBitVec_inj.mp
    apply BitVec.eq_of_getLsbD_eq
    intro i hi
    simp only [ram1Data]
    interval_cases i <;> simp
  rw [linkSize, h, UInt8.toNat_toUInt32]

theorem groupAddr_data (first : SlinkInfo) (isValid linksize : Int) (addr : UInt32) :
    groupAddr (ram1Data first isValid linksize addr) = addr.toNat % 256 := by
  have h : (ram1Data first isValid linksize addr &&& 0xff00) >>> 8 = addr &&& 0xff := by
    apply UInt32.toBitVec_inj.mp
    apply BitVec.eq_of_getLsbD_eq
    intro i hi
    simp only [ram1Data]
    interval_cases i <;> simp
  rw [groupAddr, h, UInt32.toNat_and]
  exact Nat.and_two_pow_sub_one_eq_mod addr.toNat 8

theorem valid_data (first : SlinkInfo) (linksize : Int) (addr : UInt32) :
    ram1Data first 1 linksize addr ≠ 0 := by
  intro h
  have hbit := congrArg (fun d : UInt32 => d.toBitVec.getLsbD 24) h
  simp [ram1Data] at hbit

theorem and_mask {a : UInt8} {k : Nat} (hk : k ≤ 8) (h : a.toNat < 2 ^ k) :
    a &&& .ofNat (2 ^ k - 1) = a := by
  apply UInt8.toNat_inj.mp
  have hlt : 2 ^ k - 1 < 256 := by
    have := Nat.pow_le_pow_right (n := 2) (by decide) hk
    omega
  rw [UInt8.toNat_and, UInt8.toNat_ofNat', Nat.mod_eq_of_lt hlt, Nat.and_two_pow_sub_one_eq_mod,
    Nat.mod_eq_of_lt h]

theorem ramLink_data {first l : SlinkInfo} (linksize : Int) (addr : UInt32)
    (hrate : first.fiberRate ≤ 15) (hchannel : first.channelRate ≤ 3) (hl : l.fiber ≤ 3)
    (hl' : l.channel ≤ 63) :
    ramLink (ram1Data first 1 linksize addr) (linkOctet l) = readLink first l := by
  have hrate' : ((ram1Data first 1 linksize addr &&& 0x78000000) >>> 27).toUInt8 =
      first.fiberRate &&& .ofNat (2 ^ 4 - 1) := by
    apply UInt8.toBitVec_inj.mp
    apply BitVec.eq_of_getLsbD_eq
    intro i hi
    simp only [ram1Data]
    interval_cases i <;> simp
  have hchannel' : ((ram1Data first 1 linksize addr &&& 0x6000000) >>> 25).toUInt8 =
      first.channelRate &&& .ofNat (2 ^ 2 - 1) := by
    apply UInt8.toBitVec_inj.mp
    apply BitVec.eq_of_getLsbD_eq
    intro i hi
    simp only [ram1Data]
    interval_cases i <;> simp
  have hfiber : (linkOctet l &&& 0xc0) >>> 6 = l.fiber &&& .ofNat (2 ^ 2 - 1) := by
    apply UInt8.toBitVec_inj.mp
    apply BitVec.eq_of_getLsbD_eq
    intro i hi
    simp only [linkOctet]
    interval_cases i <;> simp
  have hchan : linkOctet l &&& 0x3f = l.channel &&& .ofNat (2 ^ 6 - 1) := by
    apply UInt8.toBitVec_inj.mp
    apply BitVec.eq_of_getLsbD_eq
    intro i hi
    simp only [linkOctet]
    interval_cases i <;> simp
  rw [ramLink, readLink, hrate', hchannel', hfiber, hchan,
    and_mask (by decide) (Nat.lt_succ_of_le (UInt8.le_iff_toNat_le.mp hl)),
    and_mask (by decide) (Nat.lt_succ_of_le (UInt8.le_iff_toNat_le.mp hrate)),
    and_mask (by decide) (Nat.lt_succ_of_le (UInt8.le_iff_toNat_le.mp hl')),
    and_mask (by decide) (Nat.lt_succ_of_le (UInt8.le_iff_toNat_le.mp hchannel))]

/-- The two arrays of a bank with the entries of these groups and nothing else. -/
structure Holds (ram1s : List UInt32) (ram2s : List UInt8) (gs : List SgroupInfo) : Prop where
  entry : ∀ g ∈ gs, ∃ data, ram1s[g.groupId.toNat]? = some data ∧ data ≠ 0 ∧
    linkSize data = g.linkarraysSize.toNat ∧ g.linkarraysSize.toNat ≤ 64 ∧
    ∃ links, links.length = g.linkarraysSize.toNat ∧
      readBack g = { emptyGroup g.linkarraysSize.toNat with linkarrays := some links } ∧
      List.Forall₂ (fun j l => (ram2s[groupAddr data + j]?).map (ramLink data) = some l)
        (List.range g.linkarraysSize.toNat) links
  rest : ∀ i < 256, (∀ g ∈ gs, g.groupId.toNat ≠ i) → ram1s[i]? = some 0

theorem table_getElem? {α : Type} {ram : Place → α} {group : UInt8} {bank : Bank} {i : Nat}
    (hi : i < 256) : (table ram group bank)[i]? = some (ram (group, some bank, .ofNat i)) := by
  rw [table, List.getElem?_map, List.getElem?_range hi, Option.map_some]

theorem lowOctet_ofNat {n : Int} (h0 : 0 ≤ n) (h255 : n ≤ 255) : lowOctet n = .ofNat n.toNat := by
  rw [lowOctet, Int.emod_eq_of_lt h0 (by omega)]

theorem holds_of_stored {sg : List SgroupInfo} (h : Loadable sg) {ram1 : Place → UInt32}
    {ram2 : Place → UInt8} {group : UInt8} {bank : Bank}
    (hstored : Stored ram1 ram2 group (some bank) sg) :
    Holds (table ram1 group bank) (table ram2 group bank) sg := by
  refine ⟨fun g hg => ?_, fun i hi hnot => ?_⟩
  · obtain ⟨start, hstart, ⟨first, hfirst, hdata⟩, hlinks⟩ := hstored.entry g hg
    obtain ⟨ls, hls, hsize, hpos, hmax, hrange⟩ := h.links g hg
    obtain ⟨rate, hrate, hall⟩ := h.rate
    obtain ⟨h0, h255⟩ := h.id g hg
    have hsize' : g.linkarraysSize.toNat = ls.length := by omega
    have hfirst' : ls.headD .zero = first ∧ first ∈ ls := by
      rw [SgroupInfo.link, hls] at hfirst
      cases ls with
      | nil => cases hfirst
      | cons l ls =>
          obtain rfl : l = first := Option.some.inj hfirst
          exact ⟨rfl, List.mem_cons_self⟩
    obtain ⟨hhead, hmem⟩ := hfirst'
    rw [h.valid g hg] at hdata
    refine ⟨ram1Data first 1 g.linkarraysSize start, ?_, valid_data _ _ _, ?_, by omega,
      ls.map (readLink first), ?_, ?_, ?_⟩
    · rw [table_getElem? (by omega), ← lowOctet_ofNat h0 h255, hdata]
    · rw [linkSize_data, lowOctet, UInt8.toNat_ofNat']
      omega
    · rw [List.length_map, hsize']
    · rw [readBack, hls, Option.map_some, hhead]
    · rw [List.forall₂_iff_get]
      refine ⟨by rw [List.length_range, List.length_map, hsize'], fun j hj hj' => ?_⟩
      rw [List.length_range] at hj
      obtain ⟨link, hlink, hoctet⟩ := hlinks j hj
      have hj'' : j < ls.length := by omega
      obtain rfl : ls[j] = link := by
        rw [SgroupInfo.link, hls, Option.bind_some, List.getElem?_eq_getElem hj''] at hlink
        exact Option.some.inj hlink
      obtain ⟨_, hfiber, hchannel⟩ := hrange ls[j] (List.getElem_mem hj'')
      have hrate3 : first.channelRate ≤ 3 := by
        rw [hall g hg ls hls first hmem]
        rcases hrate with rfl | rfl <;> decide
      simp only [List.get_eq_getElem, List.getElem_range, List.getElem_map]
      rw [groupAddr_data, Nat.mod_eq_of_lt (by omega), table_getElem? (by omega), hoctet,
        Option.map_some, ramLink_data _ _ (hrange first hmem).1 hrate3 hfiber hchannel]
  · rw [table_getElem? hi, hstored.rest]
    intro g hg he
    obtain ⟨h0, h255⟩ := h.id g hg
    rw [lowOctet_ofNat h0 h255] at he
    have hval := congrArg UInt8.toNat he
    rw [UInt8.toNat_ofNat', UInt8.toNat_ofNat'] at hval
    exact hnot g hg (by omega)

theorem holds_nil {ram1 : Place → UInt32} {group : UInt8} {bank : Bank} (ram2s : List UInt8)
    (hzero : ∀ a, ram1 (group, some bank, a) = 0) : Holds (table ram1 group bank) ram2s [] :=
  ⟨List.forall_mem_nil _, fun _ hi _ => by rw [table_getElem? hi, hzero]⟩

variable {ram1s : List UInt32} {ram2s : List UInt8} {gs : List SgroupInfo} {g : SgroupInfo} {i : Nat}

def Filled (gs : List SgroupInfo) (i : Nat) : Prop := ∃ g ∈ gs, g.groupId.toNat = i

instance (gs : List SgroupInfo) : DecidablePred (Filled gs) := fun _ => List.decidableBEx _ _

theorem Holds.empty (h : Holds ram1s ram2s gs) (hi : i < 256) (hnot : ¬ Filled gs i) :
    ram1s[i]? = some 0 := h.rest i hi fun g hg he => hnot ⟨g, hg, he⟩

theorem Holds.filled (h : Holds ram1s ram2s gs) (hfill : Filled gs i) :
    ∃ data, ram1s[i]? = some data ∧ data ≠ 0 := by
  obtain ⟨g, hg, rfl⟩ := hfill
  obtain ⟨data, hdata, hne, _⟩ := h.entry g hg
  exact ⟨data, hdata, hne⟩

/-- The ids below 255 are counted. -/
theorem countEntries_eq (h : Holds ram1s ram2s gs) :
    countEntries ram1s = (List.range 255).countP (Filled gs ·) := by
  have htake : (ram1s.take 255).map (fun v => decide (v ≠ 0)) =
      (List.range 255).map fun i => decide (Filled gs i) := by
    refine List.ext_getElem? fun i => ?_
    rw [List.getElem?_map, List.getElem?_map, List.getElem?_take]
    by_cases hi : i < 255
    · rw [if_pos hi, List.getElem?_range hi, Option.map_some]
      by_cases hfill : Filled gs i
      · obtain ⟨data, hdata, hne⟩ := h.filled hfill
        rw [hdata, Option.map_some, decide_eq_true hne, decide_eq_true hfill]
      · rw [h.empty (by omega) hfill, Option.map_some, decide_eq_false hfill]
        rfl
    · rw [if_neg hi, List.getElem?_eq_none (by rw [List.length_range]; omega)]
      rfl
  have hcount := congrArg (List.countP id) htake
  rw [List.countP_map, List.countP_map] at hcount
  exact hcount

theorem tryGroup_filled {rinfo : RamInfo} (h : Holds rinfo.ram1 rinfo.ram2 gs) (hg : g ∈ gs)
    (hid : g.groupId.toNat < 255) : tryGroup rinfo g.groupId.toNat = some (readBack g) := by
  obtain ⟨data, hdata, hne, hlink, hsize, links, _, hback, hlinks⟩ := h.entry g hg
  rw [hback, tryGroup]
  simp only [hdata, Option.bind_eq_bind, Option.bind_some, if_pos (And.intro hid hne), hlink]
  rw [if_neg (by omega), mapM_eq_some.mpr hlinks]
  rfl

theorem tryGroup_size {rinfo : RamInfo} {x : SgroupInfo} (h : Holds rinfo.ram1 rinfo.ram2 gs)
    (hi : i < 256) (hnot : ¬ Filled gs i) (hx : tryGroup rinfo i = some x) : x.linkarraysSize = 0 := by
  rw [tryGroup] at hx
  simp only [h.empty hi hnot, Option.bind_eq_bind, Option.bind_some, ne_eq, not_true_eq_false, and_false,
    if_false] at hx
  obtain rfl := Option.some.inj hx
  rfl

theorem readGroup_empty (h : Holds ram1s ram2s gs) (hi : i < 256) (hnot : ¬ Filled gs i) (bound : Nat)
    (st : Nat × List SgroupInfo) : readGroup ram1s ram2s i bound st = some st := by
  rw [readGroup]
  simp only [h.empty hi hnot, Option.bind_eq_bind, Option.bind_some, if_true]
  rfl

theorem readGroup_inPlace (h : Holds ram1s ram2s gs) (hg : g ∈ gs) (xs : List SgroupInfo)
    (hlt : g.groupId.toNat < xs.length) :
    readGroup ram1s ram2s g.groupId.toNat g.groupId.toNat (g.groupId.toNat, xs) =
      some (g.groupId.toNat + 1, xs.set g.groupId.toNat (readBack g)) := by
  obtain ⟨data, hdata, hne, hlink, _, links, hlen, hback, hlinks⟩ := h.entry g hg
  generalize g.groupId.toNat = i at hdata hlt ⊢
  have hall : (List.range g.linkarraysSize.toNat).mapM (fun j =>
      if j < g.linkarraysSize.toNat then (ram2s[groupAddr data + j]?).map (ramLink data) else none) =
      some links := by
    rw [mapM_eq_some]
    refine List.forall₂_iff_get.mpr ⟨hlinks.length_eq, fun j hj hj' => ?_⟩
    have hj'' : j < g.linkarraysSize.toNat := by
      rw [List.length_range] at hj
      exact hj
    have hget := hlinks.get hj hj'
    rw [List.get_eq_getElem, List.getElem_range] at hget ⊢
    rw [if_pos hj'']
    exact hget
  rw [hback, readGroup]
  simp only [hdata, Option.bind_eq_bind, Option.bind_some, if_neg hne, if_neg (Nat.not_le.mpr hlt), hlink]
  have hself : ∀ x : SgroupInfo, (xs.set i x)[i]? = some x := fun x =>
    List.getElem?_set_self hlt
  rw [hself, Option.map_some]
  simp only [emptyGroup, Option.bind_some, Int.toNat_natCast, hall, Nat.sub_self, List.replicate_zero,
    List.append_nil, List.set_set]
  rfl

/-- What every entry does to the array. -/
theorem readGroup_step {bound : Nat} {st st' : Nat × List SgroupInfo} (h : Holds ram1s ram2s gs)
    (hfill : Filled gs i) (hst : readGroup ram1s ram2s i bound st = some st') :
    st'.1 = st.1 + 1 ∧ st'.2.length = st.2.length ∧ ∀ m ≠ st.1, st'.2[m]? = st.2[m]? := by
  obtain ⟨data, hdata, hne⟩ := h.filled hfill
  rw [readGroup] at hst
  simp only [hdata, Option.bind_eq_bind, Option.bind_some, if_neg hne] at hst
  split at hst
  · cases hst
  · obtain ⟨num, _, hst⟩ := Option.bind_eq_some_iff.mp hst
    obtain ⟨links, _, hst⟩ := Option.bind_eq_some_iff.mp hst
    obtain rfl := Option.some.inj hst
    refine ⟨rfl, ?_, fun m hm => ?_⟩
    · rw [List.length_set, List.length_set]
    · rw [List.getElem?_set_ne hm.symm, List.getElem?_set_ne hm.symm]

end OiAmc.RamDecode

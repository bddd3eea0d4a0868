import OiAmc.NmGlb
import OiAmc.PartialMachine
import Mathlib.Data.List.Perm.Subperm

namespace OiAmc.BoardsMirror

open BoardsInfoTable KeyedList NmGlb PartialMachine

variable {done boards : List NmboardInfo} {table : Table} {bdi : NmboardInfo} {po : NmLkaddrInfo}
  {xs : List Entry}

def lastRecord (boards : List NmboardInfo) (po : NmLkaddrInfo) : Option NmboardInfo :=
  lookup NmboardInfo.lki po boards.reverse

def StandsFor (boards : List NmboardInfo) (entry : Entry) : Prop :=
  ∃ po bdi, lastRecord boards po = some bdi ∧ entry.index = indexOf po ∧
    entry.boardType = bdi.bdtype.toNat ∧ entry.boardStat = bdi.stat.toNat

/-- The table has one row for each address of a list of boards, with what the last record of
the address says, and it is asked about that list. -/
structure Mirrors (boards : List NmboardInfo) (table : Table) : Prop where
  one : (table.head.map Entry.index).Nodup
  row : ∀ entry ∈ table.head, StandsFor boards entry
  all : ∀ po, (lastRecord boards po).isSome → ∃ entry ∈ table.head, entry.index = indexOf po
  count : table.count = table.head.length
  getbdtype : ∀ po, getbdtype table po =
    (lastRecord boards po).map fun bdi => (bdi.bdtype.toNat : Int)
  getboards : ∀ bdtype, (getboards table bdtype).Nodup ∧ ∀ index,
    index ∈ getboards table bdtype ↔ ∃ po bdi, index = indexOf po ∧
      lastRecord boards po = some bdi ∧ (bdi.bdtype.toNat : Int) = bdtype

theorem lastRecord_snoc (boards : List NmboardInfo) (bdi : NmboardInfo) (po : NmLkaddrInfo) :
    lastRecord (boards ++ [bdi]) po =
      if bdi.lki = po then some bdi else lastRecord boards po := by
  rw [lastRecord, List.reverse_append, List.reverse_singleton, List.singleton_append, lookup_cons,
    lastRecord]

theorem indexOf_inj {po po' : NmLkaddrInfo} (h : indexOf po = indexOf po') : po = po' := by
  obtain ⟨rack, shelf, slot, subslot⟩ := po
  obtain ⟨rack', shelf', slot', subslot'⟩ := po'
  simp only [indexOf, Prod.mk.injEq, Int.ofNat_inj, UInt8.toNat_inj] at h
  obtain ⟨rfl, rfl, rfl, rfl⟩ := h
  rfl

structure Marked (done : List NmboardInfo) (table : Table) : Prop where
  one : (table.head.map Entry.index).Nodup
  count : table.count = table.head.length
  row : ∀ entry ∈ table.head, entry.valid ≠ 0 → StandsFor done entry
  all : ∀ po, (lastRecord done po).isSome →
    ∃ entry ∈ table.head, entry.index = indexOf po ∧ entry.valid ≠ 0

theorem marked_reset (hone : (table.head.map Entry.index).Nodup)
    (hcount : table.count = table.head.length) : Marked [] (resetValid table) where
  one := by
    rw [resetValid, List.map_map]
    exact hone
  count := by
    rw [resetValid, List.length_map]
    exact hcount
  row entry h hvalid := by
    obtain ⟨e, -, rfl⟩ := List.mem_map.mp h
    exact absurd rfl hvalid
  all po h := by cases h

theorem standsFor_snoc {entry : Entry} (h : StandsFor done entry)
    (hne : entry.index ≠ indexOf bdi.lki) : StandsFor (done ++ [bdi]) entry := by
  obtain ⟨po, b, hb, hindex, htype, hstat⟩ := h
  refine ⟨po, b, ?_, hindex, htype, hstat⟩
  rw [lastRecord_snoc, if_neg, hb]
  rintro rfl
  exact hne hindex

theorem marked_update (h : Marked done table) :
    Marked (done ++ [bdi]) (update true table bdi.lki bdi.bdtype bdi.stat) := by
  have hlast : lastRecord (done ++ [bdi]) bdi.lki = some bdi := by
    rw [lastRecord_snoc, if_pos rfl]
  rw [update]
  cases hfind : lookup Entry.index (indexOf bdi.lki) table.head with
  | some found =>
      obtain ⟨hmem, hkey⟩ := lookup_some hfind
      dsimp only
      refine ⟨?_, ?_, fun entry hentry hvalid => ?_, fun po hpo => ?_⟩
      · rw [map_alter]
        · exact h.one
        · exact fun _ _ hk => hk
      · rw [length_alter]
        exact h.count
      · rcases mem_alter.mp hentry with ⟨hold, hne⟩ | ⟨old, _, hk, rfl⟩
        · exact standsFor_snoc (h.row entry hold hvalid) hne
        · exact ⟨bdi.lki, bdi, hlast, hk, rfl, rfl⟩
      · by_cases hne : indexOf po = indexOf bdi.lki
        · refine ⟨_, mem_alter.mpr (Or.inr ⟨found, hmem, hkey, rfl⟩), ?_, Int.one_ne_zero⟩
          exact hkey.trans hne.symm
        · rw [lastRecord_snoc, if_neg fun he => hne (congrArg indexOf he.symm)] at hpo
          obtain ⟨entry, hentry, hindex, hvalid⟩ := h.all po hpo
          exact ⟨entry, mem_alter.mpr (Or.inl ⟨hentry, hindex ▸ hne⟩), hindex, hvalid⟩
  | none =>
      have hnew := lookup_none_iff.mp hfind
      simp only [if_true]
      refine ⟨?_, ?_, fun entry hentry hvalid => ?_, fun po hpo => ?_⟩
      · exact List.nodup_cons.mpr ⟨hnew, h.one⟩
      · rw [List.length_cons, h.count, Int.natCast_succ]
      · rcases List.mem_cons.mp hentry with rfl | hold
        · exact ⟨bdi.lki, bdi, hlast, rfl, rfl, rfl⟩
        · refine standsFor_snoc (h.row entry hold hvalid) fun he => hnew ?_
          exact he ▸ List.mem_map_of_mem hold
      · by_cases hne : bdi.lki = po
        · exact ⟨_, List.mem_cons_self, congrArg indexOf hne, Int.one_ne_zero⟩
        · rw [lastRecord_snoc, if_neg hne] at hpo
          obtain ⟨entry, hentry, hindex, hvalid⟩ := h.all po hpo
          exact ⟨entry, List.mem_cons_of_mem _ hentry, hindex, hvalid⟩

def stays (entry : Entry) : Bool := decide (entry.valid ≠ 0)

theorem delBehind_eq (xs : List Entry) (count : Int) :
    delBehind xs count = (xs.filter stays, count - xs.length + (xs.filter stays).length) := by
  induction xs generalizing count with
  | nil => simp [delBehind]
  | cons n p ih =>
      rw [delBehind, List.filter_cons]
      by_cases hv : n.valid = 0
      · have hs : stays n = false := by simp [stays, hv]
        rw [if_pos hv, ih, hs, if_neg Bool.false_ne_true, List.length_cons]
        congr 1
        omega
      · have hs : stays n = true := by simp [stays, hv]
        rw [if_neg hv, ih, hs, if_pos rfl, List.length_cons, List.length_cons]
        dsimp only
        congr 1
        omega

theorem delHeads_eq (xs : List Entry) (count : Int) :
    (xs.filter stays = [] ∧ (delHeads xs count).1 = []) ∨
      ∃ n p c, delHeads xs count = (n :: p, c) ∧ xs.filter stays = n :: p.filter stays ∧
        c - (p.length + 1) = count - xs.length := by
  induction xs generalizing count with
  | nil => exact Or.inl ⟨rfl, rfl⟩
  | cons n p ih =>
      rw [delHeads, List.filter_cons]
      by_cases hv : n.valid = 0
      · have hs : stays n = false := by simp [stays, hv]
        rw [if_pos hv, hs, if_neg Bool.false_ne_true]
        rcases ih (count - 1) with hnil | ⟨n', p', c, hdel, hfilter, hc⟩
        · exact Or.inl hnil
        · refine Or.inr ⟨n', p', c, hdel, hfilter, ?_⟩
          rw [hc, List.length_cons]
          omega
      · have hs : stays n = true := by simp [stays, hv]
        rw [if_neg hv, hs, if_pos rfl]
        exact Or.inr ⟨n, p, count, rfl, rfl, by rw [List.length_cons]; omega⟩

theorem delInvalidEntrys_eq (hcount : table.count = table.head.length) :
    delInvalidEntrys table =
      ⟨table.head.filter stays, (table.head.filter stays).length⟩ := by
  rw [delInvalidEntrys]
  split
  · next hnil =>
      obtain ⟨head, count⟩ := table
      subst hnil
      exact congrArg (Table.mk []) hcount
  · rcases delHeads_eq table.head table.count with ⟨hfilter, hnil⟩ | ⟨n, p, c, hdel, hfilter, hc⟩
    · rw [hfilter]
      split
      · rfl
      · next hsome => rw [hsome] at hnil; cases hnil
    · rw [hdel, hfilter]
      simp only [delBehind_eq, List.length_cons]
      congr 1
      omega

theorem lastRecord_mem (h : lastRecord boards po = some bdi) : bdi ∈ boards ∧ bdi.lki = po := by
  obtain ⟨hmem, hkey⟩ := lookup_some h
  exact ⟨List.mem_reverse.mp hmem, hkey⟩

theorem length_rows (hone : (xs.map Entry.index).Nodup)
    (hrow : ∀ entry ∈ xs, StandsFor boards entry) : xs.length ≤ boards.length := by
  have hsub : (xs.map Entry.index).Subperm (boards.map fun bdi => indexOf bdi.lki) := by
    refine hone.subperm fun index hindex => ?_
    obtain ⟨entry, hentry, rfl⟩ := List.mem_map.mp hindex
    obtain ⟨po, bdi, hlast, hpo, -, -⟩ := hrow entry hentry
    obtain ⟨hmem, rfl⟩ := lastRecord_mem hlast
    exact List.mem_map.mpr ⟨bdi, hmem, hpo.symm⟩
  have hlen := hsub.length_le
  rwa [List.length_map, List.length_map] at hlen

theorem mirrors_of_marked (hboards : boards.length ≤ 255) (h : Marked boards table) :
    Mirrors boards (delInvalidEntrys table) := by
  rw [delInvalidEntrys_eq h.count]
  generalize hxs : table.head.filter stays = xs
  have hmem (entry : Entry) : entry ∈ xs ↔ entry ∈ table.head ∧ entry.valid ≠ 0 := by
    rw [← hxs, List.mem_filter, stays, decide_eq_true_eq]
  have hone : (xs.map Entry.index).Nodup :=
    h.one.sublist (hxs ▸ List.filter_sublist.map _)
  have hrow (entry : Entry) (hentry : entry ∈ xs) : StandsFor boards entry :=
    h.row entry ((hmem entry).mp hentry).1 ((hmem entry).mp hentry).2
  have hall (po : NmLkaddrInfo) (hpo : (lastRecord boards po).isSome) :
      ∃ entry ∈ xs, entry.index = indexOf po := by
    obtain ⟨entry, hentry, hindex, hvalid⟩ := h.all po hpo
    exact ⟨entry, (hmem entry).mpr ⟨hentry, hvalid⟩, hindex⟩
  refine ⟨hone, hrow, hall, rfl, fun po => ?_, fun bdtype => ?_⟩
  · rw [getbdtype]
    cases hlast : lastRecord boards po with
    | none =>
        rw [lookup_none_iff.mpr]
        · rfl
        · rintro hindex
          obtain ⟨entry, hentry, hpo⟩ := List.mem_map.mp hindex
          obtain ⟨po', bdi, hlast', hpo', -, -⟩ := hrow entry hentry
          rw [indexOf_inj (hpo'.symm.trans hpo), hlast] at hlast'
          cases hlast'
    | some bdi =>
        obtain ⟨entry, hentry, hpo⟩ := hall po (by rw [hlast]; rfl)
        obtain ⟨po', bdi', hlast', hpo', htype, -⟩ := hrow entry hentry
        rw [indexOf_inj (hpo'.symm.trans hpo), hlast] at hlast'
        cases hlast'
        dsimp only
        rw [← hpo, lookup_eq hone hentry]
        exact congrArg some htype
  · have hfew : ¬ snmpMaxBoardCnt ≤
        ((xs.filter fun entry => decide (entry.boardType = bdtype)).map Entry.index).length := by
      have hlen := Nat.le_trans (length_rows hone hrow) hboards
      have hle := List.length_filter_le (fun entry : Entry => decide (entry.boardType = bdtype)) xs
      rw [List.length_map, snmpMaxBoardCnt]
      omega
    rw [getboards, if_neg hfew]
    refine ⟨hone.sublist (List.filter_sublist.map _), fun index => ?_⟩
    rw [List.mem_map]
    constructor
    · rintro ⟨entry, hentry, rfl⟩
      obtain ⟨hentry, htype⟩ := List.mem_filter.mp hentry
      obtain ⟨po, bdi, hlast, hpo, htype', -⟩ := hrow entry hentry
      exact ⟨po, bdi, hpo, hlast, htype'.symm.trans (of_decide_eq_true htype)⟩
    · rintro ⟨po, bdi, rfl, hlast, rfl⟩
      obtain ⟨entry, hentry, hpo⟩ := hall po (by rw [hlast]; rfl)
      obtain ⟨po', bdi', hlast', hpo', htype, -⟩ := hrow entry hentry
      rw [indexOf_inj (hpo'.symm.trans hpo), hlast] at hlast'
      cases hlast'
      exact ⟨entry, List.mem_filter.mpr ⟨hentry, decide_eq_true htype⟩, hpo⟩

theorem overlay_code (pre rest : List UInt8) (bdi : NmboardInfo) :
    overlay (pre ++ (nmGlbCodeBdinfo bdi ++ rest)) pre.length = some (bdi.lki, bdi.bdtype, bdi.stat) := by
  have hat (i : Nat) : (pre ++ (nmGlbCodeBdinfo bdi ++ rest))[pre.length + i]? =
      (nmGlbCodeBdinfo bdi ++ rest)[i]? := by
    rw [List.getElem?_append_right (Nat.le_add_right _ _), Nat.add_sub_cancel_left]
  have h0 := hat 0
  rw [Nat.add_zero] at h0
  simp only [overlay, hat, h0]
  rfl

theorem updateAll_marked (entries : List NmsBdinfo) (pre : List UInt8) (h : Marked done table) :
    ∃ table', updateAll (fun _ => true)
        (pre ++ entries.flatMap fun entry => nmGlbCodeBdinfo entry.bdi) entries.length pre.length
        table = some table' ∧ Marked (done ++ entries.map NmsBdinfo.bdi) table' := by
  induction entries generalizing pre done table with
  | nil => exact ⟨table, rfl, by rwa [List.map_nil, List.append_nil]⟩
  | cons entry entries ih =>
      obtain ⟨table', hall, hmarked⟩ := ih (pre ++ nmGlbCodeBdinfo entry.bdi) (marked_update h)
      rw [List.append_assoc, List.length_append, length_codeBdinfo] at hall
      rw [List.append_assoc] at hmarked
      refine ⟨table', ?_, hmarked⟩
      rw [List.length_cons, updateAll, List.flatMap_cons, overlay_code, Option.bind_some]
      exact hall

/-- A list of boards goes to the agent as a packet. -/
def step (table : Table) (lsthd : List NmsBdinfo) : Option (Table × Table) :=
  (nmsGlbGetAllBdinfoPkt ⟨lsthd.length, lsthd⟩).bind fun pkt =>
    (socketAdaptProcGlbinfoModule (fun _ => true) table nmCmdGetBoardInfo pkt.octets).map fun r =>
      (r.1, r.1)

theorem step_mirrors (lsthd : List NmsBdinfo) (hlen : lsthd.length ≤ 255)
    (hone : (table.head.map Entry.index).Nodup) (hcount : table.count = table.head.length) :
    ∃ table', step table lsthd = some (table', table') ∧
      Mirrors (lsthd.map NmsBdinfo.bdi) table' := by
  obtain ⟨table', hall, hmarked⟩ := updateAll_marked lsthd [UInt8.ofNat lsthd.length]
    (marked_reset hone hcount)
  rw [List.nil_append] at hmarked
  have hcnt : (UInt8.ofNat lsthd.length).toNat = lsthd.length :=
    UInt8.toNat_ofNat_of_lt' (Nat.lt_succ_of_le hlen)
  refine ⟨delInvalidEntrys table', ?_, mirrors_of_marked (by rwa [List.length_map]) hmarked⟩
  rw [step, getAllBdinfoPkt_eq rfl, Option.bind_some, socketAdaptProcGlbinfoModule, if_pos rfl,
    List.getElem?_cons_zero]
  simp only [Option.bind_eq_bind, Option.bind_some, hcnt]
  have hall' : updateAll (fun _ => true) (UInt8.ofNat lsthd.length ::
      lsthd.flatMap fun entry => nmGlbCodeBdinfo entry.bdi) lsthd.length 1 (resetValid table) =
        some table' := hall
  rw [hall']
  rfl

/-- After each packet of a sequence the table mirrors the list of boards that it was made
from. -/
theorem table_mirrors_boards (lists : List (List NmsBdinfo))
    (h : ∀ lsthd ∈ lists, lsthd.length ≤ 255) :
    ∃ table tables, run step ⟨[], 0⟩ lists = some (table, tables) ∧
      List.Forall₂ (fun lsthd table => Mirrors (lsthd.map NmsBdinfo.bdi) table) lists tables := by
  have hrun : ∀ table : Table, (table.head.map Entry.index).Nodup →
      table.count = table.head.length →
      ∃ table' tables, run step table lists = some (table', tables) ∧
        List.Forall₂ (fun lsthd table => Mirrors (lsthd.map NmsBdinfo.bdi) table) lists tables := by
    induction lists with
    | nil => exact fun table _ _ => ⟨table, [], rfl, .nil⟩
    | cons lsthd lists ih =>
        intro table hone hcount
        obtain ⟨hlen, hrest⟩ := List.forall_mem_cons.mp h
        obtain ⟨table1, hstep, hmirrors⟩ := step_mirrors lsthd hlen hone hcount
        obtain ⟨table', tables, hrun, hall⟩ := ih hrest table1 hmirrors.one hmirrors.count
        exact ⟨table', table1 :: tables, run_cons.mpr ⟨_, _, _, hstep, hrun, rfl⟩,
          .cons hmirrors hall⟩
  exact hrun ⟨[], 0⟩ List.nodup_nil rfl

/-- A board leaves, and another one comes to another address with a board of its type. -/
def boardLists : List (List NmsBdinfo) :=
  [[⟨⟨"192.168.10.3", 3001⟩, 1, 1, 3, 0, 8, 0x21, 1⟩, ⟨⟨"192.168.10.4", 3002⟩, 1, 1, 4, 0, 9, 0x22, 1⟩],
    [⟨⟨"192.168.10.5", 3003⟩, 1, 1, 5, 0, 8, 0x21, 0⟩, ⟨⟨"192.168.10.3", 3001⟩, 1, 1, 3, 0, 8, 0x21, 1⟩]]

theorem boardLists_mirrored : (∀ lsthd ∈ boardLists, lsthd.length ≤ 255) ∧
    ∃ table tables, run step ⟨[], 0⟩ boardLists = some (table, tables) ∧
      List.Forall₂ (fun lsthd table => Mirrors (lsthd.map NmsBdinfo.bdi) table) boardLists
        tables :=
  ⟨by decide, table_mirrors_boards boardLists (by decide)⟩

end OiAmc.BoardsMirror

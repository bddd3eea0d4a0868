import Mathlib.Data.Prod.Lex
import OiAmc.PktQueue
import OiAmc.Reordering

namespace OiAmc.PktQueueOrder

open ByteOrder FifoTrace GotoLoop PartialMachine Pkt PktQueue RbTree Reordering StableOrder
open TimerMgr (timeDiff)

variable {host : Endian} {ops : EntryOps} {h t : Handle} {entry x : Entry} {rest : List Entry}

/-- The time of a packet, as the tree is ordered by it. -/
def stamp (host : Endian) (ph : Octets) : ℕ ×ₗ ℕ :=
  toLex ((pkthdrGetTsS host ph).toNat, (pkthdrGetTsNs host ph).toNat)

def time (host : Endian) (ph : Octets) : Int :=
  (pkthdrGetTsS host ph).toNat * 1000000000 + (pkthdrGetTsNs host ph).toNat

def key (entry : Entry) : ℕ ×ₗ ℕ := toLex (entry.s.toNat, entry.ns.toNat)

def packets (h : Handle) : List Octets := h.rbtree.inorder.map Entry.ph

structure Ready (host : Endian) (h : Handle) : Prop where
  isSorted : h.isSorted
  sorted : h.rbtree.inorder.Pairwise fun x y => key x ≤ key y
  first : h.first = h.rbtree.inorder.head?.map Entry.addr
  last : h.last = h.rbtree.inorder.getLast?.map Entry.addr
  cnt : h.cnt = UInt32.ofNat h.rbtree.inorder.length
  addrs : (h.rbtree.inorder.map Entry.addr).Nodup
  fresh : ∀ x ∈ h.rbtree.inorder, x.addr < h.fresh
  stamped : ∀ x ∈ h.rbtree.inorder, key x = stamp host x.ph

theorem ready_of_empty (hs : h.isSorted) (htree : h.rbtree = .leaf) (hfirst : h.first = none)
    (hlast : h.last = none) (hcnt : h.cnt = 0) : Ready host h := by
  have hnil : h.rbtree.inorder = [] := by rw [htree]; rfl
  constructor
  · exact hs
  · rw [hnil]
    exact List.Pairwise.nil
  · rw [hnil, hfirst]
    rfl
  · rw [hnil, hlast]
    rfl
  · rw [hnil, hcnt]
    rfl
  · rw [hnil]
    exact List.nodup_nil
  · rw [hnil]
    nofun
  · rw [hnil]
    nofun

theorem goesLeft_eq (entry current : Entry) : goesLeft entry current = decide (key entry < key current) := by
  rw [goesLeft, Bool.eq_iff_iff, Bool.or_eq_true, Bool.and_eq_true, decide_eq_true_eq, decide_eq_true_eq,
    decide_eq_true_eq, beq_iff_eq, key, key, Prod.Lex.toLex_lt_toLex, UInt32.lt_iff_toNat_lt,
    UInt32.lt_iff_toNat_lt, ← UInt32.toNat_inj]

theorem pushEntry_ready (hr : Ready host h) (haddr : entry.addr = h.fresh) (sz : UInt32) :
    Ready host (pktPushEntry host ops { h with fresh := h.fresh + 1 } entry sz) ∧
      (pktPushEntry host ops { h with fresh := h.fresh + 1 } entry sz).rbtree.inorder =
        place key (stamped host entry) h.rbtree.inorder := by
  have hsorted : Handle.isSorted { h with fresh := h.fresh + 1 } := hr.isSorted
  rw [pktPushEntry, if_pos hsorted]
  have hpart := parted_of_sorted (goesLeft_eq (stamped host entry)) hr.sorted
  have hmem : stamped host entry ∈
      (h.rbtree.link (goesLeft (stamped host entry)) (stamped host entry)).1.inorder := by
    rw [inorder_link hpart]
    exact List.mem_append_right _ List.mem_cons_self
  have horder := ops.inorder_insertColor _ _ hmem
  have hplace := inorder_link_key (goesLeft_eq (stamped host entry)) hr.sorted
  have hperm := @place_perm _ _ _ key (stamped host entry) h.rbtree.inorder
  have hnew : entry.addr ∉ h.rbtree.inorder.map Entry.addr := by
    intro hin
    obtain ⟨y, hy, he⟩ := List.mem_map.mp hin
    exact absurd (hr.fresh y hy) (by omega)
  refine ⟨⟨hsorted, ?_, ?_, ?_, ?_, ?_, ?_, ?_⟩, horder.trans hplace⟩
  · simp only [pktPushSorted, horder, hplace]
    exact sorted_place hr.sorted
  · simp only [pktPushSorted, horder, head_link hpart, hr.first]
    split <;> rfl
  · simp only [pktPushSorted, horder, last_link hpart, hr.last]
    split <;> rfl
  · simp only [pktPushSorted, horder, hplace, hperm.length_eq, hr.cnt, List.length_cons, UInt32.ofNat_add]
    rfl
  · simp only [pktPushSorted, horder, hplace, (hperm.map Entry.addr).nodup_iff]
    exact List.nodup_cons.mpr ⟨hnew, hr.addrs⟩
  · intro y hy
    simp only [pktPushSorted, horder, hplace, hperm.mem_iff] at hy ⊢
    rcases List.mem_cons.mp hy with rfl | hy
    · exact haddr.trans_lt (Nat.lt_succ_self _)
    · exact (hr.fresh y hy).trans (Nat.lt_succ_self _)
  · intro y hy
    simp only [pktPushSorted, horder, hplace, hperm.mem_iff] at hy
    rcases List.mem_cons.mp hy with rfl | hy
    · rfl
    · exact hr.stamped y hy

theorem entryAt_eq (haddrs : (h.rbtree.inorder.map Entry.addr).Nodup) (hx : x ∈ h.rbtree.inorder) :
    entryAt h x.addr = some x := find_addr haddrs hx

theorem takeFirst (haddrs : (h.rbtree.inorder.map Entry.addr).Nodup) (hx : h.rbtree.inorder = x :: rest) :
    entryAt h x.addr = some x ∧ ops.next h.rbtree x.addr = rest.head?.map Entry.addr ∧
      (ops.erase h.rbtree x.addr).inorder = rest := by
  have hmem : x ∈ h.rbtree.inorder := hx ▸ List.mem_cons_self
  exact ⟨entryAt_eq haddrs hmem, ops.next_eq _ [] _ _ hx haddrs,
    (ops.inorder_erase _ _ hmem haddrs).trans (filter_addr_cons haddrs hx)⟩

theorem popNode_ready (hr : Ready host h) (hx : h.rbtree.inorder = x :: rest) :
    ∃ t, popNode ops h = some (t, some x) ∧ Ready host t ∧ t.rbtree.inorder = rest ∧
      t.sortlen = h.sortlen ∧ t.duration = h.duration := by
  obtain ⟨hentry, hnext, herase⟩ := @takeFirst ops h x rest hr.addrs hx
  have hfirst : h.first = some x.addr := by rw [hr.first, hx]; rfl
  have hnodup := hr.addrs
  have hsorted := hr.sorted
  rw [hx, List.map_cons] at hnodup
  rw [hx] at hsorted
  refine ⟨{ h with
    first := ops.next h.rbtree x.addr
    rbtree := ops.erase h.rbtree x.addr
    last := if h.last = some x.addr then none else h.last
    cnt := h.cnt - 1
    size := h.size - UInt32.ofInt (entrySize + x.len) }, ?_, ⟨hr.isSorted, ?_, ?_, ?_, ?_, ?_, ?_, ?_⟩, herase,
    rfl, rfl⟩
  · simp only [popNode, hfirst, hentry, Option.bind_eq_bind, Option.bind_some]
    rfl
  · simp only [herase]
    exact (List.pairwise_cons.mp hsorted).2
  · simp only [herase, hnext]
  · simp only [herase, hr.last, hx]
    -- the node is the last one when no other is left
    cases rest with
    | nil => exact if_pos rfl
    | cons y ys =>
        rw [List.getLast?_cons_cons, if_neg]
        intro he
        obtain ⟨z, hz, haddr⟩ := Option.map_eq_some_iff.mp he
        exact (List.nodup_cons.mp hnodup).1 (haddr ▸ List.mem_map_of_mem (List.mem_of_getLast? hz))
  · simp only [herase, hr.cnt, hx, List.length_cons, UInt32.ofNat_add]
    exact UInt32.add_sub_cancel _ _
  · simp only [herase]
    exact (List.nodup_cons.mp hnodup).2
  · simp only [herase]
    intro y hy
    exact hr.fresh y (hx ▸ List.mem_cons_of_mem x hy)
  · simp only [herase]
    intro y hy
    exact hr.stamped y (hx ▸ List.mem_cons_of_mem x hy)

theorem cnt_toNat_le (hr : Ready host h) : h.cnt.toNat ≤ h.rbtree.inorder.length := by
  rw [hr.cnt, UInt32.toNat_ofNat']
  exact Nat.mod_le _ _

theorem cons_of_cnt (hr : Ready host h) (hcnt : ¬ h.cnt ≤ 0) : ∃ x rest, h.rbtree.inorder = x :: rest := by
  rcases hxs : h.rbtree.inorder with - | ⟨x, rest⟩
  · refine absurd ?_ hcnt
    rw [hr.cnt, hxs]
    exact UInt32.le_refl _
  · exact ⟨x, rest, rfl⟩

theorem tooNear_spec (hr : Ready host h) (hx : h.rbtree.inorder = x :: rest) :
    ∃ near, tooNear host h = some near ∧
      (near = false → ∃ p ∈ packets h, time host x.ph + h.duration < time host p) := by
  rw [tooNear]
  by_cases hone : h.cnt = 1
  · exact ⟨true, if_pos hone, nofun⟩
  obtain ⟨z, hz⟩ : ∃ z, h.rbtree.inorder.getLast? = some z := by
    rw [hx]
    exact ⟨_, List.getLast?_eq_some_getLast (List.cons_ne_nil x rest)⟩
  have hmem := List.mem_of_getLast? hz
  have hfirst : h.first.bind (entryAt h) = some x := by
    rw [hr.first, hx]
    exact entryAt_eq hr.addrs (hx ▸ List.mem_cons_self)
  have hlast : h.last.bind (entryAt h) = some z := by
    rw [hr.last, hz]
    exact entryAt_eq hr.addrs hmem
  rw [if_neg hone, hfirst, hlast]
  refine ⟨_, rfl, fun hfar => ⟨z.ph, List.mem_map_of_mem hmem, ?_⟩⟩
  have hfar := of_decide_eq_false hfar
  simp only [timeDiff] at hfar
  simp only [time]
  omega

/-- When a packet goes out unforced, more than sortlen are queued, and with a duration one is
queued that is more than that later. -/
def Released (host : Endian) (h : Handle) (x : Entry) : Prop :=
  h.sortlen.toNat < (packets h).length ∧
    (0 < h.duration → ∃ p ∈ packets h, time host x.ph + h.duration < time host p)

theorem popSorted_ready (hr : Ready host h) (force : Bool) :
    doPktPopSorted host ops h force = some (h, none) ∨
      ∃ x rest t, h.rbtree.inorder = x :: rest ∧ doPktPopSorted host ops h force = some (t, some x) ∧
        Ready host t ∧ t.rbtree.inorder = rest ∧ t.sortlen = h.sortlen ∧ t.duration = h.duration ∧
        (force = false → Released host h x) := by
  rw [doPktPopSorted]
  by_cases hempty : h.cnt ≤ 0
  · exact .inl (if_pos hempty)
  rw [if_neg hempty]
  by_cases hshort : force = false ∧ 0 < h.sortlen ∧ h.cnt ≤ h.sortlen
  · exact .inl (if_pos hshort)
  rw [if_neg hshort]
  obtain ⟨x, rest, hx⟩ := cons_of_cnt hr hempty
  obtain ⟨t, hpop, ht, hrest, hlen, hdur⟩ := @popNode_ready host ops h x rest hr hx
  have hlong : force = false → h.sortlen.toNat < (packets h).length := by
    intro hf
    have hle := cnt_toNat_le hr
    have hpos : 0 < h.cnt.toNat := UInt32.lt_iff_toNat_lt.mp (UInt32.not_le.mp hempty)
    rw [packets, List.length_map]
    by_cases hzero : 0 < h.sortlen
    · have hlt := UInt32.lt_iff_toNat_lt.mp (UInt32.not_le.mp fun hc => hshort ⟨hf, hzero, hc⟩)
      omega
    · have hz := UInt32.le_iff_toNat_le.mp (UInt32.not_lt.mp hzero)
      rw [show UInt32.toNat 0 = 0 from rfl] at hz
      omega
  by_cases hdelay : force = false ∧ 0 < h.duration
  · rw [if_pos hdelay]
    obtain ⟨near, hnear, hfar⟩ := tooNear_spec hr hx
    rw [hnear, Option.bind_some]
    cases near with
    | true => exact .inl rfl
    | false =>
        exact .inr ⟨x, rest, t, hx, hpop, ht, hrest, hlen, hdur, fun hf => ⟨hlong hf, fun _ => hfar rfl⟩⟩
  · rw [if_neg hdelay]
    exact .inr ⟨x, rest, t, hx, hpop, ht, hrest, hlen, hdur,
      fun hf => ⟨hlong hf, fun hd => absurd ⟨hf, hd⟩ hdelay⟩⟩

theorem clearLoop_spec (hfirst : h.first = h.rbtree.inorder.head?.map Entry.addr)
    (haddrs : (h.rbtree.inorder.map Entry.addr).Nodup) : ∃ p,
      loop (clearRound ops) (h.rbtree.inorder.length + 1) (h, []) = some p ∧
        p.2 = [] ++ h.rbtree.inorder ∧ p.1.type = h.type ∧ p.1.sizelimit = h.sizelimit := by
  refine @loop_total_rel _ _ (clearRound ops)
    (fun p => p.1.first = p.1.rbtree.inorder.head?.map Entry.addr ∧ (p.1.rbtree.inorder.map Entry.addr).Nodup)
    (fun p => p.1.rbtree.inorder.length)
    (fun p r => r.2 = p.2 ++ p.1.rbtree.inorder ∧ r.1.type = p.1.type ∧ r.1.sizelimit = p.1.sizelimit)
    ?_ _ (h, []) ⟨hfirst, haddrs⟩ (Nat.lt_succ_self _)
  rintro ⟨g, freed⟩ ⟨hfirst, haddrs⟩
  dsimp only at hfirst haddrs
  rcases hxs : g.rbtree.inorder with - | ⟨x, rest⟩
  · refine .inr ⟨(g, freed), ?_, ?_, rfl, rfl⟩
    · simp only [clearRound, hfirst, hxs, List.head?_nil, Option.map_none]
    · simp only [List.append_nil]
  · obtain ⟨hentry, hnext, herase⟩ := @takeFirst ops g x rest haddrs hxs
    refine .inl ⟨({ g with
      first := ops.next g.rbtree x.addr
      rbtree := ops.erase g.rbtree x.addr }, freed ++ [x]), ?_, ⟨?_, ?_⟩, ?_, ?_⟩
    · simp only [clearRound, hfirst, hxs, List.head?_cons, Option.map_some, hentry]
    · simp only [herase, hnext]
    · simp only [herase]
      rw [hxs, List.map_cons] at haddrs
      exact (List.nodup_cons.mp haddrs).2
    · simp only [herase, List.length_cons]
      exact Nat.lt_succ_self _
    · rintro r ⟨hfreed, hkeep⟩
      simp only [herase, List.append_assoc, List.singleton_append] at hfreed
      exact ⟨hfreed, hkeep⟩

theorem clear_ready (hr : Ready host h) :
    ∃ t, pktQueueClear ops h = some (t, h.rbtree.inorder) ∧ Ready host t ∧ t.rbtree = .leaf ∧
      t.type = h.type ∧ t.size = 0 ∧ t.sizelimit = h.sizelimit := by
  obtain ⟨⟨g, freed⟩, hloop, hfreed, htype, hlimit⟩ := @clearLoop_spec ops h hr.first hr.addrs
  obtain rfl : freed = h.rbtree.inorder := hfreed
  refine ⟨{ g with
    size := 0
    cnt := 0
    rbtree := .leaf
    first := none
    last := none }, ?_, ready_of_empty ?_ rfl rfl rfl rfl, rfl, htype, rfl, hlimit⟩
  · simp only [pktQueueClear, if_pos hr.isSorted, hloop, Option.map_some]
  · have hs := hr.isSorted
    rw [Handle.isSorted, ← htype] at hs
    exact hs

/-- What a call does to the packets of a queue, with sortlen and duration as they are. -/
structure Does (host : Endian) (n : Nat) (d : Int) (q : List Octets) (o : Output) (q' : List Octets) : Prop where
  moves : Moves (stamp host) q o.event q'
  length : ∀ x, o.event = .got x → n < q.length
  later : ∀ x, o.event = .got x → 0 < d → ∃ p ∈ q, time host x + d < time host p

structure Holds (host : Endian) (n : Nat) (d : Int) (h : Handle) (q : List Octets) : Prop where
  ready : Ready host h
  sortlen : h.sortlen.toNat = n
  duration : h.duration = d
  packets : packets h = q

variable {n : Nat} {d : Int} {q : List Octets}

theorem Holds.stays (hh : Holds host n d h q) {o : Output} (ho : o.event = .idle) :
    ∃ t o' q', some (h, o) = some (t, o') ∧ Does host n d q o' q' ∧ Holds host n d t q' := by
  refine ⟨h, o, q, rfl, ⟨?_, ?_, ?_⟩, hh⟩
  · rw [ho]
    exact .idle q
  · rw [ho]
    nofun
  · rw [ho]
    nofun

@[simp] theorem pushEntry_sortlen (h : Handle) (entry : Entry) (sz : UInt32) :
    (pktPushEntry host ops h entry sz).sortlen = h.sortlen := by
  rw [pktPushEntry]
  split <;> rfl

@[simp] theorem pushEntry_duration (h : Handle) (entry : Entry) (sz : UInt32) :
    (pktPushEntry host ops h entry sz).duration = h.duration := by
  rw [pktPushEntry]
  split <;> rfl

theorem Holds.push (hh : Holds host n d h q) (haddr : entry.addr = h.fresh) (sz : UInt32) (rc : Int) :
    ∃ t o q', some (pktPushEntry host ops { h with fresh := h.fresh + 1 } entry sz,
        Output.pushed rc (some entry)) = some (t, o) ∧ Does host n d q o q' ∧ Holds host n d t q' := by
  obtain ⟨hready, horder⟩ := @pushEntry_ready host ops h entry hh.ready haddr sz
  refine ⟨_, _, place (stamp host) entry.ph q, rfl, ⟨.put q entry.ph, nofun, nofun⟩, hready, ?_, ?_, ?_⟩
  · rw [pushEntry_sortlen]
    exact hh.sortlen
  · rw [pushEntry_duration]
    exact hh.duration
  · rw [← hh.packets, PktQueueOrder.packets, horder, PktQueueOrder.packets]
    exact place_map rfl fun y hy => (hh.ready.stamped y hy).symm

/-- pkt_push, pkt_push_nohdr and pkt_pop. -/
def isUnforced : Op → Bool
  | .push _ _ _ => true
  | .pushNohdr _ _ _ _ _ => true
  | .pop => true
  | _ => false

theorem step_does (hh : Holds host n d h q) {c : Op} (hc : isUnforced c) :
    ∃ t o q', step host ops h c = some (t, o) ∧ Does host n d q o q' ∧ Holds host n d t q' := by
  cases c with
  | push ph len mem =>
      simp only [step, pktPush]
      split_ifs
      · exact hh.stays rfl
      · exact hh.stays rfl
      · exact hh.stays rfl
      · exact hh.push rfl _ _
  | pushNohdr ph len s ns mem =>
      simp only [step, pktPushNohdr]
      split_ifs
      · exact hh.stays rfl
      · exact hh.stays rfl
      · exact hh.stays rfl
      · exact hh.stays rfl
      · exact hh.push rfl _ _
      · exact hh.stays rfl
  | pop =>
      rw [step, pktPop, doPktPop, if_pos hh.ready.isSorted]
      rcases @popSorted_ready host ops h hh.ready false with hpop | ⟨x, rest, t, hx, hpop, ht, hrest, hlen, hdur, hout⟩
      · rw [hpop]
        exact hh.stays rfl
      · obtain ⟨hlong, hlate⟩ := hout rfl
        rw [hh.sortlen, hh.packets] at hlong
        rw [hh.duration, hh.packets] at hlate
        have hq : q = x.ph :: rest.map Entry.ph := by rw [← hh.packets, PktQueueOrder.packets, hx, List.map_cons]
        refine ⟨t, .popped (some x), rest.map Entry.ph, by rw [hpop]; rfl, ⟨?_, ?_, ?_⟩, ht, ?_, ?_, ?_⟩
        · rw [hq]
          exact .got x.ph _
        · rintro y ⟨⟩
          exact hlong
        · rintro y ⟨⟩
          exact hlate
        · rw [hlen, hh.sortlen]
        · rw [hdur, hh.duration]
        · rw [PktQueueOrder.packets, hrest]
  | setSizelimit sizelimit => cases hc
  | setSortlen sortlen => cases hc
  | setDuration duration => cases hc
  | popForce => cases hc
  | clear => cases hc

theorem ready_of_settings (hr : Ready host h) {g : Handle} (htype : g.type = h.type) (hcnt : g.cnt = h.cnt)
    (htree : g.rbtree = h.rbtree) (hfirst : g.first = h.first) (hlast : g.last = h.last)
    (hfresh : g.fresh = h.fresh) : Ready host g := by
  cases g
  cases h
  cases htype
  cases hcnt
  cases htree
  cases hfirst
  cases hlast
  cases hfresh
  exact ⟨hr.isSorted, hr.sorted, hr.first, hr.last, hr.cnt, hr.addrs, hr.fresh, hr.stamped⟩

theorem pop_ready (hr : Ready host h) (force : Bool) :
    ∃ t o, doPktPop host ops h force = some (t, o) ∧ Ready host t := by
  rw [doPktPop, if_pos hr.isSorted]
  rcases @popSorted_ready host ops h hr force with hpop | ⟨x, rest, t, _, hpop, ht, _⟩
  · exact ⟨h, none, hpop, hr⟩
  · exact ⟨t, some x, hpop, ht⟩

theorem step_ready (h : Handle) (c : Op) (hr : Ready host h) :
    ∃ t o, step host ops h c = some (t, o) ∧ Ready host t := by
  cases c with
  | setSizelimit sizelimit => exact ⟨_, _, rfl, ready_of_settings hr rfl rfl rfl rfl rfl rfl⟩
  | setSortlen sortlen =>
      refine ⟨_, _, rfl, ?_⟩
      rw [pktQueueSetSortlen, if_pos hr.isSorted]
      exact ready_of_settings hr rfl rfl rfl rfl rfl rfl
  | setDuration duration =>
      refine ⟨_, _, rfl, ?_⟩
      rw [pktQueueSetDuration, if_pos hr.isSorted]
      exact ready_of_settings hr rfl rfl rfl rfl rfl rfl
  | push ph len mem =>
      obtain ⟨t, o, _, hs, _, ht⟩ := @step_does host ops h _ _ _ ⟨hr, rfl, rfl, rfl⟩ (.push ph len mem) rfl
      exact ⟨t, o, hs, ht.ready⟩
  | pushNohdr ph len s ns mem =>
      obtain ⟨t, o, _, hs, _, ht⟩ :=
        @step_does host ops h _ _ _ ⟨hr, rfl, rfl, rfl⟩ (.pushNohdr ph len s ns mem) rfl
      exact ⟨t, o, hs, ht.ready⟩
  | pop =>
      obtain ⟨t, o, hpop, ht⟩ := @pop_ready host ops h hr false
      exact ⟨t, .popped o, by rw [step, pktPop, hpop]; rfl, ht⟩
  | popForce =>
      obtain ⟨t, o, hpop, ht⟩ := @pop_ready host ops h hr true
      exact ⟨t, .popped o, by rw [step, pktPopForce, hpop]; rfl, ht⟩
  | clear =>
      obtain ⟨t, hclear, ht, -⟩ := @clear_ready host ops h hr
      exact ⟨t, .cleared h.rbtree.inorder, by rw [step, hclear]; rfl, ht⟩

/-- The packets that were popped, in order, with those of one time as they were pushed, and the
packets that are still queued are those that were pushed. -/
structure InOrder (host : Endian) (pushed popped queued : List Octets) : Prop where
  sorted : popped.Pairwise fun p q => stamp host p ≤ stamp host q
  same : ∀ e, (popped ++ queued).filter (fun p => decide (stamp host p = e)) =
    pushed.filter fun p => decide (stamp host p = e)
  kept : (popped ++ queued).Perm pushed

theorem inOrder_of_agrees {pushed popped queued : List Octets}
    (h : Agrees (stamp host) (popped ++ queued) pushed) : InOrder host pushed popped queued :=
  ⟨(List.pairwise_append.mp h.sorted).1, h.same, h.perm⟩

/-- While no later packet has a whole second in its ns, the order of the tree is that of the
times. -/
theorem pairwise_timely {ps : List Octets} (hns : ∀ p ∈ ps, (pkthdrGetTsNs host p).toNat < 1000000000)
    (hlate : ps.Pairwise fun p q => time host p ≤ time host q + d) :
    ps.Pairwise (Timely (stamp host) (time host) d) := by
  refine hlate.imp_of_mem fun {p q} _ hq hle => ⟨hle, fun hlt => ?_⟩
  have hq := hns q hq
  simp only [time] at hlt
  rw [stamp, stamp, Prod.Lex.toLex_le_toLex]
  omega

/-- What is pushed and popped unforced comes out in order when it is late by a number of places
at most, or by some time that fits the order of the tree, as it does where no ns is out of range. -/
def DeliversInOrder (host : Endian) (ops : EntryOps) (h : Handle) : Prop :=
  ∀ calls : List Op, (∀ c ∈ calls, isUnforced c) → ∃ t os, run (step host ops) h calls = some (t, os) ∧
    (WithinPlaces (stamp host) h.sortlen.toNat (puts (os.map Output.event)) →
      InOrder host (puts (os.map Output.event)) (gets (os.map Output.event)) (packets t)) ∧
    (0 < h.duration → (puts (os.map Output.event)).Pairwise (Timely (stamp host) (time host) h.duration) →
      InOrder host (puts (os.map Output.event)) (gets (os.map Output.event)) (packets t)) ∧
    (0 < h.duration → (∀ p ∈ puts (os.map Output.event), (pkthdrGetTsNs host p).toNat < 1000000000) →
      (puts (os.map Output.event)).Pairwise (fun p q => time host p ≤ time host q + h.duration) →
      InOrder host (puts (os.map Output.event)) (gets (os.map Output.event)) (packets t))

theorem empty_deliversInOrder (hr : Ready host h) (hempty : packets h = []) : DeliversInOrder host ops h := by
  intro calls hcalls
  obtain ⟨t, os, q', hrun, hruns, ht⟩ := guarded_meets
    (fun g q c hg hc => @step_does host ops g h.sortlen.toNat h.duration q hg c hc)
    ⟨hr, rfl, rfl, hempty⟩ (@guarded_of_forall _ _ _ (step host ops) _ h calls fun _ c hc => hcalls c hc)
  have hnil : Agrees (stamp host) ([] ++ []) [] := Agrees.nil
  have htime (hpos : 0 < h.duration)
      (hin : (puts (os.map Output.event)).Pairwise (Timely (stamp host) (time host) h.duration)) :
      Agrees (stamp host) (gets (os.map Output.event) ++ q') (puts (os.map Output.event)) :=
    runs_agree (rule_time (stamp host) (time host) h.duration) (fun _ _ _ _ hd => hd.moves)
      (fun ins outs q _ o q' x hd ho hag => by
        obtain ⟨p, hp, hlt⟩ := hd.later x ho hpos
        exact due_of_mem hag hp hlt) hruns hnil nofun (arrive_pairwise hin)
  rw [← ht.packets] at htime
  refine ⟨t, os, hrun, fun hin => ?_, fun hpos hin => inOrder_of_agrees (htime hpos hin),
    fun hpos hns hin => inOrder_of_agrees (htime hpos (pairwise_timely hns hin))⟩
  have hag := runs_agree (rule_places (stamp host) h.sortlen.toNat) (fun _ _ _ _ hd => hd.moves)
    (fun ins outs q _ o q' x hd ho hag => deep_of_length hag (hd.length x ho)) hruns hnil nofun
    (arrive_places hin)
  rw [ht.packets]
  exact inOrder_of_agrees hag

/-- A sorted queue is ready after any calls, and delivers in order from where it is empty. -/
theorem pops_in_order (host : Endian) (ops : EntryOps) {type : UInt32}
    (htype : type &&& PKTQUEUE_BUFFER_SORTED ≠ 0) (before : List Op) : ∃ h log,
      run (step host ops) (pktQueueOpen type) before = some (h, log) ∧ Ready host h ∧
        (packets h = [] → DeliversInOrder host ops h) := by
  have hopen : Ready host (pktQueueOpen type) := ready_of_empty htype rfl rfl rfl rfl
  obtain ⟨h, log, hrun, hready⟩ := guarded_run
    (fun g c hg _ => @step_ready host ops g c hg) hopen (guarded_true _ before)
  exact ⟨h, log, hrun, hready, empty_deliversInOrder hready⟩

theorem pops_in_order_two : ∃ h log,
    run (step .little (plainOps Entry.addr)) (pktQueueOpen 2) [.setSortlen 2] = some (h, log) ∧
      Ready .little h ∧ (packets h = [] → DeliversInOrder .little (plainOps Entry.addr) h) :=
  @pops_in_order .little (plainOps Entry.addr) 2 (by decide) [.setSortlen 2]

def pushAt (s ns : UInt32) : Op := .push (pkthdrSetTs .little (fun _ => 0) s ns) 20 ⟨true, true⟩

/-- A packet of 1 s and 4000000000 ns is in time behind one of 3 s, but the tree puts it before one
of 2 s that has gone. -/
theorem long_ns_pops_late : ¬ ∀ (calls : List Op) (t : Handle) (os : List Output), (∀ c ∈ calls, isUnforced c) →
    run (step .little (plainOps Entry.addr)) (pktQueueSetDuration (pktQueueOpen 2) 500) calls = some (t, os) →
    (puts (os.map Output.event)).Pairwise (fun p q => time .little p ≤ time .little q + 500000000) →
    (gets (os.map Output.event)).Pairwise fun p q => stamp .little p ≤ stamp .little q := by
  intro h
  let calls := [pushAt 2 0, pushAt 3 0, .pop, pushAt 1 4000000000, pushAt 7 0, .pop]
  have hready : Ready .little (pktQueueSetDuration (pktQueueOpen 2) 500) :=
    ready_of_empty (by decide) rfl rfl rfl rfl
  obtain ⟨t, os, hrun, _⟩ := @empty_deliversInOrder .little (plainOps Entry.addr) _ hready rfl calls (by decide)
  have hputs : ((run (step .little (plainOps Entry.addr)) (pktQueueSetDuration (pktQueueOpen 2) 500) calls).map
      fun r => (puts (r.2.map Output.event)).map (time .little)) =
        some [2000000000, 3000000000, 5000000000, 7000000000] := by decide
  have hgets : ((run (step .little (plainOps Entry.addr)) (pktQueueSetDuration (pktQueueOpen 2) 500) calls).map
      fun r => decide ((gets (r.2.map Output.event)).Pairwise fun p q => stamp .little p ≤ stamp .little q)) =
        some false := by decide
  rw [hrun, Option.map_some, Option.some.injEq] at hputs hgets
  have hin : (puts (os.map Output.event)).Pairwise
      fun p q => time .little p ≤ time .little q + 500000000 := by
    have hall : ((puts (os.map Output.event)).map (time .little)).Pairwise fun a b => a ≤ b + 500000000 := by
      rw [hputs]
      decide
    rwa [List.pairwise_map] at hall
  exact of_decide_eq_false hgets (h calls t os (by decide) hrun hin)

end OiAmc.PktQueueOrder

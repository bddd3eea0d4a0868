import Mathlib.Data.List.Perm.Basic
import OiAmc.PktAccess
import OiAmc.PktQueueOrder

namespace OiAmc.PktQueueMemory

open ByteOrder PartialMachine Pkt PktQueue RbTree StableOrder
open PktQueueOrder (Ready pushEntry_ready popSorted_ready clear_ready ready_of_empty ready_of_settings)

variable {host : Endian} {ops : EntryOps} {type : UInt32} {h t : Handle} {entry x : Entry} {c : Op}

def stored : Op → Nat
  | .push _ len _ => (entrySize + len).toNat
  | .pushNohdr _ len _ _ _ => (entrySize + hdrSize + len).toNat
  | _ => 0

/-- An entry has what a call pushed. Before octets that came without a header there is one that gives
back how many they are, and their time. -/
def Carries (host : Endian) (entry : Entry) : Op → Prop
  | .push ph len _ => 0 ≤ len ∧ entry.ph = ph ∧ entry.len = len
  | .pushNohdr ph len s ns _ => 0 ≤ len ∧ entry.len = hdrSize + len ∧
      pkthdrGetDlen host entry.ph = len ∧ pkthdrGetTsS host entry.ph = s ∧
      pkthdrGetTsNs host entry.ph = ns ∧ ∀ i : Nat, (i : Int) < len → entry.ph (i + 20) = ph i
  | _ => False

/-- The packets that are queued, by the calls that pushed them, the limit of their size, and the limit that was
in force when one was last accepted. -/
structure Account where
  queue : List Op
  limit : Nat
  last : Nat

/-- What the calls do to the account, when a list is emptied from its front. -/
inductive Counted (host : Endian) (sorted : Prop) : Account → Op → Output → Account → Prop
  | setSizelimit (a : Account) (sizelimit : UInt32) :
      Counted host sorted a (.setSizelimit sizelimit) .done { a with limit := sizelimit.toNat }
  | setSortlen (a : Account) (sortlen : Int) : Counted host sorted a (.setSortlen sortlen) .done a
  | setDuration (a : Account) (duration : Int) : Counted host sorted a (.setDuration duration) .done a
  | accepted (a : Account) (c : Op) (rc : Int) (entry : Entry) (he : Carries host entry c) :
      Counted host sorted a c (.pushed rc (some entry)) { a with queue := a.queue ++ [c], last := a.limit }
  | refused (a : Account) (c : Op) (rc : Int) : Counted host sorted a c (.pushed rc none) a
  | popped (a : Account) (c : Op) (q q' : List Op) (d : Op) (entry : Entry) (hq : a.queue = q ++ d :: q')
      (he : Carries host entry d) (hfirst : ¬ sorted → q = []) :
      Counted host sorted a c (.popped (some entry)) { a with queue := q ++ q' }
  | nothing (a : Account) (c : Op) (hempty : ¬ sorted → a.queue = []) :
      Counted host sorted a c (.popped none) a
  | cleared (a : Account) (c : Op) (freed : List Entry) (hall : freed.length = a.queue.length) :
      Counted host sorted a c (.cleared freed) { a with queue := [] }

/-- The lengths that pkt_push is called with. -/
def InRange : Op → Prop
  | .push _ len _ => 0 ≤ len ∧ len ≤ 2147483647
  | _ => True

/-- What is accepted does not take the size around, and its length fits a header that it gets. -/
def Fits (h : Handle) : Op → Prop
  | .push _ len mem => h.size + UInt32.ofInt (entrySize + len) ≤ h.sizelimit → mem.entry = true →
      (h.isMalloc → mem.copy = true) → h.size.toNat + (entrySize + len).toNat < 2 ^ 32
  | .pushNohdr _ len _ _ mem => h.isMalloc → 0 ≤ len →
      h.size + UInt32.ofInt (entrySize + hdrSize + len) ≤ h.sizelimit → mem.entry = true → mem.copy = true →
        h.size.toNat + (entrySize + hdrSize + len).toNat < 2 ^ 32 ∧ len ≤ 262120
  | _ => True

def entries (h : Handle) : List Entry := if h.isSorted then h.rbtree.inorder else h.list

structure Counts (host : Endian) (h : Handle) (a : Account) : Prop where
  ready : h.isSorted → Ready host h
  held : ∃ q, List.Forall₂ (Carries host) (entries h) q ∧ q.Perm a.queue ∧ (¬ h.isSorted → q = a.queue)
  cnt : h.cnt.toNat = a.queue.length
  size : h.size.toNat = (a.queue.map stored).sum
  limit : h.sizelimit.toNat = a.limit
  within : h.size.toNat ≤ a.last

variable {a : Account} {q : List Op} {es : List Entry} {n : Nat}

theorem Carries.len (hc : Carries host entry c) : (entrySize + entry.len).toNat = stored c := by
  cases c with
  | push ph len mem => rw [hc.2.2, stored]
  | pushNohdr ph len s ns mem => rw [hc.2.1, stored, Int.add_assoc]
  | _ => exact hc.elim

theorem Carries.stored_pos (hc : Carries host entry c) : 64 ≤ stored c := by
  cases c with
  | push ph len mem =>
      have hlen := hc.1
      simp only [stored, entrySize]
      omega
  | pushNohdr ph len s ns mem =>
      have hlen := hc.1
      simp only [stored, entrySize, hdrSize]
      omega
  | _ => exact hc.elim

theorem Carries.of_eq {x' : Entry} (hc : Carries host x c) (hph : x'.ph = x.ph) (hlen : x'.len = x.len) :
    Carries host x' c := by
  cases c <;> simp only [Carries, hph, hlen] at hc ⊢ <;> exact hc

theorem length_le_stored (hes : List.Forall₂ (Carries host) es q) : 64 * q.length ≤ (q.map stored).sum := by
  induction hes with
  | nil => exact Nat.le_refl 0
  | cons hx _ ih =>
      have := hx.stored_pos
      rw [List.map_cons, List.sum_cons, List.length_cons]
      omega

theorem Counts.held_le (hc : Counts host h a) : 64 * a.queue.length ≤ (a.queue.map stored).sum := by
  obtain ⟨q, hq, hperm, -⟩ := hc.held
  have hle := length_le_stored hq
  rwa [hperm.length_eq, (hperm.map stored).sum_nat] at hle

theorem pushEntry_list (hs : ¬ h.isSorted) (sz : UInt32) : pktPushEntry host ops h entry sz =
    { h with list := h.list ++ [entry], cnt := h.cnt + 1, size := h.size + sz } := by
  rw [pktPushEntry, if_neg hs]

theorem pushEntry_sorted (hs : h.isSorted) (sz : UInt32) : pktPushEntry host ops h entry sz =
    { pktPushSorted host ops h entry with cnt := h.cnt + 1, size := h.size + sz } := by
  rw [pktPushEntry, if_pos hs]
  rfl

theorem toNat_ofInt {n : Int} (h0 : 0 ≤ n) (h : n < 2 ^ 32) : (UInt32.ofInt n).toNat = n.toNat := by
  rw [UInt32.ofInt, UInt32.toNat_ofNat', Int.emod_eq_of_lt h0 h]
  exact Nat.mod_eq_of_lt (by omega)

theorem Counts.push (hc : Counts host h a) (haddr : entry.addr = h.fresh) (he : Carries host entry c)
    (hfits : h.size.toNat + stored c < 2 ^ 32) {sz : UInt32} (hsz : sz.toNat = stored c)
    (hlimit : ¬ h.sizelimit < h.size + sz) :
    Counts host (pktPushEntry host ops { h with fresh := h.fresh + 1 } entry sz)
      { a with queue := a.queue ++ [c], last := a.limit } := by
  have hpos := he.stored_pos
  have hsize : (h.size + sz).toNat = h.size.toNat + stored c := by
    rw [UInt32.toNat_add, hsz]
    exact Nat.mod_eq_of_lt hfits
  have hcnt : (h.cnt + 1).toNat = a.queue.length + 1 := by
    have hheld := hc.held_le
    rw [← hc.size] at hheld
    rw [UInt32.toNat_add, hc.cnt]
    exact Nat.mod_eq_of_lt (by simp only [UInt32.toNat_one]; omega)
  have hwithin : (h.size + sz).toNat ≤ a.limit := by
    rw [← hc.limit]
    exact UInt32.le_iff_toNat_le.mp (UInt32.not_lt.mp hlimit)
  have hsum : (h.size + sz).toNat = ((a.queue ++ [c]).map stored).sum := by
    rw [hsize, hc.size, List.map_append, List.sum_append, List.map_singleton, List.sum_singleton]
  obtain ⟨q, hq, hperm, hlist⟩ := hc.held
  by_cases hs : h.isSorted
  · have hs' : Handle.isSorted { h with fresh := h.fresh + 1 } := hs
    obtain ⟨hready, horder⟩ := @pushEntry_ready host ops h entry (hc.ready hs) haddr sz
    rw [pushEntry_sorted hs'] at hready horder ⊢
    refine ⟨fun _ => hready, ?_, ?_, hsum, hc.limit, hwithin⟩
    · rw [entries, if_pos hs] at hq
      rw [entries, if_pos hready.isSorted, horder]
      have hnew : List.Forall₂ (Carries host) (PktQueue.stamped host entry :: h.rbtree.inorder) (c :: q) :=
        .cons (he.of_eq rfl rfl) hq
      obtain ⟨q', hq', hperm'⟩ := List.perm_comp_forall₂ (@place_perm _ _ _ PktQueueOrder.key _ _) hnew
      refine ⟨q', hq', ?_, fun hn => absurd hready.isSorted hn⟩
      exact hperm'.trans ((hperm.cons c).trans (List.perm_append_singleton c a.queue).symm)
    · rw [List.length_append]
      exact hcnt
  · have hs' : ¬ Handle.isSorted { h with fresh := h.fresh + 1 } := hs
    rw [pushEntry_list hs']
    refine ⟨fun hs'' => absurd hs'' hs, ?_, ?_, hsum, hc.limit, hwithin⟩
    · rw [entries, if_neg hs] at hq
      refine ⟨q ++ [c], ?_, hperm.append_right [c], fun _ => ?_⟩
      · change List.Forall₂ _ (if h.isSorted then _ else h.list ++ [entry]) _
        rw [if_neg hs]
        exact List.rel_append hq (.cons he .nil)
      · rw [hlist hs]
    · rw [List.length_append]
      exact hcnt

theorem size_pop {n : Nat} {sz : UInt32} (hsz : sz.toNat = n) (hn : n ≤ h.size.toNat) :
    (h.size - sz).toNat = h.size.toNat - n := by
  rw [UInt32.toNat_sub_of_le _ _ (UInt32.le_iff_toNat_le.mpr (hsz.trans_le hn)), hsz]

theorem Counts.pop (hc : Counts host h a) {rest : List Entry} (hx : entries h = x :: rest)
    (hsorted : t.isSorted ↔ h.isSorted) (hready : t.isSorted → Ready host t) (hrest : entries t = rest)
    (hcnt : t.cnt = h.cnt - 1) (hsize : t.size = h.size - UInt32.ofInt (entrySize + x.len))
    (hlimit : t.sizelimit = h.sizelimit) :
    ∃ q d q', a.queue = q ++ d :: q' ∧ Carries host x d ∧ (¬ h.isSorted → q = []) ∧
      Counts host t { a with queue := q ++ q' } := by
  obtain ⟨ds, hds, hperm, hlist⟩ := hc.held
  rw [hx] at hds
  obtain ⟨d, ds', hd, hds', rfl⟩ := List.forall₂_cons_left_iff.mp hds
  obtain ⟨q, q', hq, hfirst⟩ : ∃ q q', a.queue = q ++ d :: q' ∧ (¬ h.isSorted → q = []) := by
    by_cases hs : h.isSorted
    · obtain ⟨q, q', hq⟩ := List.append_of_mem (hperm.subset List.mem_cons_self)
      exact ⟨q, q', hq, fun hn => absurd hs hn⟩
    · exact ⟨[], ds', (hlist hs).symm, fun _ => rfl⟩
  have hqueue : a.queue.length = (q ++ q').length + 1 := by
    rw [hq, List.length_append, List.length_cons, List.length_append]
    omega
  have hsum : (a.queue.map stored).sum = stored d + ((q ++ q').map stored).sum := by
    simp only [hq, List.map_append, List.map_cons, List.sum_append, List.sum_cons]
    omega
  have htotal := hc.size
  have hlt := h.size.toNat_lt
  have hpos := hd.stored_pos
  have hsz : (UInt32.ofInt (entrySize + x.len)).toNat = stored d := by
    rw [← hd.len]
    apply toNat_ofInt
    · have := hd.len
      omega
    · have := hd.len
      omega
  have hnew : t.size.toNat = ((q ++ q').map stored).sum := by
    rw [hsize, size_pop hsz (by omega), htotal, hsum]
    omega
  have hone : (1 : UInt32) ≤ h.cnt := by
    rw [UInt32.le_iff_toNat_le, hc.cnt, hqueue, UInt32.toNat_one]
    omega
  refine ⟨q, d, q', hq, hd, hfirst, hready, ⟨ds', ?_, ?_, ?_⟩, ?_, hnew, ?_, ?_⟩
  · rwa [hrest]
  · exact (List.perm_cons d).mp (hperm.trans (hq ▸ List.perm_middle))
  · intro hn
    have hs : ¬ h.isSorted := mt hsorted.mpr hn
    have he := hlist hs
    rw [hq, hfirst hs] at he
    rw [hfirst hs]
    exact (List.cons.inj he).2
  · rw [hcnt, UInt32.toNat_sub_of_le _ _ hone, hc.cnt, hqueue]
    rfl
  · rw [hlimit]
    exact hc.limit
  · have := hc.within
    have : t.size.toNat ≤ h.size.toNat := by omega
    exact this.trans hc.within

theorem nohdrPacket_of_lt (host : Endian) (ph : Octets) (len : Int) (s ns : UInt32) {i : Nat} (hi : i < 20) :
    nohdrPacket host ph len s ns i =
      pkthdrSetTs host (pkthdrSetDlen host (pkthdrSetSync host fun _ => 0) len) s ns i :=
  if_neg fun h => by
    simp only [hdrSize] at h
    omega

theorem nohdr_carries (host : Endian) (ph : Octets) {len : Int} (s ns : UInt32) (mem : Mem) (addr : Nat)
    (h0 : 0 ≤ len) (hlen : len ≤ 262120) :
    Carries host ⟨addr, nohdrPacket host ph len s ns, (hdrSize + len).bmod 0x100000000, 0, 0⟩
      (.pushNohdr ph len s ns mem) := by
  have hhdr := @nohdrPacket_of_lt host ph len s ns
  have hplen : pkthdrGetPlen host (nohdrPacket host ph len s ns) =
      pkthdrGetPlen host (pkthdrSetDlen host (pkthdrSetSync host fun _ => 0) len) :=
    getPlen_congr fun i hi => by rw [hhdr (by omega), setTs_of_lt _ _ _ _ (by omega)]
  refine ⟨h0, ?_, ?_, ?_, ?_, ?_⟩
  · apply Int.bmod_eq_of_le
    · simp only [hdrSize]
      omega
    · simp only [hdrSize]
      omega
  · rw [pkthdrGetDlen, hplen]
    exact (getDlen_setDlen_iff h0 (by omega)).mpr hlen
  · rw [pkthdrGetTsS, swap32_load32, be32_congr 12 fun i hi => hhdr (by omega), ← swap32_load32 host,
      ← pkthdrGetTsS]
    exact PktAccess.getTsS_setTs _ s ns
  · rw [pkthdrGetTsNs, swap32_load32, be32_congr 16 fun i hi => hhdr (by omega), ← swap32_load32 host,
      ← pkthdrGetTsNs]
    exact PktAccess.getTsNs_setTsNs _ ns
  · intro i hi
    have hin : hdrSize ≤ ((i + 20 : Nat) : Int) ∧ ((i + 20 : Nat) : Int) < hdrSize + len := by
      simp only [hdrSize]
      omega
    exact if_pos hin

/-- A call does to a queue what the account says. -/
def Accounts (host : Endian) (ops : EntryOps) (sorted : Prop) (h : Handle) (a : Account) (c : Op) : Prop :=
  ∃ t o b, step host ops h c = some (t, o) ∧ Counted host sorted a c o b ∧ Counts host t b ∧ t.type = h.type

theorem pushEntry_type (h : Handle) (entry : Entry) (sz : UInt32) :
    (pktPushEntry host ops h entry sz).type = h.type := by
  rw [pktPushEntry]
  split <;> rfl

theorem push_accounts (sorted : Prop) (hc : Counts host h a) {ph : Octets} {len : Int} {mem : Mem}
    (hrange : InRange (.push ph len mem)) (hfits : Fits h (.push ph len mem)) :
    Accounts host ops sorted h a (.push ph len mem) := by
  have hstay (rc : Int) (hr : pktPush host ops h ph len mem = (h, rc, none)) :
      Accounts host ops sorted h a (.push ph len mem) :=
    ⟨h, _, a, by rw [step, hr], .refused a _ rc, hc, rfl⟩
  by_cases hlimit : h.sizelimit < h.size + UInt32.ofInt (entrySize + len)
  · exact hstay 0 (by rw [pktPush, if_pos hlimit])
  by_cases hmem : (!mem.entry) = true
  · exact hstay (-1) (by rw [pktPush, if_neg hlimit, if_pos hmem])
  by_cases hcopy : h.isMalloc ∧ mem.copy = false
  · exact hstay (-1) (by rw [pktPush, if_neg hlimit, if_neg hmem, if_pos hcopy])
  have he : Carries host ⟨h.fresh, ph, len, 0, 0⟩ (.push ph len mem) := ⟨hrange.1, rfl, rfl⟩
  have hfit := hfits (UInt32.not_lt.mp hlimit) (by simpa using hmem)
    fun hm => by simpa using fun hf => hcopy ⟨hm, hf⟩
  have hsz : (UInt32.ofInt (entrySize + len)).toNat = stored (.push ph len mem) := by
    apply toNat_ofInt
    · simp only [entrySize]
      have := hrange.1
      omega
    · simp only [entrySize]
      have := hrange.2
      omega
  refine ⟨_, _, _, ?_, .accepted a _ len _ he, hc.push rfl he hfit hsz hlimit, @pushEntry_type host ops _ _ _⟩
  rw [step, pktPush, if_neg hlimit, if_neg hmem, if_neg hcopy]

theorem pushNohdr_accounts (sorted : Prop) (hc : Counts host h a) {ph : Octets} {len : Int} {s ns : UInt32}
    {mem : Mem} (hfits : Fits h (.pushNohdr ph len s ns mem)) :
    Accounts host ops sorted h a (.pushNohdr ph len s ns mem) := by
  have hstay (rc : Int) (hr : pktPushNohdr host ops h ph len s ns mem = (h, rc, none)) :
      Accounts host ops sorted h a (.pushNohdr ph len s ns mem) :=
    ⟨h, _, a, by rw [step, hr], .refused a _ rc, hc, rfl⟩
  by_cases hmalloc : ¬ h.isMalloc
  · exact hstay (-1) (by rw [pktPushNohdr, if_pos hmalloc])
  by_cases hneg : len < 0
  · exact hstay (-1) (by rw [pktPushNohdr, if_neg hmalloc, if_pos hneg])
  by_cases hlimit : h.sizelimit < h.size + UInt32.ofInt (entrySize + hdrSize + len)
  · exact hstay 0 (by rw [pktPushNohdr, if_neg hmalloc, if_neg hneg, if_pos hlimit])
  by_cases hmem : (!mem.entry) = true
  · exact hstay (-1) (by rw [pktPushNohdr, if_neg hmalloc, if_neg hneg, if_neg hlimit, if_pos hmem])
  by_cases hcopy : (!mem.copy) = true
  · exact hstay (-1) (by
      rw [pktPushNohdr, if_neg hmalloc, if_neg hneg, if_neg hlimit, if_neg hmem, if_pos hcopy])
  have h0 := Int.not_lt.mp hneg
  obtain ⟨hfit, hlen⟩ := hfits (not_not.mp hmalloc) h0 (UInt32.not_lt.mp hlimit) (by simpa using hmem)
    (by simpa using hcopy)
  have he := nohdr_carries host ph s ns mem h.fresh h0 hlen
  have hsz : (UInt32.ofInt (entrySize + hdrSize + len)).toNat = stored (.pushNohdr ph len s ns mem) := by
    apply toNat_ofInt
    · simp only [entrySize, hdrSize]
      omega
    · simp only [entrySize, hdrSize]
      omega
  refine ⟨_, _, _, ?_, .accepted a _ len _ he, hc.push rfl he hfit hsz hlimit, @pushEntry_type host ops _ _ _⟩
  rw [step, pktPushNohdr, if_neg hmalloc, if_neg hneg, if_neg hlimit, if_neg hmem, if_neg hcopy]

theorem popNode_some {o : Option Entry} (hpop : popNode ops h = some (t, o)) : ∃ x, o = some x ∧
    t.cnt = h.cnt - 1 ∧ t.size = h.size - UInt32.ofInt (entrySize + x.len) ∧ t.sizelimit = h.sizelimit ∧
      t.type = h.type := by
  obtain ⟨node, -, hpop⟩ := Option.bind_eq_some_iff.mp hpop
  obtain ⟨x, -, hpop⟩ := Option.bind_eq_some_iff.mp hpop
  obtain ⟨rfl, rfl⟩ := Prod.mk.inj (Option.some.inj hpop)
  exact ⟨x, rfl, rfl, rfl, rfl, rfl⟩

theorem popSorted_node {force : Bool} (hpop : doPktPopSorted host ops h force = some (t, some x)) :
    popNode ops h = some (t, some x) := by
  rw [doPktPopSorted] at hpop
  split_ifs at hpop
  · obtain ⟨-, he⟩ := Prod.mk.inj (Option.some.inj hpop)
    cases he
  · obtain ⟨-, he⟩ := Prod.mk.inj (Option.some.inj hpop)
    cases he
  · obtain ⟨near, -, hnear⟩ := Option.bind_eq_some_iff.mp hpop
    cases near with
    | true =>
        obtain ⟨-, he⟩ := Prod.mk.inj (Option.some.inj hnear)
        cases he
    | false => exact hnear
  · exact hpop

theorem isSorted_congr (htype : t.type = h.type) : t.isSorted ↔ h.isSorted := by
  rw [Handle.isSorted, htype, Handle.isSorted]

theorem pop_accounts (hc : Counts host h a) (force : Bool) :
    ∃ t o b, doPktPop host ops h force = some (t, o) ∧
      (∀ c, Counted host h.isSorted a c (.popped o) b) ∧ Counts host t b ∧ t.type = h.type := by
  by_cases hs : h.isSorted
  · have hr := hc.ready hs
    rw [doPktPop, if_pos hs]
    rcases @popSorted_ready host ops h hr force with hpop | ⟨x, rest, t, hx, hpop, ht, hrest, -⟩
    · exact ⟨h, none, a, hpop, fun c => .nothing a c fun hn => absurd hs hn, hc, rfl⟩
    · obtain ⟨x', hx', hcnt, hsize, hlimit, htype⟩ := popNode_some (popSorted_node hpop)
      obtain rfl := Option.some.inj hx'
      have hin : entries h = x :: rest := (if_pos hs).trans hx
      have hout : entries t = rest := (if_pos ht.isSorted).trans hrest
      obtain ⟨q, d, q', hq, hd, hfirst, hc'⟩ :=
        hc.pop hin (isSorted_congr htype) (fun _ => ht) hout hcnt hsize hlimit
      exact ⟨t, some x, _, hpop, fun c => .popped a c q q' d x hq hd hfirst, hc', htype⟩
  · rw [doPktPop, if_neg hs, doPktPopList]
    obtain ⟨q, hq, -, hlist⟩ := hc.held
    rw [hlist hs, entries, if_neg hs] at hq
    have hcnt := hc.cnt
    rw [← hq.length_eq] at hcnt
    cases hes : h.list with
    | nil =>
        rw [hes] at hq hcnt
        have hzero : h.cnt ≤ 0 := UInt32.le_iff_toNat_le.mpr hcnt.le
        rw [if_pos hzero]
        exact ⟨h, none, a, rfl, fun c => .nothing a c fun _ => List.forall₂_nil_left_iff.mp hq, hc, rfl⟩
    | cons x rest =>
        have hpos : ¬ h.cnt ≤ 0 := by
          rw [UInt32.le_iff_toNat_le, hcnt, hes, List.length_cons]
          exact Nat.not_succ_le_zero _
        rw [if_neg hpos]
        have hin : entries h = x :: rest := (if_neg hs).trans hes
        have hs' (g : Handle) (htype : g.type = h.type) : ¬ g.isSorted := mt (isSorted_congr htype).mp hs
        obtain ⟨q, d, q', hq, hd, hfirst, hc'⟩ := hc.pop
          (t := { h with
            list := rest
            cnt := h.cnt - 1
            size := h.size - UInt32.ofInt (entrySize + x.len) })
          hin Iff.rfl (fun hs'' => absurd hs'' hs) (if_neg hs) rfl rfl rfl
        exact ⟨_, some x, _, rfl, fun c => .popped a c q q' d x hq hd hfirst, hc', rfl⟩

theorem clear_accounts (hc : Counts host h a) :
    ∃ t freed, pktQueueClear ops h = some (t, freed) ∧ freed.length = a.queue.length ∧
      Counts host t { a with queue := [] } ∧ t.type = h.type := by
  have hempty (t : Handle) (hready : t.isSorted → Ready host t) (hin : entries t = []) (hcnt : t.cnt = 0)
      (hsize : t.size = 0) (hlimit : t.sizelimit = h.sizelimit) : Counts host t { a with queue := [] } := by
    refine ⟨hready, ⟨[], ?_, .nil, fun _ => rfl⟩, ?_, ?_, ?_, ?_⟩
    · rw [hin]
      exact .nil
    · rw [hcnt]
      rfl
    · rw [hsize]
      rfl
    · rw [hlimit]
      exact hc.limit
    · rw [hsize]
      exact Nat.zero_le _
  obtain ⟨q, hq, hperm, -⟩ := hc.held
  have hlen := hq.length_eq.trans hperm.length_eq
  by_cases hs : h.isSorted
  · obtain ⟨t, hclear, ht, hleaf, htype, hsize, hlimit⟩ := @clear_ready host ops h (hc.ready hs)
    rw [entries, if_pos hs] at hlen
    have hin : entries t = [] := by
      rw [entries, if_pos ht.isSorted, hleaf]
      rfl
    have hcnt : t.cnt = 0 := by
      rw [ht.cnt, hleaf]
      rfl
    exact ⟨t, _, hclear, hlen, hempty t (fun _ => ht) hin hcnt hsize hlimit, htype⟩
  · rw [entries, if_neg hs] at hlen
    refine ⟨{ h with list := [], size := 0, cnt := 0, rbtree := .leaf, first := none, last := none }, h.list,
      ?_, hlen, hempty _ ?_ ?_ rfl rfl rfl, rfl⟩
    · rw [pktQueueClear, if_neg hs]
      rfl
    · exact fun hs' => absurd hs' hs
    · exact if_neg hs

theorem Counts.of_settings (hc : Counts host h a) {g : Handle} (hlist : g.list = h.list) (hsize : g.size = h.size)
    (hlimit : g.sizelimit.toNat = n) (htype : g.type = h.type) (hcnt : g.cnt = h.cnt)
    (htree : g.rbtree = h.rbtree) (hfirst : g.first = h.first) (hlast : g.last = h.last)
    (hfresh : g.fresh = h.fresh) : Counts host g { a with limit := n } := by
  have hs := isSorted_congr htype
  have hin : entries g = entries h := by simp only [entries, hs, htree, hlist]
  refine ⟨fun hs' => ready_of_settings (hc.ready (hs.mp hs')) htype hcnt htree hfirst hlast hfresh, ?_, ?_, ?_,
    hlimit, ?_⟩
  · rw [hin]
    simpa only [hs] using hc.held
  · rw [hcnt]
    exact hc.cnt
  · rw [hsize]
    exact hc.size
  · rw [hsize]
    exact hc.within

theorem step_accounts (hc : Counts host h a) (hrange : InRange c) (hfits : Fits h c) :
    Accounts host ops h.isSorted h a c := by
  cases c with
  | setSizelimit sizelimit =>
      exact ⟨_, _, _, rfl, .setSizelimit a sizelimit, hc.of_settings rfl rfl rfl rfl rfl rfl rfl rfl rfl, rfl⟩
  | setSortlen sortlen =>
      refine ⟨_, _, _, rfl, .setSortlen a sortlen, ?_⟩
      rw [pktQueueSetSortlen]
      split
      · exact ⟨hc.of_settings rfl rfl hc.limit rfl rfl rfl rfl rfl rfl, rfl⟩
      · exact ⟨hc, rfl⟩
  | setDuration duration =>
      refine ⟨_, _, _, rfl, .setDuration a duration, ?_⟩
      rw [pktQueueSetDuration]
      split
      · exact ⟨hc.of_settings rfl rfl hc.limit rfl rfl rfl rfl rfl rfl, rfl⟩
      · exact ⟨hc, rfl⟩
  | push ph len mem => exact push_accounts _ hc hrange hfits
  | pushNohdr ph len s ns mem => exact pushNohdr_accounts _ hc hfits
  | pop =>
      obtain ⟨t, o, b, hpop, hcounted, ht⟩ := @pop_accounts host ops h a hc false
      exact ⟨t, .popped o, b, by rw [step, pktPop, hpop]; rfl, hcounted _, ht⟩
  | popForce =>
      obtain ⟨t, o, b, hpop, hcounted, ht⟩ := @pop_accounts host ops h a hc true
      exact ⟨t, .popped o, b, by rw [step, pktPopForce, hpop]; rfl, hcounted _, ht⟩
  | clear =>
      obtain ⟨t, freed, hclear, hlen, ht⟩ := @clear_accounts host ops h a hc
      exact ⟨t, .cleared freed, _, by rw [step, hclear]; rfl, .cleared a _ freed hlen, ht⟩

/-- As long as nothing that is accepted takes the size around or has no room in a header, the packets are
counted as they come and go. -/
theorem queue_accounts (host : Endian) (ops : EntryOps) (type : UInt32) {calls : List Op}
    (hrange : ∀ c ∈ calls, InRange c) (hfits : Guarded (step host ops) Fits (pktQueueOpen type) calls) :
    ∃ t os a, run (step host ops) (pktQueueOpen type) calls = some (t, os) ∧
      Runs (Counted host (type &&& PKTQUEUE_BUFFER_SORTED ≠ 0)) ⟨[], 0x40000000, 0⟩ calls os a ∧
      t.cnt.toNat = a.queue.length ∧ t.size.toNat = (a.queue.map stored).sum ∧ t.size.toNat ≤ a.last := by
  have hopen : Counts host (pktQueueOpen type) ⟨[], 0x40000000, 0⟩ :=
    ⟨fun hs => ready_of_empty hs rfl rfl rfl rfl, ⟨[], by rw [entries]; split <;> exact .nil, .nil, fun _ => rfl⟩,
      rfl, rfl, rfl, Nat.le_refl 0⟩
  have hstep (h : Handle) (a : Account) (c : Op) (hc : Counts host h a ∧ h.type = type)
      (hok : Fits h c ∧ InRange c) : ∃ t o b, step host ops h c = some (t, o) ∧
        Counted host (type &&& PKTQUEUE_BUFFER_SORTED ≠ 0) a c o b ∧ Counts host t b ∧ t.type = type := by
    obtain ⟨t, o, b, hstep, hcounted, ht, htype⟩ := @step_accounts host ops h c a hc.1 hok.2 hok.1
    rw [Handle.isSorted, hc.2] at hcounted
    exact ⟨t, o, b, hstep, hcounted, ht, htype.trans hc.2⟩
  obtain ⟨t, os, a, hrun, hruns, ht, -⟩ := guarded_meets hstep ⟨hopen, rfl⟩
    (guarded_and hfits (guarded_of_forall fun _ c hc => hrange c hc))
  exact ⟨t, os, a, hrun, hruns, ht.cnt, ht.size, ht.within⟩

theorem queue_accounts_one : ∃ t os a,
    run (step .little (plainOps Entry.addr)) (pktQueueOpen 1)
      [.pushNohdr (fun _ => 0) 5 1 2 ⟨true, true⟩, .pop] = some (t, os) ∧
    Runs (Counted .little ((1 : UInt32) &&& PKTQUEUE_BUFFER_SORTED ≠ 0)) ⟨[], 0x40000000, 0⟩
      [.pushNohdr (fun _ => 0) 5 1 2 ⟨true, true⟩, .pop] os a ∧
    t.cnt.toNat = a.queue.length ∧ t.size.toNat = (a.queue.map stored).sum ∧ t.size.toNat ≤ a.last :=
  queue_accounts .little (plainOps Entry.addr) 1 (by simp [InRange])
    ⟨fun _ _ _ _ _ => by decide, fun _ _ => ⟨trivial, fun _ _ => trivial⟩⟩

/-- The header of 262121 octets does not give back so many, and two packets of some 2 GiB take the size around. -/
theorem long_packets_miscounted :
    (¬ ∀ (type : UInt32) (calls : List Op), (∀ c ∈ calls, InRange c) → ∃ t os a,
      run (step .little (plainOps Entry.addr)) (pktQueueOpen type) calls = some (t, os) ∧
      Runs (Counted .little (type &&& PKTQUEUE_BUFFER_SORTED ≠ 0)) ⟨[], 0x40000000, 0⟩ calls os a) ∧
    (run (step .little (plainOps Entry.addr)) (pktQueueOpen 0) [.setSizelimit 0x7fffffff,
      .push (fun _ => 0) 2147483583 ⟨true, true⟩, .push (fun _ => 0) 2147483647 ⟨true, true⟩]).map
        (fun r => (r.1.cnt, r.1.size)) = some (2, 62) := by
  refine ⟨fun hclaim => ?_, by decide⟩
  obtain ⟨t, os, a, hrun, hruns⟩ := hclaim 1 [.pushNohdr (fun _ => 0) 262121 1 2 ⟨true, true⟩] (by simp [InRange])
  obtain ⟨-, rfl⟩ := Prod.mk.inj (Option.some.inj hrun)
  cases hruns with
  | cons hcounted _ =>
      cases hcounted with
      | accepted _ _ _ he =>
          have hdlen := he.2.2.1
          have hle := getPlen_le .little (nohdrPacket .little (fun _ => 0) 262121 1 2)
          rw [pkthdrGetDlen] at hdlen
          simp only [hdrSize] at hdlen
          omega

end OiAmc.PktQueueMemory

import Mathlib.Data.Sym.Sym2
import OiAmc.PartialMachine
import OiAmc.Silence
import OiAmc.SlotTickets
import OiAmc.UtimerDelivery

namespace OiAmc.SilenceTable

open Arena LeftmostTree PartialMachine RbTree Silence SlotTickets StableOrder
open TimerMgr (Clock carryNs)
open Utimer (UtimerEntry UtimerHd UtimerOps entryAt utimerAddByOffset utimerDelete)
open UtimerDelivery (expireTime runRound_cases utimerAdd_leftmost)

variable (ops : UtimerOps) {st : State} {es : Log} {ut : UtimerHd} {msg : Probe}

def timers (st : State) : List UtimerEntry :=
  match st.utimerSilence.control with
  | .calling _ entry => entry :: st.utimerSilence.ut.rbtree.inorder
  | _ => st.utimerSilence.ut.rbtree.inorder

/-- The two channels of a message, in no order. -/
def pair (msg : Probe) : Sym2 (UInt8 × UInt8) :=
  s((msg.phylink, msg.channel), (msg.phylink1, msg.channel1))

def linkPair (slink : SilenceLink) : Sym2 (UInt8 × UInt8) :=
  s((slink.link, slink.ts), (slink.link1, slink.ts1))

structure Table (st : State) : Prop where
  records : ∀ (i a : Nat), st.sch[i]? = some (some a) → ∃ slink timer, st.heap.get a = some slink ∧
    slink.link ≤ slink.link1 ∧ slink.index.toNat = i ∧ slink.timer = some timer.addr ∧
    (timers st).filter (fun t => decide (t.data = a)) = [timer]
  timers : ∀ timer ∈ timers st, ∃ i : Nat, st.sch[i]? = some (some timer.data)
  running : st.runningTimer.toNat = st.sch.countP Option.isSome
  counts : st.startCount = st.stopCount + st.toutCount + st.runningTimer.toUInt64

/-- A record that a stop removes was started for the same two channels. -/
def StopsOwn (es : Log) : Prop :=
  ∀ as slink msg bs, es = as ++ .stopped slink msg :: bs →
    ∃ msg', Event.started slink msg' ∈ as ∧ pair msg' = pair msg

/-- A record that is put in a slot gets its timer, a record that a stop finds is one for the
channels of the message, and a callback learns what became of its channels. -/
def Fits (st : State) : Act → Prop
  | .start msg alloc timerAlloc => alloc → st.sch[(silenceLink msg).index.toNat]? = some none → timerAlloc
  | .stop msg => ∀ slink ∈ st.sch[(stopIndex msg).toNat]?.join.bind st.heap.get,
      linkPair slink = pair msg
  | .timercb rc alloc => 0 ≤ rc ∧ (rc = 1 → alloc)
  | .run _ | .round => True

structure Listed (ut : UtimerHd) : Prop where
  leftmost : Leftmost UtimerEntry.addr expireTime ut.rbtree ut.first
  addrs : ∀ timer ∈ ut.rbtree.inorder, timer.addr < ut.fresh

theorem Listed.fresh (h : Listed ut) : ut.fresh ∉ ut.rbtree.inorder.map UtimerEntry.addr := by
  intro hmem
  obtain ⟨timer, htimer, haddr⟩ := List.mem_map.mp hmem
  exact (h.addrs timer htimer).ne haddr

theorem listed_add (h : Listed ut) (s ns : UInt32) (data : Nat) : ∃ ut' timer,
    utimerAddByOffset ops ut true s ns data = (ut', some timer) ∧ Listed ut' ∧
      timer.addr = ut.fresh ∧ timer.data = data ∧
      ut'.rbtree.inorder.Perm (timer :: ut.rbtree.inorder) := by
  rcases hcarry : carryNs 4 (ut.lastS + s) (ut.lastNs + ns) with ⟨expireS, expireNs⟩
  obtain ⟨hleft, horder⟩ := utimerAdd_leftmost ops h.leftmost h.fresh expireS expireNs data
  have hperm := horder ▸ @place_perm _ _ _ expireTime ⟨ut.fresh, expireS, expireNs, data⟩ _
  refine ⟨_, _, by rw [utimerAddByOffset, hcarry]; rfl, ⟨hleft, ?_⟩, rfl, rfl, hperm⟩
  intro timer htimer
  change timer.addr < ut.fresh + 1
  rcases List.mem_cons.mp (hperm.mem_iff.mp htimer) with rfl | htimer
  · exact Nat.lt_succ_self _
  · exact (h.addrs timer htimer).trans (Nat.lt_succ_self _)

theorem listed_delete (h : Listed ut) {timer : UtimerEntry} (htimer : timer ∈ ut.rbtree.inorder) :
    Listed (utimerDelete ops ut timer.addr) ∧
      ut.rbtree.inorder.Perm (timer :: (utimerDelete ops ut timer.addr).rbtree.inorder) := by
  obtain ⟨hleft, horder⟩ := h.leftmost.erase ops htimer
  obtain ⟨as, bs, hsplit⟩ := List.append_of_mem htimer
  have hrest := horder.trans (filter_addr h.leftmost.addrs hsplit)
  refine ⟨⟨hleft, fun t ht => h.addrs t ?_⟩, ?_⟩
  · change t ∈ (ops.erase ut.rbtree timer.addr).inorder at ht
    rw [horder] at ht
    exact (List.mem_filter.mp ht).1
  · change ut.rbtree.inorder.Perm (timer :: (ops.erase ut.rbtree timer.addr).inorder)
    rw [hrest, hsplit]
    exact List.perm_middle

abbrev Owned (sch : List (Option Nat)) (heap : Pool SilenceLink) (timers : List UtimerEntry) : Prop :=
  Held (fun slink => slink.index.toNat) SilenceLink.timer UtimerEntry.addr UtimerEntry.data sch heap
    timers

def StartedFor (es : Log) (addr : Nat) (slink : SilenceLink) : Prop :=
  ∃ msg, Event.started addr msg ∈ es ∧ { slink with timer := none } = silenceLink msg

structure Sound (st : State) (es : Log) : Prop where
  length : st.sch.length = silenceChMax
  listed : Listed st.utimerSilence.ut
  owned : Owned st.sch st.heap (timers st)
  running : st.runningTimer.toNat = st.sch.countP Option.isSome
  counts : st.startCount = st.stopCount + st.toutCount + st.runningTimer.toUInt64
  live : ∀ addr slink, st.heap.get addr = some slink → StartedFor es addr slink
  stops : StopsOwn es

theorem index_lt (link ts : UInt8) : (index link ts).toNat < silenceChMax := by
  have hlink := link.toNat_lt
  have hts := ts.toNat_lt
  rw [index, UInt16.toNat_or, UInt16.toNat_shiftLeft, UInt8.toNat_toUInt16, UInt8.toNat_toUInt16]
  refine Nat.or_lt_two_pow (n := 13) ((Nat.mod_le _ _).trans_lt ?_) (by omega)
  rw [Nat.shiftLeft_eq]
  change link.toNat * 32 < 2 ^ 13
  omega

theorem index_timer (slink : SilenceLink) (timer : Option Nat) :
    ({ slink with timer := timer } : SilenceLink).index.toNat = slink.index.toNat := rfl

theorem silenceLink_index (msg : Probe) : (silenceLink msg).index = stopIndex msg := by
  rw [silenceLink, stopIndex]
  split <;> rfl

theorem silenceLink_pair (msg : Probe) : linkPair (silenceLink msg) = pair msg := by
  rw [silenceLink]
  split
  · rfl
  · exact Sym2.eq_swap

theorem silenceLink_lower (msg : Probe) : (silenceLink msg).link ≤ (silenceLink msg).link1 := by
  rw [silenceLink]
  split
  · next hlt => exact UInt8.le_of_lt hlt
  · next hge => exact UInt8.not_lt.mp hge

theorem stopIndex_lt (msg : Probe) : (stopIndex msg).toNat < silenceChMax := by
  rw [stopIndex]
  split <;> exact index_lt _ _

theorem stopsOwn_snoc {e : Event} (h : StopsOwn es)
    (he : ∀ addr msg, e = .stopped addr msg → ∃ msg', Event.started addr msg' ∈ es ∧ pair msg' = pair msg) :
    StopsOwn (es ++ [e]) := by
  intro as addr msg bs hes
  rcases output_snoc hes with ⟨rfl, hlast⟩ | ⟨bs', hes⟩
  · exact he addr msg hlast.symm
  · exact h as addr msg bs' hes

theorem StartedFor.snoc {addr : Nat} {slink : SilenceLink} (h : StartedFor es addr slink) (e : Event) :
    StartedFor (es ++ [e]) addr slink := by
  obtain ⟨msg, hmem, hlink⟩ := h
  exact ⟨msg, List.mem_append_left _ hmem, hlink⟩

theorem sound_init : Sound psagentSilenceInit [] where
  length := List.length_replicate
  listed := ⟨leftmost_leaf, fun _ h => absurd h List.not_mem_nil⟩
  owned := held_empty silenceChMax
  running := by
    change 0 = (List.replicate silenceChMax none).countP Option.isSome
    rw [List.countP_replicate]
    rfl
  counts := rfl
  live addr slink h := by cases h
  stops as addr msg bs h := by cases as <;> cases h

theorem Sound.other {st' : State} {e : Event} (h : Sound st es) (hsch : st'.sch = st.sch)
    (hheap : st'.heap.get = st.heap.get) (hlisted : Listed st'.utimerSilence.ut)
    (htimers : timers st' = timers st)
    (hcounts : st'.runningTimer = st.runningTimer ∧ st'.startCount = st.startCount ∧
      st'.stopCount = st.stopCount ∧ st'.toutCount = st.toutCount)
    (he : ∀ addr msg, e ≠ .stopped addr msg) : Sound st' (es ++ [e]) := by
  obtain ⟨hrun, hstart, hstop, htout⟩ := hcounts
  exact ⟨hsch ▸ h.length, hlisted, hsch ▸ htimers ▸ h.owned.of_pool hheap,
    by rw [hrun, hsch, h.running], by rw [hstart, hstop, htout, hrun, h.counts],
    fun addr slink hget => (h.live addr slink (hheap ▸ hget)).snoc e,
    stopsOwn_snoc h.stops fun addr msg hmsg => absurd hmsg (he addr msg)⟩

theorem toUInt64_succ {n : UInt32} (h : n.toNat + 1 < 2 ^ 32) :
    (n + 1).toNat = n.toNat + 1 ∧ (n + 1).toUInt64 = n.toUInt64 + 1 := by
  have hnat : (n + 1).toNat = n.toNat + 1 := by
    rw [UInt32.toNat_add, UInt32.toNat_one, Nat.mod_eq_of_lt h]
  refine ⟨hnat, UInt64.toNat_inj.mp ?_⟩
  rw [UInt32.toNat_toUInt64, hnat, UInt64.toNat_add, UInt32.toNat_toUInt64, UInt64.toNat_one,
    Nat.mod_eq_of_lt (by omega)]

theorem running_lt (h : Sound st es) : st.runningTimer.toNat + 1 < 2 ^ 32 := by
  have hle := List.countP_le_length (p := Option.isSome) (l := st.sch)
  have hlen := h.length
  rw [silenceChMax] at hlen
  rw [h.running]
  omega

theorem put_sound {st' : State} {timer : UtimerEntry} (h : Sound st es)
    (hnew : (timer :: timers st).Perm (timers st')) (hlisted : Listed st'.utimerSilence.ut)
    (haddr : timer.addr ∉ (timers st).map UtimerEntry.addr) (hdata : timer.data = st.heap.next)
    (hfree : st.sch[(silenceLink msg).index.toNat]? = some none)
    (hsch : st'.sch = st.sch.set (silenceLink msg).index.toNat (some st.heap.next))
    (hheap : st'.heap.get = Function.update st.heap.get st.heap.next
      (some { silenceLink msg with timer := some timer.addr }))
    (hrun : st'.runningTimer = st.runningTimer + 1)
    (hcounts : st'.startCount = st.startCount + 1 ∧ st'.stopCount = st.stopCount ∧
      st'.toutCount = st.toutCount) :
    Sound st' (es ++ [.started st.heap.next msg]) := by
  obtain ⟨hstart, hstop, htout⟩ := hcounts
  obtain ⟨hnat, hwide⟩ := toUInt64_succ (running_lt h)
  refine ⟨?_, hlisted, ?_, ?_, ?_, ?_, ?_⟩
  · rw [hsch, List.length_set, h.length]
  · rw [hsch]
    exact (h.owned.put (index_timer (silenceLink msg) (some timer.addr)) hfree haddr hdata rfl
      hheap).perm hnew
  · rw [hrun, hsch, hnat, h.running, countP_isSome_put hfree]
  · rw [hrun, hstart, hstop, htout, hwide, h.counts]
    ac_rfl
  · intro addr slink hget
    rw [hheap] at hget
    by_cases heq : addr = st.heap.next
    · subst heq
      rw [Function.update_self, Option.some.injEq] at hget
      subst hget
      refine ⟨msg, List.mem_append_right _ List.mem_cons_self, ?_⟩
      rw [silenceLink]
      split <;> rfl
    · rw [Function.update_of_ne heq] at hget
      exact (h.live addr slink hget).snoc _
  · exact stopsOwn_snoc h.stops fun _ _ he => by cases he

theorem toUInt64_pred {n : UInt32} (h : 0 < n.toNat) :
    (n - 1).toNat + 1 = n.toNat ∧ n.toUInt64 = (n - 1).toUInt64 + 1 := by
  have hnat : (n - 1).toNat + 1 = n.toNat := by
    have hle : 1 ≤ n := UInt32.le_iff_toNat_le.mpr (by rwa [UInt32.toNat_one])
    rw [UInt32.toNat_sub_of_le _ _ hle, UInt32.toNat_one]
    exact Nat.sub_add_cancel h
  refine ⟨hnat, UInt64.toNat_inj.mp ?_⟩
  have hlt := n.toNat_lt
  rw [UInt64.toNat_add, UInt32.toNat_toUInt64, UInt32.toNat_toUInt64, UInt64.toNat_one, hnat,
    Nat.mod_eq_of_lt (by omega)]

theorem remove_sound {st' : State} {e : Event} {slink : SilenceLink} {timer : UtimerEntry}
    {rest : List UtimerEntry} (h : Sound st es) (hold : (timers st).Perm (timer :: rest))
    (hnew : rest.Perm (timers st')) (hlink : st.heap.get timer.data = some slink)
    (hlisted : Listed st'.utimerSilence.ut) (hsch : st'.sch = st.sch.set slink.index.toNat none)
    (hheap : st'.heap.get = Function.update st.heap.get timer.data none)
    (hrun : st'.runningTimer = st.runningTimer - 1) (hstart : st'.startCount = st.startCount)
    (hcount : st'.stopCount + st'.toutCount = st.stopCount + st.toutCount + 1)
    (he : ∀ addr msg, e = .stopped addr msg → addr = timer.data ∧ linkPair slink = pair msg) :
    Sound st' (es ++ [e]) := by
  have howned := h.owned.perm hold
  obtain ⟨slink', hlink', hslot, -⟩ := howned.ticket timer List.mem_cons_self
  rw [hlink, Option.some.injEq] at hlink'
  subst hlink'
  have hless := countP_isSome_drop hslot
  rw [← h.running] at hless
  obtain ⟨hnat, hwide⟩ := toUInt64_pred (by omega : 0 < st.runningTimer.toNat)
  refine ⟨?_, hlisted, ?_, ?_, ?_, ?_, ?_⟩
  · rw [hsch, List.length_set, h.length]
  · rw [hsch]
    exact (howned.drop rfl hlink hheap).perm hnew
  · rw [hrun, hsch]
    omega
  · rw [hstart, hcount, hrun, h.counts, hwide]
    ac_rfl
  · intro addr slink' hget
    rw [hheap] at hget
    by_cases heq : addr = timer.data
    · subst heq
      rw [Function.update_self] at hget
      cases hget
    · rw [Function.update_of_ne heq] at hget
      exact (h.live addr slink' hget).snoc e
  · refine stopsOwn_snoc h.stops fun addr msg hmsg => ?_
    obtain ⟨rfl, hpair⟩ := he addr msg hmsg
    obtain ⟨msg', hmem, hstarted⟩ := h.live timer.data slink hlink
    refine ⟨msg', hmem, ?_⟩
    rw [← silenceLink_pair, ← hstarted]
    exact hpair

theorem renew_sound {st' : State} {e : Event} {slink : SilenceLink} {timer timer' : UtimerEntry}
    {rest : List UtimerEntry} (h : Sound st es) (hold : timers st = timer :: rest)
    (hnew : (timer' :: rest).Perm (timers st')) (hlink : st.heap.get timer.data = some slink)
    (hlisted : Listed st'.utimerSilence.ut) (hdata : timer'.data = timer.data)
    (haddr : timer'.addr ∉ rest.map UtimerEntry.addr) (hsch : st'.sch = st.sch)
    (hheap : st'.heap.get = Function.update st.heap.get timer.data
      (some { slink with timer := some timer'.addr }))
    (hcounts : st'.runningTimer = st.runningTimer ∧ st'.startCount = st.startCount ∧
      st'.stopCount = st.stopCount ∧ st'.toutCount = st.toutCount)
    (he : ∀ addr msg, e ≠ .stopped addr msg) : Sound st' (es ++ [e]) := by
  obtain ⟨hrun, hstart, hstop, htout⟩ := hcounts
  have howned := hold ▸ h.owned
  refine ⟨hsch ▸ h.length, hlisted, ?_, ?_, ?_, ?_, ?_⟩
  · rw [hsch]
    exact (howned.renew hlink hdata haddr (index_timer slink (some timer'.addr)) rfl hheap).perm hnew
  · rw [hrun, hsch, h.running]
  · rw [hstart, hstop, htout, hrun, h.counts]
  · intro addr slink' hget
    rw [hheap] at hget
    by_cases heq : addr = timer.data
    · subst heq
      rw [Function.update_self, Option.some.injEq] at hget
      subst hget
      exact (h.live timer.data slink hlink).snoc e
    · rw [Function.update_of_ne heq] at hget
      exact (h.live addr slink' hget).snoc e
  · exact stopsOwn_snoc h.stops fun addr msg hmsg => absurd hmsg (he addr msg)

theorem timers_idle (h : st.utimerSilence.control = .idle) :
    timers st = st.utimerSilence.ut.rbtree.inorder := by
  rw [timers, h]

theorem timers_looping {now : Clock} (h : st.utimerSilence.control = .looping now) :
    timers st = st.utimerSilence.ut.rbtree.inorder := by
  rw [timers, h]

theorem slot_some (h : Sound st es) {i : Nat} (hi : i < silenceChMax) :
    ∃ slot, st.sch[i]? = some slot :=
  ⟨_, List.getElem?_eq_getElem (h.length.symm ▸ hi)⟩

theorem start_sound (h : Sound st es) (hidle : st.utimerSilence.control = .idle) (msg : Probe)
    (alloc timerAlloc : Bool) (hfits : Fits st (.start msg alloc timerAlloc)) :
    ∃ st' e, psagentSilenceStartProc ops st msg alloc timerAlloc = some (st', e) ∧
      Sound st' (es ++ [e]) := by
  cases alloc with
  | false => exact ⟨st, _, rfl, h.other rfl rfl h.listed rfl ⟨rfl, rfl, rfl, rfl⟩ nofun⟩
  | true =>
      have hlt : (silenceLink msg).index.toNat < silenceChMax :=
        silenceLink_index msg ▸ stopIndex_lt msg
      obtain ⟨slot, hslot⟩ := slot_some h hlt
      simp only [psagentSilenceStartProc, Bool.not_true, Bool.false_eq_true, if_false,
        if_neg (not_le.mpr hlt), hslot]
      cases slot with
      | some addr =>
          obtain ⟨heap, hfree, hget⟩ := free_alloc st.heap (silenceLink msg)
          simp only [State.freeLink, hfree, Option.map_some]
          exact ⟨_, _, rfl, h.other rfl hget h.listed rfl ⟨rfl, rfl, rfl, rfl⟩ nofun⟩
      | none =>
          obtain rfl := hfits rfl hslot
          obtain ⟨ut, timer, hadd, hlisted, haddr, hdata, hperm⟩ :=
            listed_add ops h.listed 1 0 st.heap.next
          obtain ⟨heap, hwrite, hget⟩ := write_alloc st.heap (silenceLink msg)
            { silenceLink msg with timer := some timer.addr }
          simp only [addTimer, hadd, State.writeLink, hwrite, Option.map_some]
          rw [← timers_idle hidle] at hperm
          refine ⟨_, _, rfl, put_sound h ?_ hlisted ?_ hdata hslot rfl hget rfl ⟨rfl, rfl, rfl⟩⟩
          · exact hperm.symm.trans (List.Perm.of_eq (Eq.symm (timers_idle hidle)))
          · rw [timers_idle hidle, haddr]
            exact h.listed.fresh

theorem stop_sound (h : Sound st es) (hidle : st.utimerSilence.control = .idle) (msg : Probe)
    (hfits : Fits st (.stop msg)) :
    ∃ st' e, psagentSilenceStopProc ops st msg = some (st', e) ∧ Sound st' (es ++ [e]) := by
  have hlt := stopIndex_lt msg
  obtain ⟨slot, hslot⟩ := slot_some h hlt
  simp only [psagentSilenceStopProc, if_neg (not_le.mpr hlt), hslot]
  cases slot with
  | none => exact ⟨st, _, rfl, h.other rfl rfl h.listed rfl ⟨rfl, rfl, rfl, rfl⟩ nofun⟩
  | some addr =>
      obtain ⟨slink, timer, hlink, hindex, hmem, rfl, htimer⟩ := h.owned.ticket_of_slot hslot
      have hpair : linkPair slink = pair msg := by
        refine hfits slink ?_
        rw [hslot]
        exact hlink
      rw [timers_idle hidle] at hmem
      obtain ⟨hlisted, hperm⟩ := listed_delete ops h.listed hmem
      have hentry : entryAt st.utimerSilence.ut timer.addr = some timer :=
        find_addr h.listed.leftmost.addrs hmem
      obtain ⟨heap, hfree, hget, -⟩ := @free_some _ st.heap timer.data
        (by rw [hlink]; exact Option.some_ne_none slink)
      simp only [hlink, htimer, deleteTimer, hentry, State.freeLink, hfree, Option.map_some,
        Option.bind_eq_bind, Option.bind_some]
      refine ⟨_, _, rfl, remove_sound h ?_ (List.Perm.of_eq (Eq.symm (timers_idle hidle))) hlink
        hlisted ?_ hget rfl rfl ?_ ?_⟩
      · rw [timers_idle hidle]
        exact hperm
      · rw [hindex]
      · change st.stopCount + 1 + st.toutCount = st.stopCount + st.toutCount + 1
        ac_rfl
      · intro addr msg' he
        cases he
        exact ⟨rfl, hpair⟩

theorem run_sound (h : Sound st es) (hidle : st.utimerSilence.control = .idle) (clock : Clock) :
    Sound (withTimers st (Utimer.utimerRun st.utimerSilence.ut clock 0 0)).1
      (es ++ [(withTimers st (Utimer.utimerRun st.utimerSilence.ut clock 0 0)).2]) := by
  rw [Utimer.utimerRun]
  split
  · exact h.other rfl rfl h.listed (timers_idle hidle).symm ⟨rfl, rfl, rfl, rfl⟩ fun _ _ he => by cases he
  · exact h.other rfl rfl ⟨h.listed.leftmost, h.listed.addrs⟩ (timers_idle hidle).symm
      ⟨rfl, rfl, rfl, rfl⟩ fun _ _ he => by cases he

theorem round_sound (h : Sound st es) {now : Clock} (hrun : st.utimerSilence.control = .looping now) :
    ∃ p, Utimer.runRound ops st.utimerSilence.ut now = some p ∧
      Sound (withTimers st p).1 (es ++ [(withTimers st p).2]) := by
  have htimers := timers_looping hrun
  rcases runRound_cases ops h.listed.leftmost now with ⟨hround, -⟩ | ⟨timer, rest, hx, -, hround⟩
  · exact ⟨_, hround, h.other rfl rfl h.listed htimers.symm ⟨rfl, rfl, rfl, rfl⟩ nofun⟩
  · obtain ⟨hleft, horder⟩ := h.listed.leftmost.pop ops hx
    refine ⟨_, hround, h.other rfl rfl ⟨hleft, fun t ht => h.listed.addrs t ?_⟩ ?_
      ⟨rfl, rfl, rfl, rfl⟩ nofun⟩
    · change t ∈ (ops.erase _ _).inorder at ht
      rw [horder] at ht
      exact hx ▸ List.mem_cons_of_mem timer ht
    · rw [htimers, hx, ← horder]
      rfl

theorem timercb_sound (h : Sound st es) {now : Clock} {timer : UtimerEntry}
    (hcall : st.utimerSilence.control = .calling now timer) {rc : Int} {alloc : Bool}
    (hfits : Fits st (.timercb rc alloc)) :
    ∃ p, psagentSilenceTimercb ops st timer.data rc alloc = some p ∧
      Sound { p.1 with utimerSilence := (Utimer.callbackReturns p.1.utimerSilence.ut now timer).1 }
        (es ++ [p.2]) := by
  obtain ⟨hrc, halloc⟩ := hfits
  have htimers : timers st = timer :: st.utimerSilence.ut.rbtree.inorder := by rw [timers, hcall]
  have howned := h.owned
  rw [htimers] at howned
  obtain ⟨slink, hlink, hslot, -⟩ := howned.ticket timer List.mem_cons_self
  have hlive : st.heap.get timer.data ≠ none := by
    rw [hlink]
    exact Option.some_ne_none slink
  simp only [psagentSilenceTimercb, hlink, Option.bind_eq_bind, Option.bind_some]
  by_cases hwait : rc = 1
  · obtain rfl := halloc hwait
    obtain ⟨ut, timer', hadd, hlisted, haddr, hdata, hperm⟩ :=
      listed_add ops h.listed 1 0 timer.data
    obtain ⟨heap, hwrite, hget, -⟩ := @write_some _ _ _
      ({ slink with timer := some timer'.addr } : SilenceLink) hlive
    simp only [if_pos hwait, addTimer, hadd, State.writeLink, hwrite, Option.map_some]
    refine ⟨_, rfl, renew_sound h htimers hperm.symm hlink ⟨hlisted.leftmost, hlisted.addrs⟩ hdata ?_
      rfl hget ⟨rfl, rfl, rfl, rfl⟩ nofun⟩
    rw [haddr]
    exact h.listed.fresh
  · obtain ⟨heap, hfree, hget, -⟩ := free_some hlive
    have hlt : slink.index.toNat < st.sch.length := (List.getElem?_eq_some_iff.mp hslot).1
    simp only [if_neg hwait, if_neg (not_lt.mpr hrc), if_pos hlt, State.freeLink, hfree,
      Option.map_some]
    refine ⟨_, rfl, remove_sound h (List.Perm.of_eq htimers) (List.Perm.refl _) hlink
      ⟨h.listed.leftmost, h.listed.addrs⟩ rfl hget rfl rfl ?_ nofun⟩
    change st.stopCount + (st.toutCount + 1) = st.stopCount + st.toutCount + 1
    ac_rfl

theorem idle_of_proper (h : Proper st (.run ⟨0, 0⟩) = true) :
    st.utimerSilence.control = .idle := by
  cases hc : st.utimerSilence.control with
  | idle => rfl
  | looping _ | calling _ _ => simp [Proper, hc] at h

theorem step_sound (st : State) (es : Log) (act : Act) (h : Sound st es)
    (hact : Proper st act = true ∧ Fits st act) :
    ∃ st' e, step ops st act = some (st', e) ∧ Sound st' (es ++ [e]) := by
  obtain ⟨hproper, hfits⟩ := hact
  cases act with
  | start msg alloc timerAlloc =>
      exact start_sound ops h (idle_of_proper hproper) msg alloc timerAlloc hfits
  | stop msg => exact stop_sound ops h (idle_of_proper hproper) msg hfits
  | run clock => exact ⟨_, _, rfl, run_sound h (idle_of_proper hproper) clock⟩
  | round =>
      obtain ⟨now, hrun⟩ : ∃ now, st.utimerSilence.control = .looping now := by
        cases hc : st.utimerSilence.control <;> simp_all [Proper]
      obtain ⟨p, hround, hp⟩ := round_sound ops h hrun
      exact ⟨_, _, by rw [step, hrun]; exact congrArg (Option.map _) hround, hp⟩
  | timercb rc alloc =>
      obtain ⟨now, timer, hcall⟩ : ∃ now timer, st.utimerSilence.control = .calling now timer := by
        cases hc : st.utimerSilence.control <;> simp_all [Proper]
      obtain ⟨p, hcb, hp⟩ := timercb_sound ops h hcall hfits
      exact ⟨_, _, by rw [step, hcall]; exact congrArg (Option.map _) hcb, hp⟩

theorem table_of_sound (h : Sound st es) : Table st where
  records i a ha := by
    obtain ⟨slink, timer, hlink, hindex, hmem, rfl, htimer⟩ := h.owned.ticket_of_slot ha
    obtain ⟨msg, -, hmsg⟩ := h.live _ _ hlink
    have hlower := silenceLink_lower msg
    rw [← hmsg] at hlower
    exact ⟨slink, timer, hlink, hlower, hindex, htimer, h.owned.owners_eq hmem⟩
  timers timer htimer := by
    obtain ⟨slink, -, hslot, -⟩ := h.owned.ticket timer htimer
    exact ⟨slink.index.toNat, hslot⟩
  running := h.running
  counts := h.counts

/-- Where starts get their timers, stops find the records of their channels and callbacks learn
results, no record or timer is used after it was freed, and slots, records, timers and counts
agree in every state. -/
theorem silence_table (acts : List Act)
    (hproper : Guarded (step ops) (fun st act => Proper st act = true) psagentSilenceInit acts)
    (hfits : Guarded (step ops) Fits psagentSilenceInit acts) :
    ∃ st es, run (step ops) psagentSilenceInit acts = some (st, es) ∧ Table st ∧ StopsOwn es := by
  obtain ⟨st, es, hrun, h⟩ := guarded_log (step_sound ops) sound_init (guarded_and hproper hfits)
  rw [List.nil_append] at h
  exact ⟨st, es, hrun, table_of_sound h, h.stops⟩

instance (st : State) (act : Act) : Decidable (Fits st act) :=
  match act with
  | .start .. => inferInstanceAs (Decidable (_ → _))
  | .stop _ => inferInstanceAs (Decidable (∀ _ ∈ _, _))
  | .timercb .. => inferInstanceAs (Decidable (_ ∧ _))
  | .run _ | .round => isTrue trivial

/-- A start of channels that are watched already needs no timer. The first record waits for a
second time and is stopped, the other one times out. -/
def silenceActs : List Act :=
  [.start ⟨2, 5, 1, 3⟩ true true, .start ⟨4, 6, 7, 8⟩ true true, .start ⟨1, 3, 2, 5⟩ true false,
    .run ⟨9, 0⟩, .round, .timercb 1 true, .round, .timercb 0 false, .round, .stop ⟨2, 5, 1, 3⟩]

theorem silenceActs_table : ∃ st es, run (step (plainOps UtimerEntry.addr)) psagentSilenceInit
    silenceActs = some (st, es) ∧ Table st ∧ StopsOwn es :=
  silence_table _ silenceActs (by decide +kernel) (by decide +kernel)

/-- Without a timer the record is freed, and its slot still has its address. -/
theorem start_dangles :
    ¬ ∀ acts, Guarded (step (plainOps UtimerEntry.addr)) (fun st act => Proper st act = true)
        psagentSilenceInit acts →
      ∃ st es, run (step (plainOps UtimerEntry.addr)) psagentSilenceInit acts = some (st, es) ∧
        Table st ∧ StopsOwn es := by
  intro h
  obtain ⟨st, es, hrun, htable, -⟩ := h [.start ⟨2, 5, 1, 3⟩ true false] (by decide)
  have hbad : (run (step (plainOps UtimerEntry.addr)) psagentSilenceInit
      [.start ⟨2, 5, 1, 3⟩ true false]).map (fun p => (p.1.sch[35]?, p.1.heap.get 0)) =
      some (some (some 0), none) := by decide
  rw [hrun, Option.map_some, Option.some.injEq, Prod.mk.injEq] at hbad
  obtain ⟨slink, timer, hlink, -⟩ := htable.records 35 0 hbad.1
  rw [hbad.2] at hlink
  cases hlink

end OiAmc.SilenceTable

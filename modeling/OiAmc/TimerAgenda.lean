import OiAmc.PartialMachine
import OiAmc.TimerRun

namespace OiAmc.TimerAgenda

open GotoLoop PartialMachine StableOrder TimerMgr TimerOrder TimerRun

variable (ops : TimerOps) {tl : TimerList} {a : Agenda} {entry x : Timer} {rest : List Timer}

/-- What a timer list is for: the timers that were added and not yet removed, in the order in
which they were put in. -/
structure Agenda where
  timesource : TimeSource
  lastS : UInt32
  lastNs : UInt32
  live : List Timer
  fresh : Nat

def createAgenda (timesource : TimeSource) (clock : Clock) : Agenda where
  timesource := timesource
  lastS := if timesource = .localTime then clock.s else 0
  lastNs := if timesource = .localTime then clock.ns else 0
  live := []
  fresh := 0

def Agenda.put (a : Agenda) (entry : Timer) : Agenda := { a with live := a.live ++ [entry] }

def Agenda.drop (a : Agenda) (timer : Nat) : Agenda :=
  { a with live := a.live.filter fun entry => decide (entry.addr ≠ timer) }

def Agenda.find (a : Agenda) (timer : Nat) : Option Timer :=
  a.live.find? fun entry => entry.addr = timer

def Agenda.add (a : Agenda) (alloc : Bool) (interval expireS expireNs : UInt32) (data : Nat) :
    Agenda × Option Nat :=
  if alloc then
    (Agenda.put { a with fresh := a.fresh + 1 } ⟨a.fresh, interval, expireS, expireNs, data⟩,
      some a.fresh)
  else (a, none)

def Agenda.now (a : Agenda) (clock : Clock) (s ns : UInt32) : Clock :=
  if a.timesource = .localTime then clock else ⟨s, ns⟩

/-- The earliest timer is taken, and a periodic one put in again. -/
def agendaEntry (now : Clock) (a : Agenda) (popped : List Popped) (entry : Timer) :
    (Agenda × List Popped) ⊕ (Agenda × List Popped) :=
  if Clock.time now < expiry entry then .inr (a, popped)
  else
    let popped := popped ++ [⟨entry, callOf now entry⟩]
    if 0 < entry.interval then .inl ((a.drop entry.addr).put (rearm now.s entry), popped)
    else .inl (a.drop entry.addr, popped)

def agendaRound (now : Clock) : Agenda × List Popped →
    Option ((Agenda × List Popped) ⊕ (Agenda × List Popped))
  | (a, popped) => some <|
    match earliest expiry a.live with
    | none => .inr (a, popped)
    | some entry => agendaEntry now a popped entry

def Agenda.run (clock : Clock) (rounds : Nat) (a : Agenda) (s ns : UInt32) :
    Option (Agenda × List Popped) :=
  let now := a.now clock s ns
  if now.ns = a.lastNs ∧ now.s = a.lastS then some (a, [])
  else loop (agendaRound now) rounds ({ a with lastS := now.s, lastNs := now.ns }, [])

def Agenda.force (clock : Clock) (a : Agenda) (s ns : UInt32) : Agenda × List Popped :=
  let now := a.now clock s ns
  match earliest expiry a.live with
  | none => (a, [])
  | some entry => (a.drop entry.addr, [⟨entry, some ⟨now.s, now.ns, entry.data⟩⟩])

def agendaStep (a : Agenda) : Op → Option (Agenda × Output)
  | .addTimer alloc expireS expireNs data =>
      let r := a.add alloc 0 expireS expireNs data
      some (r.1, .timer r.2)
  | .addTimerByOffset alloc offsetS offsetNs data =>
      let t := carryNs 4 (a.lastS + offsetS) (a.lastNs + offsetNs)
      let r := a.add alloc 0 t.1 t.2 data
      some (r.1, .timer r.2)
  | .addTimerPeriodic alloc interval data =>
      if interval < 1 then some (a, .timer none)
      else
        let r := a.add alloc interval (a.lastS / interval * interval + interval) 0 data
        some (r.1, .timer r.2)
  | .updateTimer timer expireS expireNs =>
      (a.find timer).map fun entry =>
        ((a.drop timer).put { entry with expireS := expireS, expireNs := expireNs },
          .timer (some timer))
  | .deleteTimer timer => (a.find timer).map fun _ => (a.drop timer, .timer none)
  | .runTimerlist clock rounds s ns =>
      (a.run clock rounds s ns).map fun r => (r.1, .popped r.2)
  | .forceTimeout clock s ns =>
      let r := a.force clock s ns
      some (r.1, .popped r.2)

/-- The tree holds the timers of the agenda in the order of their expiry, and those that
expire together in the order in which they were put in. -/
structure Follows (tl : TimerList) (a : Agenda) : Prop where
  ready : Ready tl
  agrees : Agrees expiry tl.rbtree.inorder a.live
  timesource : a.timesource = tl.timesource
  lastS : a.lastS = tl.lastS
  lastNs : a.lastNs = tl.lastNs
  fresh : a.fresh = tl.fresh

theorem follows_create (timesource : TimeSource) (clock : Clock) :
    Follows (createTimerlist timesource clock) (createAgenda timesource clock) :=
  ⟨ready_create timesource clock, Agrees.nil, rfl, rfl, rfl, rfl⟩

theorem put_follows (h : Follows tl a) (hnew : entry.addr ∉ tl.rbtree.inorder.map Timer.addr)
    (hfresh : entry.addr < tl.fresh) : Follows (timerMgrInsertTimer ops tl entry) (a.put entry) := by
  obtain ⟨hready, horder⟩ := insert_ready ops h.ready hnew hfresh
  refine ⟨hready, ?_, h.timesource, h.lastS, h.lastNs, h.fresh⟩
  rw [horder]
  exact h.agrees.place

theorem drop_follows (h : Follows tl a) (hx : x ∈ tl.rbtree.inorder) :
    Follows (timerMgrDeleteTimer ops tl x.addr) (a.drop x.addr) := by
  obtain ⟨hready, horder⟩ := delete_ready ops h.ready hx
  refine ⟨hready, ?_, h.timesource, h.lastS, h.lastNs, h.fresh⟩
  rw [horder]
  exact h.agrees.filter _

theorem pop_follows (h : Follows tl a) (hx : tl.rbtree.inorder = x :: rest) :
    Follows (popFirst ops tl x.addr) (a.drop x.addr) := by
  obtain ⟨hready, horder, -⟩ := popFirst_ready ops h.ready hx
  refine ⟨hready, ?_, h.timesource, h.lastS, h.lastNs, h.fresh⟩
  have hagrees := h.agrees.filter fun y => decide (y.addr ≠ x.addr)
  rw [RbTree.filter_addr_cons h.ready.addrs hx] at hagrees
  rw [horder]
  exact hagrees

theorem find_eq (h : Follows tl a) (timer : Nat) : a.find timer = entryAt tl timer := by
  cases hx : entryAt tl timer with
  | none =>
      refine List.find?_eq_none.mpr fun x hx' => ?_
      exact List.find?_eq_none.mp hx x (h.agrees.mem_iff.mpr hx')
  | some x =>
      obtain ⟨hmem, haddr⟩ := entryAt_some hx
      obtain ⟨y, hy⟩ : ∃ y, a.find timer = some y := Option.isSome_iff_exists.mp
        (List.find?_isSome.mpr ⟨x, h.agrees.mem_iff.mp hmem, decide_eq_true haddr⟩)
      have hymem := h.agrees.mem_iff.mpr (List.mem_of_find?_eq_some hy)
      have hyaddr := of_decide_eq_true
        (List.find?_some (p := fun entry : Timer => decide (entry.addr = timer)) hy)
      rw [hy, List.inj_on_of_nodup_map h.ready.addrs hymem hmem (hyaddr.trans haddr.symm)]

theorem add_follows (h : Follows tl a) (alloc : Bool) (interval expireS expireNs : UInt32)
    (data : Nat) :
    Follows (addAllocated ops tl alloc interval expireS expireNs data).1
        (a.add alloc interval expireS expireNs data).1 ∧
      (addAllocated ops tl alloc interval expireS expireNs data).2 =
        (a.add alloc interval expireS expireNs data).2 := by
  cases alloc with
  | false => exact ⟨h, rfl⟩
  | true =>
      have hnew : Follows { tl with fresh := tl.fresh + 1 } { a with fresh := a.fresh + 1 } :=
        ⟨⟨h.ready.sorted, h.ready.first, h.ready.count, h.ready.addrs,
          fun x hx => Nat.lt_succ_of_lt (h.ready.fresh x hx)⟩, h.agrees, h.timesource, h.lastS,
          h.lastNs, by rw [h.fresh]⟩
      have hout : tl.fresh ∉ tl.rbtree.inorder.map Timer.addr := by
        intro hmem
        obtain ⟨x, hx, he⟩ := List.mem_map.mp hmem
        exact absurd (h.ready.fresh x hx) (by omega)
      have hput := @put_follows ops _ _ ⟨tl.fresh, interval, expireS, expireNs, data⟩ hnew hout
        (Nat.lt_succ_self _)
      rw [← h.fresh] at hput
      refine ⟨?_, ?_⟩
      · rw [addAllocated, Agenda.add, if_pos rfl, if_pos rfl, ← h.fresh]
        rw [h.fresh] at hput ⊢
        exact hput
      · rw [addAllocated, Agenda.add, if_pos rfl, if_pos rfl, h.fresh]

def Alike (r : TimerList × List Popped) (r' : Agenda × List Popped) : Prop :=
  Follows r.1 r'.1 ∧ r.2 = r'.2

theorem entry_follows (now : Clock) (h : Follows tl a) (hx : tl.rbtree.inorder = x :: rest)
    (log : List Popped) : Sum.LiftRel Alike Alike (runEntry ops now tl log x.addr x)
      (agendaEntry now a log x) := by
  by_cases hlater : Clock.time now < expiry x
  · rw [runEntry_later ops hlater, agendaEntry, if_pos hlater]
    exact .inr ⟨h, rfl⟩
  · have hdiff := (timeDiff_pos now x).not.mpr hlater
    have hpop := pop_follows ops h hx
    rw [runEntry, if_neg hdiff, agendaEntry, if_neg hlater]
    by_cases hpos : 0 < x.interval
    · obtain ⟨_, horder, hnew⟩ := popFirst_ready ops h.ready hx
      have hput := @put_follows ops _ _ (rearm now.s x) hpop (by rw [horder]; exact hnew)
        (h.ready.fresh x (hx ▸ List.mem_cons_self))
      simp only [if_pos hpos]
      exact .inl ⟨hput, rfl⟩
    · simp only [if_neg hpos]
      exact .inl ⟨hpop, rfl⟩

theorem round_follows (now : Clock) : ∀ r r', Alike r r' →
    Option.Rel (Sum.LiftRel Alike Alike) (runRound ops now r) (agendaRound now r') := by
  rintro ⟨tl, log⟩ ⟨a, log'⟩ ⟨h, rfl : log = log'⟩
  have hagrees := h.agrees
  cases hx : tl.rbtree.inorder with
  | nil =>
      rw [hx] at hagrees
      rw [runRound_nil ops h.ready hx, agendaRound, hagrees.earliest_nil]
      exact .some (.inr ⟨h, rfl⟩)
  | cons x rest =>
      rw [hx] at hagrees
      rw [runRound_cons ops h.ready hx, agendaRound, hagrees.earliest]
      exact .some (entry_follows ops now h hx log)

theorem run_follows (h : Follows tl a) (clock : Clock) (rounds : Nat) (s ns : UInt32) :
    Option.Rel Alike (timerMgrRunTimerlist ops clock rounds tl s ns) (a.run clock rounds s ns) := by
  have hnow : a.now clock s ns = now tl clock s ns := by rw [Agenda.now, now, h.timesource]
  rw [timerMgrRunTimerlist, Agenda.run, hnow, h.lastS, h.lastNs]
  split
  · exact .some ⟨h, rfl⟩
  · refine loop_rel (round_follows ops _) rounds ⟨?_, rfl⟩
    exact ⟨h.ready.at _ _, h.agrees, h.timesource, rfl, rfl, h.fresh⟩

theorem force_follows (h : Follows tl a) (clock : Clock) (s ns : UInt32) :
    ∃ r, timerMgrForceTimeout ops clock tl s ns = some r ∧ Alike r (a.force clock s ns) := by
  have hnow : a.now clock s ns = now tl clock s ns := by rw [Agenda.now, now, h.timesource]
  have hagrees := h.agrees
  cases hx : tl.rbtree.inorder with
  | nil =>
      have hfirst : tl.first = none := by rw [h.ready.first, hx]; rfl
      rw [hx] at hagrees
      refine ⟨(tl, []), by simp only [timerMgrForceTimeout, hfirst], ?_⟩
      simp only [Agenda.force, hagrees.earliest_nil]
      exact ⟨h, rfl⟩
  | cons x rest =>
      have hfirst : tl.first = some x.addr := by rw [h.ready.first, hx]; rfl
      have hentry := entryAt_eq h.ready (x := x) (hx ▸ List.mem_cons_self)
      rw [hx] at hagrees
      simp only [timerMgrForceTimeout, hfirst, hentry, Option.map_some, Agenda.force,
        hagrees.earliest, hnow]
      exact ⟨_, rfl, pop_follows ops h hx, rfl⟩

theorem step_follows (tl : TimerList) (a : Agenda) (op : Op) (h : Follows tl a) :
    Option.Rel (fun p q => Follows p.1 q.1 ∧ p.2 = q.2) (step ops tl op) (agendaStep a op) := by
  have hadd (alloc : Bool) (interval expireS expireNs : UInt32) (data : Nat) :=
    add_follows ops h alloc interval expireS expireNs data
  cases op with
  | addTimer alloc expireS expireNs data =>
      obtain ⟨hf, ho⟩ := hadd alloc 0 expireS expireNs data
      exact .some ⟨hf, congrArg Output.timer ho⟩
  | addTimerByOffset alloc offsetS offsetNs data =>
      rw [agendaStep, h.lastS, h.lastNs]
      obtain ⟨hf, ho⟩ := hadd alloc 0 _ _ data
      exact .some ⟨hf, congrArg Output.timer ho⟩
  | addTimerPeriodic alloc interval data =>
      rw [step, agendaStep, timerMgrAddTimerPeriodic, h.lastS]
      by_cases hi : interval < 1
      · rw [if_pos hi, if_pos hi]
        exact .some ⟨h, rfl⟩
      · rw [if_neg hi, if_neg hi]
        obtain ⟨hf, ho⟩ := hadd alloc interval _ 0 data
        exact .some ⟨hf, congrArg Output.timer ho⟩
  | updateTimer timer expireS expireNs =>
      rw [step, agendaStep, find_eq h, timerMgrUpdateTimer, Option.map_map]
      cases hx : entryAt tl timer with
      | none => exact .none
      | some x =>
          obtain ⟨hmem, rfl⟩ := entryAt_some hx
          have hdrop := drop_follows ops h hmem
          obtain ⟨hready, horder⟩ := delete_ready ops h.ready hmem
          refine .some ⟨put_follows ops hdrop ?_ (h.ready.fresh x hmem), rfl⟩
          rw [horder]
          intro hmem'
          obtain ⟨y, hy, he⟩ := List.mem_map.mp hmem'
          exact of_decide_eq_true (List.mem_filter.mp hy).2 he
  | deleteTimer timer =>
      rw [step, agendaStep, find_eq h]
      cases hx : entryAt tl timer with
      | none => exact .none
      | some x =>
          obtain ⟨hmem, rfl⟩ := entryAt_some hx
          exact .some ⟨drop_follows ops h hmem, rfl⟩
  | runTimerlist clock rounds s ns =>
      have hrun := run_follows ops h clock rounds s ns
      rw [step, agendaStep]
      revert hrun
      rcases timerMgrRunTimerlist ops clock rounds tl s ns with - | r <;>
        rcases a.run clock rounds s ns with - | r' <;> intro hrun
      · exact .none
      · cases hrun
      · cases hrun
      · obtain ⟨hf, ho⟩ : Alike r r' := by cases hrun; assumption
        exact .some ⟨hf, congrArg Output.popped ho⟩
  | forceTimeout clock s ns =>
      obtain ⟨r, hr, hf, ho⟩ := force_follows ops h clock s ns
      rw [step, agendaStep, hr]
      exact .some ⟨hf, congrArg Output.popped ho⟩

end OiAmc.TimerAgenda

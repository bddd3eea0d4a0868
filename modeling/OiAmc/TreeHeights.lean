import OiAmc.PktQueueOrder
import OiAmc.RedBlackBalance
import OiAmc.TimerRun

/-! The trees of the timer lists of timermgr.c and of the packet queues stay balanced. -/

namespace OiAmc.TreeHeights

open GotoLoop PartialMachine RbTree RedBlack

/-- The tree is red-black, and the walk to the place of a new entry makes few comparisons. -/
structure Shallow {α : Type} (t : RbRoot α) : Prop where
  redBlack : IsRedBlack t
  compares : ∀ before, (descend before [] t).length ≤ 2 * Nat.log 2 (t.inorder.length + 1)

theorem shallow_of_redBlack {α : Type} {t : RbRoot α} (h : IsRedBlack t) : Shallow t where
  redBlack := h
  compares before := by
    have hdescend := length_descend before [] t
    rw [List.length_nil, Nat.zero_add] at hdescend
    exact hdescend.trans h.height_le

section Timers

open TimerMgr TimerOrder TimerRun

abbrev timerOps : TimerOps := rbtreeOps Timer.addr

structure TimersKept (tl : TimerList) : Prop where
  ready : Ready tl
  redBlack : IsRedBlack tl.rbtree

variable {tl tl' : TimerList} {entry x : Timer} {rest : List Timer}

theorem insert_kept (h : TimersKept tl) (hnew : entry.addr ∉ tl.rbtree.inorder.map Timer.addr)
    (hfresh : entry.addr < tl.fresh) : TimersKept (timerMgrInsertTimer timerOps tl entry) :=
  ⟨(insert_ready timerOps h.ready hnew hfresh).1, insert_redBlack _ h.redBlack hnew⟩

theorem delete_kept (h : TimersKept tl) (hx : x ∈ tl.rbtree.inorder) :
    TimersKept (timerMgrDeleteTimer timerOps tl x.addr) :=
  ⟨(delete_ready timerOps h.ready hx).1, erase_redBlack h.redBlack hx⟩

theorem popFirst_kept (h : TimersKept tl) (hx : tl.rbtree.inorder = x :: rest) :
    TimersKept (popFirst timerOps tl x.addr) :=
  ⟨(popFirst_ready timerOps h.ready hx).1, erase_redBlack h.redBlack (hx ▸ List.mem_cons_self)⟩

theorem add_kept (h : TimersKept tl) (alloc : Bool) (interval expireS expireNs : UInt32) (data : Nat) :
    TimersKept (addAllocated timerOps tl alloc interval expireS expireNs data).1 := by
  cases alloc with
  | false => exact h
  | true =>
      have hfresh : TimersKept { tl with fresh := tl.fresh + 1 } :=
        ⟨⟨h.ready.sorted, h.ready.first, h.ready.count, h.ready.addrs,
          fun x hx => Nat.lt_succ_of_lt (h.ready.fresh x hx)⟩, h.redBlack⟩
      refine insert_kept hfresh (fun hmem => ?_) (Nat.lt_succ_self _)
      obtain ⟨x, hx, he⟩ := List.mem_map.mp hmem
      exact absurd (h.ready.fresh x hx) (by rw [he]; exact Nat.lt_irrefl _)

/-- The same timer goes to another place. -/
theorem update_kept (h : TimersKept tl) {timer : Nat} {expireS expireNs : UInt32}
    (hu : timerMgrUpdateTimer timerOps tl timer expireS expireNs = some tl') : TimersKept tl' := by
  obtain ⟨x, hx, rfl⟩ := Option.map_eq_some_iff.mp hu
  obtain ⟨hmem, rfl⟩ := entryAt_some hx
  refine insert_kept (delete_kept h hmem) ?_ (h.ready.fresh x hmem)
  rw [(delete_ready timerOps h.ready hmem).2]
  intro hin
  obtain ⟨y, hy, he⟩ := List.mem_map.mp hin
  exact absurd he (of_decide_eq_true (List.mem_filter.mp hy).2)

/-- A round takes the first timer, and may put it back for a later time. -/
theorem round_kept (now : Clock) (h : TimersKept tl) (log : List Popped) :
    (∃ log', runRound timerOps now (tl, log) = some (.inr (tl, log'))) ∨
      ∃ tl' log', runRound timerOps now (tl, log) = some (.inl (tl', log')) ∧ TimersKept tl' := by
  cases hx : tl.rbtree.inorder with
  | nil => exact .inl ⟨log, runRound_nil timerOps h.ready hx log⟩
  | cons x rest =>
      rw [runRound_cons timerOps h.ready hx]
      by_cases hlater : Clock.time now < expiry x
      · exact .inl ⟨log, by rw [runEntry_later timerOps hlater]⟩
      · obtain ⟨-, horder, hnew⟩ := popFirst_ready timerOps h.ready hx
        have hpop := popFirst_kept h hx
        right
        rw [runEntry, if_neg ((timeDiff_pos now x).not.mpr hlater)]
        by_cases hpos : 0 < x.interval
        · refine ⟨_, _, congrArg some (if_pos hpos), insert_kept hpop ?_ (
            h.ready.fresh x (hx ▸ List.mem_cons_self))⟩
          rw [horder]
          exact hnew
        · exact ⟨_, _, congrArg some (if_neg hpos), hpop⟩

theorem loop_kept (now : Clock) {n : Nat} {s r : TimerList × List Popped} (h : TimersKept s.1)
    (hloop : loop (runRound timerOps now) n s = some r) : TimersKept r.1 := by
  induction n generalizing s with
  | zero => cases hloop
  | succ n ih =>
      obtain ⟨tl, log⟩ := s
      rw [loop] at hloop
      rcases round_kept now h log with ⟨log', hround⟩ | ⟨tl', log', hround, hkept⟩
      · rw [hround] at hloop
        obtain rfl := Option.some.inj hloop
        exact h
      · rw [hround] at hloop
        exact ih hkept hloop

theorem timers_step (tl : TimerList) (op : Op) (tl' : TimerList) (o : Output) (h : TimersKept tl)
    (hstep : step timerOps tl op = some (tl', o)) : TimersKept tl' := by
  cases op with
  | addTimer alloc expireS expireNs data =>
      obtain ⟨rfl, rfl⟩ := Prod.mk.inj (Option.some.inj hstep)
      exact add_kept h alloc 0 expireS expireNs data
  | addTimerByOffset alloc offsetS offsetNs data =>
      obtain ⟨rfl, rfl⟩ := Prod.mk.inj (Option.some.inj hstep)
      exact add_kept h alloc 0 _ _ data
  | addTimerPeriodic alloc interval data =>
      obtain ⟨rfl, rfl⟩ := Prod.mk.inj (Option.some.inj hstep)
      rw [timerMgrAddTimerPeriodic]
      split
      · exact h
      · exact add_kept h alloc interval _ 0 data
  | updateTimer timer expireS expireNs =>
      obtain ⟨t, hu, he⟩ := Option.map_eq_some_iff.mp hstep
      obtain ⟨rfl, rfl⟩ := Prod.mk.inj he
      exact update_kept h hu
  | deleteTimer timer =>
      obtain ⟨x, hx, he⟩ := Option.map_eq_some_iff.mp hstep
      obtain ⟨rfl, rfl⟩ := Prod.mk.inj he
      obtain ⟨hmem, rfl⟩ := entryAt_some hx
      exact delete_kept h hmem
  | runTimerlist clock rounds s ns =>
      obtain ⟨r, hr, he⟩ := Option.map_eq_some_iff.mp hstep
      obtain ⟨rfl, rfl⟩ := Prod.mk.inj he
      rw [timerMgrRunTimerlist] at hr
      split at hr
      · obtain rfl := Option.some.inj hr
        exact h
      · exact loop_kept _ ⟨h.ready.at _ _, h.redBlack⟩ hr
  | forceTimeout clock s ns =>
      obtain ⟨r, hr, he⟩ := Option.map_eq_some_iff.mp hstep
      obtain ⟨rfl, rfl⟩ := Prod.mk.inj he
      rw [timerMgrForceTimeout] at hr
      cases hx : tl.rbtree.inorder with
      | nil =>
          have hfirst : tl.first = none := by rw [h.ready.first, hx]; rfl
          rw [hfirst] at hr
          obtain rfl := Option.some.inj hr
          exact h
      | cons x rest =>
          have hfirst : tl.first = some x.addr := by rw [h.ready.first, hx]; rfl
          rw [hfirst] at hr
          simp only [entryAt_eq h.ready (hx ▸ List.mem_cons_self : x ∈ tl.rbtree.inorder), Option.map_some] at hr
          obtain rfl := Option.some.inj hr
          exact popFirst_kept h hx

theorem timers_shallow (timesource : TimeSource) (clock : Clock) {calls : List Op} {os : List Output}
    (hrun : run (step timerOps) (createTimerlist timesource clock) calls = some (tl, os)) : Shallow tl.rbtree := by
  have hopen : TimersKept (createTimerlist timesource clock) := 
    ⟨ready_create timesource clock, ⟨⟨0, rfl⟩, rfl⟩⟩
  exact shallow_of_redBlack (run_preserves timers_step hopen hrun).redBlack

def threeCalls : List Op := [.addTimer true 9 0 0, .addTimerPeriodic true 4 1, .deleteTimer 0]

theorem timers_shallow_three : ∃ tl os,
    run (step timerOps) (createTimerlist .localTime ⟨5, 0⟩) threeCalls = some (tl, os) ∧ Shallow tl.rbtree := by
  obtain ⟨⟨tl, os⟩, hrun⟩ := Option.isSome_iff_exists.mp
    (show (run (step timerOps) (createTimerlist .localTime ⟨5, 0⟩) threeCalls).isSome = true by decide)
  exact ⟨tl, os, hrun, timers_shallow .localTime ⟨5, 0⟩ hrun⟩

end Timers

section Queues

open ByteOrder PktQueue PktQueueOrder

abbrev entryOps : EntryOps := rbtreeOps Entry.addr

variable {host : Endian} {h t : Handle} {entry : Entry} {popped : Option Entry}

theorem pushEntry_redBlack (hr : Ready host h) (hb : IsRedBlack h.rbtree) (haddr : entry.addr = h.fresh) (sz : UInt32) :
    IsRedBlack (pktPushEntry host entryOps { h with fresh := h.fresh + 1 } entry sz).rbtree := by
  have hsorted : Handle.isSorted { h with fresh := h.fresh + 1 } := hr.isSorted
  rw [pktPushEntry, if_pos hsorted]
  refine insert_redBlack _ hb fun hmem => ?_
  obtain ⟨x, hx, he⟩ := List.mem_map.mp hmem
  exact absurd (hr.fresh x hx) (by rw [he]; exact haddr ▸ Nat.lt_irrefl _)

theorem popNode_redBlack (hb : IsRedBlack h.rbtree) (hpop : popNode entryOps h = some (t, popped)) :
    IsRedBlack t.rbtree := by
  obtain ⟨node, -, hpop⟩ := Option.bind_eq_some_iff.mp hpop
  obtain ⟨x, hx, hpop⟩ := Option.bind_eq_some_iff.mp hpop
  obtain ⟨rfl, rfl⟩ := Prod.mk.inj (Option.some.inj hpop)
  have haddr := List.find?_some (p := fun entry : Entry => decide (entry.addr = node)) hx
  obtain rfl := of_decide_eq_true haddr
  exact erase_redBlack hb (List.mem_of_find?_eq_some hx)

theorem pop_redBlack (hr : Ready host h) (hb : IsRedBlack h.rbtree) {force : Bool}
    (hpop : doPktPop host entryOps h force = some (t, popped)) : IsRedBlack t.rbtree := by
  rw [doPktPop, if_pos hr.isSorted, doPktPopSorted] at hpop
  have hkept (hsame : some (h, none) = some (t, popped)) : IsRedBlack t.rbtree :=
    (Prod.mk.inj (Option.some.inj hsame)).1 ▸ hb
  split_ifs at hpop
  · exact hkept hpop
  · exact hkept hpop
  · obtain ⟨near, -, hpop⟩ := Option.bind_eq_some_iff.mp hpop
    cases near with
    | true => exact hkept hpop
    | false => exact popNode_redBlack hb hpop
  · exact popNode_redBlack hb hpop

theorem queue_step (h : Handle) (c : Op) (hk : Ready host h ∧ IsRedBlack h.rbtree) :
    ∃ t o, step host entryOps h c = some (t, o) ∧ Ready host t ∧ IsRedBlack t.rbtree := by
  obtain ⟨t, o, hs, ht⟩ := @step_ready host entryOps h c hk.1
  refine ⟨t, o, hs, ht, ?_⟩
  cases c with
  | setSizelimit sizelimit =>
      obtain ⟨rfl, -⟩ := Prod.mk.inj (Option.some.inj hs)
      exact hk.2
  | setSortlen sortlen =>
      obtain ⟨rfl, -⟩ := Prod.mk.inj (Option.some.inj hs)
      rw [pktQueueSetSortlen, if_pos hk.1.isSorted]
      exact hk.2
  | setDuration duration =>
      obtain ⟨rfl, -⟩ := Prod.mk.inj (Option.some.inj hs)
      rw [pktQueueSetDuration, if_pos hk.1.isSorted]
      exact hk.2
  | push ph len mem =>
      obtain ⟨rfl, -⟩ := Prod.mk.inj (Option.some.inj hs)
      simp only [pktPush]
      split_ifs
      all_goals first | exact hk.2 | exact pushEntry_redBlack hk.1 hk.2 rfl _
  | pushNohdr ph len s ns mem =>
      obtain ⟨rfl, -⟩ := Prod.mk.inj (Option.some.inj hs)
      simp only [pktPushNohdr]
      split_ifs
      all_goals first | exact hk.2 | exact pushEntry_redBlack hk.1 hk.2 rfl _
  | pop | popForce =>
      obtain ⟨r, hr, he⟩ := Option.map_eq_some_iff.mp hs
      obtain ⟨rfl, -⟩ := Prod.mk.inj he
      exact pop_redBlack hk.1 hk.2 hr
  | clear =>
      obtain ⟨r, hr, he⟩ := Option.map_eq_some_iff.mp hs
      obtain ⟨rfl, -⟩ := Prod.mk.inj he
      obtain ⟨p, -, rfl⟩ := Option.map_eq_some_iff.mp hr
      exact ⟨⟨0, rfl⟩, rfl⟩

theorem queue_shallow (host : Endian) {type : UInt32} (htype : (pktQueueOpen type).isSorted) (calls : List Op) :
    ∃ h os, run (step host entryOps) (pktQueueOpen type) calls = some (h, os) ∧ Shallow h.rbtree := by
  obtain ⟨h, os, hrun, _, hb⟩ := guarded_run (fun h c hk _ => queue_step h c hk)
    (show Ready host (pktQueueOpen type) ∧ IsRedBlack (pktQueueOpen type).rbtree from
      ⟨ready_of_empty htype rfl rfl rfl rfl, ⟨⟨0, rfl⟩, rfl⟩⟩)
    (guarded_of_forall fun _ _ _ => trivial)
  exact ⟨h, os, hrun, shallow_of_redBlack hb⟩

theorem queue_shallow_two : ∃ h os, run (step .little entryOps) (pktQueueOpen 2)
    [.push (fun _ => 0) 24 ⟨true, true⟩, .pop] = some (h, os) ∧ Shallow h.rbtree :=
  queue_shallow .little (by decide) _

end Queues

end OiAmc.TreeHeights

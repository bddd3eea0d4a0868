import OiAmc.TimerAgenda

namespace OiAmc.TimerCalls

open GotoLoop PartialMachine StableOrder TimerMgr TimerOrder TimerRun TimerAgenda

variable {tl : TimerList} {now : Clock} {x y : Timer} {xs rest : List Timer} {more : List Popped}

def called (popped : List Popped) : List Timer :=
  (popped.filter fun p => p.call.isSome).map Popped.entry

def Due (now : Clock) (x : Timer) : Prop := ¬ Clock.time now < expiry x

instance (now : Clock) (x : Timer) : Decidable (Due now x) := inferInstanceAs (Decidable (¬ _))

/-- A timer that is called when it is due: a one-shot one, or one that has run before. -/
def Armed (x : Timer) : Prop := x.interval = 0 ∨ x.interval < x.expireS

instance (x : Timer) : Decidable (Armed x) := inferInstanceAs (Decidable (_ ∨ _))

def dueOnce (now : Clock) (x : Timer) : Bool := decide (x.interval = 0) && decide (Due now x)

def oneShot (x : Timer) : Bool := decide (x.interval = 0)

/-- What a run does for the timers of a list: it calls those that are due, in the order of
their expiry, and the one-shot ones once each. -/
structure InOrder (now : Clock) (xs : List Timer) (popped : List Popped) : Prop where
  order : (called popped).Pairwise fun x y => expiry x ≤ expiry y
  due : ∀ x ∈ called popped, Due now x
  once : (called popped).filter oneShot = xs.filter (dueOnce now)
  all : ∀ x ∈ xs, Armed x → Due now x → x ∈ called popped
  args : ∀ p ∈ popped, ∀ c, p.call = some c → c = ⟨now.s, now.ns, p.entry.data⟩

theorem callOf_armed (h : Armed x) : callOf now x = some ⟨now.s, now.ns, x.data⟩ := if_pos h

theorem callOf_unarmed (h : ¬ Armed x) : callOf now x = none := if_neg h

theorem called_cons (x : Timer) (more : List Popped) : called (⟨x, callOf now x⟩ :: more) =
    if Armed x then x :: called more else called more := by
  by_cases h : Armed x
  · rw [if_pos h, callOf_armed h]
    rfl
  · rw [if_neg h, callOf_unarmed h]
    rfl

theorem inOrder_nil (h : ∀ x ∈ xs, Clock.time now < expiry x) : InOrder now xs [] where
  order := List.Pairwise.nil
  due _ hx := absurd hx List.not_mem_nil
  once := by
    refine (List.filter_eq_nil_iff.mpr fun x hx hd => ?_).symm
    exact of_decide_eq_true (Bool.and_eq_true_iff.mp hd).2 (h x hx)
  all x hx _ hd := absurd (h x hx) hd
  args _ hp := absurd hp List.not_mem_nil

theorem interval_ne_zero (hpos : 0 < x.interval) : ¬ x.interval = 0 := fun h0 => by
  rw [h0] at hpos
  exact absurd hpos (by decide)

/-- A timer that is set and will be called again comes after a time that is not after the
run, and not after the timer when that was called. -/
theorem rearm_bound {L : Nat} (hL : L ≤ Clock.time now) (hpos : 0 < x.interval)
    (hfine : Fine now ⟨x, callOf now x⟩) (hx : Armed x → L ≤ expiry x)
    (harmed : Armed (rearm now.s x)) : L ≤ expiry (rearm now.s x) := by
  have hne := interval_ne_zero hpos
  have hran' : (rearm now.s x).interval < (rearm now.s x).expireS := harmed.resolve_left hne
  by_cases hran : x.interval < x.expireS
  · have hLx := hx (Or.inr hran)
    by_cases hwrap : x.expireS.toNat + x.interval.toNat < 2 ^ 32
    · have hs := rearm_ran now.s hran
      rw [Nat.mod_eq_of_lt hwrap] at hs
      rw [expiry_rearm, hs]
      apply hLx.trans
      exact Nat.add_le_add_right (Nat.mul_le_mul_right _ (Nat.le_add_right _ _)) _
    · exact absurd hran' (rearm_wrapped hran hwrap)
  · have hlater := hfine hpos ((callOf_none hpos).mpr hran)
    exact hL.trans hlater.le

theorem afterPop_bound {L : Nat} (hL : L ≤ Clock.time now) (hfine : Fine now ⟨x, callOf now x⟩)
    (hall : ∀ y ∈ x :: rest, Armed y → L ≤ expiry y) :
    ∀ y ∈ afterPop now x rest, Armed y → L ≤ expiry y := by
  obtain ⟨hx, hrest⟩ := List.forall_mem_cons.mp hall
  intro y hy harmed
  rw [afterPop] at hy
  by_cases hpos : 0 < x.interval
  · rw [if_pos hpos] at hy
    rcases List.mem_cons.mp ((place_perm _ _).subset hy) with rfl | hy
    · exact rearm_bound hL hpos hfine hx harmed
    · exact hrest y hy harmed
  · rw [if_neg hpos] at hy
    exact hrest y hy harmed

theorem afterPop_once (hsorted : rest.Pairwise fun x y => expiry x ≤ expiry y) (hdue : Due now x) :
    (x :: rest).filter (dueOnce now) =
      if oneShot x then x :: (afterPop now x rest).filter (dueOnce now)
      else (afterPop now x rest).filter (dueOnce now) := by
  rw [List.filter_cons, afterPop]
  by_cases hone : x.interval = 0
  · have honce : dueOnce now x = true := Bool.and_eq_true_iff.mpr ⟨decide_eq_true hone, decide_eq_true hdue⟩
    have hpos : ¬ 0 < x.interval := by rw [hone]; decide
    rw [if_pos honce, if_neg hpos, oneShot, if_pos (decide_eq_true hone)]
  · have hpos : 0 < x.interval := UInt32.pos_iff_ne_zero.mpr hone
    have honce : dueOnce now x = false := by rw [dueOnce, decide_eq_false hone, Bool.false_and]
    have hset : dueOnce now (rearm now.s x) = false := honce ▸ by
      rw [dueOnce, show decide ((rearm now.s x).interval = 0) = false from decide_eq_false hone,
        Bool.false_and, honce]
    rw [honce, if_neg Bool.false_ne_true, if_pos hpos, oneShot, decide_eq_false hone,
      if_neg Bool.false_ne_true, place_filter_ne hsorted hset]

theorem mem_afterPop (hy : y ∈ rest) : y ∈ afterPop now x rest := by
  rw [afterPop]
  split
  · exact (place_perm _ _).symm.subset (List.mem_cons_of_mem _ hy)
  · exact hy

def Bounded (now : Clock) (xs : List Timer) (popped : List Popped) : Prop :=
  ∀ L ≤ Clock.time now, (∀ x ∈ xs, Armed x → L ≤ expiry x) → ∀ y ∈ called popped, L ≤ expiry y

theorem bounded_cons (hfine : Fine now ⟨x, callOf now x⟩)
    (h : Bounded now (afterPop now x rest) more) :
    Bounded now (x :: rest) (⟨x, callOf now x⟩ :: more) := by
  intro L hL hall y hy
  have hmore := h L hL (afterPop_bound hL hfine hall)
  rw [called_cons] at hy
  by_cases harmed : Armed x
  · rw [if_pos harmed] at hy
    rcases List.mem_cons.mp hy with rfl | hy
    · exact hall y List.mem_cons_self harmed
    · exact hmore y hy
  · rw [if_neg harmed] at hy
    exact hmore y hy

theorem inOrder_cons (hsorted : (x :: rest).Pairwise fun x y => expiry x ≤ expiry y)
    (hdue : Due now x) (hfine : Fine now ⟨x, callOf now x⟩)
    (h : InOrder now (afterPop now x rest) more) (hbound : Bounded now (afterPop now x rest) more) :
    InOrder now (x :: rest) (⟨x, callOf now x⟩ :: more) := by
  obtain ⟨hx, hrest⟩ := List.pairwise_cons.mp hsorted
  refine ⟨?_, ?_, ?_, fun y hy harmed hd => ?_, fun p hp c hc => ?_⟩
  · rw [called_cons]
    split
    · refine List.pairwise_cons.mpr ⟨?_, h.order⟩
      apply hbound (expiry x) (not_lt.mp hdue)
      apply afterPop_bound (not_lt.mp hdue) hfine
      exact List.forall_mem_cons.mpr ⟨fun _ => le_refl _, fun y hy _ => hx y hy⟩
    · exact h.order
  · rw [called_cons]
    split
    · exact List.forall_mem_cons.mpr ⟨hdue, h.due⟩
    · exact h.due
  · rw [called_cons, afterPop_once hrest hdue, ← h.once]
    by_cases hone : x.interval = 0
    · have harmed : Armed x := Or.inl hone
      rw [if_pos harmed, List.filter_cons]
    · have hfalse : oneShot x = false := decide_eq_false hone
      rw [hfalse, if_neg Bool.false_ne_true]
      split
      · rw [List.filter_cons, hfalse, if_neg Bool.false_ne_true]
      · rfl
  · rw [called_cons]
    rcases List.mem_cons.mp hy with rfl | hy
    · rw [if_pos harmed]
      exact List.mem_cons_self
    · have hmem := h.all y (mem_afterPop hy) harmed hd
      split
      · exact List.mem_cons_of_mem _ hmem
      · exact hmem
  · rcases List.mem_cons.mp hp with rfl | hp
    · by_cases harmed : Armed x
      · exact Option.some.inj (hc.symm.trans (callOf_armed harmed))
      · cases hc.symm.trans (callOf_unarmed harmed)
    · exact h.args p hp c hc

/-- A run in which no timer is set, without its callback, to a time that has come calls the
timers of the list in order. -/
theorem runLoop_inOrder (ops : TimerOps) {rounds : Nat} {tl' : TimerList} {popped : List Popped}
    (hready : Ready tl) (h : runLoop ops now rounds tl = some (tl', popped))
    (hfine : ∀ p ∈ popped, Fine now p) : InOrder now tl.rbtree.inorder popped := by
  have hloop : Ready tl → ∃ more, popped = [] ++ more ∧ ((∀ p ∈ more, Fine now p) →
      InOrder now tl.rbtree.inorder more ∧ Bounded now tl.rbtree.inorder more) := by
    refine @loop_induction _ _ (runRound ops now) (fun r r' => Ready r.1 → ∃ more,
      r'.2 = r.2 ++ more ∧ ((∀ p ∈ more, Fine now p) →
        InOrder now r.1.rbtree.inorder more ∧ Bounded now r.1.rbtree.inorder more))
      ?_ ?_ rounds (tl, []) (tl', popped) h
    · rintro ⟨tl, log⟩ r hround hready
      obtain ⟨hleave, hlater⟩ | ⟨x, rest, tl1, -, -, hgo, -⟩ := round_cases ops now hready log
      · cases hleave.symm.trans hround
        exact ⟨[], (List.append_nil log).symm, fun _ =>
          ⟨inOrder_nil hlater, fun _ _ _ y hy => absurd hy List.not_mem_nil⟩⟩
      · cases hgo.symm.trans hround
    · rintro ⟨tl, log⟩ r1 r hround ih hready
      obtain ⟨hleave, -⟩ | ⟨x, rest, tl1, hx, hdue, hgo, hready1, horder⟩ :=
        round_cases ops now hready log
      · cases hleave.symm.trans hround
      · cases hgo.symm.trans hround
        obtain ⟨more, hmore, hback⟩ := ih hready1
        refine ⟨⟨x, callOf now x⟩ :: more, by rw [hmore, List.append_assoc]; rfl, fun hfine => ?_⟩
        obtain ⟨hfx, hfmore⟩ := List.forall_mem_cons.mp hfine
        obtain ⟨hin, hbound⟩ := hback hfmore
        have hsorted := hready.sorted
        rw [horder] at hin hbound
        rw [hx] at hsorted ⊢
        exact ⟨inOrder_cons hsorted hdue hfx hin hbound, bounded_cons hfx hbound⟩
  obtain ⟨more, rfl, hback⟩ := hloop hready
  exact (hback hfine).1

/-- What is said of a call of timer_mgr_run_timerlist at another time than the last one. -/
def RunsInOrder (ops : TimerOps) (tl : TimerList) : Op → Prop
  | .runTimerlist clock rounds s ns =>
      let now := TimerMgr.now tl clock s ns
      ¬ (now.ns = tl.lastNs ∧ now.s = tl.lastS) →
        ∀ tl' popped, timerMgrRunTimerlist ops clock rounds tl s ns = some (tl', popped) →
          (∀ p ∈ popped, Fine now p) → InOrder now tl.rbtree.inorder popped
  | _ => True

theorem runsInOrder_of_ready (ops : TimerOps) (h : Ready tl) (op : Op) : RunsInOrder ops tl op := by
  cases op with
  | runTimerlist clock rounds s ns =>
      intro htime tl' popped hrun hfine
      rw [timerMgrRunTimerlist, if_neg htime] at hrun
      have hready := h.at (TimerMgr.now tl clock s ns).s (TimerMgr.now tl clock s ns).ns
      have hin := runLoop_inOrder ops hready hrun hfine
      exact hin
  | _ => trivial

/-- A timer list that is used as it is meant to be follows its agenda over every run, and its
runs call the timers in order. -/
theorem timerlist_follows_agenda (ops : TimerOps) (timesource : TimeSource) (clock : Clock)
    (calls : List Op) :
    Option.Rel (fun p q => Follows p.1 q.1 ∧ p.2 = q.2)
        (run (step ops) (createTimerlist timesource clock) calls)
        (run agendaStep (createAgenda timesource clock) calls) ∧
      Guarded (step ops) (RunsInOrder ops) (createTimerlist timesource clock) calls := by
  have hcreate := follows_create timesource clock
  refine ⟨run_rel (step_follows ops) hcreate calls, ?_⟩
  apply guarded_imp (I := fun tl => ∃ a, Follows tl a) _ ⟨_, hcreate⟩ (guarded_true _ calls)
  rintro tl op ⟨a, h⟩ -
  refine ⟨runsInOrder_of_ready ops h.ready op, fun p hp => ?_⟩
  have hstep := step_follows ops tl a op h
  rw [hp] at hstep
  revert hstep
  rcases agendaStep a op with - | q <;> intro hstep
  · cases hstep
  · obtain ⟨hf, -⟩ : Follows p.1 q.1 ∧ p.2 = q.2 := by cases hstep; assumption
    exact ⟨q.1, hf⟩

/-- A timer that expires at second 0 is due in a run of a new list at second 0, and is not
called: the run is at the time of the last one. -/
theorem same_time_calls_none :
    ¬ ∀ calls tl outs, run (step (RbTree.plainOps Timer.addr))
        (createTimerlist .external ⟨0, 0⟩) calls = some (tl, outs) →
      ∀ clock rounds s ns tl' popped,
        timerMgrRunTimerlist (RbTree.plainOps Timer.addr) clock rounds tl s ns = some (tl', popped) →
          (called popped).filter oneShot =
            tl.rbtree.inorder.filter (dueOnce (TimerMgr.now tl clock s ns)) := by
  intro h
  have hnone := h [.addTimer true 0 0 7] _ _ rfl ⟨0, 0⟩ 1 0 0 _ _ rfl
  exact absurd (congrArg List.length hnone) (by decide)

end OiAmc.TimerCalls

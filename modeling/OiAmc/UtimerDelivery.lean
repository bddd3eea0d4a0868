import Mathlib.Data.UInt
import OiAmc.RbTree
import OiAmc.PartialMachine
import OiAmc.TimerOffset
import OiAmc.TimerRun
import OiAmc.Utimer

namespace OiAmc.UtimerDelivery

open LeftmostTree PartialMachine RbTree StableOrder TimerLog TimerOrder Utimer
open TimerMgr (Clock carryNs timeDiff)
open TimerOffset (carryNs_time)

variable (ops : UtimerOps) {st : State} {ut : UtimerHd} {es : Log} {x y : UtimerEntry}

def expireTime (entry : UtimerEntry) : Nat :=
  entry.expireS.toNat * 1000000000 + entry.expireNs.toNat

/-- The list begins at time 0. -/
def startTime : Clock := ⟨0, 0⟩

/-- A timer has the expiry that it was added with. One that is added by offset expires that
long after the last time, where the seconds do not overflow. -/
def Asks (es : Log) (x : UtimerEntry) : Asked Clock → Prop
  | .at t => x.expireS = t.s ∧ x.expireNs = t.ns
  | .offset t =>
      Clock.time (lastTime startTime es) + Clock.time t < 2 ^ 32 * 1000000000 →
        expireTime x = Clock.time (lastTime startTime es) + Clock.time t

def Exact (es : Log) : Prop :=
  ∀ as x asked bs, es = as ++ .added x asked :: bs → Asks as x asked

def Control.now : Control → Option Clock
  | .idle => none
  | .looping now | .calling now _ => some now

/-- The timer whose callback has not returned counts as not yet fired. -/
def Control.firing : Control → Nat
  | .calling _ _ => 1
  | _ => 0

/-- The list beside the log of what was done with it. -/
structure Kept (st : State) (es : Log) : Prop where
  leftmost : Leftmost UtimerEntry.addr expireTime st.ut.rbtree st.ut.first
  holds : Agrees expireTime st.ut.rbtree.inorder (pending es)
  count : st.ut.count.toNat = (pending es).length + Control.firing st.control

/-- The nanoseconds of an offset do not overflow, and neither does the count. -/
def Fits (st : State) : Act → Prop
  | .add alloc _ _ _ => alloc → st.ut.count.toNat + 1 < 2 ^ 32
  | .addByOffset alloc s ns _ => alloc → st.ut.count.toNat + 1 < 2 ^ 32 ∧
      (st.ut.lastNs.toNat + ns.toNat < 2 ^ 32 ∨
        2 ^ 32 * 1000000000 ≤ Clock.time ⟨st.ut.lastS, st.ut.lastNs⟩ + Clock.time ⟨s, ns⟩)
  | _ => True

structure Reached (st : State) (es : Log) : Prop where
  kept : Kept st es
  lawful : Lawfully expireTime Clock.time startTime es
  exact : Exact es
  addrs : ∀ x ∈ added es, x.addr < st.ut.fresh
  apart : ((added es).map UtimerEntry.addr).Nodup
  last : lastTime startTime es = ⟨st.ut.lastS, st.ut.lastNs⟩
  running : running es = Control.now st.control

theorem reached_open (type : UInt32) : Reached ⟨utimerOpen type, .idle⟩ [] where
  kept := ⟨leftmost_leaf, Agrees.nil, rfl⟩
  lawful := .nil
  exact as x asked bs h := by simp at h
  addrs _ hx := absurd hx List.not_mem_nil
  apart := List.nodup_nil
  last := rfl
  running := rfl

theorem exact_snoc {e : Event UtimerEntry Clock} (h : Exact es)
    (he : ∀ x asked, e = .added x asked → Asks es x asked) : Exact (es ++ [e]) := by
  intro as x asked bs hes
  rcases output_snoc hes with ⟨rfl, hlast⟩ | ⟨bs', hes⟩
  · exact he x asked hlast.symm
  · exact h as x asked bs' hes

theorem added_quiet {e : Event UtimerEntry Clock} (h : Reached st es) (he : e.added? = none) :
    Exact (es ++ [e]) ∧ (∀ x ∈ added (es ++ [e]), x.addr < st.ut.fresh) ∧
      ((added (es ++ [e])).map UtimerEntry.addr).Nodup := by
  have hnone : added [e] = [] := List.filterMap_cons_none he
  rw [added_append, hnone, List.append_nil]
  refine ⟨exact_snoc h.exact fun x asked hx => ?_, h.addrs, h.apart⟩
  rw [hx] at he
  cases he

theorem utimerAdd_leftmost (h : Leftmost UtimerEntry.addr expireTime ut.rbtree ut.first)
    (hnew : ut.fresh ∉ ut.rbtree.inorder.map UtimerEntry.addr) (expireS expireNs : UInt32)
    (data : Nat) :
    Leftmost UtimerEntry.addr expireTime (utimerAdd ops ut true expireS expireNs data).1.rbtree
        (utimerAdd ops ut true expireS expireNs data).1.first ∧
      (utimerAdd ops ut true expireS expireNs data).1.rbtree.inorder =
        place expireTime ⟨ut.fresh, expireS, expireNs, data⟩ ut.rbtree.inorder := by
  refine h.insert ops (fun current => ?_) hnew
  unfold timeDiff expireTime
  rw [decide_eq_decide]
  dsimp only
  omega

theorem mem_pending_of (h : Kept st es) (hx : x ∈ st.ut.rbtree.inorder) : x ∈ pending es :=
  h.holds.mem_iff.mp hx

theorem add_reached (h : Reached st es) {expireS expireNs : UInt32} {data : Nat}
    {asked : Asked Clock} (hcount : st.ut.count.toNat + 1 < 2 ^ 32)
    (hasks : Asks es ⟨st.ut.fresh, expireS, expireNs, data⟩ asked) :
    Reached ⟨(utimerAdd ops st.ut true expireS expireNs data).1, st.control⟩
      (es ++ [.added ⟨st.ut.fresh, expireS, expireNs, data⟩ asked]) := by
  have hout : (⟨st.ut.fresh, expireS, expireNs, data⟩ : UtimerEntry) ∉ added es := fun hmem =>
    absurd (h.addrs _ hmem) (lt_irrefl _)
  have hpend := pending_added h.lawful hout asked
  have hnew : st.ut.fresh ∉ st.ut.rbtree.inorder.map UtimerEntry.addr := by
    intro hmem
    obtain ⟨y, hy, haddr⟩ := List.mem_map.mp hmem
    have hlt := h.addrs y (mem_pending.mp (mem_pending_of h.kept hy)).1
    omega
  obtain ⟨hleft, horder⟩ := utimerAdd_leftmost ops h.kept.leftmost hnew expireS expireNs data
  have hadded : added [(.added ⟨st.ut.fresh, expireS, expireNs, data⟩ asked :
      Event UtimerEntry Clock)] = [⟨st.ut.fresh, expireS, expireNs, data⟩] := rfl
  refine ⟨⟨hleft, ?_, ?_⟩, h.lawful.snoc hout, ?_, ?_, ?_, ?_, ?_⟩
  · rw [hpend]
    rw [horder]
    exact h.kept.holds.place
  · rw [hpend, List.length_append, List.length_singleton]
    change (st.ut.count + 1).toNat = _ + Control.firing st.control
    rw [UInt32.toNat_add, UInt32.toNat_one, Nat.mod_eq_of_lt hcount, h.kept.count]
    omega
  · refine exact_snoc h.exact fun x asked' he => ?_
    cases he
    exact hasks
  · intro x hx
    rw [added_append, hadded, List.mem_append, List.mem_singleton] at hx
    change x.addr < st.ut.fresh + 1
    rcases hx with hx | rfl
    · exact (h.addrs x hx).trans (Nat.lt_succ_self _)
    · exact Nat.lt_succ_self _
  · rw [added_append, hadded, List.map_append, List.nodup_append]
    refine ⟨h.apart, List.nodup_singleton _, fun a ha b hb => ?_⟩
    obtain ⟨y, hy, rfl⟩ := List.mem_map.mp ha
    rw [List.mem_singleton.mp hb]
    exact (h.addrs y hy).ne
  · rw [lastTime_snoc]
    exact h.last
  · rw [running_snoc]
    exact h.running

theorem entryAt_some {timer : Nat} (hx : entryAt ut timer = some x) :
    x ∈ ut.rbtree.inorder ∧ x.addr = timer := by
  have haddr := List.find?_some (p := fun entry : UtimerEntry => decide (entry.addr = timer)) hx
  exact ⟨List.mem_of_find?_eq_some hx, of_decide_eq_true haddr⟩

theorem taken (h : Reached st es) (hx : x ∈ st.ut.rbtree.inorder) :
    Agrees expireTime (st.ut.rbtree.inorder.filter fun y => decide (y.addr ≠ x.addr))
        ((pending es).filter fun y => decide (y ≠ x)) ∧
      ((pending es).filter fun y => decide (y ≠ x)).length + 1 = (pending es).length := by
  have hpend := mem_pending_of h.kept hx
  have hapart : ((pending es).map UtimerEntry.addr).Nodup :=
    h.apart.sublist (List.filter_sublist.map _)
  have hsame : ((pending es).filter fun y => decide (y.addr ≠ x.addr)) =
      (pending es).filter fun y => decide (y ≠ x) := by
    refine List.filter_congr fun y hy => ?_
    rw [decide_eq_decide]
    exact not_congr ⟨List.inj_on_of_nodup_map hapart hy hpend, congrArg _⟩
  constructor
  · rw [← hsame]
    exact h.kept.holds.filter _
  · obtain ⟨as, bs, hsplit⟩ := List.append_of_mem hpend
    rw [← hsame, filter_addr hapart hsplit, hsplit, List.length_append, List.length_append,
      List.length_cons, Nat.add_assoc]

theorem delete_reached (h : Reached st es) (hx : x ∈ st.ut.rbtree.inorder) :
    Reached ⟨utimerDelete ops st.ut x.addr, st.control⟩ (es ++ [.deleted x]) := by
  obtain ⟨hholds, hlen⟩ := taken h hx
  obtain ⟨hleft, horder⟩ := h.kept.leftmost.erase ops hx
  obtain ⟨hexact, haddrs, hapart⟩ := added_quiet h (rfl : (Event.deleted x).added? = none)
  refine ⟨⟨hleft, ?_, ?_⟩, h.lawful.snoc (mem_pending_of h.kept hx), hexact, haddrs, hapart, ?_, ?_⟩
  · rw [pending_deleted]
    change Agrees expireTime (ops.erase _ _).inorder _
    rwa [horder]
  · rw [pending_deleted]
    change (st.ut.count - 1).toNat = _ + Control.firing st.control
    have hcount := h.kept.count
    rw [UInt32.toNat_sub_of_le, UInt32.toNat_one]
    · omega
    · rw [UInt32.le_iff_toNat_le, UInt32.toNat_one]
      omega
  · rw [lastTime_snoc]
    exact h.last
  · rw [running_snoc]
    exact h.running

theorem quiet_reached {control : Control} {e : Event UtimerEntry Clock} {s ns count : UInt32}
    (h : Reached st es) (he : e.added? = none ∧ e.fired? = none ∧ e.deleted? = none)
    (hlaw : Lawful expireTime Clock.time startTime es e)
    (hlast : lastTime startTime (es ++ [e]) = ⟨s, ns⟩)
    (hrun : running (es ++ [e]) = Control.now control)
    (hcount : count.toNat = (pending es).length + Control.firing control) :
    Reached ⟨{ st.ut with lastS := s, lastNs := ns, count := count }, control⟩ (es ++ [e]) := by
  obtain ⟨hexact, haddrs, hapart⟩ := added_quiet h he.1
  have hsame := pending_quiet es he.1 he.2.1 he.2.2
  refine ⟨⟨h.kept.leftmost, ?_, ?_⟩, h.lawful.snoc hlaw, hexact, haddrs, hapart, hlast, hrun⟩
  · rw [hsame]
    exact h.kept.holds
  · rw [hsame]
    exact hcount

theorem run_reached (h : Reached st es) (hidle : st.control = .idle) (clock : Clock)
    (s ns : UInt32) :
    Reached (utimerRun st.ut clock s ns).1 (es ++ [(utimerRun st.ut clock s ns).2]) := by
  have hnone : running es = none := by rw [h.running, hidle]; rfl
  have hcount : st.ut.count.toNat = (pending es).length + 0 := by rw [h.kept.count, hidle]; rfl
  rw [utimerRun]
  generalize runTime st.ut clock s ns = now
  by_cases hsame : now.ns = st.ut.lastNs ∧ now.s = st.ut.lastS
  · have hnow : now = ⟨st.ut.lastS, st.ut.lastNs⟩ := by
      rw [← hsame.1, ← hsame.2]
    simp only [if_pos hsame]
    refine quiet_reached h ⟨rfl, rfl, rfl⟩ ⟨hnone, by rw [h.last, hnow]⟩ ?_ ?_ hcount
    · rw [lastTime_snoc, hnow]
    · rw [running_snoc]
      exact hnone
  · have hnow : now ≠ ⟨st.ut.lastS, st.ut.lastNs⟩ := by
      rintro rfl
      exact hsame ⟨rfl, rfl⟩
    simp only [if_neg hsame]
    refine quiet_reached h ⟨rfl, rfl, rfl⟩ ⟨hnone, by rwa [h.last]⟩ ?_ ?_ hcount
    · rw [lastTime_snoc]
    · rw [running_snoc]
      rfl

theorem timeDiff_pos (now : Clock) (x : UtimerEntry) :
    0 < timeDiff now.s now.ns x.expireS x.expireNs ↔ Clock.time now < expireTime x := by
  unfold timeDiff Clock.time expireTime
  omega

theorem runRound_cases (h : Leftmost UtimerEntry.addr expireTime ut.rbtree ut.first) (now : Clock) :
    (runRound ops ut now = some (⟨ut, .idle⟩, .ended) ∧
        ∀ x ∈ ut.rbtree.inorder, Clock.time now < expireTime x) ∨
      ∃ x rest, ut.rbtree.inorder = x :: rest ∧ ¬ Clock.time now < expireTime x ∧
        runRound ops ut now = some (⟨{ ut with
          first := ops.next ut.rbtree x.addr
          rbtree := ops.erase ut.rbtree x.addr }, .calling now x⟩, .fired x) := by
  cases hx : ut.rbtree.inorder with
  | nil =>
      have hfirst : ut.first = none := by rw [h.first, hx]; rfl
      exact Or.inl ⟨by simp only [runRound, hfirst], fun _ hx => absurd hx List.not_mem_nil⟩
  | cons x rest =>
      have hfirst := h.first_eq hx
      have hentry : entryAt ut x.addr = some x := find_addr h.addrs (hx ▸ List.mem_cons_self)
      simp only [runRound, hfirst, hentry, Option.map_some]
      by_cases hlater : Clock.time now < expireTime x
      · rw [if_pos ((timeDiff_pos now x).mpr hlater)]
        refine Or.inl ⟨rfl, fun y hy => ?_⟩
        have hsorted := h.sorted
        rw [hx] at hsorted
        rcases List.mem_cons.mp hy with rfl | hy
        · exact hlater
        · exact hlater.trans_le ((List.pairwise_cons.mp hsorted).1 y hy)
      · rw [if_neg ((timeDiff_pos now x).not.mpr hlater)]
        exact Or.inr ⟨x, rest, rfl, hlater, rfl⟩

theorem ended_reached (h : Reached st es) {now : Clock} (hrun : st.control = .looping now)
    (hlate : ∀ x ∈ st.ut.rbtree.inorder, Clock.time now < expireTime x) :
    Reached ⟨st.ut, .idle⟩ (es ++ [.ended]) := by
  have hnow : running es = some now := by rw [h.running, hrun]; rfl
  refine quiet_reached h ⟨rfl, rfl, rfl⟩
    ⟨now, hnow, fun x hx => hlate x (h.kept.holds.mem_iff.mpr hx)⟩ ?_ ?_ ?_
  · rw [lastTime_snoc]
    exact h.last
  · rw [running_snoc]
    rfl
  · rw [h.kept.count, hrun]
    rfl

theorem fired_reached (h : Reached st es) {now : Clock} (hrun : st.control = .looping now)
    {rest : List UtimerEntry} (hx : st.ut.rbtree.inorder = x :: rest)
    (hdue : ¬ Clock.time now < expireTime x) :
    Reached ⟨{ st.ut with
        first := ops.next st.ut.rbtree x.addr
        rbtree := ops.erase st.ut.rbtree x.addr }, .calling now x⟩ (es ++ [.fired x]) := by
  have hmem : x ∈ st.ut.rbtree.inorder := hx ▸ List.mem_cons_self
  have hnow : running es = some now := by rw [h.running, hrun]; rfl
  obtain ⟨hholds, hlen⟩ := taken h hmem
  obtain ⟨hleft, horder⟩ := h.kept.leftmost.pop ops hx
  obtain ⟨hexact, haddrs, hapart⟩ := added_quiet h (rfl : (Event.fired x).added? = none)
  have hfirst : Agrees expireTime (x :: rest) (pending es) := hx ▸ h.kept.holds
  have hlaw : Lawful expireTime Clock.time startTime es (.fired x) :=
    ⟨mem_pending_of h.kept hmem, ⟨now, hnow, not_lt.mp hdue⟩, sooner_of_agrees hfirst⟩
  refine ⟨⟨hleft, ?_, ?_⟩, h.lawful.snoc hlaw, hexact, haddrs, hapart, ?_, ?_⟩
  · rw [pending_fired]
    change Agrees expireTime (ops.erase _ _).inorder _
    rwa [horder, ← filter_addr_cons h.kept.leftmost.addrs hx]
  · rw [pending_fired]
    have hcount := h.kept.count
    rw [hrun] at hcount
    exact hcount.trans hlen.symm
  · rw [lastTime_snoc]
    exact h.last
  · rw [running_snoc]
    exact hnow

theorem round_reached (h : Reached st es) {now : Clock} (hrun : st.control = .looping now) :
    ∃ st' e, runRound ops st.ut now = some (st', e) ∧ Reached st' (es ++ [e]) := by
  rcases runRound_cases ops h.kept.leftmost now with ⟨hround, hlate⟩ | ⟨x, rest, hx, hdue, hround⟩
  · exact ⟨_, _, hround, ended_reached h hrun hlate⟩
  · exact ⟨_, _, hround, fired_reached ops h hrun hx hdue⟩

theorem returned_reached (h : Reached st es) {now : Clock} {entry : UtimerEntry}
    (hcall : st.control = .calling now entry) :
    Reached (callbackReturns st.ut now entry).1
      (es ++ [(callbackReturns st.ut now entry).2]) := by
  have hcount := h.kept.count
  rw [hcall] at hcount
  have hfiring : Control.firing (.calling now entry) = 1 := rfl
  refine quiet_reached h ⟨rfl, rfl, rfl⟩ trivial ?_ ?_ ?_
  · rw [lastTime_snoc]
    exact h.last
  · rw [running_snoc, h.running, hcall]
    rfl
  · rw [UInt32.toNat_sub_of_le, UInt32.toNat_one]
    · change _ = _ + 0
      omega
    · rw [UInt32.le_iff_toNat_le, UInt32.toNat_one]
      omega

theorem offset_asks (h : Reached st es) {s ns : UInt32} (data addr : Nat)
    (hfits : st.ut.lastNs.toNat + ns.toNat < 2 ^ 32 ∨
      2 ^ 32 * 1000000000 ≤ Clock.time ⟨st.ut.lastS, st.ut.lastNs⟩ + Clock.time ⟨s, ns⟩) :
    Asks es ⟨addr, (carryNs 4 (st.ut.lastS + s) (st.ut.lastNs + ns)).1,
      (carryNs 4 (st.ut.lastS + s) (st.ut.lastNs + ns)).2, data⟩ (.offset ⟨s, ns⟩) := by
  intro hroom
  rw [h.last] at hroom ⊢
  have hns := hfits.resolve_right (not_le.mpr hroom)
  have hsum : (st.ut.lastS.toNat + s.toNat) * 1000000000 + (st.ut.lastNs.toNat + ns.toNat) =
      Clock.time ⟨st.ut.lastS, st.ut.lastNs⟩ + Clock.time ⟨s, ns⟩ := by
    rw [Nat.add_mul, Nat.add_add_add_comm]
    rfl
  have hs' : (st.ut.lastS + s).toNat = st.ut.lastS.toNat + s.toNat := by
    rw [← hsum] at hroom
    rw [UInt32.toNat_add]
    omega
  have hns' : (st.ut.lastNs + ns).toNat = st.ut.lastNs.toNat + ns.toNat := by
    rw [UInt32.toNat_add, Nat.mod_eq_of_lt hns]
  have htime := carryNs_time (st.ut.lastS + s) (st.ut.lastNs + ns) 4
    (by rw [hs', hns', hsum]; exact hroom)
  rw [hs', hns', hsum] at htime
  exact htime

theorem refused_reached (h : Reached st es) : Reached st (es ++ [.refused]) := by
  refine quiet_reached h ⟨rfl, rfl, rfl⟩ trivial ?_ ?_ h.kept.count
  · rw [lastTime_snoc]
    exact h.last
  · rw [running_snoc]
    exact h.running

theorem step_reached (st : State) (es : Log) (act : Act) (h : Reached st es)
    (hact : Proper st act = true ∧ Fits st act) :
    ∃ st' e, step ops st act = some (st', e) ∧ Reached st' (es ++ [e]) := by
  obtain ⟨hproper, hfits⟩ := hact
  cases act with
  | add alloc s ns data =>
      cases alloc with
      | false => exact ⟨_, _, rfl, refused_reached h⟩
      | true => exact ⟨_, _, rfl, add_reached ops h (hfits rfl) ⟨rfl, rfl⟩⟩
  | addByOffset alloc s ns data =>
      cases alloc with
      | false => exact ⟨_, _, rfl, refused_reached h⟩
      | true =>
          obtain ⟨hcount, hns⟩ := hfits rfl
          exact ⟨_, _, rfl, add_reached ops h hcount (offset_asks h data _ hns)⟩
  | delete timer =>
      obtain ⟨x, hx⟩ := Option.isSome_iff_exists.mp (Bool.and_eq_true_iff.mp hproper).2
      obtain ⟨hmem, rfl⟩ := entryAt_some hx
      exact ⟨_, _, by rw [step, hx]; rfl, delete_reached ops h hmem⟩
  | run clock s ns =>
      have hidle : st.control = .idle := by
        cases hc : st.control <;> simp_all [Proper]
      exact ⟨_, _, rfl, run_reached h hidle clock s ns⟩
  | round =>
      obtain ⟨now, hrun⟩ : ∃ now, st.control = .looping now := by
        cases hc : st.control <;> simp_all [Proper]
      obtain ⟨st', e, hround, hreached⟩ := round_reached ops h hrun
      exact ⟨st', e, by rw [step, hrun]; exact hround, hreached⟩
  | callbackReturns =>
      obtain ⟨now, entry, hcall⟩ : ∃ now entry, st.control = .calling now entry := by
        cases hc : st.control <;> simp_all [Proper]
      exact ⟨_, _, by rw [step, hcall], returned_reached h hcall⟩

/-- A timer list whose callers do what they may, and whose steps fit, delivers its timers, and
its tree, first and count are those of the timers that are pending. -/
theorem utimer_delivers (type : UInt32) (acts : List Act)
    (hproper : Guarded (step ops) (fun st act => Proper st act = true) ⟨utimerOpen type, .idle⟩ acts)
    (hfits : Guarded (step ops) Fits ⟨utimerOpen type, .idle⟩ acts) :
    ∃ st es, run (step ops) ⟨utimerOpen type, .idle⟩ acts = some (st, es) ∧
      Delivered expireTime Clock.time startTime es ∧ Exact es ∧ Kept st es := by
  obtain ⟨st, es, hrun, h⟩ := guarded_log (step_reached ops) (reached_open type)
    (guarded_and hproper hfits)
  rw [List.nil_append] at h
  exact ⟨st, es, hrun, delivered_of_lawfully h.lawful, h.exact, h.kept⟩

instance (st : State) (act : Act) : Decidable (Fits st act) :=
  match act with
  | .add .. => inferInstanceAs (Decidable (_ → _))
  | .addByOffset .. => inferInstanceAs (Decidable (_ → _))
  | .delete _ | .run .. | .round | .callbackReturns => isTrue trivial

def callbackActs : List Act :=
  [.add true 1 0 7, .addByOffset true 2 5 8, .run ⟨0, 0⟩ 1 0, .round, .delete 1,
    .addByOffset true 0 4000000000 9, .callbackReturns, .round]

theorem callbackActs_delivers :
    ∃ st es, run (step (plainOps UtimerEntry.addr)) ⟨utimerOpen 0, .idle⟩ callbackActs =
        some (st, es) ∧
      Delivered expireTime Clock.time startTime es ∧ Exact es ∧ Kept st es :=
  utimer_delivers _ 0 callbackActs (by decide) (by decide)

/-- Four seconds from half a second on are not four and a half: the nanoseconds overflow. -/
theorem offset_overflows :
    ¬ ∀ acts, Guarded (step (plainOps UtimerEntry.addr)) (fun st act => Proper st act = true)
        ⟨utimerOpen 0, .idle⟩ acts →
      ∃ st es, run (step (plainOps UtimerEntry.addr)) ⟨utimerOpen 0, .idle⟩ acts = some (st, es) ∧
        Delivered expireTime Clock.time startTime es ∧ Exact es ∧ Kept st es := by
  intro h
  obtain ⟨st, es, hrun, -, hexact, -⟩ :=
    h [.run ⟨0, 0⟩ 0 500000000, .round, .addByOffset true 0 4000000000 7] (by decide)
  cases hrun
  have hasks := hexact [_, _] _ _ [] rfl (by decide)
  exact absurd hasks (by decide)

end OiAmc.UtimerDelivery

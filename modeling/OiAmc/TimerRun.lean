import OiAmc.TimerMgr
import Mathlib.Algebra.BigOperators.Group.List.Basic
import Mathlib.Algebra.Ring.Nat

namespace OiAmc.TimerOrder

open GotoLoop LeftmostTree RbTree StableOrder TimerMgr

variable (ops : TimerOps) {tl : TimerList} {entry x : Timer} {rest : List Timer}

def expiry (entry : Timer) : Nat := entry.expireS.toNat * 1000000000 + entry.expireNs.toNat

def Clock.time (c : Clock) : Nat := c.s.toNat * 1000000000 + c.ns.toNat

structure Ready (tl : TimerList) : Prop where
  sorted : tl.rbtree.inorder.Pairwise fun x y => expiry x ≤ expiry y
  first : tl.first = tl.rbtree.inorder.head?.map Timer.addr
  count : tl.count = UInt32.ofNat tl.rbtree.inorder.length
  addrs : (tl.rbtree.inorder.map Timer.addr).Nodup
  fresh : ∀ x ∈ tl.rbtree.inorder, x.addr < tl.fresh

theorem ready_create (timesource : TimeSource) (clock : Clock) :
    Ready (createTimerlist timesource clock) :=
  ⟨List.Pairwise.nil, rfl, rfl, List.nodup_nil, fun _ hx => absurd hx List.not_mem_nil⟩

theorem Ready.leftmost (h : Ready tl) : Leftmost Timer.addr expiry tl.rbtree tl.first :=
  ⟨h.sorted, h.first, h.addrs⟩

theorem Ready.at (h : Ready tl) (s ns : UInt32) : Ready { tl with lastS := s, lastNs := ns } :=
  ⟨h.sorted, h.first, h.count, h.addrs, h.fresh⟩

def goesBefore (entry current : Timer) : Bool :=
  timeDiff current.expireS current.expireNs entry.expireS entry.expireNs < 0

theorem goesBefore_eq (entry current : Timer) :
    goesBefore entry current = decide (expiry entry < expiry current) := by
  unfold goesBefore timeDiff expiry
  rw [decide_eq_decide]
  omega

theorem insert_ready (h : Ready tl) (hnew : entry.addr ∉ tl.rbtree.inorder.map Timer.addr)
    (hfresh : entry.addr < tl.fresh) : Ready (timerMgrInsertTimer ops tl entry) ∧
      (timerMgrInsertTimer ops tl entry).rbtree.inorder = place expiry entry tl.rbtree.inorder := by
  obtain ⟨hleft, horder⟩ := h.leftmost.insert ops (goesBefore_eq entry) hnew
  have hplace : (timerMgrInsertTimer ops tl entry).rbtree.inorder =
      place expiry entry tl.rbtree.inorder := horder
  have hperm := @place_perm _ _ _ expiry entry tl.rbtree.inorder
  refine ⟨⟨hleft.sorted, hleft.first, ?_, hleft.addrs, ?_⟩, hplace⟩
  · change tl.count + 1 = UInt32.ofNat (timerMgrInsertTimer ops tl entry).rbtree.inorder.length
    rw [hplace, hperm.length_eq, h.count, List.length_cons, UInt32.ofNat_add]
    rfl
  · intro y hy
    rw [hplace, hperm.mem_iff] at hy
    rcases List.mem_cons.mp hy with rfl | hy
    · exact hfresh
    · exact h.fresh y hy

theorem delete_ready (h : Ready tl) (hx : x ∈ tl.rbtree.inorder) :
    Ready (timerMgrDeleteTimer ops tl x.addr) ∧
      (timerMgrDeleteTimer ops tl x.addr).rbtree.inorder =
        tl.rbtree.inorder.filter fun y => decide (y.addr ≠ x.addr) := by
  obtain ⟨hleft, horder⟩ := h.leftmost.erase ops hx
  obtain ⟨as, bs, hxs⟩ := List.append_of_mem hx
  refine ⟨⟨hleft.sorted, hleft.first, ?_, hleft.addrs, ?_⟩, horder⟩
  · change tl.count - 1 = UInt32.ofNat (ops.erase _ _).inorder.length
    rw [horder, filter_addr h.addrs hxs, h.count, hxs, List.length_append, List.length_cons,
      ← Nat.add_assoc, ← List.length_append, UInt32.ofNat_add]
    exact UInt32.add_sub_cancel _ _
  · intro y hy
    change y ∈ (ops.erase _ _).inorder at hy
    rw [horder] at hy
    exact h.fresh y (List.mem_of_mem_filter hy)

theorem popFirst_ready (h : Ready tl) (hx : tl.rbtree.inorder = x :: rest) :
    Ready (popFirst ops tl x.addr) ∧ (popFirst ops tl x.addr).rbtree.inorder = rest ∧
      x.addr ∉ rest.map Timer.addr := by
  have hfirst := h.leftmost.first_eq hx
  have hpop : popFirst ops tl x.addr = timerMgrDeleteTimer ops tl x.addr := by
    rw [popFirst, timerMgrDeleteTimer, if_pos hfirst]
  obtain ⟨hready, horder⟩ := delete_ready ops h (hx ▸ List.mem_cons_self : x ∈ tl.rbtree.inorder)
  have hnodup := h.addrs
  rw [hx, List.map_cons] at hnodup
  rw [hpop]
  exact ⟨hready, horder.trans (filter_addr_cons h.addrs hx), (List.nodup_cons.mp hnodup).1⟩

theorem entryAt_some {a : Nat} (hx : entryAt tl a = some x) : x ∈ tl.rbtree.inorder ∧ x.addr = a := by
  have haddr := List.find?_some (p := fun entry : Timer => decide (entry.addr = a)) hx
  exact ⟨List.mem_of_find?_eq_some hx, of_decide_eq_true haddr⟩

theorem entryAt_eq (h : Ready tl) (hx : x ∈ tl.rbtree.inorder) : entryAt tl x.addr = some x :=
  find_addr h.addrs hx

end OiAmc.TimerOrder

namespace OiAmc.TimerRun

open GotoLoop StableOrder TimerMgr TimerOrder

variable (ops : TimerOps) {tl tl' : TimerList} {now : Clock} {x : Timer} {rest : List Timer}
  {popped log : List Popped}

/-- What is left of the list when its first timer was taken. -/
def afterPop (now : Clock) (x : Timer) (rest : List Timer) : List Timer :=
  if 0 < x.interval then place expiry (rearm now.s x) rest else rest

theorem timeDiff_pos (now : Clock) (x : Timer) :
    0 < timeDiff now.s now.ns x.expireS x.expireNs ↔ Clock.time now < expiry x := by
  unfold timeDiff Clock.time expiry
  omega

theorem runRound_nil (h : Ready tl) (hnil : tl.rbtree.inorder = []) (log : List Popped) :
    runRound ops now (tl, log) = some (.inr (tl, log)) := by
  have hfirst : tl.first = none := by rw [h.first, hnil]; rfl
  simp only [runRound, hfirst]

theorem runRound_cons (h : Ready tl) (hx : tl.rbtree.inorder = x :: rest) (log : List Popped) :
    runRound ops now (tl, log) = some (runEntry ops now tl log x.addr x) := by
  have hfirst : tl.first = some x.addr := by rw [h.first, hx]; rfl
  have hentry := entryAt_eq h (x := x) (hx ▸ List.mem_cons_self)
  simp only [runRound, hfirst, hentry, Option.map_some]

theorem runEntry_later (hlater : Clock.time now < expiry x) (log : List Popped) :
    runEntry ops now tl log x.addr x = .inr (tl, log) :=
  if_pos ((timeDiff_pos now x).mpr hlater)

theorem runEntry_due (h : Ready tl) (hx : tl.rbtree.inorder = x :: rest)
    (hdue : ¬ Clock.time now < expiry x) (log : List Popped) :
    ∃ tl', runEntry ops now tl log x.addr x = .inl (tl', log ++ [⟨x, callOf now x⟩]) ∧ Ready tl' ∧
      tl'.rbtree.inorder = afterPop now x rest := by
  obtain ⟨hready, horder, hnew⟩ := popFirst_ready ops h hx
  have hdiff := (timeDiff_pos now x).not.mpr hdue
  rw [runEntry, if_neg hdiff, afterPop]
  by_cases hpos : 0 < x.interval
  · have hfresh : (rearm now.s x).addr < tl.fresh := h.fresh x (hx ▸ List.mem_cons_self)
    have hnew' : (rearm now.s x).addr ∉ (popFirst ops tl x.addr).rbtree.inorder.map Timer.addr := by
      rw [horder]
      exact hnew
    obtain ⟨hready', horder'⟩ := insert_ready ops hready hnew' hfresh
    rw [horder] at horder'
    exact ⟨_, by rw [if_pos hpos], hready', by rw [if_pos hpos, horder']⟩
  · exact ⟨_, by rw [if_neg hpos], hready, by rw [if_neg hpos, horder]⟩

theorem rearm_ran (s : UInt32) (h : x.interval < x.expireS) :
    (rearm s x).expireS.toNat = (x.expireS.toNat + x.interval.toNat) % 2 ^ 32 := by
  rw [rearm, if_pos h, UInt32.toNat_add]

theorem rearm_fresh (s : UInt32) (h : ¬ x.interval < x.expireS) (hpos : 0 < x.interval) :
    (rearm s x).expireS.toNat =
      (s.toNat + x.interval.toNat - 1) % 2 ^ 32 / x.interval.toNat * x.interval.toNat := by
  have hI : 0 < x.interval.toNat := hpos
  have hsum : (s + x.interval - 1).toNat = (s.toNat + x.interval.toNat - 1) % 2 ^ 32 := by
    rw [UInt32.toNat_sub, UInt32.toNat_add, UInt32.toNat_one]
    omega
  have hle := Nat.div_mul_le_self ((s.toNat + x.interval.toNat - 1) % 2 ^ 32) x.interval.toNat
  rw [rearm, if_neg h, UInt32.toNat_mul, UInt32.toNat_div, hsum, Nat.mod_eq_of_lt]
  omega

theorem expiry_rearm (s : UInt32) :
    expiry (rearm s x) = (rearm s x).expireS.toNat * 1000000000 + x.expireNs.toNat := rfl

/-- The timer has run before, and one of its later times, before the seconds start again
from 0, is still to come. -/
def RunsLater (now : Clock) (x : Timer) : Prop :=
  x.interval < x.expireS ∧ ∃ k, x.expireS.toNat + k * x.interval.toNat < 2 ^ 32 ∧
    Clock.time now < (x.expireS.toNat + k * x.interval.toNat) * 1000000000 + x.expireNs.toNat

/-- The first multiple of the interval that is not before the second of the run is still to
come; where the seconds start again from 0 before it, 0 is. -/
def MultipleLater (now : Clock) (x : Timer) : Prop :=
  (now.s.toNat + x.interval.toNat ≤ 2 ^ 32 ∧ ∃ m, x.interval.toNat ∣ m ∧ now.s.toNat ≤ m ∧
    m < now.s.toNat + x.interval.toNat ∧ Clock.time now < m * 1000000000 + x.expireNs.toNat) ∨
  (2 ^ 32 < now.s.toNat + x.interval.toNat ∧ Clock.time now < x.expireNs.toNat)

def Settles (now : Clock) (x : Timer) : Prop :=
  x.interval = 0 ∨ Clock.time now < expiry x ∨ RunsLater now x ∨ MultipleLater now x

theorem multiple_eq {n s m : Nat} (hn : 0 < n) (hm : n ∣ m) (hle : s ≤ m) (hlt : m < s + n) :
    m = (s + n - 1) / n * n := by
  obtain ⟨k, rfl⟩ := hm
  have hk : (s + n - 1) / n = k := by
    rw [Nat.div_eq_iff hn]
    constructor
    · rw [Nat.mul_comm]
      omega
    · rw [Nat.mul_comm]
      omega
  rw [hk, Nat.mul_comm]

theorem rearm_fresh_later_iff (h : ¬ x.interval < x.expireS) (hpos : 0 < x.interval) :
    Clock.time now < expiry (rearm now.s x) ↔ MultipleLater now x := by
  have hI : 0 < x.interval.toNat := hpos
  rw [expiry_rearm, rearm_fresh now.s h hpos]
  unfold MultipleLater
  by_cases hfits : now.s.toNat + x.interval.toNat ≤ 2 ^ 32
  · rw [Nat.mod_eq_of_lt (by omega)]
    have hle := Nat.div_mul_le_self (now.s.toNat + x.interval.toNat - 1) x.interval.toNat
    have hlt := @Nat.lt_div_mul_add (now.s.toNat + x.interval.toNat - 1) x.interval.toNat hI
    constructor
    · exact fun hlater => Or.inl ⟨hfits, _, Nat.dvd_mul_left _ _, by omega, by omega, hlater⟩
    · rintro (⟨-, m, hd, hsm, hms, hlater⟩ | ⟨hbig, -⟩)
      · rwa [← multiple_eq hI hd hsm hms]
      · omega
  · have hs := now.s.toNat_lt
    have hi := x.interval.toNat_lt
    have hmod : (now.s.toNat + x.interval.toNat - 1) % 2 ^ 32 =
        now.s.toNat + x.interval.toNat - 1 - 2 ^ 32 := by omega
    rw [hmod, Nat.div_eq_of_lt (by omega), Nat.zero_mul, Nat.zero_mul, Nat.zero_add]
    constructor
    · exact fun hlater => Or.inr ⟨by omega, hlater⟩
    · rintro (⟨hsmall, -⟩ | ⟨-, hlater⟩)
      · omega
      · exact hlater

/-- How many rounds a timer that settles takes at most. -/
def roundsLeft (now : Clock) (x : Timer) : Nat :=
  if Clock.time now < expiry x then 0
  else if x.interval < x.expireS then 2 ^ 32 + 2 - x.expireS.toNat
  else 1

theorem callOf_none (hpos : 0 < x.interval) : callOf now x = none ↔ ¬ x.interval < x.expireS := by
  have hne : ¬ x.interval = 0 := fun h0 => absurd hpos (by rw [h0]; decide)
  unfold callOf
  split
  · exact iff_of_false (by simp) (not_not.mpr (by tauto))
  · exact iff_of_true rfl (by tauto)

theorem roundsLeft_le (now : Clock) (x : Timer) :
    roundsLeft now x ≤ 2 ^ 32 + 2 - x.expireS.toNat := by
  have hx := x.expireS.toNat_lt
  unfold roundsLeft
  split
  · exact Nat.zero_le _
  · split <;> omega

theorem runsLater_succ (hdue : ¬ Clock.time now < expiry x) (h : RunsLater now x) :
    ∃ k, x.expireS.toNat + x.interval.toNat + k * x.interval.toNat < 2 ^ 32 ∧
      Clock.time now < (x.expireS.toNat + x.interval.toNat + k * x.interval.toNat) * 1000000000 +
        x.expireNs.toNat := by
  obtain ⟨-, k, hk, hlater⟩ := h
  cases k with
  | zero =>
      rw [Nat.zero_mul, Nat.add_zero] at hlater
      exact absurd hlater hdue
  | succ k =>
      refine ⟨k, ?_⟩
      rw [Nat.succ_mul] at hk hlater
      rw [Nat.add_assoc, Nat.add_comm x.interval.toNat]
      exact ⟨hk, hlater⟩

theorem runsLater_fits (hdue : ¬ Clock.time now < expiry x) (h : RunsLater now x) :
    x.expireS.toNat + x.interval.toNat < 2 ^ 32 := by
  obtain ⟨k, hk, -⟩ := runsLater_succ hdue h
  exact Nat.lt_of_le_of_lt (Nat.le_add_right _ _) hk

theorem runsLater_rearm {s : UInt32} (hdue : ¬ Clock.time now < expiry x) (h : RunsLater now x)
    (hs : (rearm s x).expireS.toNat = x.expireS.toNat + x.interval.toNat) :
    RunsLater now (rearm s x) := by
  obtain ⟨k, hk, hlater⟩ := runsLater_succ hdue h
  have hran : x.interval.toNat < x.expireS.toNat := h.1
  refine ⟨?_, k, ?_, ?_⟩
  · rw [UInt32.lt_iff_toNat_lt, hs]
    exact Nat.lt_add_right _ hran
  · rw [hs]
    exact hk
  · rw [hs]
    exact hlater

theorem rearm_wrapped {s : UInt32} (hran : x.interval < x.expireS)
    (hwrap : ¬ x.expireS.toNat + x.interval.toNat < 2 ^ 32) :
    ¬ (rearm s x).interval < (rearm s x).expireS := by
  have hxs := x.expireS.toNat_lt
  have hi := x.interval.toNat_lt
  rw [UInt32.lt_iff_toNat_lt, rearm_ran s hran]
  change ¬ x.interval.toNat < _
  omega

theorem rearm_settles (hpos : 0 < x.interval) (hdue : ¬ Clock.time now < expiry x)
    (h : Settles now x) : Settles now (rearm now.s x) ∧
      roundsLeft now (rearm now.s x) < roundsLeft now x ∧
      (callOf now x = none → Clock.time now < expiry (rearm now.s x)) := by
  have hne : ¬ x.interval = 0 := fun h0 => absurd hpos (by rw [h0]; decide)
  have h := (h.resolve_left hne).resolve_left hdue
  have hxs := x.expireS.toNat_lt
  by_cases hran : x.interval < x.expireS
  · have hs := rearm_ran now.s hran
    have hleft : roundsLeft now x = 2 ^ 32 + 2 - x.expireS.toNat := by
      rw [roundsLeft, if_neg hdue, if_pos hran]
    have hcall : callOf now x ≠ none := fun hn => (callOf_none hpos).mp hn hran
    by_cases hwrap : x.expireS.toNat + x.interval.toNat < 2 ^ 32
    · rw [Nat.mod_eq_of_lt hwrap] at hs
      refine ⟨?_, ?_, fun hn => absurd hn hcall⟩
      · rcases h with hruns | hmul
        · exact Or.inr (Or.inr (Or.inl (runsLater_rearm hdue hruns hs)))
        · exact Or.inr (Or.inr (Or.inr hmul))
      · have hle := roundsLeft_le now (rearm now.s x)
        have hI : 0 < x.interval.toNat := hpos
        omega
    · have hsmall := rearm_wrapped (s := now.s) hran hwrap
      refine ⟨?_, ?_, fun hn => absurd hn hcall⟩
      · rcases h with hruns | hmul
        · exact absurd (runsLater_fits hdue hruns) hwrap
        · exact Or.inr (Or.inr (Or.inr hmul))
      · rw [hleft]
        have hle : roundsLeft now (rearm now.s x) ≤ 1 := by
          unfold roundsLeft
          split
          · exact Nat.zero_le 1
          · exact le_refl 1
        omega
  · have hmul := h.resolve_left fun hruns => hran hruns.1
    have hlater := (rearm_fresh_later_iff hran hpos).mpr hmul
    refine ⟨Or.inr (Or.inl hlater), ?_, fun _ => hlater⟩
    rw [roundsLeft, if_pos hlater, roundsLeft, if_neg hdue, if_neg hran]
    exact Nat.zero_lt_one

/-- A timer settles when the one that it is set to does, at a later time if the callback is
left out. -/
theorem settles_of_rearm (hpos : 0 < x.interval) (hdue : ¬ Clock.time now < expiry x)
    (h : Settles now (rearm now.s x))
    (hcall : callOf now x = none → Clock.time now < expiry (rearm now.s x)) : Settles now x := by
  have hne : ¬ (rearm now.s x).interval = 0 := fun h0 => by
    change x.interval = 0 at h0
    rw [h0] at hpos
    exact absurd hpos (by decide)
  have h := h.resolve_left hne
  by_cases hran : x.interval < x.expireS
  · have hs := rearm_ran now.s hran
    by_cases hwrap : x.expireS.toNat + x.interval.toNat < 2 ^ 32
    · rw [Nat.mod_eq_of_lt hwrap] at hs
      rcases h with hlater | ⟨-, k, hk, hlater⟩ | hmul
      · refine Or.inr (Or.inr (Or.inl ⟨hran, 1, ?_, ?_⟩))
        · rwa [Nat.one_mul]
        · rw [Nat.one_mul, ← hs]
          exact hlater
      · refine Or.inr (Or.inr (Or.inl ⟨hran, k + 1, ?_, ?_⟩))
        · rw [Nat.succ_mul, Nat.add_comm (k * _), ← Nat.add_assoc, ← hs]
          exact hk
        · rw [Nat.succ_mul, Nat.add_comm (k * _), ← Nat.add_assoc, ← hs]
          exact hlater
      · exact Or.inr (Or.inr (Or.inr hmul))
    · rcases h with hlater | hruns | hmul
      · have hi := x.interval.toNat_lt
        have hxs := x.expireS.toNat_lt
        rw [expiry_rearm, hs] at hlater
        unfold expiry at hdue
        omega
      · exact absurd hruns.1 (rearm_wrapped hran hwrap)
      · exact Or.inr (Or.inr (Or.inr hmul))
  · have hlater := hcall ((callOf_none hpos).mpr hran)
    exact Or.inr (Or.inr (Or.inr ((rearm_fresh_later_iff hran hpos).mp hlater)))

def Fine (now : Clock) (p : Popped) : Prop :=
  0 < p.entry.interval → p.call = none → Clock.time now < expiry (rearm now.s p.entry)

/-- The loop of a run ends, and every timer left, and every one set without its callback,
expires later than the time of the run. -/
def RunEnds (now : Clock) (tl : TimerList) : Prop :=
  ∃ rounds tl' popped, runLoop ops now rounds tl = some (tl', popped) ∧
    (∀ x ∈ tl'.rbtree.inorder, Clock.time now < expiry x) ∧ ∀ p ∈ popped, Fine now p

theorem roundsLeft_pos (hdue : ¬ Clock.time now < expiry x) : 0 < roundsLeft now x := by
  have hx := x.expireS.toNat_lt
  rw [roundsLeft, if_neg hdue]
  split
  · omega
  · exact Nat.zero_lt_one

theorem afterPop_settles (hdue : ¬ Clock.time now < expiry x)
    (h : ∀ y ∈ x :: rest, Settles now y) : (∀ y ∈ afterPop now x rest, Settles now y) ∧
      ((afterPop now x rest).map (roundsLeft now)).sum < ((x :: rest).map (roundsLeft now)).sum ∧
      Fine now ⟨x, callOf now x⟩ := by
  obtain ⟨hx, hrest⟩ := List.forall_mem_cons.mp h
  rw [List.map_cons, List.sum_cons, afterPop]
  by_cases hpos : 0 < x.interval
  · obtain ⟨hsettles, hless, hlater⟩ := rearm_settles hpos hdue hx
    have hperm := @place_perm _ _ _ expiry (rearm now.s x) rest
    rw [if_pos hpos, (hperm.map (roundsLeft now)).sum_eq, List.map_cons, List.sum_cons]
    refine ⟨fun y hy => ?_, by omega, fun _ => hlater⟩
    rcases List.mem_cons.mp (hperm.subset hy) with rfl | hy
    · exact hsettles
    · exact hrest y hy
  · have hleft := roundsLeft_pos hdue
    rw [if_neg hpos]
    exact ⟨hrest, by omega, fun h0 => absurd h0 hpos⟩

theorem round_cases (now : Clock) (h : Ready tl) (log : List Popped) :
    (runRound ops now (tl, log) = some (.inr (tl, log)) ∧
      ∀ x ∈ tl.rbtree.inorder, Clock.time now < expiry x) ∨
      ∃ x rest tl', tl.rbtree.inorder = x :: rest ∧ ¬ Clock.time now < expiry x ∧
        runRound ops now (tl, log) = some (.inl (tl', log ++ [⟨x, callOf now x⟩])) ∧
        Ready tl' ∧ tl'.rbtree.inorder = afterPop now x rest := by
  have hsorted := h.sorted
  cases hx : tl.rbtree.inorder with
  | nil => exact Or.inl ⟨runRound_nil ops h hx log, fun y hy => absurd hy List.not_mem_nil⟩
  | cons x rest =>
      rw [hx] at hsorted
      rw [runRound_cons ops h hx]
      by_cases hlater : Clock.time now < expiry x
      · refine Or.inl ⟨congrArg some (runEntry_later ops hlater log), fun y hy => ?_⟩
        rcases List.mem_cons.mp hy with rfl | hy
        · exact hlater
        · exact hlater.trans_le ((List.pairwise_cons.mp hsorted).1 y hy)
      · obtain ⟨tl', he, hready', horder⟩ := runEntry_due ops h hx hlater log
        exact Or.inr ⟨x, rest, tl', rfl, hlater, congrArg some he, hready', horder⟩

theorem round_settles (now : Clock) : ∀ r : TimerList × List Popped,
    Ready r.1 ∧ (∀ x ∈ r.1.rbtree.inorder, Settles now x) ∧ (∀ p ∈ r.2, Fine now p) →
    Round (runRound ops now)
      (fun r => Ready r.1 ∧ (∀ x ∈ r.1.rbtree.inorder, Settles now x) ∧ ∀ p ∈ r.2, Fine now p)
      (fun r => (∀ x ∈ r.1.rbtree.inorder, Clock.time now < expiry x) ∧ ∀ p ∈ r.2, Fine now p)
      (fun r => (r.1.rbtree.inorder.map (roundsLeft now)).sum) r := by
  rintro ⟨tl, log⟩ ⟨hready, hsettles, hlog⟩
  obtain ⟨hleave, hlater⟩ | ⟨x, rest, tl', hx, hdue, hgo, hready', horder⟩ :=
    round_cases ops now hready log
  · exact Or.inr ⟨_, hleave, hlater, hlog⟩
  · rw [hx] at hsettles
    obtain ⟨hsettles', hless, hfine⟩ := afterPop_settles hdue hsettles
    refine Or.inl ⟨_, hgo, ⟨hready', ?_, ?_⟩, ?_⟩
    · rw [horder]
      exact hsettles'
    · exact List.forall_mem_append.mpr ⟨hlog, List.forall_mem_singleton.mpr hfine⟩
    · simp only [horder, hx]
      exact hless

theorem runEnds_of_settles (h : Ready tl) (hall : ∀ x ∈ tl.rbtree.inorder, Settles now x) :
    RunEnds ops now tl := by
  obtain ⟨⟨tl', popped⟩, hloop, hend⟩ := loop_total (round_settles ops now)
    (s := (tl, [])) ⟨h, hall, fun p hp => absurd hp List.not_mem_nil⟩ (Nat.lt_succ_self _)
  exact ⟨_, tl', popped, hloop, hend⟩

theorem settles_of_afterPop (hdue : ¬ Clock.time now < expiry x)
    (h : ∀ y ∈ afterPop now x rest, Settles now y) (hfine : Fine now ⟨x, callOf now x⟩) :
    ∀ y ∈ x :: rest, Settles now y := by
  rw [afterPop] at h
  by_cases hpos : 0 < x.interval
  · have hperm := @place_perm _ _ _ expiry (rearm now.s x) rest
    rw [if_pos hpos] at h
    have hall : ∀ y ∈ rearm now.s x :: rest, Settles now y := fun y hy => h y (hperm.symm.subset hy)
    obtain ⟨hx, hrest⟩ := List.forall_mem_cons.mp hall
    exact List.forall_mem_cons.mpr ⟨settles_of_rearm hpos hdue hx (hfine hpos), hrest⟩
  · rw [if_neg hpos] at h
    refine List.forall_mem_cons.mpr ⟨Or.inl ?_, h⟩
    exact UInt32.toNat_inj.mp (Nat.eq_zero_of_not_pos hpos)

theorem settles_of_runEnds (h : Ready tl) (hend : RunEnds ops now tl) :
    ∀ x ∈ tl.rbtree.inorder, Settles now x := by
  obtain ⟨rounds, tl', popped, hloop, hlater, hfine⟩ := hend
  have hback : Ready tl → [] ⊆ popped ∧ ((∀ x ∈ tl'.rbtree.inorder, Clock.time now < expiry x) →
      (∀ p ∈ popped, Fine now p) → ∀ x ∈ tl.rbtree.inorder, Settles now x) := by
    refine @loop_induction _ _ (runRound ops now) (fun r r' => Ready r.1 → r.2 ⊆ r'.2 ∧
      ((∀ x ∈ r'.1.rbtree.inorder, Clock.time now < expiry x) → (∀ p ∈ r'.2, Fine now p) →
        ∀ x ∈ r.1.rbtree.inorder, Settles now x)) ?_ ?_ rounds (tl, []) (tl', popped) hloop
    · rintro ⟨tl, log⟩ r hround hready
      obtain ⟨hleave, -⟩ | ⟨x, rest, tl1, -, -, hgo, -⟩ := round_cases ops now hready log
      · cases hleave.symm.trans hround
        exact ⟨List.Subset.refl _, fun hlater _ x hx => Or.inr (Or.inl (hlater x hx))⟩
      · cases hgo.symm.trans hround
    · rintro ⟨tl, log⟩ r1 r hround ih hready
      obtain ⟨hleave, -⟩ | ⟨x, rest, tl1, hx, hdue, hgo, hready1, horder⟩ :=
        round_cases ops now hready log
      · cases hleave.symm.trans hround
      · cases hgo.symm.trans hround
        obtain ⟨hsub, hback⟩ := ih hready1
        refine ⟨fun p hp => hsub (List.mem_append_left _ hp), fun hlater hfine => ?_⟩
        rw [hx]
        refine settles_of_afterPop hdue ?_ (hfine _ (hsub (List.mem_append_right _ List.mem_cons_self)))
        rw [← horder]
        exact hback hlater hfine
  exact (hback h).2 hlater hfine

/-- A run ends well exactly when every timer of the list settles. -/
theorem runEnds_iff_settles (ops : TimerOps) (now : Clock) (tl : TimerList) (h : Ready tl) :
    RunEnds ops now tl ↔ ∀ x ∈ tl.rbtree.inorder, Settles now x :=
  ⟨settles_of_runEnds ops h, runEnds_of_settles ops h⟩

/-- A periodic timer of 10 s in a new list with an external time source. -/
def tickList : TimerList :=
  (timerMgrAddTimerPeriodic (RbTree.plainOps Timer.addr)
    (createTimerlist .external ⟨0, 0⟩) true 10 0).1

def tickTimer : Timer := ⟨0, 10, 10, 0, 0⟩

theorem ready_tickList : Ready tickList := by
  have hready := ready_create .external ⟨0, 0⟩
  have hempty : Ready { createTimerlist .external ⟨0, 0⟩ with fresh := 1 } :=
    ⟨hready.sorted, hready.first, hready.count, hready.addrs, fun _ hx => absurd hx List.not_mem_nil⟩
  exact (@insert_ready (RbTree.plainOps Timer.addr) _ tickTimer hempty List.not_mem_nil
    Nat.zero_lt_one).1

theorem runEnds_iff_settles_tick : RunEnds (RbTree.plainOps Timer.addr) ⟨15, 0⟩ tickList ↔
    ∀ x ∈ tickList.rbtree.inorder, Settles ⟨15, 0⟩ x :=
  runEnds_iff_settles (RbTree.plainOps Timer.addr) ⟨15, 0⟩ tickList ready_tickList

/-- A run at second 10 sets the timer of 10 s to second 10 again, over and over. -/
theorem run_spins : ¬ ∀ now tl, Ready tl → RunEnds (RbTree.plainOps Timer.addr) now tl := by
  intro h
  obtain ⟨rounds, tl', popped, hloop, -⟩ := h ⟨10, 0⟩ tickList ready_tickList
  have hround (log : List Popped) : runRound (RbTree.plainOps Timer.addr) ⟨10, 0⟩ (tickList, log) =
      some (.inl (tickList, log ++ [⟨tickTimer, none⟩])) := by
    have hrearm : rearm 10 tickTimer = tickTimer := by decide
    have hdiff : ¬ 0 < timeDiff 10 0 tickTimer.expireS tickTimer.expireNs := by decide
    have hpos : 0 < tickTimer.interval := by decide
    rw [@runRound_cons _ _ ⟨10, 0⟩ tickTimer [] ready_tickList rfl log, runEntry, if_neg hdiff]
    simp only [if_pos hpos, hrearm]
    rfl
  have hnone (n : Nat) (log : List Popped) :
      loop (runRound (RbTree.plainOps Timer.addr) ⟨10, 0⟩) n (tickList, log) = none := by
    induction n generalizing log with
    | zero => rfl
    | succ n ih =>
        rw [loop, hround, Option.bind_some]
        exact ih _
  rw [runLoop, hnone] at hloop
  cases hloop

end OiAmc.TimerRun

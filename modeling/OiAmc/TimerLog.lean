import OiAmc.StableOrder
import OiAmc.PartialMachine
import Mathlib.Data.List.Induction

/-! What a timer service promises, as a property of the log of what it did. -/

namespace OiAmc.TimerLog

open StableOrder

/-- What a timer was added with: the time at which it shall expire, or how long after the time
of the last run. -/
inductive Asked (τ : Type)
  | at (t : τ)
  | offset (t : τ)
  deriving DecidableEq

/-- A run at the time of the last one is skipped. -/
inductive Event (α τ : Type)
  | added (x : α) (asked : Asked τ)
  | refused
  | deleted (x : α)
  | skipped (now : τ)
  | started (now : τ)
  | fired (x : α)
  | returned (x : α)
  | ended
  deriving DecidableEq

variable {α τ κ : Type}

def Event.added? : Event α τ → Option α
  | .added x _ => some x
  | _ => none

def Event.fired? : Event α τ → Option α
  | .fired x => some x
  | _ => none

def Event.deleted? : Event α τ → Option α
  | .deleted x => some x
  | _ => none

def added (es : List (Event α τ)) : List α := es.filterMap Event.added?

def fired (es : List (Event α τ)) : List α := es.filterMap Event.fired?

def deleted (es : List (Event α τ)) : List α := es.filterMap Event.deleted?

def lastTime (start : τ) (es : List (Event α τ)) : τ :=
  es.foldl (fun t e => match e with
    | .started now | .skipped now => now
    | _ => t) start

/-- The time of the run under way. -/
def running (es : List (Event α τ)) : Option τ :=
  es.foldl (fun r e => match e with
    | .started now => some now
    | .ended => none
    | _ => r) none

theorem added_append (es es' : List (Event α τ)) : added (es ++ es') = added es ++ added es' :=
  List.filterMap_append

theorem fired_append (es es' : List (Event α τ)) : fired (es ++ es') = fired es ++ fired es' :=
  List.filterMap_append

theorem deleted_append (es es' : List (Event α τ)) :
    deleted (es ++ es') = deleted es ++ deleted es' := List.filterMap_append

theorem running_snoc (es : List (Event α τ)) (e : Event α τ) : running (es ++ [e]) =
    match e with
    | .started now => some now
    | .ended => none
    | _ => running es := by
  rw [running, List.foldl_append]
  cases e <;> rfl

theorem lastTime_snoc (start : τ) (es : List (Event α τ)) (e : Event α τ) :
    lastTime start (es ++ [e]) =
      match e with
      | .started now | .skipped now => now
      | _ => lastTime start es := by
  rw [lastTime, List.foldl_append]
  cases e <;> rfl

theorem running_some {es : List (Event α τ)} {now : τ} (h : running es = some now) :
    ∃ as bs, es = as ++ .started now :: bs ∧ .ended ∉ bs := by
  induction es using List.reverseRecOn with
  | nil => cases h
  | append_singleton es e ih =>
      rw [running_snoc] at h
      have hold (hr : running es = some now) (hne : e ≠ .ended) :
          ∃ as bs, es ++ [e] = as ++ .started now :: bs ∧ .ended ∉ bs := by
        obtain ⟨as, bs, rfl, hbs⟩ := ih hr
        refine ⟨as, bs ++ [e], by rw [List.append_assoc, List.cons_append], ?_⟩
        rw [List.mem_append, List.mem_singleton, not_or]
        exact ⟨hbs, hne.symm⟩
      cases e with
      | started t =>
          cases h
          exact ⟨es, [], rfl, List.not_mem_nil⟩
      | ended => cases h
      | added | refused | deleted | skipped | fired | returned => exact hold h (by simp)

variable [DecidableEq α] [LinearOrder κ]

/-- The timers that were added and have neither fired nor been deleted, in the order in which
they were added. -/
def pending (es : List (Event α τ)) : List α :=
  (added es).filter fun x => decide (x ∉ fired es ∧ x ∉ deleted es)

/-- A timer expires before another one, or with it and was added before. -/
def Sooner (key : α → κ) (xs : List α) (x y : α) : Prop :=
  key x < key y ∨ key x = key y ∧ [x, y].Sublist xs

/-- Every timer that is added and not deleted fires once, in the first run at a new time, at or
after it was added, whose time has come to its expiry. In one run those that were pending at its
start fire in the order of their expiry and of their addition. -/
structure Delivered (key : α → κ) (time : τ → κ) (start : τ) (es : List (Event α τ)) : Prop where
  once : (fired es).Nodup
  kept : ∀ x ∈ fired es, x ∉ deleted es
  due : ∀ as x bs, es = as ++ .fired x :: bs → x ∈ added as ∧
    ∃ now cs ds, as = cs ++ .started now :: ds ∧ .ended ∉ ds ∧ key x ≤ time now
  all : ∀ as now bs cs, es = as ++ .started now :: bs ++ .ended :: cs → .ended ∉ bs →
    ∀ x ∈ added (as ++ bs), key x ≤ time now → x ∈ fired (as ++ bs) ∨ x ∈ deleted (as ++ bs)
  order : ∀ as now bs cs, es = as ++ .started now :: bs ++ cs → .ended ∉ bs →
    ((fired bs).filter fun x => decide (x ∈ pending as)).Pairwise (Sooner key (added es))
  started : ∀ as now bs, es = as ++ .started now :: bs → now ≠ lastTime start as
  skipped : ∀ as now bs, es = as ++ .skipped now :: bs → now = lastTime start as

def Lawful (key : α → κ) (time : τ → κ) (start : τ) (es : List (Event α τ)) : Event α τ → Prop
  | .added x _ => x ∉ added es
  | .deleted x => x ∈ pending es
  | .started now => running es = none ∧ now ≠ lastTime start es
  | .skipped now => running es = none ∧ now = lastTime start es
  | .fired x => x ∈ pending es ∧ (∃ now, running es = some now ∧ key x ≤ time now) ∧
      ∀ y ∈ pending es, y ≠ x → Sooner key (added es) x y
  | .ended => ∃ now, running es = some now ∧ ∀ x ∈ pending es, time now < key x
  | .refused | .returned _ => True

inductive Lawfully (key : α → κ) (time : τ → κ) (start : τ) : List (Event α τ) → Prop
  | nil : Lawfully key time start []
  | snoc {es : List (Event α τ)} {e : Event α τ} (h : Lawfully key time start es)
      (he : Lawful key time start es e) : Lawfully key time start (es ++ [e])

section

variable {key : α → κ} {time : τ → κ} {start : τ} {es es' : List (Event α τ)} {x y : α}

theorem lawfully_at (h : Lawfully key time start es) : ∀ as e bs, es = as ++ e :: bs →
    Lawful key time start as e := by
  induction h with
  | nil => intro as e bs he; simp at he
  | @snoc es e h he ih =>
      intro as e' bs hes
      rcases PartialMachine.output_snoc hes with ⟨rfl, rfl⟩ | ⟨bs', hes⟩
      · exact he
      · exact ih as e' bs' hes

theorem lawfully_append (h : Lawfully key time start (es ++ es')) : Lawfully key time start es := by
  induction es' using List.reverseRecOn with
  | nil => rwa [List.append_nil] at h
  | append_singleton es' e ih =>
      rw [← List.append_assoc] at h
      generalize hes : es ++ es' ++ [e] = fs at h
      cases h with
      | nil => simp at hes
      | snoc h _ =>
          rw [← (List.append_inj' hes rfl).1] at h
          exact ih h

theorem mem_pending : x ∈ pending es ↔ x ∈ added es ∧ x ∉ fired es ∧ x ∉ deleted es := by
  rw [pending, List.mem_filter, decide_eq_true_eq]

theorem known (h : Lawfully key time start es) :
    ∀ x, x ∈ fired es ∨ x ∈ deleted es → x ∈ added es := by
  intro x hx
  rcases hx with hx | hx
  all_goals
    obtain ⟨e, he, hex⟩ := List.mem_filterMap.mp hx
    obtain ⟨as, bs, rfl⟩ := List.append_of_mem he
    cases e <;> cases hex
    rw [added_append]
    refine List.mem_append_left _ (mem_pending.mp ?_).1
  · exact (lawfully_at h _ _ _ rfl).1
  · exact lawfully_at h _ _ _ rfl

theorem pending_added (h : Lawfully key time start es) (hx : x ∉ added es) (asked : Asked τ) :
    pending (es ++ [.added x asked]) = pending es ++ [x] := by
  have hnew : x ∉ fired es ∧ x ∉ deleted es :=
    ⟨fun hf => hx (known h x (Or.inl hf)), fun hd => hx (known h x (Or.inr hd))⟩
  have hx' : added [(.added x asked : Event α τ)] = [x] := rfl
  have hf : fired [(.added x asked : Event α τ)] = [] := rfl
  have hd : deleted [(.added x asked : Event α τ)] = [] := rfl
  rw [pending, added_append, fired_append, deleted_append, hx', hf, hd, List.append_nil,
    List.append_nil, List.filter_append, List.filter_singleton, decide_eq_true hnew]
  rfl

theorem pending_fired (es : List (Event α τ)) (x : α) :
    pending (es ++ [.fired x]) = (pending es).filter fun y => decide (y ≠ x) := by
  have ha : added [(.fired x : Event α τ)] = [] := rfl
  have hx : fired [(.fired x : Event α τ)] = [x] := rfl
  have hd : deleted [(.fired x : Event α τ)] = [] := rfl
  rw [pending, added_append, fired_append, deleted_append, ha, hx, hd, List.append_nil,
    List.append_nil, pending, List.filter_filter]
  refine List.filter_congr fun y _ => ?_
  rw [← Bool.decide_and, decide_eq_decide, List.mem_append, List.mem_singleton]
  tauto

theorem pending_deleted (es : List (Event α τ)) (x : α) :
    pending (es ++ [.deleted x]) = (pending es).filter fun y => decide (y ≠ x) := by
  have ha : added [(.deleted x : Event α τ)] = [] := rfl
  have hf : fired [(.deleted x : Event α τ)] = [] := rfl
  have hx : deleted [(.deleted x : Event α τ)] = [x] := rfl
  rw [pending, added_append, fired_append, deleted_append, ha, hf, hx, List.append_nil,
    List.append_nil, pending, List.filter_filter]
  refine List.filter_congr fun y _ => ?_
  rw [← Bool.decide_and, decide_eq_decide, List.mem_append, List.mem_singleton]
  tauto

theorem pending_quiet (es : List (Event α τ)) {e : Event α τ} (ha : e.added? = none)
    (hf : e.fired? = none) (hd : e.deleted? = none) : pending (es ++ [e]) = pending es := by
  have hadded : added [e] = [] := List.filterMap_cons_none ha
  have hfired : fired [e] = [] := List.filterMap_cons_none hf
  have hdeleted : deleted [e] = [] := List.filterMap_cons_none hd
  rw [pending, added_append, fired_append, deleted_append, hadded, hfired, hdeleted,
    List.append_nil, List.append_nil, List.append_nil, pending]

theorem sooner_of_agrees {xs : List α} (h : Agrees key (x :: xs) (pending es)) :
    ∀ y ∈ pending es, y ≠ x → Sooner key (added es) x y := by
  intro y hy hne
  have hyxs : y ∈ xs := (List.mem_cons.mp (h.mem_iff.mpr hy)).resolve_left hne
  rcases ((List.pairwise_cons.mp h.sorted).1 y hyxs).lt_or_eq with hlt | heq
  · exact Or.inl hlt
  · refine Or.inr ⟨heq, ?_⟩
    have hsame := h.same (key x)
    rw [List.filter_cons, if_pos (decide_eq_true rfl)] at hsame
    have hmem : y ∈ xs.filter fun z => decide (key z = key x) :=
      List.mem_filter.mpr ⟨hyxs, decide_eq_true heq.symm⟩
    have hxy : [x, y].Sublist (x :: xs.filter fun z => decide (key z = key x)) :=
      (List.singleton_sublist.mpr hmem).cons_cons x
    rw [hsame] at hxy
    exact hxy.trans (List.filter_sublist.trans List.filter_sublist)

theorem pending_between {fs gs : List (Event α τ)} (hx : x ∈ pending es)
    (hx' : x ∈ pending (es ++ fs ++ gs)) : x ∈ pending (es ++ fs) := by
  obtain ⟨_, hf, hd⟩ := mem_pending.mp hx'
  rw [fired_append, List.mem_append, not_or] at hf
  rw [deleted_append, List.mem_append, not_or] at hd
  refine mem_pending.mpr ⟨?_, hf.1, hd.1⟩
  rw [added_append]
  exact List.mem_append_left _ (mem_pending.mp hx).1

theorem running_started {as bs : List (Event α τ)} {now : τ}
    (h : Lawfully key time start (as ++ .started now :: bs)) (hbs : .ended ∉ bs) :
    running (as ++ .started now :: bs) = some now := by
  induction bs using List.reverseRecOn with
  | nil => rw [running_snoc]
  | append_singleton bs e ih =>
      rw [List.mem_append, List.mem_singleton, not_or] at hbs
      have hsplit : as ++ .started now :: (bs ++ [e]) = (as ++ .started now :: bs) ++ [e] := by
        rw [List.append_assoc, List.cons_append]
      rw [hsplit] at h ⊢
      have hrun := ih (lawfully_append h) hbs.1
      have hlaw := lawfully_at h _ e [] rfl
      rw [running_snoc]
      cases e with
      | started t => rw [hlaw.1] at hrun; cases hrun
      | ended => exact absurd rfl hbs.2
      | added | refused | deleted | skipped | fired | returned => exact hrun

theorem fired_once (h : Lawfully key time start es) :
    (fired es).Nodup ∧ ∀ x ∈ fired es, x ∉ deleted es := by
  induction h with
  | nil => exact ⟨List.nodup_nil, fun _ hx => absurd hx List.not_mem_nil⟩
  | @snoc es e h he ih =>
      rw [fired_append, deleted_append]
      cases e with
      | fired x =>
          obtain ⟨_, hf, hd⟩ := mem_pending.mp he.1
          have hx : fired [(.fired x : Event α τ)] = [x] := rfl
          have hnil : deleted [(.fired x : Event α τ)] = [] := rfl
          rw [hx, hnil, List.append_nil, List.nodup_append]
          refine ⟨⟨ih.1, List.nodup_singleton x, fun a ha b hb => ?_⟩, fun y hy => ?_⟩
          · rw [List.mem_singleton.mp hb]
            exact fun hax => hf (hax ▸ ha)
          · rcases List.mem_append.mp hy with hy | hy
            · exact ih.2 y hy
            · rwa [List.mem_singleton.mp hy]
      | deleted x =>
          obtain ⟨_, hf, _⟩ := mem_pending.mp he
          have hnil : fired [(.deleted x : Event α τ)] = [] := rfl
          rw [hnil, List.append_nil]
          refine ⟨ih.1, fun y hy hmem => ?_⟩
          rcases List.mem_append.mp hmem with hmem | hmem
          · exact ih.2 y hy hmem
          · rw [List.mem_singleton.mp hmem] at hy
            exact hf hy
      | added | refused | skipped | started | returned | ended =>
          rw [show fired [_] = [] from rfl, show deleted [_] = [] from rfl, List.append_nil,
            List.append_nil]
          exact ih

theorem fired_in_order {as bs cs : List (Event α τ)} {now : τ}
    (h : Lawfully key time start (as ++ .started now :: bs ++ cs)) :
    ((fired bs).filter fun x => decide (x ∈ pending as)).Pairwise
      (Sooner key (added (as ++ .started now :: bs ++ cs))) := by
  induction bs using List.reverseRecOn generalizing cs with
  | nil => exact List.Pairwise.nil
  | append_singleton bs e ih =>
      have hsplit : as ++ .started now :: (bs ++ [e]) ++ cs =
          as ++ .started now :: bs ++ (e :: cs) := by simp
      rw [hsplit] at h ⊢
      have hbefore := ih h
      rw [fired_append, List.filter_append]
      refine List.pairwise_append.mpr ⟨hbefore, ?_, fun y hy x hx => ?_⟩
      · apply List.Pairwise.filter
        cases e with
        | fired x => exact List.pairwise_singleton _ _
        | added | refused | deleted | skipped | started | returned | ended =>
            exact List.Pairwise.nil
      · obtain ⟨hye, hyas⟩ := List.mem_filter.mp hy
        obtain ⟨hxe, hxas⟩ := List.mem_filter.mp hx
        obtain ⟨e', he', hey⟩ := List.mem_filterMap.mp hye
        obtain ⟨x', rfl, rfl⟩ : ∃ x', e = .fired x' ∧ x = x' := by
          cases e <;> simp_all [fired, Event.fired?]
        obtain ⟨b1, b2, rfl⟩ := List.append_of_mem he'
        cases e' <;> cases hey
        have hxpend := (lawfully_at h _ _ _ rfl).1
        have hyat : as ++ .started now :: (b1 ++ .fired y :: b2) ++ .fired x :: cs =
            (as ++ .started now :: b1) ++ .fired y :: (b2 ++ .fired x :: cs) := by simp
        have hlaw := lawfully_at h _ _ _ hyat
        have hthen : as ++ .started now :: (b1 ++ .fired y :: b2) =
            as ++ .started now :: b1 ++ .fired y :: b2 := by simp
        rw [hthen] at hxpend
        have hne : x ≠ y := by
          rintro rfl
          refine (mem_pending.mp hxpend).2.1 ?_
          rw [fired_append]
          exact List.mem_append_right _ List.mem_cons_self
        have hsooner := hlaw.2.2 x (pending_between (of_decide_eq_true hxas) hxpend) hne
        refine hsooner.imp_right fun hsame => ⟨hsame.1, hsame.2.trans ?_⟩
        rw [hyat, added_append (as ++ .started now :: b1)]
        exact List.sublist_append_left _ _

theorem delivered_of_lawfully (h : Lawfully key time start es) : Delivered key time start es where
  once := (fired_once h).1
  kept := (fired_once h).2
  due as x bs hes := by
    obtain ⟨hpend, ⟨now, hrun, hdue⟩, -⟩ := lawfully_at h as _ bs hes
    obtain ⟨cs, ds, rfl, hds⟩ := running_some hrun
    exact ⟨(mem_pending.mp hpend).1, now, cs, ds, rfl, hds, hdue⟩
  all as now bs cs hes hbs x hx hdue := by
    obtain ⟨now', hrun, hlate⟩ := lawfully_at h _ _ _ hes
    have hrun' := running_started (lawfully_append (hes ▸ h)) hbs
    obtain rfl := Option.some.inj (hrun.symm.trans hrun')
    by_contra hnot
    rw [not_or] at hnot
    have hsame : added (as ++ .started now' :: bs) = added (as ++ bs) ∧
        fired (as ++ .started now' :: bs) = fired (as ++ bs) ∧
        deleted (as ++ .started now' :: bs) = deleted (as ++ bs) := by
      rw [added_append, fired_append, deleted_append, added_append, fired_append, deleted_append]
      exact ⟨rfl, rfl, rfl⟩
    refine absurd (hlate x (mem_pending.mpr ?_)) (not_lt.mpr hdue)
    rw [hsame.1, hsame.2.1, hsame.2.2]
    exact ⟨hx, hnot⟩
  order as now bs cs hes _ := by
    rw [hes] at h ⊢
    exact fired_in_order h
  started as now bs hes := (lawfully_at h as _ bs hes).2
  skipped as now bs hes := (lawfully_at h as _ bs hes).2

end

end OiAmc.TimerLog

import OiAmc.PartialMachine

namespace OiAmc.FifoTrace

open PartialMachine

variable {α σ ι : Type}

/-- What a step did to a queue: something was put in, something was got out, or nothing
happened to the queue. -/
inductive Event (α : Type)
  | put (x : α)
  | got (x : α)
  | idle

def Event.put? : Event α → Option α
  | .put x => some x
  | _ => none

def Event.got? : Event α → Option α
  | .got x => some x
  | _ => none

def puts (es : List (Event α)) : List α := es.filterMap Event.put?

def gets (es : List (Event α)) : List α := es.filterMap Event.got?

/-- A queue goes from one content to another with an event. -/
inductive Moves : List α → Event α → List α → Prop
  | put (q : List α) (x : α) : Moves q (.put x) (q ++ [x])
  | got (x : α) (q : List α) : Moves (x :: q) (.got x) q
  | idle (q : List α) : Moves q .idle q

variable {q q' : List α} {e : Event α}

theorem Moves.conserves (h : Moves q e q') : q ++ puts [e] = gets [e] ++ q' := by
  cases h with
  | put x => rfl
  | got x => exact List.append_nil _
  | idle => exact List.append_nil _

theorem puts_cons (e : Event α) (es : List (Event α)) : puts (e :: es) = puts [e] ++ puts es :=
  List.filterMap_append (l := [e])

theorem gets_cons (e : Event α) (es : List (Event α)) : gets (e :: es) = gets [e] ++ gets es :=
  List.filterMap_append (l := [e])

theorem runs_conserves {spec : List α → ι → Event α → List α → Prop}
    (hspec : ∀ q i e q', spec q i e q' → Moves q e q') {is : List ι} {es : List (Event α)}
    (h : Runs spec q is es q') : q ++ puts es = gets es ++ q' := by
  induction h with
  | nil q => exact List.append_nil q
  | cons hs _ ih =>
      rw [puts_cons, gets_cons, ← List.append_assoc, (hspec _ _ _ _ hs).conserves, List.append_assoc, ih,
        List.append_assoc]

theorem run_conserves {step : σ → ι → Option (σ × Event α)} {R : σ → List α → Prop}
    (hstep : ∀ s q i, R s q → ∃ s' e q', step s i = some (s', e) ∧ Moves q e q' ∧ R s' q')
    {s : σ} (h : R s q) (is : List ι) :
    ∃ t es q', run step s is = some (t, es) ∧ q ++ puts es = gets es ++ q' ∧ R t q' := by
  obtain ⟨t, es, q', hr, hruns, ht⟩ := @run_meets _ _ _ _ _ (fun q _ e q' => Moves q e q') R hstep _ _ h is
  exact ⟨t, es, q', hr, runs_conserves (fun _ _ _ _ hm => hm) hruns, ht⟩

end OiAmc.FifoTrace

namespace OiAmc.Relay

open PartialMachine

variable {α β ι ο : Type}

structure Did (α β : Type) where
  put : List α
  took : List α
  sent : List β

def Did.none : Did α β := ⟨[], [], []⟩

def Did.append (d e : Did α β) : Did α β := ⟨d.put ++ e.put, d.took ++ e.took, d.sent ++ e.sent⟩

def total : List (Did α β) → Did α β
  | [] => Did.none
  | d :: ds => d.append (total ds)

/-- A queue, and what is to be sent of the elements that were taken out of it. -/
structure Content (α β : Type) where
  queue : List α
  rest : List β

/-- Nothing is lost on the way from the queue to what is sent, nor is its order. -/
structure Moves (wire : α → List β) (c : Content α β) (d : Did α β) (c' : Content α β) : Prop where
  queue : c.queue ++ d.put = d.took ++ c'.queue
  rest : c.rest ++ d.took.flatMap wire = d.sent ++ c'.rest

variable {wire : α → List β} {c c' c'' : Content α β} {d e : Did α β}

theorem moves_none (wire : α → List β) (c : Content α β) : Moves wire c Did.none c :=
  ⟨List.append_nil _, List.append_nil _⟩

theorem Moves.trans (h : Moves wire c d c') (h' : Moves wire c' e c'') : Moves wire c (d.append e) c'' := by
  constructor
  · rw [Did.append, ← List.append_assoc, h.queue, List.append_assoc, h'.queue, List.append_assoc]
  · rw [Did.append, List.flatMap_append, ← List.append_assoc, h.rest, List.append_assoc, h'.rest,
      List.append_assoc]

theorem runs_moves {spec : Content α β → ι → ο → Content α β → Prop} {did : ο → Did α β}
    (hspec : ∀ c i o c', spec c i o c' → Moves wire c (did o) c') {is : List ι} {os : List ο}
    (h : Runs spec c is os c') : Moves wire c (total (os.map did)) c' := by
  induction h with
  | nil c => exact moves_none wire c
  | cons hs _ ih => exact (hspec _ _ _ _ hs).trans ih

end OiAmc.Relay

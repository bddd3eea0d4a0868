import OiAmc.Cconfig

/-! The handle of a configuration: what is kept of a text that was loaded, how it is asked and changed,
and what is saved of it. -/

namespace OiAmc.CconfigHandle

open Function Numbered Numerals

/-- A value is NULL after there was no memory for it. -/
inductive Token
  | scalar (name : Text) (index : Int) (value : Option Text)
  | vector (index : Int) (value : Option Text)
  deriving DecidableEq

inductive Line
  | blank
  | comment (name : Text)
  | tokens (ts : List Token)
  deriving DecidableEq

structure Section where
  name : Text
  index : Int
  body : List Line
  deriving DecidableEq

structure CConfig where
  filename : Text
  preface : List Line
  sections : List Section
  iDirtyFlag : Bool
  iWriteNow : Bool
  iCaseSensitive : Bool
  iTokensPerLine : Nat
  iIAmReady : Bool
  deriving DecidableEq

abbrev Disk := Text → Option Text

structure Sys where
  malloc : Bool
  fopen : Bool
  unlink : Bool
  rename : Bool

def Token.value : Token → Option Text
  | .scalar _ _ value => value
  | .vector _ value => value

def Token.put (v : Option Text) : Token → Token
  | .scalar name index _ => .scalar name index v
  | .vector index _ => .vector index v

def Line.toks : Line → List Token
  | .tokens ts => ts
  | _ => []

/-- The tokens of a section, from `etoken` on. -/
def Section.tokens (s : Section) : List Token := s.body.flatMap Line.toks

/-- `!STRCASECMP` -/
def sameName (caseSensitive : Bool) (a b : Text) : Bool :=
  if caseSensitive then a = b else a.map Char.toLower = b.map Char.toLower

structure Args where
  sname : Option Text
  id : Option Text
  index : Int
  sectionIndex : Int

def Token.asked (caseSensitive : Bool) (id : Option Text) (i : Int) : Token → Bool
  | .scalar name index _ => match id with
      | none => false
      | some id => index == i && sameName caseSensitive name id
  | .vector index _ => match id with
      | none => index == i
      | some _ => false

def Section.asked (caseSensitive : Bool) (name : Text) (i : Int) (s : Section) : Bool :=
  sameName caseSensitive name s.name && s.index == i

def CConfig.locate (h : CConfig) (args : Args) : Option (Nat × Nat) :=
  if !h.iIAmReady then none
  else match args.sname with
    | none => none
    | some name =>
        (h.sections.findIdx? (·.asked h.iCaseSensitive name args.sectionIndex)).bind fun i =>
          (h.sections[i]?.bind fun s => s.tokens.findIdx? (·.asked h.iCaseSensitive args.id args.index)).map
            fun k => (i, k)

def CConfig.token (h : CConfig) (place : Nat × Nat) : Option Token :=
  h.sections[place.1]?.bind fun s => s.tokens[place.2]?

/-- The inner `none` is -1. To copy a value that is NULL has no outcome. -/
def cfgGetValue (h : CConfig) (args : Args) : Option (Option Text) :=
  match (h.locate args).bind h.token with
  | none => some none
  | some t => t.value.map some

def Token.index : Token → Int
  | .scalar _ index _ => index
  | .vector index _ => index

/-- `!STRCASECMP(token->name, id)`. A vector has no names to look at. -/
def Token.named (caseSensitive : Bool) (id : Text) : Token → Option Bool
  | .scalar name _ _ => some (sameName caseSensitive name id)
  | .vector _ _ => none

def Token.valued (caseSensitive : Bool) (id : Text) (t : Token) : Option Bool :=
  t.value.map (sameName caseSensitive · id)

def cfgGetCount (h : CConfig) (sname id : Option Text) (sectionIndex : Int) : Option Int :=
  match h.iIAmReady, sname with
  | true, some name =>
      if sectionIndex = 0 then
        some (h.sections.foldl (fun index s => if sameName h.iCaseSensitive name s.name then s.index else index) 0)
      else match h.sections.find? (·.asked h.iCaseSensitive name sectionIndex) with
        | none => some 0
        | some s =>
            match s.tokens, id with
            | [], _ => some 0
            | .scalar _ _ _ :: _, none => some (-1)
            | .vector i v :: ts, none => some (((Token.vector i v :: ts).getLast (List.cons_ne_nil _ _)).index)
            | .scalar n i v :: ts, some id => (Token.scalar n i v :: ts).foldlM (fun index t =>
                (t.named h.iCaseSensitive id).map fun same => if same then t.index else index) 0
            | .vector i v :: ts, some id => (Token.vector i v :: ts).foldlM (fun index t =>
                (t.valued h.iCaseSensitive id).map fun same => if same then index + 1 else index) 0
  | _, _ => some (-1)

def scan (test : Token → Option Bool) (start : Int) : Int → List Token → Option Int
  | _, [] => some (-1)
  | index, t :: ts => (test t).bind fun same => if same ∧ index > start then some index else scan test start (index + 1) ts

def cfgGetIndex (h : CConfig) (sname id : Option Text) (start sectionIndex : Int) : Option Int :=
  match h.iIAmReady, sname with
  | true, some name =>
      match h.sections.findIdx? (·.asked h.iCaseSensitive name sectionIndex) with
      | none => some (-1)
      | some i =>
          match id, (h.sections[i]?.map Section.tokens).getD [] with
          | none, _ => some (i + 1)
          | some _, [] => some (-1)
          | some id, .scalar n j v :: ts => scan (·.named h.iCaseSensitive id) start 1 (.scalar n j v :: ts)
          | some id, .vector j v :: ts => scan (·.valued h.iCaseSensitive id) start 1 (.vector j v :: ts)
  | _, _ => some (-1)

def putLines (v : Option Text) : Nat → List Line → List Line
  | _, [] => []
  | k, .tokens ts :: ls =>
      if k < ts.length then .tokens (ts.modify k (·.put v)) :: ls else .tokens ts :: putLines v (k - ts.length) ls
  | k, l :: ls => l :: putLines v k ls

def Section.put (k : Nat) (v : Option Text) (s : Section) : Section := { s with body := putLines v k s.body }

def CConfig.put (h : CConfig) (place : Nat × Nat) (v : Option Text) : CConfig :=
  { h with sections := h.sections.modify place.1 (·.put place.2 v) }

/-- `%-*s` -/
def padded (width : Nat) (s : Text) : Text := s ++ List.replicate (width - s.length) ' '

def dumpRow (width iTokens : Nat) : Nat → List Text → Text
  | i, [] => if i ≠ 0 then ['\n'] else []
  | i, v :: vs =>
      padded width v ++
        if (i + 1) % iTokens = 0 then '\n' :: dumpRow width iTokens 0 vs else dumpRow width iTokens (i + 1) vs

def dumpVector (iTokensPerLine : Nat) (vs : List Text) : Text :=
  let iMaxTokenLen := vs.foldl (fun m v => max m v.length) 0 + 1
  let iTokens := if iTokensPerLine > 0 then iTokensPerLine else max 1 (min 16 (70 / iMaxTokenLen))
  dumpRow iMaxTokenLen iTokens 0 vs

def Line.dump (iTokensPerLine : Nat) : Line → Option Text
  | .blank => some ['\n']
  | .comment name => some (name ++ ['\n'])
  | .tokens [] => some []
  | .tokens (.scalar name _ value :: _) => value.map fun v => padded 15 name ++ " = ".toList ++ v ++ ['\n']
  | .tokens (.vector i value :: ts) =>
      ((Token.vector i value :: ts).mapM Token.value).map fun vs => dumpVector iTokensPerLine vs

def Section.dump (iTokensPerLine : Nat) (s : Section) : Option Text :=
  (s.body.mapM (Line.dump iTokensPerLine)).map fun ls => ['['] ++ s.name ++ "]\n".toList ++ ls.flatten

/-- What `CfgDump` prints. A value that is NULL has no outcome. -/
def CConfig.text (h : CConfig) : Option Text :=
  (h.preface.mapM (Line.dump h.iTokensPerLine)).bind fun ls =>
    (h.sections.mapM (Section.dump h.iTokensPerLine)).map fun ss => ls.flatten ++ ss.flatten

def cfgDump (sys : Sys) (h : CConfig) (path : Text) (disk : Disk) : Option (Int × CConfig × Disk) :=
  if !h.iIAmReady then some (-1, h, disk)
  else if !sys.fopen then some (-1, h, disk)
  else h.text.map fun t => (0, { h with iDirtyFlag := false }, update disk path (some t))

def cfgSaveMeToFile (sys : Sys) (h : CConfig) (disk : Disk) : Option (Int × CConfig × Disk) :=
  if !h.iIAmReady then some (-1, h, disk)
  else if h.filename = [] then some (-1, h, disk)
  else (cfgDump sys h (h.filename ++ ".tmp".toList) disk).map fun (rc, h, disk) =>
    if rc = -1 then (-1, h, disk)
    else if !sys.unlink then (-1, h, disk)
    else
      let disk := update disk h.filename none
      if !sys.rename then (-1, h, disk)
      else (0, h, update (update disk h.filename (disk (h.filename ++ ".tmp".toList)))
        (h.filename ++ ".tmp".toList) none)

def cfgSetValue (sys : Sys) (h : CConfig) (args : Args) (value : Option Text) (disk : Disk) :
    Option (Int × CConfig × Disk) :=
  match value with
  | none => some (-1, h, disk)
  | some v =>
      match h.locate args with
      | none => some (-1, h, disk)
      | some place =>
          match (h.token place).bind Token.value with
          | none => none
          | some old =>
              if sameName h.iCaseSensitive old v then some (0, h, disk)
              else if ¬ v.length ≤ old.length ∧ !sys.malloc then some (-1, h.put place none, disk)
              else if h.iWriteNow then
                (cfgSaveMeToFile sys (h.put place (some v)) disk).map fun (_, h, disk) => (0, h, disk)
              else some (0, { h.put place (some v) with iDirtyFlag := true }, disk)

variable {h h' : CConfig} {args args' : Args} {place place' : Nat × Nat} {v : Option Text} {sys : Sys} {disk : Disk}
  {t : Token}

theorem value_put (v : Option Text) (t : Token) : (t.put v).value = v := by
  cases t <;> rfl

theorem asked_put (v : Option Text) (cs : Bool) (id : Option Text) (i : Int) (t : Token) :
    (t.put v).asked cs id i = t.asked cs id i := by
  cases t <;> rfl

section

variable {α : Type} {p : α → Bool} {f : α → α}

theorem findIdx_modify (hf : ∀ a, p (f a) = p a) (l : List α) (i : Nat) :
    (l.modify i f).findIdx? p = l.findIdx? p := by
  induction l generalizing i with
  | nil => cases i <;> rfl
  | cons a l ih =>
      cases i with
      | zero => rw [List.modify_zero_cons, List.findIdx?_cons, List.findIdx?_cons, hf]
      | succ i => rw [List.modify_succ_cons, List.findIdx?_cons, List.findIdx?_cons, ih]

theorem modify_append (l l' : List α) (i : Nat) : (l ++ l').modify i f =
    if i < l.length then l.modify i f ++ l' else l ++ l'.modify (i - l.length) f := by
  induction l generalizing i with
  | nil => rfl
  | cons a l ih =>
      cases i with
      | zero => rfl
      | succ i =>
          rw [List.cons_append, List.modify_succ_cons, ih]
          by_cases hi : i < l.length
          · rw [if_pos hi, if_pos (by simpa using hi)]
            rfl
          · rw [if_neg hi, if_neg (by simpa using hi), List.length_cons, Nat.add_sub_add_right]
            rfl

end

theorem putLines_toks (v : Option Text) (k : Nat) (ls : List Line) :
    (putLines v k ls).flatMap Line.toks = (ls.flatMap Line.toks).modify k (·.put v) := by
  induction ls generalizing k with
  | nil => cases k <;> rfl
  | cons l ls ih =>
      cases l with
      | blank => exact ih k
      | comment name => exact ih k
      | tokens ts =>
          have htoks : (Line.tokens ts).toks = ts := rfl
          rw [putLines, List.flatMap_cons, modify_append, htoks]
          by_cases hk : k < ts.length
          · rw [if_pos hk, if_pos hk]
            rfl
          · rw [if_neg hk, if_neg hk, List.flatMap_cons, ih, htoks]

theorem tokens_put (k : Nat) (v : Option Text) (s : Section) :
    (s.put k v).tokens = s.tokens.modify k (·.put v) := putLines_toks v k s.body

theorem locate_put (h : CConfig) (place : Nat × Nat) (v : Option Text) (args : Args) :
    (h.put place v).locate args = h.locate args := by
  have hsections : ∀ name, (h.sections.modify place.1 (·.put place.2 v)).findIdx?
      (·.asked h.iCaseSensitive name args.sectionIndex) =
      h.sections.findIdx? (·.asked h.iCaseSensitive name args.sectionIndex) :=
    fun name => findIdx_modify (f := fun s : Section => s.put place.2 v) (fun _ => rfl) _ _
  have htokens : ∀ i : Nat, ((h.sections.modify place.1 (·.put place.2 v))[i]?.bind fun s : Section =>
      s.tokens.findIdx? (·.asked h.iCaseSensitive args.id args.index)) =
      h.sections[i]?.bind fun s : Section => s.tokens.findIdx? (·.asked h.iCaseSensitive args.id args.index) := by
    intro i
    rw [List.getElem?_modify]
    cases h.sections[i]? with
    | none => rfl
    | some s =>
        by_cases hi : place.1 = i
        · simp only [Option.map_eq_map, Option.map_some, Option.bind_some, if_pos hi, tokens_put]
          exact findIdx_modify (fun t => asked_put v _ _ _ t) _ _
        · simp only [Option.map_eq_map, Option.map_some, Option.bind_some, if_neg hi]
  simp only [CConfig.locate, CConfig.put, hsections, htokens]

theorem token_put (h : CConfig) (place place' : Nat × Nat) (v : Option Text) :
    (h.put place v).token place' = (h.token place').map fun t => if place = place' then t.put v else t := by
  rw [CConfig.token, CConfig.put, CConfig.token, List.getElem?_modify]
  cases h.sections[place'.1]? with
  | none => rfl
  | some s =>
      by_cases hi : place.1 = place'.1
      · rw [Option.map_eq_map, Option.map_some, Option.bind_some, Option.bind_some, if_pos hi, tokens_put,
          List.getElem?_modify]
        apply congrArg (Option.map · s.tokens[place'.2]?)
        funext t
        by_cases hk : place.2 = place'.2
        · rw [if_pos hk, if_pos (Prod.ext hi hk)]
        · rw [if_neg hk, if_neg fun he => hk (congrArg Prod.snd he)]
      · have hne : place ≠ place' := fun he => hi (congrArg Prod.fst he)
        simp only [Option.map_eq_map, Option.map_some, Option.bind_some, if_neg hi, if_neg hne, Option.map_id']

theorem token_of_locate (h : CConfig) (hl : h.locate args = some place) : ∃ t, h.token place = some t := by
  rw [CConfig.locate] at hl
  split at hl
  · cases hl
  · cases hs : args.sname with
    | none =>
        rw [hs] at hl
        cases hl
    | some name =>
        rw [hs] at hl
        obtain ⟨i, -, hi⟩ := Option.bind_eq_some_iff.mp hl
        obtain ⟨k, hk, rfl⟩ := Option.map_eq_some_iff.mp hi
        obtain ⟨s, hs, hk⟩ := Option.bind_eq_some_iff.mp hk
        have hlt := (List.findIdx?_eq_some_iff_getElem.mp hk).1
        exact ⟨s.tokens[k], by rw [CConfig.token, hs, Option.bind_some, List.getElem?_eq_getElem hlt]⟩

theorem cfgGetValue_put (hl : h.locate args = some place) (v : Text) :
    cfgGetValue (h.put place (some v)) args = some (some v) := by
  obtain ⟨t, ht⟩ := token_of_locate h hl
  rw [cfgGetValue, locate_put, hl, Option.bind_some, token_put, ht, Option.map_some, if_pos rfl]
  dsimp only
  rw [value_put]
  rfl

theorem cfgGetValue_put_of_ne (hl : h.locate args ≠ some place) (v : Option Text) :
    cfgGetValue (h.put place v) args = cfgGetValue h args := by
  rw [cfgGetValue, cfgGetValue, locate_put]
  cases hplace : h.locate args with
  | none => rfl
  | some place' =>
      rw [hplace] at hl
      have hne : place ≠ place' := fun he => hl (congrArg some he.symm)
      rw [Option.bind_some, Option.bind_some, token_put]
      simp only [if_neg hne, Option.map_id']

theorem sections_put_ne (ht : h.token place = some t) (hv : t.value ≠ v) : (h.put place v).sections ≠ h.sections := by
  intro he
  have hput := token_put h place place v
  have hsame : (h.put place v).token place = h.token place := by rw [CConfig.token, CConfig.token, he]
  rw [hsame, ht, Option.map_some, if_pos rfl] at hput
  exact hv (congrArg Token.value (Option.some.inj hput) |>.trans (value_put v t))

theorem ready_of_locate (hl : h.locate args = some place) : h.iIAmReady = true := by
  rw [CConfig.locate] at hl
  by_contra hready
  rw [if_pos (by simpa using hready)] at hl
  cases hl

def tmpName (filename : Text) : Text := filename ++ ".tmp".toList

theorem tmpName_ne (filename : Text) : filename ≠ tmpName filename := by
  intro he
  have hlen := congrArg List.length he
  rw [tmpName, List.length_append] at hlen
  exact absurd hlen (by simp)

def Reflected (h h' : CConfig) (disk : Disk) : Prop :=
  h'.sections ≠ h.sections → h'.iDirtyFlag = true ∨ h'.text.isSome ∧ disk h.filename = h'.text

/-- What a caller is to find after `CfgSetValue`. -/
def ReadBack (sys : Sys) (h : CConfig) (args : Args) (value : Option Text) (disk : Disk) : Prop :=
  ∃ rc h' disk', cfgSetValue sys h args value disk = some (rc, h', disk') ∧
    (rc = 0 → cfgGetValue h' args = some value ∧
      (∀ args', h.locate args' ≠ h.locate args → cfgGetValue h' args' = cfgGetValue h args') ∧
      Reflected h h' disk') ∧
    (rc ≠ 0 → rc = -1 ∧ h' = h ∧ disk' = disk)

/-- A save that fails may leave the handle dirty, or a file that holds the change already. -/
def Saves (sys : Sys) (h : CConfig) (disk : Disk) : Prop :=
  if h.filename = [] ∨ sys.fopen = false then h.iDirtyFlag = true ∨ h.text.isSome ∧ disk h.filename = h.text
  else h.text.isSome ∧ if sys.unlink then sys.rename = true else disk h.filename = h.text

theorem save_unopened (sys : Sys) (hready : h.iIAmReady = true) (hopen : h.filename = [] ∨ sys.fopen = false)
    (disk : Disk) : cfgSaveMeToFile sys h disk = some (-1, h, disk) := by
  rw [cfgSaveMeToFile, hready, Bool.not_true, if_neg Bool.false_ne_true]
  by_cases hname : h.filename = []
  · rw [if_pos hname]
  · rw [if_neg hname, cfgDump, hready, Bool.not_true, if_neg Bool.false_ne_true, hopen.resolve_left hname]
    rfl

theorem save_opened (sys : Sys) (hready : h.iIAmReady = true) (hname : h.filename ≠ []) (hopen : sys.fopen = true)
    (disk : Disk) : cfgSaveMeToFile sys h disk = h.text.map fun t =>
      let disk := update disk (tmpName h.filename) (some t)
      if !sys.unlink then (-1, { h with iDirtyFlag := false }, disk)
      else
        let disk := update disk h.filename none
        if !sys.rename then (-1, { h with iDirtyFlag := false }, disk)
        else (0, { h with iDirtyFlag := false }, update (update disk h.filename (disk (tmpName h.filename)))
          (tmpName h.filename) none) := by
  rw [cfgSaveMeToFile, hready, Bool.not_true, if_neg Bool.false_ne_true, if_neg hname, cfgDump, hready,
    Bool.not_true, if_neg Bool.false_ne_true, hopen, Bool.not_true, if_neg Bool.false_ne_true, Option.map_map]
  rfl

theorem outcome_inj {rc rc' : Int} {disk' : Disk} (he : (rc, h, disk) = (rc', h', disk')) :
    rc = rc' ∧ h = h' ∧ disk = disk' := by
  cases he
  exact ⟨rfl, rfl, rfl⟩

theorem save_form {rc : Int} {disk' : Disk} (sys : Sys) (hready : h.iIAmReady = true)
    (hs : cfgSaveMeToFile sys h disk = some (rc, h', disk')) : h' = { h with iDirtyFlag := h'.iDirtyFlag } := by
  by_cases hopen : h.filename = [] ∨ sys.fopen = false
  · rw [save_unopened sys hready hopen] at hs
    obtain ⟨-, rfl, -⟩ := outcome_inj (Option.some.inj hs)
    rfl
  · obtain ⟨hname, hopen⟩ := not_or.mp hopen
    rw [save_opened sys hready hname (by simpa using hopen)] at hs
    obtain ⟨t, -, he⟩ := Option.map_eq_some_iff.mp hs
    dsimp only at he
    split at he
    · obtain ⟨-, rfl, -⟩ := outcome_inj he
      rfl
    · split at he
      · obtain ⟨-, rfl, -⟩ := outcome_inj he
        rfl
      · obtain ⟨-, rfl, -⟩ := outcome_inj he
        rfl

theorem exists_outcome {P : CConfig → Disk → Prop} (rc : Int) (h : CConfig) (disk : Disk) :
    (∃ rc' h' disk', some (rc, h, disk) = some (rc', h', disk') ∧ P h' disk') ↔ P h disk := by
  constructor
  · rintro ⟨rc', h', disk', he, hp⟩
    obtain ⟨-, rfl, rfl⟩ := outcome_inj (Option.some.inj he)
    exact hp
  · exact fun hp => ⟨rc, h, disk, rfl, hp⟩

theorem saves_iff (sys : Sys) (hready : h.iIAmReady = true) (disk : Disk) :
    (∃ rc h' disk', cfgSaveMeToFile sys h disk = some (rc, h', disk') ∧
      (h'.iDirtyFlag = true ∨ h'.text.isSome ∧ disk' h.filename = h'.text)) ↔ Saves sys h disk := by
  rw [Saves]
  by_cases hopen : h.filename = [] ∨ sys.fopen = false
  · rw [save_unopened sys hready hopen, if_pos hopen]
    exact exists_outcome _ h disk
  · rw [if_neg hopen]
    obtain ⟨hname, hopen⟩ := not_or.mp hopen
    rw [save_opened sys hready hname (by simpa using hopen)]
    have htmp := tmpName_ne h.filename
    cases ht : h.text with
    | none => exact iff_of_false (fun ⟨_, _, _, he, _⟩ => nomatch he) fun hs => nomatch hs.1
    | some t =>
        have htext : ({ h with iDirtyFlag := false } : CConfig).text = some t := ht
        rw [Option.map_some]
        cases hunlink : sys.unlink with
        | false =>
            refine (exists_outcome _ _ _).trans ?_
            rw [htext, update_of_ne htmp]
            simp
        | true =>
            cases hrename : sys.rename with
            | false =>
                refine (exists_outcome _ _ _).trans ?_
                rw [htext, update_self]
                simp
            | true =>
                refine (exists_outcome _ _ _).trans ?_
                rw [htext, update_of_ne htmp, update_self, update_of_ne htmp.symm, update_self]
                simp

/-- The token is the value already where it is the same as it but for case; else there is memory where the
value is longer, and a handle that writes now saves it. -/
def Meets (sys : Sys) (h : CConfig) (args : Args) (value : Option Text) (disk : Disk) : Prop :=
  ∀ v ∈ value, ∀ place ∈ h.locate args, ∃ old, (h.token place).bind Token.value = some old ∧
    if sameName h.iCaseSensitive old v then old = v
    else (v.length ≤ old.length ∨ sys.malloc = true) ∧
      (h.iWriteNow = true → Saves sys (h.put place (some v)) disk)

theorem cfgGetValue_of_locate {old : Text} (hl : h.locate args = some place)
    (ht : (h.token place).bind Token.value = some old) : cfgGetValue h args = some (some old) := by
  obtain ⟨t, hplace⟩ := token_of_locate h hl
  rw [hplace, Option.bind_some] at ht
  rw [cfgGetValue, hl, Option.bind_some, hplace]
  dsimp only
  rw [ht]
  rfl

theorem changed_iff {old v : Text} (hl : h.locate args = some place)
    (ht : (h.token place).bind Token.value = some old) (hne : old ≠ v)
    (hset : cfgSetValue sys h args (some v) disk =
      (cfgSaveMeToFile sys (h.put place (some v)) disk).map fun (_, h, disk) => (0, h, disk)) :
    ReadBack sys h args (some v) disk ↔ Saves sys (h.put place (some v)) disk := by
  have hready : (h.put place (some v)).iIAmReady = true := show h.iIAmReady = true from ready_of_locate hl
  rw [← saves_iff sys hready, ReadBack, hset]
  constructor
  · rintro ⟨rc, h', disk', he, hread, -⟩
    obtain ⟨⟨rc', h'', disk''⟩, hs, he⟩ := Option.map_eq_some_iff.mp he
    obtain ⟨rfl, rfl, rfl⟩ := outcome_inj he
    refine ⟨rc', h'', disk'', hs, (hread rfl).2.2 ?_⟩
    obtain ⟨t, hplace⟩ := token_of_locate h hl
    rw [hplace, Option.bind_some] at ht
    rw [save_form sys hready hs]
    exact sections_put_ne hplace (by rw [ht]; exact fun he => hne (Option.some.inj he))
  · rintro ⟨rc, h', disk', hs, hr⟩
    refine ⟨0, h', disk', by rw [hs]; rfl, fun _ => ⟨?_, ?_, fun _ => hr⟩, fun h0 => absurd rfl h0⟩
    · rw [save_form sys hready hs]
      exact cfgGetValue_put hl v
    · intro args' hargs
      rw [save_form sys hready hs]
      exact cfgGetValue_put_of_ne (hl ▸ hargs) _

/-- A call that returns 0 is read back, leaves every other token as it was and is saved or to be saved, and a
call that returns -1 changes nothing, just when it meets the condition. -/
theorem set_value_iff (sys : Sys) (h : CConfig) (args : Args) (value : Option Text) (disk : Disk) :
    ReadBack sys h args value disk ↔ Meets sys h args value disk := by
  have hnothing : cfgSetValue sys h args value disk = some (-1, h, disk) → ReadBack sys h args value disk :=
    fun he => ⟨-1, h, disk, he, fun h0 => absurd h0 (by decide), fun _ => ⟨rfl, rfl, rfl⟩⟩
  cases value with
  | none => exact iff_of_true (hnothing rfl) nofun
  | some v =>
      cases hl : h.locate args with
      | none =>
          refine iff_of_true (hnothing (by rw [cfgSetValue, hl])) fun _ _ place hplace => ?_
          rw [hl] at hplace
          cases hplace
      | some place =>
          have hmeets : Meets sys h args (some v) disk ↔ ∃ old, (h.token place).bind Token.value = some old ∧
              if sameName h.iCaseSensitive old v then old = v
              else (v.length ≤ old.length ∨ sys.malloc = true) ∧
                (h.iWriteNow = true → Saves sys (h.put place (some v)) disk) := by
            rw [Meets, hl]
            simp only [Option.mem_some_iff, forall_eq']
          rw [hmeets]
          cases ht : (h.token place).bind Token.value with
          | none =>
              refine iff_of_false ?_ fun ⟨_, he, _⟩ => nomatch he
              rintro ⟨rc, h', disk', he, -⟩
              rw [cfgSetValue, hl] at he
              dsimp only at he
              rw [ht] at he
              cases he
          | some old =>
              simp only [Option.some.injEq, exists_eq_left']
              have hset : cfgSetValue sys h args (some v) disk =
                  if sameName h.iCaseSensitive old v then some ((0 : Int), h, disk)
                  else if ¬ v.length ≤ old.length ∧ !sys.malloc then some (-1, h.put place none, disk)
                  else if h.iWriteNow then
                    (cfgSaveMeToFile sys (h.put place (some v)) disk).map fun (_, h, disk) => (0, h, disk)
                  else some (0, { h.put place (some v) with iDirtyFlag := true }, disk) := by
                rw [cfgSetValue, hl]
                dsimp only
                rw [ht]
              have hget := cfgGetValue_of_locate hl ht
              by_cases hsame : sameName h.iCaseSensitive old v = true
              · rw [if_pos hsame] at hset ⊢
                constructor
                · rintro ⟨rc, h', disk', he, hread, -⟩
                  obtain ⟨rfl, rfl, rfl⟩ := outcome_inj (Option.some.inj (hset.symm.trans he))
                  exact Option.some.inj (Option.some.inj (hget.symm.trans (hread rfl).1))
                · rintro rfl
                  exact ⟨0, h, disk, hset, fun _ => ⟨hget, fun _ _ => rfl, fun hne => absurd rfl hne⟩,
                    fun h0 => absurd rfl h0⟩
              · rw [if_neg hsame] at hset ⊢
                have hne : old ≠ v := by
                  rintro rfl
                  exact hsame (by rw [sameName]; split <;> exact decide_eq_true rfl)
                by_cases hmem : ¬ v.length ≤ old.length ∧ !sys.malloc
                · rw [if_pos hmem] at hset
                  refine iff_of_false ?_ fun hm => hm.1.elim hmem.1 fun hm' => ?_
                  · rintro ⟨rc, h', disk', he, -, hkept⟩
                    obtain ⟨rfl, rfl, rfl⟩ := outcome_inj (Option.some.inj (hset.symm.trans he))
                    obtain ⟨t, hplace⟩ := token_of_locate h hl
                    rw [hplace, Option.bind_some] at ht
                    refine sections_put_ne (v := none) hplace (by rw [ht]; exact nofun) ?_
                    rw [(hkept (by decide)).2.1]
                  · rw [hm'] at hmem
                    exact absurd hmem.2 (by decide)
                · rw [if_neg hmem] at hset
                  have hroom : v.length ≤ old.length ∨ sys.malloc = true := by
                    by_contra hno
                    obtain ⟨hlong, hmalloc⟩ := not_or.mp hno
                    exact hmem ⟨hlong, by simpa using hmalloc⟩
                  rw [and_iff_right hroom]
                  by_cases hw : h.iWriteNow = true
                  · rw [if_pos hw] at hset
                    rw [forall_prop_of_true hw]
                    exact changed_iff hl ht hne hset
                  · rw [if_neg hw] at hset
                    refine iff_of_true ⟨0, _, disk, hset, fun _ => ⟨?_, ?_, fun _ => .inl rfl⟩,
                      fun h0 => absurd rfl h0⟩ fun hw' => absurd hw' hw
                    · exact cfgGetValue_put hl v
                    · exact fun args' hargs => cfgGetValue_put_of_ne (hl ▸ hargs) _

def looseHandle : CConfig :=
  ⟨[], [], [⟨"s".toList, 1, [.tokens [.scalar "id".toList 1 (some "abc".toList)]]⟩], false, false, false, 0, true⟩

/-- A value that differs in case is not written. -/
theorem case_not_written : ¬ ∀ (h : CConfig) (args : Args) (value : Option Text) (disk : Disk),
    ReadBack ⟨true, true, true, true⟩ h args value disk := by
  intro hall
  obtain ⟨rc, h', disk', he, hread, -⟩ := hall looseHandle ⟨some "s".toList, some "id".toList, 1, 1⟩
    (some "ABC".toList) fun _ => none
  have hset : cfgSetValue ⟨true, true, true, true⟩ looseHandle ⟨some "s".toList, some "id".toList, 1, 1⟩
      (some "ABC".toList) (fun _ => none) = some (0, looseHandle, fun _ => none) := rfl
  obtain ⟨rfl, rfl, rfl⟩ := outcome_inj (Option.some.inj (hset.symm.trans he))
  exact absurd (hread rfl).1 (by decide)

end OiAmc.CconfigHandle

import Mathlib.Data.List.DropRight
import OiAmc.Numbered
import OiAmc.Numerals

/-! Configuration files: what `CfgLoadConfiguration` makes of a text and how its tokens are
asked for. -/

namespace OiAmc.Cconfig

open Numbered Numerals

inductive Line
  | blank
  | comment (name : Text)
  /-- `[name]` -/
  | header (name : Text)
  | vector (values : List Text)
  | scalar (name value : Text)
  deriving DecidableEq

/-- The room of `caLine` but for the end of the string. -/
def lineRoom : Nat := 1023

/-- What `fgets` hands over, one piece after the other: up to the end of a line, or as much
as there is room for. -/
def getLines : Text → Text → List Text
  | [], [] => []
  | line, [] => [line]
  | line, c :: s =>
      let line := line ++ [c]
      if c = '\n' ∨ line.length = lineRoom then line :: getLines [] s else getLines line s

def fIsDelimiter (c : Char) : Bool := c = ' ' || c = '\t'

def isLineEnd (c : Char) : Bool := c = '\r' || c = '\n'

/-- The words of a text, as blanks and tabs part them. -/
def wordsFrom : Text → Text → List Text
  | [], [] => []
  | word, [] => [word]
  | [], c :: s => if fIsDelimiter c then wordsFrom [] s else wordsFrom [c] s
  | word, c :: s => if fIsDelimiter c then word :: wordsFrom [] s else wordsFrom (word ++ [c]) s

/-- Every run of blanks and tabs becomes one blank. -/
def squeezeFrom : Bool → Text → Text
  | _, [] => []
  | flag, c :: s =>
      if fIsDelimiter c then
        if flag then squeezeFrom true s else ' ' :: squeezeFrom true s
      else c :: squeezeFrom false s

def squeeze (s : Text) : Text := squeezeFrom false s

def trimEnd (s : Text) : Text := s.rdropWhile fIsDelimiter

def trim (s : Text) : Text := trimEnd (s.dropWhile fIsDelimiter)

/-- What the lines so far allow: `iSectionDefined`, `iTokenScalarDefined` and
`iTokenVectorDefined`. -/
structure Defined where
  inSection : Bool
  scalar : Bool
  vector : Bool

def Defined.start : Defined := ⟨false, true, true⟩

/-- What a line from `iStart` to `iEnd` is. `none` is an error. -/
def readToken (d : Defined) (body : Text) : Option (Line × Defined) :=
  if body = [] then some (.blank, d)
  else if body.head? = some '#' then some (.comment body, d)
  else
    let s := body.dropWhile fIsDelimiter
    if s.head? = some '[' ∧ s.getLast? = some ']' then
      let name := squeeze (trim s.tail.dropLast)
      if name = [] then none else some (.header name, ⟨true, false, false⟩)
    else if !d.inSection then none
    else if '=' ∉ s then
      if d.scalar then none else some (.vector (wordsFrom [] s), { d with vector := true })
    else if d.vector then none
    else
      let name := squeeze (trimEnd (s.takeWhile (· ≠ '=')))
      let value := (s.dropWhile (· ≠ '=')).tail
      if '=' ∈ value then none
      else
        let value := squeeze (value.dropWhile fIsDelimiter)
        if name = [] ∨ value = [] then none
        else some (.scalar name value, { d with scalar := true })

def readLine (d : Defined) (piece : Text) : Option (Line × Defined) :=
  let line := piece.takeWhile (· ≠ '\x00')
  if line = [] then none else readToken d (trimEnd (line.rdropWhile isLineEnd))

def readLines : Defined → List Text → Option (List Line)
  | _, [] => some []
  | d, piece :: pieces => do
      let (line, d) ← readLine d piece
      let lines ← readLines d pieces
      return line :: lines

inductive TokenType
  | scalar
  | vector
  deriving DecidableEq

structure Token where
  type : TokenType
  name : Option Text
  value : Text
  deriving DecidableEq

def Line.tokens : Line → List Token
  | .vector values => values.map fun value => ⟨.vector, none, value⟩
  | .scalar name value => [⟨.scalar, some name, value⟩]
  | _ => []

def sectionsOf : List Line → List Token × List (Text × List Token)
  | [] => ([], [])
  | .header name :: lines =>
      let (tokens, sections) := sectionsOf lines
      ([], (name, tokens) :: sections)
  | line :: lines =>
      let (tokens, sections) := sectionsOf lines
      (line.tokens ++ tokens, sections)

structure CConfig where
  lines : List Line
  iCaseSensitive : Bool

def cfgLoadConfiguration (iCaseSensitive : Bool) (text : Text) : Option CConfig :=
  (readLines .start (getLines [] text)).map fun lines => ⟨lines, iCaseSensitive⟩

def cfgInitialize (text : Text) : Option CConfig := cfgLoadConfiguration true text

section

variable (h : CConfig)

def CConfig.sections : List (Text × List Token) := (sectionsOf h.lines).2

/-- `!STRCASECMP` -/
def CConfig.sameName (a b : Text) : Bool :=
  if h.iCaseSensitive then a = b else a.map Char.toLower = b.map Char.toLower

def CConfig.sameId : Option Text → Option Text → Bool
  | none, none => true
  | some a, some b => h.sameName a b
  | _, _ => false

def CConfig.indexed : List ((Text × List Token) × Nat) :=
  number (fun a b => h.sameName a.1 b.1) h.sections

def CConfig.tokens (tokens : List Token) : List (Token × Nat) :=
  number (fun a b => h.sameId a.name b.name) tokens

def CConfig.find (sname : Text) (sectionIndex : Nat) : Option (List Token) :=
  (h.indexed.find? fun s => h.sameName sname s.1.1 && s.2 == sectionIndex).map (·.1.2)

def cfgGetValue (sname : Text) (id : Option Text) (index sectionIndex : Nat) : Option Text :=
  (h.find sname sectionIndex).bind fun tokens =>
    ((h.tokens tokens).find? fun t => h.sameId id t.1.name && t.2 == index).map (·.1.value)

def cfgGetCount (sname : Text) (id : Option Text) (sectionIndex : Nat) : Int :=
  if sectionIndex = 0 then
    Nat.cast (h.indexed.foldl (fun n s => if h.sameName sname s.1.1 then s.2 else n) 0)
  else match h.find sname sectionIndex with
    | none | some [] => 0
    | some (t :: tokens) =>
        match id, t.type with
        | none, .scalar => -1
        | none, .vector => (t :: tokens).length
        | some id, .scalar =>
            Nat.cast ((h.tokens (t :: tokens)).foldl
              (fun n t => if h.sameId (some id) t.1.name then t.2 else n) 0)
        | some id, .vector => (t :: tokens).countP fun t => h.sameName id t.value

end

section

variable {h : CConfig} {sname a : Text} {id : Option Text} {tokens : List Token} {i k : Nat}

theorem sameName_eq_true : h.sameName a sname = true ↔
    if h.iCaseSensitive then a = sname else a.map Char.toLower = sname.map Char.toLower := by
  rw [CConfig.sameName]
  split <;> exact decide_eq_true_iff

theorem sameName_class (ha : h.sameName sname a) (b : Text) :
    h.sameName a b = h.sameName sname b := by
  rw [sameName_eq_true] at ha
  rw [Bool.eq_iff_iff, sameName_eq_true, sameName_eq_true]
  by_cases hc : h.iCaseSensitive
  · rw [if_pos hc] at ha
    rw [if_pos hc, if_pos hc, ha]
  · rw [if_neg hc] at ha
    rw [if_neg hc, if_neg hc, ha]

theorem sameId_class {x : Option Text} (hx : h.sameId id x) (y : Option Text) :
    h.sameId x y = h.sameId id y := by
  cases id <;> cases x <;> cases y
  case some.some.some a b c => exact sameName_class hx c
  all_goals first | rfl | exact absurd hx Bool.false_ne_true

def CConfig.named (h : CConfig) (sname : Text) : List (List Token) :=
  (h.sections.filter fun s => h.sameName sname s.1).map Prod.snd

def CConfig.values (h : CConfig) (id : Option Text) (tokens : List Token) : List Text :=
  (tokens.filter fun t => h.sameId id t.name).map Token.value

theorem find_eq : h.find sname (i + 1) = (h.named sname)[i]? := by
  have hclass : Class (fun a b : Text × List Token => h.sameName a.1 b.1)
      fun s => h.sameName sname s.1 := fun x y hx => sameName_class hx y.1
  rw [CConfig.find, CConfig.indexed, find_number hclass, Option.map_map, CConfig.named,
    List.getElem?_map]
  rfl

theorem cfgGetValue_eq : cfgGetValue h sname id (k + 1) (i + 1) =
    (h.named sname)[i]?.bind fun tokens => (h.values id tokens)[k]? := by
  rw [cfgGetValue, find_eq]
  congr 1
  funext tokens
  have hclass : Class (fun a b : Token => h.sameId a.name b.name) fun t => h.sameId id t.name :=
    fun x y hx => sameId_class hx y.name
  rw [CConfig.tokens, find_number hclass, Option.map_map, CConfig.values, List.getElem?_map]
  rfl

theorem cfgGetCount_sections : cfgGetCount h sname id 0 = (h.named sname).length := by
  have hclass : Class (fun a b : Text × List Token => h.sameName a.1 b.1)
      fun s => h.sameName sname s.1 := fun x y hx => sameName_class hx y.1
  rw [cfgGetCount, if_pos rfl, CConfig.indexed, last_number hclass, CConfig.named, List.length_map,
    List.countP_eq_length_filter]

theorem cfgGetCount_eq (hi : (h.named sname)[i]? = some tokens)
    (hs : ∀ t ∈ tokens, t.type = .scalar) (a : Text) :
    cfgGetCount h sname (some a) (i + 1) = (h.values (some a) tokens).length := by
  rw [cfgGetCount, if_neg (by omega), find_eq, hi]
  cases tokens with
  | nil => rfl
  | cons t tokens =>
      have hclass : Class (fun x y : Token => h.sameId x.name y.name)
          fun t => h.sameId (some a) t.name := fun x y hx => sameId_class hx y.name
      dsimp only
      rw [hs t (by simp)]
      dsimp only
      rw [CConfig.tokens, last_number hclass, CConfig.values, List.length_map,
        List.countP_eq_length_filter]

def Unmixed (tokens : List Token) : Prop :=
  (∀ t ∈ tokens, t.type = .scalar ∧ t.name.isSome) ∨ ∀ t ∈ tokens, t.type = .vector ∧ t.name = none

def Defined.Allows (d : Defined) (tokens : List Token) : Prop :=
  (d.vector → ∀ t ∈ tokens, t.type = .vector ∧ t.name = none) ∧
    (d.scalar → ∀ t ∈ tokens, t.type = .scalar ∧ t.name.isSome) ∧ Unmixed tokens

theorem readToken_cases {d d' : Defined} {body : Text} {line : Line}
    (hr : readToken d body = some (line, d')) :
    (line.tokens = [] ∧ (∀ n, line ≠ .header n) ∧ d' = d) ∨
      (∃ n, line = .header n ∧ d' = ⟨true, false, false⟩) ∨
      (∃ vs, line = .vector vs ∧ d.scalar = false ∧ d' = { d with vector := true }) ∨
      ∃ n v, line = .scalar n v ∧ d.vector = false ∧ d' = { d with scalar := true } := by
  simp only [readToken] at hr
  split_ifs at hr with hblank hcomment hhead hname hin hvec hd
  all_goals first | contradiction | cases hr
  · exact .inl ⟨rfl, by simp, rfl⟩
  · exact .inl ⟨rfl, by simp, rfl⟩
  · exact .inr (.inl ⟨_, rfl, rfl⟩)
  · exact .inr (.inr (.inr ⟨_, _, rfl, by simpa using hd, rfl⟩))
  · next hd => exact .inr (.inr (.inl ⟨_, rfl, by simpa using hd, rfl⟩))

theorem readLine_eq_some {d d' : Defined} {piece : Text} {line : Line}
    (hr : readLine d piece = some (line, d')) : ∃ body, readToken d body = some (line, d') := by
  simp only [readLine] at hr
  split_ifs at hr
  exact ⟨_, hr⟩

theorem readLines_unmixed {d : Defined} {pieces : List Text} {lines : List Line}
    (hr : readLines d pieces = some lines) :
    d.Allows (sectionsOf lines).1 ∧ ∀ s ∈ (sectionsOf lines).2, Unmixed s.2 := by
  induction pieces generalizing d lines with
  | nil =>
      cases hr
      exact ⟨⟨by simp [sectionsOf], by simp [sectionsOf], .inl (by simp [sectionsOf])⟩,
        by simp [sectionsOf]⟩
  | cons piece pieces ih =>
      simp only [readLines, Option.bind_eq_bind, Option.bind_eq_some_iff] at hr
      obtain ⟨⟨line, d'⟩, hline, lines', hlines, hr⟩ := hr
      cases hr
      obtain ⟨body, hbody⟩ := readLine_eq_some hline
      obtain ⟨⟨hv, hs, hu⟩, hrest⟩ := ih hlines
      obtain ⟨ht, hn, rfl⟩ | ⟨n, rfl, rfl⟩ | ⟨vs, rfl, hd, rfl⟩ | ⟨n, v, rfl, hd, rfl⟩ :=
        readToken_cases hbody
      · have hsec : sectionsOf (line :: lines') = sectionsOf lines' := by
          rw [sectionsOf]
          · rw [ht]
            rfl
          · exact hn
        rw [hsec]
        exact ⟨⟨hv, hs, hu⟩, hrest⟩
      · refine ⟨⟨by simp [sectionsOf], by simp [sectionsOf], .inl (by simp [sectionsOf])⟩, ?_⟩
        rintro s (_ | ⟨_, hs'⟩)
        · exact hu
        · exact hrest s hs'
      · have hall : ∀ t ∈ (Line.vector vs).tokens ++ (sectionsOf lines').1,
            t.type = .vector ∧ t.name = none := by
          intro t ht
          rcases List.mem_append.mp ht with ht | ht
          · obtain ⟨v, -, rfl⟩ := List.mem_map.mp ht
            exact ⟨rfl, rfl⟩
          · exact hv rfl t ht
        exact ⟨⟨fun _ => hall, fun h => absurd h (by simp [hd]), .inr hall⟩, hrest⟩
      · have hall : ∀ t ∈ (Line.scalar n v).tokens ++ (sectionsOf lines').1,
            t.type = .scalar ∧ t.name.isSome := by
          intro t ht
          rcases List.mem_append.mp ht with ht | ht
          · rw [List.mem_singleton.mp ht]
            exact ⟨rfl, rfl⟩
          · exact hs rfl t ht
        exact ⟨⟨fun h => absurd h (by simp [hd]), fun _ => hall, .inl hall⟩, hrest⟩

theorem named_unmixed {text : Text} (hload : cfgInitialize text = some h)
    (hi : (h.named sname)[i]? = some tokens) : Unmixed tokens := by
  rw [cfgInitialize, cfgLoadConfiguration, Option.map_eq_some_iff] at hload
  obtain ⟨lines, hlines, rfl⟩ := hload
  obtain ⟨s, hs, rfl⟩ := List.mem_map.mp (List.mem_of_getElem? hi)
  exact (readLines_unmixed hlines).2 s (List.mem_of_mem_filter hs)

end

end OiAmc.Cconfig

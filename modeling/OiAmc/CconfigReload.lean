import Mathlib.Tactic.IntervalCases
import OiAmc.CconfigHandle
import OiAmc.PartialMachine

/-! The ways of loading a configuration, and what a handle answers afterwards. -/

namespace OiAmc.CconfigReload

open Function Numbered Numerals PartialMachine CconfigHandle

def lineLength : Text → Nat
  | [] => 0
  | c :: s => if c = '\x00' then 0 else if c = '\n' then 1 else lineLength s + 1

theorem lineLength_pos {c : Char} (hc : c ≠ '\x00') (s : Text) : 0 < lineLength (c :: s) := by
  rw [lineLength, if_neg hc]
  split <;> omega

def splitString : Text → List Text
  | [] => []
  | c :: s =>
      if c = '\x00' then []
      else
        let cc := lineLength (c :: s)
        let xx := if cc < 1024 then cc else 1023
        (c :: s).take xx :: splitString ((c :: s).drop xx)
  termination_by path => path.length
  decreasing_by
    have h := lineLength_pos ‹¬ c = '\x00'› s
    rw [List.length_drop, List.length_cons]
    split <;> omega

/-- The lines of a section with the indices of their tokens: names that were seen, and the next index of a
vector. -/
def indexBody (caseSensitive : Bool) : List Text → Nat → List Cconfig.Line → List Line
  | _, _, [] => []
  | seen, iIndex, .vector vs :: ls =>
      .tokens (vs.zipIdx.map fun v => .vector (iIndex + v.2 : Nat) (some v.1)) ::
        indexBody caseSensitive seen (iIndex + vs.length) ls
  | seen, iIndex, .scalar name value :: ls =>
      .tokens [.scalar name (1 + seen.countP (sameName caseSensitive name) : Nat) (some value)] ::
        indexBody caseSensitive (name :: seen) iIndex ls
  | seen, iIndex, .comment name :: ls => .comment name :: indexBody caseSensitive seen iIndex ls
  | seen, iIndex, _ :: ls => .blank :: indexBody caseSensitive seen iIndex ls

/-- The lines in front of the first section, and the sections with theirs. -/
def bodies : List Cconfig.Line → List Cconfig.Line × List (Text × List Cconfig.Line)
  | [] => ([], [])
  | .header name :: ls => ([], (name, (bodies ls).1) :: (bodies ls).2)
  | l :: ls => (l :: (bodies ls).1, (bodies ls).2)

def handleOf (filename : Text) (caseSensitive : Bool) (lines : List Cconfig.Line) : CConfig where
  filename := filename
  preface := indexBody caseSensitive [] 1 (bodies lines).1
  sections := (number (fun a b => sameName caseSensitive a.1 b.1) (bodies lines).2).map fun s =>
    ⟨s.1.1, s.2, indexBody caseSensitive [] 1 s.1.2⟩
  iDirtyFlag := false
  iWriteNow := true
  iCaseSensitive := caseSensitive
  iTokensPerLine := 0
  iIAmReady := true

/-- A file that is not there is made. -/
def cfgLoadConfiguration (path : Text) (cflag : Bool) (disk : Disk) : Option (List Cconfig.Line) × Disk :=
  if cflag then (Cconfig.readLines .start (splitString path), disk)
  else match disk path with
    | some text => (Cconfig.readLines .start (Cconfig.getLines [] text), disk)
    | none => (Cconfig.readLines .start (Cconfig.getLines [] []), update disk path (some []))

def cfgInitialize (sys : Sys) (fname : Text) (disk : Disk) : Option (Option CConfig × Disk) :=
  if 128 ≤ fname.length then some (none, disk)
  else match cfgLoadConfiguration fname false disk with
    | (none, disk) => some (none, disk)
    | (some lines, disk) =>
        (cfgDump sys (handleOf fname true lines) (fname ++ ".bak".toList) disk).map fun (_, h, disk) => (some h, disk)

def cfgInitializeString (cfgstr : Text) (disk : Disk) : Option CConfig × Disk :=
  match cfgLoadConfiguration cfgstr true disk with
  | (none, disk) => (none, disk)
  | (some lines, disk) => (some (handleOf [] true lines), disk)

/-- A load that fails leaves a handle that is not ready. -/
def cfgReload (h : CConfig) (path : Option Text) (flag : Bool) (disk : Disk) : Int × CConfig × Disk :=
  let h := { h with
    iIAmReady := false, preface := [], sections := [], iDirtyFlag := false, iWriteNow := true
    iCaseSensitive := false, iTokensPerLine := 0 }
  match flag, path with
  | true, none => (-1, h, disk)
  | true, some path =>
      match cfgLoadConfiguration path true disk with
      | (none, disk) => (-1, h, disk)
      | (some lines, disk) => (0, handleOf h.filename false lines, disk)
  | false, path =>
      if 128 ≤ (path.getD []).length then (-1, h, disk)
      else
        let filename := path.getD h.filename
        match cfgLoadConfiguration filename false disk with
        | (none, disk) => (-1, { h with filename := filename }, disk)
        | (some lines, disk) => (0, handleOf filename false lines, disk)

inductive Call
  | getValue (args : Args)
  | getCount (sname id : Option Text) (sectionIndex : Int)
  | getIndex (sname id : Option Text) (start sectionIndex : Int)
  | setValue (fopen unlink rename : Bool) (args : Args) (value : Option Text)

inductive Result
  | value (v : Option Text)
  | int (n : Int)
  deriving DecidableEq

/-- There is memory for a value. -/
def step (s : CConfig × Disk) : Call → Option ((CConfig × Disk) × Result)
  | .getValue args => (cfgGetValue s.1 args).map fun v => (s, .value v)
  | .getCount sname id i => (cfgGetCount s.1 sname id i).map fun n => (s, .int n)
  | .getIndex sname id start i => (cfgGetIndex s.1 sname id start i).map fun n => (s, .int n)
  | .setValue fopen unlink rename args value =>
      (cfgSetValue ⟨true, fopen, unlink, rename⟩ s.1 args value s.2).map fun (rc, h, disk) => ((h, disk), .int rc)

inductive Way
  | file (fname : Text)
  | string
  | reloadFile (h : CConfig) (path : Option Text)
  | reloadString (h : CConfig)

def Way.Holds (text : Text) (disk : Disk) : Way → Prop
  | .file fname => fname.length < 128 ∧ disk fname = some text
  | .reloadFile h path => (path.getD h.filename).length < 128 ∧ disk (path.getD h.filename) = some text
  | _ => True

def Way.load (sys : Sys) (text : Text) (disk : Disk) : Way → Option (Option CConfig × Disk)
  | .file fname => cfgInitialize sys fname disk
  | .string => some (cfgInitializeString text disk)
  | .reloadFile h path =>
      let r := cfgReload h path false disk
      some (if r.1 = 0 then some r.2.1 else none, r.2.2)
  | .reloadString h =>
      let r := cfgReload h (some text) true disk
      some (if r.1 = 0 then some r.2.1 else none, r.2.2)

def Way.reloads : Way → Bool
  | .file _ | .string => false
  | _ => true

/-- Both loads fail, or no calls tell them apart. -/
def Agree (x y : Option CConfig × Disk) : Prop :=
  match x.1, y.1 with
  | none, none => True
  | some h, some h' => ∀ calls, (run step (h, x.2) calls).map Prod.snd = (run step (h', y.2) calls).map Prod.snd
  | _, _ => False

theorem getLines_take {acc s : Text} (hs : s ≠ []) (hzero : '\x00' ∉ s) (hacc : acc.length < 1023) :
    Cconfig.getLines acc s = (acc ++ s.take (min (lineLength s) (1023 - acc.length))) ::
      Cconfig.getLines [] (s.drop (min (lineLength s) (1023 - acc.length))) := by
  induction s generalizing acc with
  | nil => exact absurd rfl hs
  | cons c s ih =>
      obtain ⟨hc, hzero⟩ := not_or.mp (mt List.mem_cons.mpr hzero)
      have hc := Ne.symm hc
      have hunfold : Cconfig.getLines acc (c :: s) = if c = '\n' ∨ (acc ++ [c]).length = Cconfig.lineRoom then
          (acc ++ [c]) :: Cconfig.getLines [] s else Cconfig.getLines (acc ++ [c]) s := by
        rw [Cconfig.getLines]
      have hlen : (acc ++ [c]).length = acc.length + 1 := by rw [List.length_append, List.length_singleton]
      rw [hunfold, hlen]
      by_cases hend : c = '\n' ∨ acc.length + 1 = Cconfig.lineRoom
      · have hone : min (lineLength (c :: s)) (1023 - acc.length) = 1 := by
          rcases hend with hend | hend
          · rw [lineLength, if_neg hc, if_pos hend]
            omega
          · have hroom : acc.length + 1 = 1023 := hend
            have hpos := lineLength_pos hc s
            omega
        rw [if_pos hend, hone]
        rfl
      · obtain ⟨hnl, hroom⟩ := not_or.mp hend
        have hroom' : acc.length + 1 ≠ 1023 := hroom
        rw [if_neg hend]
        cases s with
        | nil =>
            have hone : min (lineLength [c]) (1023 - acc.length) = 1 := by
              rw [lineLength, if_neg hc, if_neg hnl, lineLength]
              omega
            rw [hone]
            cases acc <;> rfl
        | cons d s =>
            have hsucc : min (lineLength (c :: d :: s)) (1023 - acc.length) =
                min (lineLength (d :: s)) (1023 - (acc ++ [c]).length) + 1 := by
              rw [lineLength, if_neg hc, if_neg hnl, hlen]
              omega
            rw [ih (List.cons_ne_nil _ _) hzero (by omega), hsucc, List.append_assoc]
            rfl

theorem splitString_eq {path : Text} (hzero : '\x00' ∉ path) : splitString path = Cconfig.getLines [] path := by
  induction path using splitString.induct with
  | case1 => rw [splitString, Cconfig.getLines]
  | case2 s => exact absurd List.mem_cons_self hzero
  | case3 c s hc cc xx ih =>
      have hxx : min (lineLength (c :: s)) (1023 - ([] : Text).length) = xx := by
        change min cc (1023 - 0) = if cc < 1024 then cc else 1023
        split <;> omega
      rw [splitString, if_neg hc, getLines_take (List.cons_ne_nil _ _) hzero (by decide), hxx,
        ← ih fun hmem => hzero (List.mem_of_mem_drop hmem)]
      rfl

theorem cfgLoadConfiguration_string {text : Text} (hzero : '\x00' ∉ text) (disk : Disk) :
    cfgLoadConfiguration text true disk = (Cconfig.readLines .start (Cconfig.getLines [] text), disk) := by
  rw [cfgLoadConfiguration, if_pos rfl, splitString_eq hzero]

theorem cfgLoadConfiguration_file {path text : Text} {disk : Disk} (h : disk path = some text) :
    cfgLoadConfiguration path false disk = (Cconfig.readLines .start (Cconfig.getLines [] text), disk) := by
  rw [cfgLoadConfiguration, if_neg Bool.false_ne_true, h]

section

variable {α β : Type} {P : α → Prop} {f : α → α}

theorem mapM_isSome {g : α → Option β} {l : List α} (hg : ∀ a ∈ l, (g a).isSome) : (l.mapM g).isSome := by
  induction l with
  | nil => rfl
  | cons a l ih =>
      obtain ⟨ha, hl⟩ := List.forall_mem_cons.mp hg
      obtain ⟨b, hb⟩ := Option.isSome_iff_exists.mp ha
      obtain ⟨bs, hbs⟩ := Option.isSome_iff_exists.mp (ih hl)
      rw [List.mapM_cons, hb, Option.bind_eq_bind, Option.bind_some, hbs]
      rfl

theorem forall_mem_modify {l : List α} (hl : ∀ a ∈ l, P a) (hf : ∀ a, P a → P (f a)) (i : Nat) :
    ∀ a ∈ l.modify i f, P a := by
  induction l generalizing i with
  | nil => cases i <;> exact nofun
  | cons a l ih =>
      obtain ⟨ha, hl⟩ := List.forall_mem_cons.mp hl
      cases i with
      | zero => exact List.forall_mem_cons.mpr ⟨hf a ha, hl⟩
      | succ i => exact List.forall_mem_cons.mpr ⟨ha, ih hl i⟩

end

def Valued (l : Line) : Prop := ∀ t ∈ l.toks, t.value.isSome

structure Sound (h : CConfig) : Prop where
  preface : ∀ l ∈ h.preface, Valued l
  sections : ∀ s ∈ h.sections, ∀ l ∈ s.body, Valued l

variable {h h' : CConfig} {l : Line} {s : Section} {disk disk' : Disk} {lines : List Cconfig.Line} {sys : Sys}
  {text : Text} {w w' : Way}

theorem Valued.dump (hl : Valued l) (n : Nat) : (l.dump n).isSome := by
  cases l with
  | blank | comment name => rfl
  | tokens ts =>
      cases ts with
      | nil => rfl
      | cons t ts =>
          cases t with
          | scalar name i v =>
              have hv : v.isSome := hl (.scalar name i v) List.mem_cons_self
              obtain ⟨x, rfl⟩ := Option.isSome_iff_exists.mp hv
              rfl
          | vector i v =>
              rw [Line.dump, Option.isSome_map]
              exact mapM_isSome hl

theorem Sound.dumps (hh : Sound h) : h.text.isSome := by
  obtain ⟨ls, hls⟩ := Option.isSome_iff_exists.mp
    (mapM_isSome fun l hl => (hh.preface l hl).dump h.iTokensPerLine)
  have hsections : ∀ s ∈ h.sections, (s.dump h.iTokensPerLine).isSome := by
    intro s hs
    rw [Section.dump, Option.isSome_map]
    exact mapM_isSome fun l hl => (hh.sections s hs l hl).dump h.iTokensPerLine
  obtain ⟨ss, hss⟩ := Option.isSome_iff_exists.mp (mapM_isSome hsections)
  rw [CConfig.text, hls, hss]
  rfl

theorem putLines_valued {ls : List Line} (hls : ∀ l ∈ ls, Valued l) (v : Text) (k : Nat) :
    ∀ l ∈ putLines (some v) k ls, Valued l := by
  induction ls generalizing k with
  | nil => cases k <;> exact nofun
  | cons l ls ih =>
      obtain ⟨hl, hrest⟩ := List.forall_mem_cons.mp hls
      cases l with
      | blank | comment name => exact List.forall_mem_cons.mpr ⟨hl, ih hrest k⟩
      | tokens ts =>
          rw [putLines]
          split
          · refine List.forall_mem_cons.mpr ⟨?_, hrest⟩
            exact forall_mem_modify (P := fun t : Token => t.value.isSome) hl
              (fun t _ => by rw [value_put]; rfl) k
          · exact List.forall_mem_cons.mpr ⟨hl, ih hrest _⟩

theorem Sound.put (hh : Sound h) (place : Nat × Nat) (v : Text) : Sound (h.put place (some v)) where
  preface := hh.preface
  sections := forall_mem_modify hh.sections (fun _ hs => putLines_valued hs v place.2) place.1

theorem indexBody_valued (cs : Bool) (seen : List Text) (n : Nat) (ls : List Cconfig.Line) :
    ∀ l ∈ indexBody cs seen n ls, Valued l := by
  induction ls generalizing seen n with
  | nil => exact nofun
  | cons l ls ih =>
      cases l with
      | blank | comment name | header name => exact List.forall_mem_cons.mpr ⟨nofun, ih seen n⟩
      | vector vs =>
          refine List.forall_mem_cons.mpr ⟨fun t ht => ?_, ih seen _⟩
          obtain ⟨v, -, rfl⟩ := List.mem_map.mp ht
          rfl
      | scalar name v =>
          refine List.forall_mem_cons.mpr ⟨fun t ht => ?_, ih _ n⟩
          rw [List.mem_singleton.mp ht]
          rfl

theorem handleOf_sound (filename : Text) (cs : Bool) (lines : List Cconfig.Line) :
    Sound (handleOf filename cs lines) where
  preface := indexBody_valued cs [] 1 _
  sections := by
    intro s hs
    obtain ⟨e, -, rfl⟩ := List.mem_map.mp hs
    exact indexBody_valued cs [] 1 _

/-- Two handles that are the same but for their file. -/
structure Twin (h h' : CConfig) : Prop where
  preface : h'.preface = h.preface
  sections : h'.sections = h.sections
  iWriteNow : h'.iWriteNow = h.iWriteNow
  iCaseSensitive : h'.iCaseSensitive = h.iCaseSensitive
  iTokensPerLine : h'.iTokensPerLine = h.iTokensPerLine
  iIAmReady : h'.iIAmReady = h.iIAmReady
  sound : Sound h

theorem Twin.locate (ht : Twin h h') (args : Args) : h'.locate args = h.locate args := by
  rw [CConfig.locate, CConfig.locate, ht.iIAmReady, ht.sections, ht.iCaseSensitive]

theorem Twin.token (ht : Twin h h') (place : Nat × Nat) : h'.token place = h.token place := by
  rw [CConfig.token, CConfig.token, ht.sections]

theorem Twin.sound' (ht : Twin h h') : Sound h' :=
  ⟨ht.preface ▸ ht.sound.preface, ht.sections ▸ ht.sound.sections⟩

theorem Twin.put (ht : Twin h h') (place : Nat × Nat) (v : Text) :
    Twin (h.put place (some v)) (h'.put place (some v)) :=
  ⟨ht.preface, by rw [CConfig.put, CConfig.put, ht.sections], ht.iWriteNow, ht.iCaseSensitive, ht.iTokensPerLine,
    ht.iIAmReady, ht.sound.put place v⟩

theorem save_sound (sys : Sys) (hh : Sound h) (hready : h.iIAmReady = true) (disk : Disk) :
    ∃ rc b disk', cfgSaveMeToFile sys h disk = some (rc, { h with iDirtyFlag := b }, disk') := by
  have hsome : (cfgSaveMeToFile sys h disk).isSome := by
    by_cases hopen : h.filename = [] ∨ sys.fopen = false
    · rw [save_unopened sys hready hopen]
      rfl
    · obtain ⟨hname, hopen⟩ := not_or.mp hopen
      rw [save_opened sys hready hname (by simpa using hopen), Option.isSome_map]
      exact hh.dumps
  obtain ⟨⟨rc, h', disk'⟩, hs⟩ := Option.isSome_iff_exists.mp hsome
  refine ⟨rc, h'.iDirtyFlag, disk', ?_⟩
  rw [← save_form sys hready hs, hs]

theorem set_located {args : Args} {place : Nat × Nat} {old v : Text} (fopen unlink rename : Bool) (hh : Sound h)
    (hl : h.locate args = some place) (ht : (h.token place).bind Token.value = some old) (disk : Disk) :
    ∃ b disk', cfgSetValue ⟨true, fopen, unlink, rename⟩ h args (some v) disk = some (0,
      { (if sameName h.iCaseSensitive old v then h else h.put place (some v)) with iDirtyFlag := b }, disk') := by
  have hset : cfgSetValue ⟨true, fopen, unlink, rename⟩ h args (some v) disk =
      if sameName h.iCaseSensitive old v then some ((0 : Int), h, disk)
      else if ¬ v.length ≤ old.length ∧ !true then some (-1, h.put place none, disk)
      else if h.iWriteNow then
        (cfgSaveMeToFile ⟨true, fopen, unlink, rename⟩ (h.put place (some v)) disk).map fun (_, h, disk) => (0, h, disk)
      else some (0, { h.put place (some v) with iDirtyFlag := true }, disk) := by
    rw [cfgSetValue, hl]
    dsimp only
    rw [ht]
  rw [hset]
  by_cases hsame : sameName h.iCaseSensitive old v = true
  · rw [if_pos hsame, if_pos hsame]
    exact ⟨h.iDirtyFlag, disk, rfl⟩
  · rw [if_neg hsame, if_neg hsame, if_neg fun hm => absurd hm.2 (by decide)]
    by_cases hw : h.iWriteNow = true
    · have hready : (h.put place (some v)).iIAmReady = true := show h.iIAmReady = true from ready_of_locate hl
      obtain ⟨rc, b, disk', hs⟩ := save_sound ⟨true, fopen, unlink, rename⟩ (hh.put place v) hready disk
      rw [if_pos hw, hs]
      exact ⟨b, disk', rfl⟩
    · rw [if_neg hw]
      exact ⟨true, disk, rfl⟩

theorem set_nowhere {args : Args} (value : Option Text) (hl : h.locate args = none) (disk : Disk) :
    cfgSetValue sys h args value disk = some (-1, h, disk) := by
  cases value with
  | none => rfl
  | some v => rw [cfgSetValue, hl]

theorem Sound.value {place : Nat × Nat} {t : Token} (hh : Sound h) (ht : h.token place = some t) :
    t.value.isSome := by
  obtain ⟨s, hs, hk⟩ := Option.bind_eq_some_iff.mp ht
  obtain ⟨l, hl, hmem⟩ := List.mem_flatMap.mp (List.mem_of_getElem? hk)
  exact hh.sections s (List.mem_of_getElem? hs) l hl t hmem

theorem Twin.dirty (ht : Twin h h') (b b' : Bool) : Twin { h with iDirtyFlag := b } { h' with iDirtyFlag := b' } :=
  ⟨ht.preface, ht.sections, ht.iWriteNow, ht.iCaseSensitive, ht.iTokensPerLine, ht.iIAmReady,
    ht.sound.preface, ht.sound.sections⟩

theorem step_twin (ht : Twin h h') (c : Call) (disk disk' : Disk) :
    (step (h, disk) c = none ∧ step (h', disk') c = none) ∨
      ∃ s s' r, step (h, disk) c = some (s, r) ∧ step (h', disk') c = some (s', r) ∧ Twin s.1 s'.1 := by
  -- a question leaves the handle as it is
  have hask : ∀ o : Option Result, (o.map fun r => ((h, disk), r)) = none ∧ (o.map fun r => ((h', disk'), r)) = none ∨
      ∃ s s' r, (o.map fun r => ((h, disk), r)) = some (s, r) ∧ (o.map fun r => ((h', disk'), r)) = some (s', r) ∧
        Twin s.1 s'.1 := by
    intro o
    cases o with
    | none => exact .inl ⟨rfl, rfl⟩
    | some r => exact .inr ⟨(h, disk), (h', disk'), r, rfl, rfl, ht⟩
  cases c with
  | getValue args =>
      have hsame : cfgGetValue h' args = cfgGetValue h args := by
        rw [cfgGetValue, cfgGetValue, ht.locate, show h'.token = h.token from funext ht.token]
      have hboth := hask ((cfgGetValue h args).map .value)
      rw [Option.map_map, Option.map_map] at hboth
      rw [step, step, hsame]
      exact hboth
  | getCount sname id i =>
      have hsame : cfgGetCount h' sname id i = cfgGetCount h sname id i := by
        unfold cfgGetCount
        rw [ht.iIAmReady, ht.sections, ht.iCaseSensitive]
      have hboth := hask ((cfgGetCount h sname id i).map .int)
      rw [Option.map_map, Option.map_map] at hboth
      rw [step, step, hsame]
      exact hboth
  | getIndex sname id start i =>
      have hsame : cfgGetIndex h' sname id start i = cfgGetIndex h sname id start i := by
        unfold cfgGetIndex
        rw [ht.iIAmReady, ht.sections, ht.iCaseSensitive]
      have hboth := hask ((cfgGetIndex h sname id start i).map .int)
      rw [Option.map_map, Option.map_map] at hboth
      rw [step, step, hsame]
      exact hboth
  | setValue fopen unlink rename args value =>
      right
      cases value with
      | none => exact ⟨(h, disk), (h', disk'), .int (-1), rfl, rfl, ht⟩
      | some v =>
          cases hl : h.locate args with
          | none =>
              refine ⟨(h, disk), (h', disk'), .int (-1), ?_, ?_, ht⟩
              · rw [step, set_nowhere _ hl]
                rfl
              · rw [step, set_nowhere _ ((ht.locate args).trans hl)]
                rfl
          | some place =>
              obtain ⟨t, htok⟩ := token_of_locate h hl
              obtain ⟨old, hold⟩ := Option.isSome_iff_exists.mp (ht.sound.value htok)
              have hvalue : (h.token place).bind Token.value = some old := by rw [htok, Option.bind_some, hold]
              obtain ⟨b, disk1, h1⟩ := set_located fopen unlink rename ht.sound hl hvalue (v := v) disk
              obtain ⟨b', disk1', h1'⟩ := set_located fopen unlink rename ht.sound'
                ((ht.locate args).trans hl) ((ht.token place) ▸ hvalue) (v := v) disk'
              refine ⟨_, _, .int 0, by rw [step, h1]; rfl, by rw [step, h1']; rfl, ?_⟩
              rw [ht.iCaseSensitive]
              apply Twin.dirty
              split
              · exact ht
              · exact ht.put place v

theorem run_twin (ht : Twin h h') (calls : List Call) (disk disk' : Disk) :
    (run step (h, disk) calls).map Prod.snd = (run step (h', disk') calls).map Prod.snd := by
  induction calls generalizing h h' disk disk' with
  | nil => rfl
  | cons c calls ih =>
      obtain ⟨hnone, hnone'⟩ | ⟨s, s', r, hs, hs', hnext⟩ := step_twin ht c disk disk'
      · rw [run, run, hnone, hnone']
      · have hrest := ih hnext s.2 s'.2
        rw [run, run, hs, hs', Option.bind_some, Option.bind_some, Option.map_map, Option.map_map]
        have hcons : ∀ o : Option ((CConfig × Disk) × List Result),
            o.map (Prod.snd ∘ fun q => (q.1, r :: q.2)) = (o.map Prod.snd).map (r :: ·) := by
          intro o
          rw [Option.map_map]
          rfl
        exact (hcons _).trans ((congrArg _ hrest).trans (hcons _).symm)

theorem isAlpha_iff (c : Char) : c.isAlpha = true ↔
    (65 ≤ c.val.toNat ∧ c.val.toNat ≤ 90) ∨ 97 ≤ c.val.toNat ∧ c.val.toNat ≤ 122 := by
  have hranges : c.isAlpha = (decide (c.val ≥ 'A'.val ∧ c.val ≤ 'Z'.val) ||
      decide (c.val ≥ 'a'.val) && decide (c.val ≤ 'z'.val)) := rfl
  rw [hranges]
  simp only [Bool.or_eq_true, Bool.and_eq_true, decide_eq_true_eq, ge_iff_le, UInt32.le_iff_toNat_le,
    Char.reduceVal, UInt32.reduceToNat]

theorem lower_plain {c d : Char} (h : c.toLower = d) (hd : d.isAlpha = false) : c = d := by
  unfold Char.toLower at h
  split at h
  · rename_i hupper
    subst h
    rw [← Bool.not_eq_true, isAlpha_iff] at hd
    simp only [ge_iff_le, UInt32.le_iff_toNat_le, UInt32.toNat_add, Char.reduceVal, UInt32.reduceToNat,
      UInt32.reduceSub] at hupper hd
    omega
  · exact h

theorem exists_other_case {c : Char} (h : c.isAlpha = true) : ∃ d, d ≠ c ∧ d.toLower = c.toLower := by
  have hcode : ∀ n, (97 ≤ n ∧ n < 123) ∨ (65 ≤ n ∧ n < 91) →
      ∃ d, d ≠ Char.ofNat n ∧ d.toLower = (Char.ofNat n).toLower := by
    rintro n (⟨hlow, hhigh⟩ | ⟨hlow, hhigh⟩)
    · refine ⟨Char.ofNat (n - 32), ?_⟩
      interval_cases n <;> decide
    · refine ⟨Char.ofNat (n + 32), ?_⟩
      interval_cases n <;> decide
  have hc := hcode c.toNat (by
    rw [isAlpha_iff] at h
    have hval : c.toNat = c.val.toNat := rfl
    omega)
  rwa [Char.ofNat_toNat] at hc

def Plain (name : Text) : Prop := ∀ c ∈ name, c.isAlpha = false

theorem Plain.lower {name a : Text} (hname : Plain name) (h : a.map Char.toLower = name) : a = name := by
  induction a generalizing name with
  | nil => exact h
  | cons c a ih =>
      subst h
      obtain ⟨hc, ha⟩ := List.forall_mem_cons.mp hname
      have hfirst := lower_plain rfl hc
      have hrest := ih ha rfl
      rw [List.map_cons, ← hfirst, ← hrest]

theorem Plain.map {name : Text} (hname : Plain name) : name.map Char.toLower = name := by
  induction name with
  | nil => rfl
  | cons c name ih =>
      obtain ⟨hc, hrest⟩ := List.forall_mem_cons.mp hname
      have hupper : c.isUpper = false := (Bool.or_eq_false_iff.mp hc).1
      have hlower : c.toLower = c := by
        unfold Char.toLower
        exact dif_neg (of_decide_eq_false hupper)
      rw [List.map_cons, hlower, ih hrest]

theorem Plain.sameName {name : Text} (hname : Plain name) (cs : Bool) (a : Text) :
    sameName cs a name = decide (a = name) := by
  cases cs with
  | true => rfl
  | false =>
      rw [CconfigHandle.sameName, if_neg Bool.false_ne_true, hname.map]
      exact decide_eq_decide.mpr ⟨hname.lower, fun he => he ▸ hname.map⟩

theorem exists_other_name {name : Text} (hname : ¬ Plain name) :
    ∃ a, a ≠ name ∧ a.map Char.toLower = name.map Char.toLower := by
  obtain ⟨c, hc, halpha⟩ : ∃ c ∈ name, c.isAlpha = true := by
    by_contra hno
    exact hname fun c hc => by
      by_contra ha
      exact hno ⟨c, hc, by simpa using ha⟩
  obtain ⟨l, r, rfl⟩ := List.append_of_mem hc
  obtain ⟨d, hne, hlower⟩ := exists_other_case halpha
  refine ⟨l ++ d :: r, ?_, ?_⟩
  · intro he
    exact hne (List.cons.inj (List.append_cancel_left he)).1
  · rw [List.map_append, List.map_append, List.map_cons, List.map_cons, hlower]

/-- No line of a section has a token, and no name a letter. -/
def Bare (lines : List Cconfig.Line) : Prop :=
  ∀ s ∈ (bodies lines).2, Plain s.1 ∧ s.2.flatMap Cconfig.Line.tokens = []

theorem indexBody_bare {ls : List Cconfig.Line} (h : ls.flatMap Cconfig.Line.tokens = []) (cs : Bool)
    (seen : List Text) (n : Nat) : indexBody cs seen n ls = indexBody true [] 1 ls ∧
      (indexBody cs seen n ls).flatMap Line.toks = [] := by
  induction ls generalizing seen n with
  | nil => exact ⟨rfl, rfl⟩
  | cons l ls ih =>
      rw [List.flatMap_cons, List.append_eq_nil_iff] at h
      obtain ⟨hl, hrest⟩ := h
      have hnext := ih hrest
      cases l with
      | blank | header name => exact ⟨congrArg (Line.blank :: ·) (hnext seen n).1, (hnext seen n).2⟩
      | comment name => exact ⟨congrArg (Line.comment name :: ·) (hnext seen n).1, (hnext seen n).2⟩
      | vector vs =>
          obtain rfl := List.map_eq_nil_iff.mp hl
          exact ⟨congrArg (Line.tokens [] :: ·) (hnext seen n).1, (hnext seen n).2⟩
      | scalar name v => cases hl

theorem sections_plain (hplain : ∀ s ∈ (bodies lines).2, Plain s.1) (filename : Text) (cs : Bool) :
    (handleOf filename cs lines).sections = (number (fun a b => decide (a.1 = b.1)) (bodies lines).2).map fun s =>
      ⟨s.1.1, s.2, indexBody cs [] 1 s.1.2⟩ := by
  have hnumber : number (fun a b : Text × List Cconfig.Line => sameName cs a.1 b.1) (bodies lines).2 =
      number (fun a b => decide (a.1 = b.1)) (bodies lines).2 :=
    number_congr fun x _ y hy => (hplain y hy).sameName cs x.1
  rw [handleOf, hnumber]

theorem mem_number {α : Type} {same : α → α → Bool} {xs : List α} {e : α × Nat} (h : e ∈ number same xs) : e.1 ∈ xs := by
  obtain ⟨j, hj, rfl⟩ := List.getElem_of_mem h
  rw [number, length_numberFrom] at hj
  simp only [number, getElem_numberFrom [] xs hj]
  exact List.getElem_mem hj

/-- Two handles with nothing to ask for. -/
structure Quiet (h h' : CConfig) : Prop where
  sections : h'.sections = h.sections
  ready : h.iIAmReady = true
  ready' : h'.iIAmReady = true
  plain : ∀ s ∈ h.sections, Plain s.name
  empty : ∀ s ∈ h.sections, s.tokens = []

theorem handleOf_quiet (hbare : Bare lines) (f f' : Text) (cs cs' : Bool) :
    Quiet (handleOf f cs lines) (handleOf f' cs' lines) := by
  have hplain : ∀ s ∈ (bodies lines).2, Plain s.1 := fun s hs => (hbare s hs).1
  refine ⟨?_, rfl, rfl, ?_, ?_⟩
  · rw [sections_plain hplain, sections_plain hplain]
    apply List.map_congr_left
    intro e he
    have hempty := (hbare e.1 (mem_number he)).2
    rw [(indexBody_bare hempty cs [] 1).1, (indexBody_bare hempty cs' [] 1).1]
  · intro s hs
    obtain ⟨e, he, rfl⟩ := List.mem_map.mp hs
    exact hplain e.1 (mem_number he)
  · intro s hs
    obtain ⟨e, he, rfl⟩ := List.mem_map.mp hs
    exact (indexBody_bare (hbare e.1 (mem_number he)).2 cs [] 1).2

theorem Quiet.swap (hq : Quiet h h') : Quiet h' h :=
  ⟨hq.sections.symm, hq.ready', hq.ready, fun s hs => hq.plain s (hq.sections ▸ hs),
    fun s hs => hq.empty s (hq.sections ▸ hs)⟩

theorem Quiet.locate (hq : Quiet h h') (args : Args) : h.locate args = none := by
  cases hl : h.locate args with
  | none => rfl
  | some place =>
      obtain ⟨t, ht⟩ := token_of_locate h hl
      obtain ⟨s, hs, hk⟩ := Option.bind_eq_some_iff.mp ht
      rw [hq.empty s (List.mem_of_getElem? hs)] at hk
      cases hk

theorem findIdx_congr {α : Type} {p q : α → Bool} {l : List α} (h : ∀ a ∈ l, p a = q a) :
    l.findIdx? p = l.findIdx? q := by
  induction l with
  | nil => rfl
  | cons a l ih =>
      obtain ⟨ha, hl⟩ := List.forall_mem_cons.mp h
      rw [List.findIdx?_cons, List.findIdx?_cons, ha, ih hl]

theorem Quiet.getCount (hq : Quiet h h') (sname id : Option Text) (i : Int) : cfgGetCount h sname id i =
    match sname with
    | none => some (-1)
    | some name => some (if i = 0 then h.sections.foldl (fun index s => if name = s.name then s.index else index) 0
        else 0) := by
  cases sname with
  | none =>
      unfold cfgGetCount
      rw [hq.ready]
  | some name =>
      unfold cfgGetCount
      rw [hq.ready]
      dsimp only
      by_cases hi : i = 0
      · rw [if_pos hi, if_pos hi]
        apply congrArg some
        apply List.foldl_ext
        intro index s hs
        rw [(hq.plain s hs).sameName]
        simp only [decide_eq_true_eq]
      · rw [if_neg hi, if_neg hi]
        cases hf : h.sections.find? (·.asked h.iCaseSensitive name i) with
        | none => rfl
        | some s =>
            have hs := hq.empty s (List.mem_of_find?_eq_some hf)
            dsimp only
            rw [hs]

theorem Quiet.getIndex (hq : Quiet h h') (sname id : Option Text) (start i : Int) : cfgGetIndex h sname id start i =
    match sname with
    | none => some (-1)
    | some name => some (match h.sections.findIdx? fun s => decide (name = s.name) && s.index == i, id with
        | some j, none => (j : Int) + 1
        | _, _ => -1) := by
  cases sname with
  | none =>
      unfold cfgGetIndex
      rw [hq.ready]
  | some name =>
      have hfind : h.sections.findIdx? (·.asked h.iCaseSensitive name i) =
          h.sections.findIdx? fun s => decide (name = s.name) && s.index == i :=
        findIdx_congr fun s hs => by rw [Section.asked, (hq.plain s hs).sameName]
      unfold cfgGetIndex
      rw [hq.ready]
      dsimp only
      rw [hfind]
      cases hf : h.sections.findIdx? fun s => decide (name = s.name) && s.index == i with
      | none => rfl
      | some j =>
          have hempty : (h.sections[j]?.map Section.tokens).getD [] = [] := by
            cases hj : h.sections[j]? with
            | none => rfl
            | some s => exact hq.empty s (List.mem_of_getElem? hj)
          dsimp only
          rw [hempty]
          cases id <;> rfl

theorem step_quiet (hq : Quiet h h') (c : Call) (disk disk' : Disk) : ∃ r,
    step (h, disk) c = some ((h, disk), r) ∧ step (h', disk') c = some ((h', disk'), r) := by
  cases c with
  | getValue args =>
      refine ⟨.value none, ?_, ?_⟩
      · rw [step, cfgGetValue, hq.locate]
        rfl
      · rw [step, cfgGetValue, hq.swap.locate]
        rfl
  | getCount sname id i =>
      have hsame : cfgGetCount h' sname id i = cfgGetCount h sname id i := by
        rw [hq.getCount, hq.swap.getCount, hq.sections]
      rw [step, step, hsame, hq.getCount]
      cases sname with
      | none => exact ⟨_, rfl, rfl⟩
      | some name => exact ⟨_, rfl, rfl⟩
  | getIndex sname id start i =>
      have hsame : cfgGetIndex h' sname id start i = cfgGetIndex h sname id start i := by
        rw [hq.getIndex, hq.swap.getIndex, hq.sections]
      rw [step, step, hsame, hq.getIndex]
      cases sname with
      | none => exact ⟨_, rfl, rfl⟩
      | some name => exact ⟨_, rfl, rfl⟩
  | setValue fopen unlink rename args value =>
      refine ⟨.int (-1), ?_, ?_⟩
      · rw [step, set_nowhere _ (hq.locate args)]
        rfl
      · rw [step, set_nowhere _ (hq.swap.locate args)]
        rfl

theorem run_quiet (hq : Quiet h h') (calls : List Call) (disk disk' : Disk) :
    ∃ rs, run step (h, disk) calls = some ((h, disk), rs) ∧ run step (h', disk') calls = some ((h', disk'), rs) := by
  induction calls with
  | nil => exact ⟨[], rfl, rfl⟩
  | cons c calls ih =>
      obtain ⟨r, hr, hr'⟩ := step_quiet hq c disk disk'
      obtain ⟨rs, hrs, hrs'⟩ := ih
      exact ⟨r :: rs, run_cons.mpr ⟨_, r, rs, hr, hrs, rfl⟩, run_cons.mpr ⟨_, r, rs, hr', hrs', rfl⟩⟩

theorem sameName_class {cs : Bool} {a b : Text} (hab : sameName cs a b = true) (c : Text) :
    sameName cs b c = sameName cs a c := by
  cases cs with
  | true =>
      obtain rfl := of_decide_eq_true hab
      rfl
  | false =>
      have hlower : a.map Char.toLower = b.map Char.toLower := of_decide_eq_true hab
      rw [sameName, sameName, if_neg Bool.false_ne_true, if_neg Bool.false_ne_true, hlower]

theorem getCount_handleOf (filename a : Text) (cs : Bool) (id : Option Text) (lines : List Cconfig.Line) :
    cfgGetCount (handleOf filename cs lines) (some a) id 0 =
      some (((bodies lines).2.countP fun s => sameName cs a s.1 : Nat) : Int) := by
  have hclass : Class (fun x y : Text × List Cconfig.Line => sameName cs x.1 y.1) fun s => sameName cs a s.1 :=
    fun x y hx => sameName_class hx y.1
  have hlast := last_number hclass (bodies lines).2
  have hcount : cfgGetCount (handleOf filename cs lines) (some a) id 0 =
      some ((handleOf filename cs lines).sections.foldl
        (fun index s => if sameName cs a s.name then s.index else index) 0) := rfl
  rw [hcount, ← hlast, handleOf, List.foldl_map]
  apply congrArg some
  -- the indices are natural numbers
  have hcast : ∀ (l : List ((Text × List Cconfig.Line) × Nat)) (n : Nat),
      l.foldl (fun index s => if sameName cs a s.1.1 then (s.2 : Int) else index) (n : Int) =
        ((l.foldl (fun n e => if sameName cs a e.1.1 then e.2 else n) n : Nat) : Int) := by
    intro l
    induction l with
    | nil => exact fun _ => rfl
    | cons e l ih =>
        intro n
        rw [List.foldl_cons, List.foldl_cons]
        split
        · exact ih e.2
        · exact ih n
  exact hcast _ 0

theorem countP_lt {α : Type} {p q : α → Bool} {l : List α} (hpq : ∀ a ∈ l, p a → q a) {a : α} (ha : a ∈ l)
    (hp : p a = false) (hq : q a = true) : l.countP p < l.countP q := by
  obtain ⟨l1, l2, rfl⟩ := List.append_of_mem ha
  have h1 := List.countP_mono_left fun x hx => hpq x (List.mem_append_left _ hx)
  have h2 := List.countP_mono_left fun x hx => hpq x (List.mem_append_right l1 (List.mem_cons_of_mem a hx))
  rw [List.countP_append, List.countP_append, List.countP_cons_of_neg (by rw [hp]; exact Bool.false_ne_true),
    List.countP_cons_of_pos hq]
  omega

theorem count_differs (hlines : ∃ s ∈ (bodies lines).2, ¬ Plain s.1) (f f' : Text) : ∃ a,
    cfgGetCount (handleOf f true lines) (some a) none 0 ≠ cfgGetCount (handleOf f' false lines) (some a) none 0 := by
  obtain ⟨s, hs, hname⟩ := hlines
  obtain ⟨a, hne, hlower⟩ := exists_other_name hname
  refine ⟨a, ?_⟩
  rw [getCount_handleOf, getCount_handleOf]
  have hlt := @countP_lt _ (fun s => sameName true a s.1) (fun s => sameName false a s.1) _
    (fun s _ hsame => by
      obtain rfl := of_decide_eq_true (show decide (a = s.1) = true from hsame)
      exact decide_eq_true rfl) s hs (decide_eq_false hne) (decide_eq_true hlower)
  intro he
  have hcount := Int.natCast_inj.mp (Option.some.inj he)
  exact absurd hcount (Nat.ne_of_lt hlt)

def firstToken (id : Option Text) (value : Text) : Token :=
  match id with
  | none => .vector 1 (some value)
  | some name => .scalar name 1 (some value)

theorem indexBody_first {ls : List Cconfig.Line} (h : ls.flatMap Cconfig.Line.tokens ≠ []) :
    ∃ id value, ∀ cs, ∃ ts, (indexBody cs [] 1 ls).flatMap Line.toks = firstToken id value :: ts := by
  induction ls with
  | nil => exact absurd rfl h
  | cons l ls ih =>
      cases l with
      | blank | comment name | header name => exact ih h
      | vector vs =>
          cases vs with
          | nil => exact ih h
          | cons v vs => exact ⟨none, v, fun cs => ⟨_, rfl⟩⟩
      | scalar name v => exact ⟨some name, v, fun cs => ⟨_, rfl⟩⟩

theorem exists_located (hplain : ∀ s ∈ (bodies lines).2, Plain s.1)
    (htokens : ∃ s ∈ (bodies lines).2, s.2.flatMap Cconfig.Line.tokens ≠ []) : ∃ args place old, ∀ f cs,
    (handleOf f cs lines).locate args = some place ∧
      ((handleOf f cs lines).token place).bind Token.value = some old := by
  obtain ⟨s, hs, htok⟩ := htokens
  obtain ⟨j, hj, rfl⟩ := List.getElem_of_mem hs
  obtain ⟨id, old, hfirst⟩ := indexBody_first htok
  have hlen : j < (number (fun a b => decide (a.1 = b.1)) (bodies lines).2).length := by
    rwa [number, length_numberFrom]
  refine ⟨⟨some (bodies lines).2[j].1, id, 1, (number (fun a b => decide (a.1 = b.1)) (bodies lines).2)[j].2⟩,
    (j, 0), old, fun f cs => ?_⟩
  obtain ⟨ts, hts⟩ := hfirst cs
  have hsections := sections_plain hplain f cs
  have hfst : ∀ i (hi : i < (bodies lines).2.length), (getElem (number (fun a b => decide (a.1 = b.1))
      (bodies lines).2) i (by rwa [number, length_numberFrom])).1 = (bodies lines).2[i] := by
    intro i hi
    simp only [number, getElem_numberFrom [] _ hi]
  have hsection : (handleOf f cs lines).sections[j]? = some ⟨(bodies lines).2[j].1,
      (number (fun a b => decide (a.1 = b.1)) (bodies lines).2)[j].2, indexBody cs [] 1 (bodies lines).2[j].2⟩ := by
    rw [hsections, List.getElem?_map, List.getElem?_eq_getElem hlen, Option.map_some, hfst j hj]
  have hfound : (handleOf f cs lines).sections.findIdx? (·.asked cs (bodies lines).2[j].1
      (number (fun a b => decide (a.1 = b.1)) (bodies lines).2)[j].2) = some j := by
    rw [hsections, List.findIdx?_eq_some_iff_getElem]
    refine ⟨by rwa [List.length_map], ?_, fun i hi => ?_⟩
    · simp only [List.getElem_map, Section.asked, hfst j hj, (hplain _ hs).sameName, decide_true, beq_self_eq_true,
        Bool.and_self]
    · have hi' : i < (bodies lines).2.length := by omega
      simp only [List.getElem_map, Section.asked, hfst i hi', (hplain _ (List.getElem_mem hi')).sameName]
      intro hboth
      obtain ⟨hname, hindex⟩ := Bool.and_eq_true_iff.mp hboth
      have hlt := number_lt (p := fun s : Text × List Cconfig.Line => decide ((bodies lines).2[j].1 = s.1))
        (show Class (fun a b => decide (a.1 = b.1)) _ from fun x y hx => by rw [of_decide_eq_true hx]) hi hj hname
        (decide_eq_true rfl)
      have heq := Int.natCast_inj.mp (eq_of_beq hindex)
      omega
  have hasked : (firstToken id old).asked cs id 1 = true := by
    cases id with
    | none => rfl
    | some name =>
        cases cs with
        | true => exact decide_eq_true rfl
        | false => exact decide_eq_true rfl
  constructor
  · have hready : (!(handleOf f cs lines).iIAmReady) = false := rfl
    rw [CConfig.locate, hready, if_neg Bool.false_ne_true]
    dsimp only
    rw [show (handleOf f cs lines).iCaseSensitive = cs from rfl, hfound, Option.bind_some, hsection, Option.bind_some,
      Section.tokens, hts, List.findIdx?_cons, if_pos hasked]
    rfl
  · rw [CConfig.token, hsection, Option.bind_some, Section.tokens, hts]
    cases id <;> rfl

/-- What stands in a token after a list of values was set. -/
def afterSets (cs : Bool) (old : Text) (vs : List Text) : Text :=
  vs.foldl (fun old v => if sameName cs old v then old else v) old

theorem run_sets {args : Args} {place : Nat × Nat} (vs : List Text) {old : Text} (hh : Sound h)
    (hl : h.locate args = some place) (ht : (h.token place).bind Token.value = some old) (disk : Disk) :
    (run step (h, disk) (vs.map (fun v => .setValue true true true args (some v)) ++ [.getValue args])).map Prod.snd =
      some (vs.map (fun _ => .int 0) ++ [.value (some (afterSets h.iCaseSensitive old vs))]) := by
  induction vs generalizing h old disk with
  | nil =>
      have hget := cfgGetValue_of_locate hl ht
      have hstep : step (h, disk) (.getValue args) = some ((h, disk), .value (some old)) := by
        rw [step, hget]
        rfl
      rw [List.map_nil, List.nil_append, run, hstep]
      rfl
  | cons v vs ih =>
      obtain ⟨b, disk1, hset⟩ := set_located true true true hh hl ht (v := v) disk
      generalize hnext : ({ (if sameName h.iCaseSensitive old v then h else h.put place (some v)) with
        iDirtyFlag := b } : CConfig) = h1 at hset
      have hstep : step (h, disk) (.setValue true true true args (some v)) = some ((h1, disk1), .int 0) := by
        rw [step, hset]
        rfl
      have hfacts : Sound h1 ∧ h1.locate args = some place ∧ h1.iCaseSensitive = h.iCaseSensitive ∧
          (h1.token place).bind Token.value = some (if sameName h.iCaseSensitive old v then old else v) := by
        rw [← hnext]
        by_cases hsame : sameName h.iCaseSensitive old v = true
        · rw [if_pos hsame, if_pos hsame]
          exact ⟨⟨hh.preface, hh.sections⟩, hl, rfl, ht⟩
        · rw [if_neg hsame, if_neg hsame]
          have hput := hh.put place v
          obtain ⟨t, htok⟩ := token_of_locate h hl
          refine ⟨⟨hput.preface, hput.sections⟩, (locate_put h place _ args).trans hl, rfl, ?_⟩
          have htoken := token_put h place place (some v)
          rw [htok, Option.map_some, if_pos rfl] at htoken
          change ((h.put place (some v)).token place).bind Token.value = some v
          rw [htoken, Option.bind_some, value_put]
      obtain ⟨hh1, hl1, hcs1, ht1⟩ := hfacts
      have hrest := ih hh1 hl1 ht1 disk1
      rw [hcs1] at hrest
      obtain ⟨⟨s', rs⟩, hrun, hrs⟩ := Option.map_eq_some_iff.mp hrest
      have hall : run step (h, disk) (.setValue true true true args (some v) ::
          (vs.map (fun v => .setValue true true true args (some v)) ++ [.getValue args])) = some (s', .int 0 :: rs) :=
        run_cons.mpr ⟨_, _, rs, hstep, hrun, rfl⟩
      rw [List.map_cons, List.cons_append, hall, Option.map_some]
      exact congrArg (fun rs => some (.int 0 :: rs)) hrs

def letters : List Text := [['b'], ['a'], ['A']]

theorem afterSets_strict (old : Text) : afterSets true old letters = ['A'] := by
  have hset : ∀ old v : Text, (if sameName true old v then old else v) = v := by
    intro old v
    split
    · rename_i hsame
      exact of_decide_eq_true hsame
    · rfl
  simp only [afterSets, letters, List.foldl_cons, List.foldl_nil, hset]

theorem afterSets_loose (old : Text) : afterSets false old letters = ['a'] := by
  have hb : ∃ x, (if sameName false old ['b'] then old else ['b']) = x ∧ sameName false x ['a'] = false := by
    by_cases hsame : sameName false old ['b'] = true
    · refine ⟨old, if_pos hsame, ?_⟩
      have hlower : old.map Char.toLower = ['b'] := of_decide_eq_true hsame
      exact decide_eq_false (by rw [hlower]; decide)
    · exact ⟨['b'], if_neg hsame, by decide⟩
  obtain ⟨x, hx, ha⟩ := hb
  have hA : sameName false ['a'] ['A'] = true := by decide
  simp only [afterSets, letters, List.foldl_cons, List.foldl_nil, hx, ha, hA, if_true, Bool.false_eq_true, if_false]

theorem agree_iff_bare (f f' : Text) (disk disk' : Disk) : (∀ calls,
      (run step (handleOf f true lines, disk) calls).map Prod.snd =
        (run step (handleOf f' false lines, disk') calls).map Prod.snd) ↔ Bare lines := by
  constructor
  · intro hagree
    by_contra hbare
    by_cases hplain : ∀ s ∈ (bodies lines).2, Plain s.1
    · have htokens : ∃ s ∈ (bodies lines).2, s.2.flatMap Cconfig.Line.tokens ≠ [] := by
        by_contra hno
        exact hbare fun s hs => ⟨hplain s hs, by_contra fun ht => hno ⟨s, hs, ht⟩⟩
      obtain ⟨args, place, old, hboth⟩ := exists_located hplain htokens
      have hstrict := run_sets letters (handleOf_sound f true lines) (hboth f true).1 (hboth f true).2 disk
      have hloose := run_sets letters (handleOf_sound f' false lines) (hboth f' false).1 (hboth f' false).2 disk'
      have hsame := hstrict.symm.trans ((hagree _).trans hloose)
      rw [show (handleOf f true lines).iCaseSensitive = true from rfl, afterSets_strict,
        show (handleOf f' false lines).iCaseSensitive = false from rfl, afterSets_loose] at hsame
      exact absurd hsame (by decide)
    · have hname : ∃ s ∈ (bodies lines).2, ¬ Plain s.1 := by
        by_contra hno
        exact hplain fun s hs => by_contra fun hp => hno ⟨s, hs, hp⟩
      obtain ⟨a, hdiffer⟩ := count_differs hname f f'
      have hcalls := hagree [.getCount (some a) none 0]
      rw [run, run, step, step, getCount_handleOf, getCount_handleOf] at hcalls
      rw [getCount_handleOf, getCount_handleOf] at hdiffer
      apply hdiffer
      injection hcalls with hlist
      injection hlist with hcount
      injection hcount with hcount
      rw [hcount]
  · intro hbare calls
    obtain ⟨rs, hr, hr'⟩ := run_quiet (handleOf_quiet hbare f f' true false) calls disk disk'
    rw [hr, hr']
    rfl

theorem load_eq (hzero : '\x00' ∉ text) (hw : w.Holds text disk) : ∃ f disk', w.load sys text disk =
    some ((Cconfig.readLines .start (Cconfig.getLines [] text)).map (handleOf f !w.reloads), disk') := by
  cases w with
  | file fname =>
      obtain ⟨hlen, hfile⟩ := hw
      rw [Way.load, cfgInitialize, if_neg (by omega), cfgLoadConfiguration_file hfile]
      cases Cconfig.readLines .start (Cconfig.getLines [] text) with
      | none => exact ⟨[], disk, rfl⟩
      | some lines =>
          refine ⟨fname, ?_⟩
          have hready : (!(handleOf fname true lines).iIAmReady) = false := rfl
          dsimp only
          rw [cfgDump, hready, if_neg Bool.false_ne_true]
          cases sys.fopen with
          | false => exact ⟨disk, rfl⟩
          | true =>
              obtain ⟨t, ht⟩ := Option.isSome_iff_exists.mp (handleOf_sound fname true lines).dumps
              rw [ht]
              exact ⟨_, rfl⟩
  | string =>
      refine ⟨[], disk, ?_⟩
      rw [Way.load, cfgInitializeString, cfgLoadConfiguration_string hzero]
      cases Cconfig.readLines .start (Cconfig.getLines [] text) <;> rfl
  | reloadFile h path =>
      obtain ⟨hlen, hfile⟩ := hw
      have hpath : ¬ 128 ≤ (path.getD []).length := by
        cases path with
        | none => exact Nat.not_le_of_lt (by decide)
        | some path => exact Nat.not_le_of_lt hlen
      refine ⟨path.getD h.filename, disk, ?_⟩
      simp only [Way.load, cfgReload, if_neg hpath, cfgLoadConfiguration_file hfile]
      cases Cconfig.readLines .start (Cconfig.getLines [] text) <;> rfl
  | reloadString h =>
      refine ⟨h.filename, disk, ?_⟩
      simp only [Way.load, cfgReload, cfgLoadConfiguration_string hzero]
      cases Cconfig.readLines .start (Cconfig.getLines [] text) <;> rfl

theorem handleOf_twin (f f' : Text) (cs : Bool) (lines : List Cconfig.Line) :
    Twin (handleOf f cs lines) (handleOf f' cs lines) :=
  ⟨rfl, rfl, rfl, rfl, rfl, rfl, handleOf_sound f cs lines⟩

theorem agree_of_twin (f f' : Text) (cs : Bool) (o : Option (List Cconfig.Line)) (disk disk' : Disk) :
    Agree (o.map (handleOf f cs), disk) (o.map (handleOf f' cs), disk') := by
  cases o with
  | none => trivial
  | some lines => exact fun calls => run_twin (handleOf_twin f f' cs lines) calls disk disk'

def AllAgree (text : Text) (related : Way → Way → Prop) : Prop :=
  ∀ (sys : Sys) (w w' : Way) (disk disk' : Disk), related w w' → w.Holds text disk → w'.Holds text disk' →
    ∃ x y, w.load sys text disk = some x ∧ w'.load sys text disk' = some y ∧ Agree x y

theorem bare_of_agree (hzero : '\x00' ∉ text) (h : AllAgree text fun _ _ => True)
    (hlines : lines ∈ Cconfig.readLines .start (Cconfig.getLines [] text)) : Bare lines := by
  have hload := @load_eq (fun _ => none) ⟨true, true, true, true⟩ text .string hzero trivial
  have hload' := @load_eq (fun _ => none) ⟨true, true, true, true⟩ text (.reloadString (handleOf [] true [])) hzero
    trivial
  obtain ⟨f, disk, hload⟩ := hload
  obtain ⟨f', disk', hload'⟩ := hload'
  obtain ⟨x, y, hx, hy, hagree⟩ := h ⟨true, true, true, true⟩ .string (.reloadString (handleOf [] true []))
    (fun _ => none) (fun _ => none) trivial trivial trivial
  obtain rfl := Option.some.inj (hload.symm.trans hx)
  obtain rfl := Option.some.inj (hload'.symm.trans hy)
  rw [Option.mem_def.mp hlines] at hagree
  exact (agree_iff_bare f f' disk disk').mp hagree

/-- All ways of loading agree just when the text does not load, or holds no token and no section whose name has a
letter. Two ways that both initialise, or that both reload, always do. -/
theorem loads_agree_iff (hzero : '\x00' ∉ text) : (AllAgree text (fun _ _ => True) ↔
      ∀ lines ∈ Cconfig.readLines .start (Cconfig.getLines [] text), Bare lines) ∧
    AllAgree text fun w w' => w.reloads = w'.reloads := by
  constructor
  · refine ⟨fun h lines hlines => bare_of_agree hzero h hlines, fun h sys w w' disk disk' _ hw hw' => ?_⟩
    obtain ⟨f, disk1, hload⟩ := @load_eq disk sys text w hzero hw
    obtain ⟨f', disk1', hload'⟩ := @load_eq disk' sys text w' hzero hw'
    refine ⟨_, _, hload, hload', ?_⟩
    cases hlines : Cconfig.readLines .start (Cconfig.getLines [] text) with
    | none => trivial
    | some lines =>
        intro calls
        obtain ⟨rs, hr, hr'⟩ := run_quiet (handleOf_quiet (h lines hlines) f f' (!w.reloads) (!w'.reloads)) calls
          disk1 disk1'
        rw [hr, hr']
        rfl
  · intro sys w w' disk disk' hsame hw hw'
    obtain ⟨f, disk1, hload⟩ := @load_eq disk sys text w hzero hw
    obtain ⟨f', disk1', hload'⟩ := @load_eq disk' sys text w' hzero hw'
    refine ⟨_, _, hload, hload', ?_⟩
    rw [hsame]
    exact agree_of_twin f f' _ _ disk1 disk1'

def oneSection : Text := "[s]\n".toList

theorem loads_agree_oneSection : '\x00' ∉ oneSection ∧ (AllAgree oneSection (fun _ _ => True) ↔
      ∀ lines ∈ Cconfig.readLines .start (Cconfig.getLines [] oneSection), Bare lines) ∧
    AllAgree oneSection fun w w' => w.reloads = w'.reloads :=
  ⟨by decide, loads_agree_iff (by decide)⟩

/-- A handle that is loaded again does not tell cases apart any more. -/
theorem reload_differs : ¬ ∀ text : Text, '\x00' ∉ text → AllAgree text fun _ _ => True := by
  intro h
  have hlines : [Cconfig.Line.header ['s']] ∈ Cconfig.readLines .start (Cconfig.getLines [] oneSection) := by decide
  have hbare := bare_of_agree (by decide) (h oneSection (by decide)) hlines
  have hname := (hbare (['s'], []) (List.mem_singleton_self _)).1 's' (List.mem_singleton_self _)
  exact absurd hname (by decide)

end OiAmc.CconfigReload

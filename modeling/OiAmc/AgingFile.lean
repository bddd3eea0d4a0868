import OiAmc.Cconfig
import OiAmc.GotoLoop
import OiAmc.SetInfo

/-! The file of the groups that age: `print_groupfile` writes it, and `load_old_group_file` reads it. -/

namespace OiAmc.AgingFile

open Cconfig Numerals SgfpGroup GotoLoop

structure Slink extends SlinkInfo where
  tuptr0110Rev : UInt8
  tuptr0110No : UInt8
  tuptr1001Rev : UInt8
  tuptr1001No : UInt8
  tuptrVal : UInt8
  v5Val : UInt8
  v5Cnt : UInt16
  v5SyncCnt : UInt8
  k4SyncCnt : UInt8
  sqCnt : UInt8
  mfiCnt : UInt8
  e1Sync : UInt8
  e1SyncErr : UInt8
  nfmE1Sync : UInt8
  nfmE1SyncErr : UInt8
  deriving DecidableEq

def Slink.zero : Slink := ⟨.zero, 0, 0, 0, 0, 0, 0, 0, 0, 0, 0, 0, 0, 0, 0, 0⟩

structure Group where
  groupId : Int
  flag : Int
  linkarraysSize : Int
  linkarrays : List Slink

structure AllGroup where
  gsize : Int
  ginfo : List Group

def maxGroup : Nat := 256

def sectionName : Text := "Sgfp Group Info".toList

def groupidName : Text := "groupid".toList

def flagName : Text := "flag".toList

def linkName : Text := "link".toList

/-- The numbers in front of the first tabs of the format, those up to the others, and those behind. -/
def Slink.first (l : Slink) : List Nat :=
  [l.fiber.toNat, l.fiberRate.toNat, l.channel.toNat, l.channelRate.toNat, l.vcValid.toNat, l.isLcas.toNat,
    l.isMember.toNat, l.isLastMember.toNat]

def Slink.middle (l : Slink) : List Nat :=
  [l.mfi.toNat, l.sq.toNat, l.preGid.toNat, l.curGid.toNat, l.svcType.toNat, l.tuptr0110Rev.toNat, l.tuptr0110No.toNat,
    l.tuptr1001Rev.toNat, l.tuptr1001No.toNat, l.v5SyncCnt.toNat, l.k4SyncCnt.toNat, l.sqCnt.toNat]

def Slink.last (l : Slink) : List Nat :=
  [l.mfiCnt.toNat, l.e1Sync.toNat, l.e1SyncErr.toNat, l.nfmE1Sync.toNat, l.nfmE1SyncErr.toNat, l.tuptrVal.toNat,
    l.v5Val.toNat, l.v5Cnt.toNat]

def commas (fields : List Text) : Text := fields.flatMap (· ++ [','])

def tabs : Text := List.replicate 5 '\t'

def linkValue (l : Slink) : Text :=
  commas (l.first.map decimal) ++ tabs ++ commas (l.middle.map decimal) ++ tabs ++ commas (l.last.map decimal)

def line (name value : Text) : Text := name ++ " = ".toList ++ value ++ ['\n']

def sectionLine : Text := '[' :: sectionName ++ "]\n".toList

/-- A loop up to a bound, with a counter of eight bits. -/
def byteStep {σ : Type} (bound : Int) (body : UInt8 → σ → Option σ) (s : UInt8 × σ) : Option (UInt8 × σ ⊕ σ) :=
  if (s.1.toNat : Int) < bound then (body s.1 s.2).map fun t => .inl (s.1 + 1, t) else some (.inr s.2)

def byteLoop {σ : Type} (bound : Int) (body : UInt8 → σ → Option σ) (fuel : Nat) (s : σ) : Option σ :=
  loop (byteStep bound body) fuel (0, s)

def printLink (links : List Slink) (j : UInt8) (s : Text) : Option Text :=
  (links[j.toNat]?).map fun l => s ++ line linkName (linkValue l)

def printGroup (first : Bool) (fuel : Nat) (ginfo : List Group) (i : UInt8) (s : Text) : Option Text :=
  (ginfo[i.toNat]?).bind fun g =>
    let mNSize := g.linkarraysSize % 256
    byteLoop mNSize (printLink g.linkarrays) fuel (s ++ sectionLine ++ line groupidName (signed g.groupId) ++
      line flagName (if first then ['1'] else signed g.flag))

/-- The text that is written, where the file is opened. A count is the one that is printed. -/
def printGroupfile (fuel : Nat) (allGroup : AllGroup) (first : Bool) (setGroupInfoCout newGroupCout : Int) :
    Option (Text × AllGroup) :=
  let allGroup := { allGroup with gsize := if first then setGroupInfoCout else newGroupCout }
  (byteLoop allGroup.gsize (printGroup first fuel allGroup.ginfo) fuel []).map fun text => (text, allGroup)

def strchr (c : Char) (p : Text) : Option (Text × Text) :=
  if c ∈ p then some (p.takeWhile (· ≠ c), (p.dropWhile (· ≠ c)).tail) else none

theorem strchr_length {c : Char} {p f s : Text} (h : strchr c p = some (f, s)) : s.length < p.length := by
  rw [strchr] at h
  split at h
  · rename_i hc
    obtain ⟨-, rfl⟩ := Prod.mk.inj (Option.some.inj h)
    have hlen : (p.dropWhile (· ≠ c)).length ≤ p.length := (List.dropWhile_suffix _).length_le
    have hpos := List.length_pos_of_mem hc
    rw [List.length_tail]
    omega
  · cases h

/-- result[i]; none outside of it. -/
def putResult (result : List Int) (i : Nat) (v : Int) : Option (List Int) :=
  if i < result.length then some (result.set i v) else none

def fieldLoop (result : List Int) (i : Nat) (p : Text) : Option (List Int) :=
  match h : strchr ',' p with
  | none => putResult result i (strtol 0 p).1
  | some (buftmp, q) =>
      if buftmp = [] then some result
      else if 64 ≤ buftmp.length then none
      else (putResult result i (strtol 0 buftmp).1).bind fun result => fieldLoop result (i + 1) q
termination_by p.length
decreasing_by exact strchr_length h

def slinkOf (result : List Int) : Slink :=
  let octet k := UInt8.ofInt (result.getD k 0)
  let word k := UInt32.ofInt (result.getD k 0)
  { fiber := octet 0
    fiberRate := octet 1
    channel := octet 2
    channelRate := octet 3
    vcValid := octet 4
    isLcas := octet 5
    isMember := octet 6
    isLastMember := octet 7
    mfi := UInt16.ofInt (result.getD 8 0)
    sq := octet 9
    preGid := word 10
    curGid := word 11
    svcType := word 12
    tuptr0110Rev := octet 13
    tuptr0110No := octet 14
    tuptr1001Rev := octet 15
    tuptr1001No := octet 16
    v5SyncCnt := octet 17
    k4SyncCnt := octet 18
    sqCnt := octet 19
    mfiCnt := octet 20
    e1Sync := octet 21
    e1SyncErr := octet 22
    nfmE1Sync := octet 23
    nfmE1SyncErr := octet 24
    tuptrVal := octet 25
    v5Val := octet 26
    v5Cnt := UInt16.ofInt (result.getD 27 0) }

/-- A link of a section. The inner none is a return of -1. -/
def readCfgid (hd : CConfig) (index secIndex : Nat) : Option (Option Slink) :=
  match cfgGetValue hd sectionName (some linkName) (index + 1) (secIndex + 1) with
  | none => some none
  | some value => (fieldLoop (List.replicate 30 0) 0 value).map fun result => some (slinkOf result)

def readLinks (hd : CConfig) (secIndex : Nat) : Nat → Nat → List Slink → Option (Bool × List Slink)
  | 0, _, links => some (true, links)
  | n + 1, index, links =>
      (readCfgid hd index secIndex).bind fun r => match r with
        | none => some (false, links)
        | some l => readLinks hd secIndex n (index + 1) (links.set index l)

/-- A value that goes into value[128], if there is one. -/
def shortValue (hd : CConfig) (id : Text) (i : Nat) : Option (Option Text) :=
  match cfgGetValue hd sectionName (some id) 1 (i + 1) with
  | none => some none
  | some value => if 128 ≤ value.length then none else some (some value)

def loadGroup (hd : CConfig) (i : Nat) (g : Group) : Option (Bool × Group) :=
  (shortValue hd groupidName i).bind fun id =>
  (shortValue hd flagName i).bind fun _ =>
  let idnum := cfgGetCount hd sectionName (some linkName) (i + 1)
  (readLinks hd i idnum.toNat 0 (List.replicate idnum.toNat .zero)).map fun r =>
    (r.1, { groupId := (id.map atoi).getD g.groupId, flag := 0, linkarraysSize := idnum, linkarrays := r.2 })

/-- The sections from i on, into ginfo. There is no outcome outside of it. -/
def loadGroups (hd : CConfig) : Nat → Nat → List Group → Option (Int × List Group)
  | 0, _, ginfo => some (0, ginfo)
  | n + 1, i, ginfo =>
      (ginfo[i]?).bind fun g => (loadGroup hd i g).bind fun r =>
        if r.1 then loadGroups hd n (i + 1) (ginfo.set i r.2) else some (-1, ginfo.set i r.2)

def loadOldGroupFile (file : Option Text) (old : AllGroup) : Option (Int × AllGroup) :=
  match file with
  | none => some (1, old)
  | some text =>
      match cfgInitialize text with
      | none => some (-1, old)
      | some cfghd =>
          let secnum := cfgGetCount cfghd sectionName none 0
          (loadGroups cfghd secnum.toNat 0 old.ginfo).map fun r => (r.1, ⟨secnum, r.2⟩)

theorem strchr_append {c : Char} {f s : Text} (hf : c ∉ f) : strchr c (f ++ c :: s) = some (f, s) := by
  have hne : ∀ d ∈ f, decide (d ≠ c) = true := by
    intro d hd
    apply decide_eq_true
    rintro rfl
    exact hf hd
  have htake : (f ++ c :: s).takeWhile (· ≠ c) = f := by
    rw [List.takeWhile_append_of_pos hne, List.takeWhile_cons_of_neg (by simp), List.append_nil]
  have hdrop : (f ++ c :: s).dropWhile (· ≠ c) = c :: s := by
    rw [List.dropWhile_append_of_pos hne, List.dropWhile_cons_of_neg (by simp)]
  rw [strchr, if_pos (List.mem_append_right f List.mem_cons_self), htake, hdrop, List.tail_cons]

def Field (f : Text) : Prop := ',' ∉ f ∧ f ≠ [] ∧ f.length < 64

theorem fieldLoop_nil (result : List Int) (i : Nat) : fieldLoop result i [] = putResult result i 0 := by
  rw [fieldLoop]
  rfl

theorem fieldLoop_cons {f : Text} (hf : Field f) (result : List Int) (i : Nat) (s : Text) :
    fieldLoop result i (f ++ ',' :: s) =
      (putResult result i (strtol 0 f).1).bind fun result => fieldLoop result (i + 1) s := by
  obtain ⟨hcomma, hne, hlen⟩ := hf
  rw [fieldLoop]
  split
  · rename_i hnone
    rw [strchr_append hcomma] at hnone
    cases hnone
  · rename_i buftmp q hsome
    rw [strchr_append hcomma] at hsome
    obtain ⟨rfl, rfl⟩ := Prod.mk.inj (Option.some.inj hsome)
    rw [if_neg hne, if_neg (Nat.not_le_of_lt hlen)]

theorem fieldLoop_commas {fs : List Text} (hfs : ∀ f ∈ fs, Field f) (done : List Int) (zeros : Nat)
    (hroom : fs.length < zeros) :
    fieldLoop (done ++ List.replicate zeros 0) done.length (commas fs) =
      some (done ++ fs.map (fun f => (strtol 0 f).1) ++ List.replicate (zeros - fs.length) 0) := by
  induction fs generalizing done zeros with
  | nil =>
      obtain ⟨n, rfl⟩ := Nat.exists_eq_succ_of_ne_zero (Nat.ne_of_gt hroom)
      rw [commas, List.flatMap_nil, fieldLoop_nil, putResult, if_pos (by simp), List.set_append_right _ _ (Nat.le_refl _),
        Nat.sub_self, List.replicate_succ, List.set_cons_zero, List.map_nil, List.append_nil, List.length_nil,
        Nat.sub_zero, List.replicate_succ]
  | cons f fs ih =>
      obtain ⟨hf, hfs⟩ := List.forall_mem_cons.mp hfs
      rw [List.length_cons] at hroom
      obtain ⟨n, rfl⟩ := Nat.exists_eq_succ_of_ne_zero (Nat.ne_of_gt (Nat.lt_of_le_of_lt (Nat.zero_le _) hroom))
      have hput : putResult (done ++ List.replicate (n + 1) 0) done.length (strtol 0 f).1 =
          some (done ++ [(strtol 0 f).1] ++ List.replicate n 0) := by
        rw [putResult, if_pos (by simp), List.set_append_right _ _ (Nat.le_refl _), Nat.sub_self, List.replicate_succ,
          List.set_cons_zero, List.append_assoc, List.singleton_append]
      have hrest := ih hfs (done ++ [(strtol 0 f).1]) n (by omega)
      rw [List.length_append, List.length_singleton] at hrest
      have htext : commas (f :: fs) = f ++ ',' :: commas fs := by
        rw [commas, List.flatMap_cons, List.append_assoc, List.singleton_append]
        rfl
      rw [htext, fieldLoop_cons hf, hput, Option.bind_some, hrest, List.length_cons, Nat.succ_sub_succ, List.map_cons,
        List.append_assoc done, List.singleton_append]

def Word (name : Text) : Prop := name ≠ [] ∧ ∀ c ∈ name, c.isAlpha

instance (name : Text) : Decidable (Word name) :=
  @instDecidableAnd _ _ inferInstance (List.decidableBAll (fun c => c.isAlpha) name)

/-- A value that stays on its line and whose ends are not cut off. -/
structure Value (v : Text) : Prop where
  nonempty : v ≠ []
  chars : ∀ c ∈ v, c ≠ '=' ∧ c ≠ '\x00' ∧ c ≠ '\n'
  head : ∀ c ∈ v.head?, fIsDelimiter c = false
  last : ∀ c ∈ v.getLast?, fIsDelimiter c = false ∧ isLineEnd c = false

theorem isAlpha_ne {c d : Char} (hc : c.isAlpha) (hd : d.isAlpha = false) : c ≠ d := by
  rintro rfl
  rw [hc] at hd
  cases hd

theorem fIsDelimiter_of_isAlpha {c : Char} (hc : c.isAlpha) : fIsDelimiter c = false := by
  rw [fIsDelimiter, decide_eq_false (isAlpha_ne hc rfl), decide_eq_false (isAlpha_ne hc rfl)]
  rfl

theorem rdropWhile_of_last {p : Char → Bool} {s v : Text} (hne : v ≠ []) (hv : ∀ c ∈ v.getLast?, p c = false) :
    (s ++ v).rdropWhile p = s ++ v := by
  apply List.rdropWhile_eq_self_iff.mpr
  intro hl
  rw [List.getLast_append_of_ne_nil hl hne, hv _ (List.getLast?_eq_some_getLast hne)]
  exact Bool.false_ne_true

theorem squeezeFrom_append {s t : Text} (hs : ∀ c ∈ s, fIsDelimiter c = false) :
    squeezeFrom false (s ++ t) = s ++ squeezeFrom false t := by
  induction s with
  | nil => rfl
  | cons c s ih =>
      obtain ⟨hc, hs⟩ := List.forall_mem_cons.mp hs
      rw [List.cons_append, squeezeFrom, hc, if_neg Bool.false_ne_true, ih hs, List.cons_append]

theorem squeeze_self {s : Text} (hs : ∀ c ∈ s, fIsDelimiter c = false) : squeeze s = s := by
  have h := squeezeFrom_append (t := []) hs
  rwa [List.append_nil, squeezeFrom, List.append_nil] at h

theorem squeeze_ne_nil {c : Char} {s : Text} : squeeze (c :: s) ≠ [] := by
  rw [squeeze, squeezeFrom]
  split
  · exact List.cons_ne_nil _ _
  · exact List.cons_ne_nil _ _

theorem readToken_scalar {name value : Text} {d : Defined} (hname : Word name) (hvalue : Value value)
    (hin : d.inSection = true) (hvector : d.vector = false) :
    readToken d (name ++ " = ".toList ++ value) = some (.scalar name (squeeze value), { d with scalar := true }) := by
  obtain ⟨hne, halpha⟩ := hname
  obtain ⟨c, name', rfl⟩ := List.exists_cons_of_ne_nil hne
  obtain ⟨v, value', rfl⟩ := List.exists_cons_of_ne_nil hvalue.nonempty
  have hc : c.isAlpha := halpha c List.mem_cons_self
  have hdelim : ∀ a ∈ c :: name', fIsDelimiter a = false := fun a ha => fIsDelimiter_of_isAlpha (halpha a ha)
  have hbody : c :: name' ++ " = ".toList ++ v :: value' = (c :: name' ++ [' ']) ++ '=' :: ' ' :: v :: value' := by
    rw [List.append_assoc, List.append_assoc]
    rfl
  have hstart : (c :: name' ++ " = ".toList ++ v :: value').dropWhile fIsDelimiter =
      c :: name' ++ " = ".toList ++ v :: value' := List.dropWhile_cons_of_neg (by rw [hdelim c List.mem_cons_self]; simp)
  have hnoEq : ∀ a ∈ c :: name' ++ [' '], decide (a ≠ '=') = true := by
    intro a ha
    apply decide_eq_true
    rcases List.mem_append.mp ha with ha | ha
    · exact isAlpha_ne (halpha a ha) rfl
    · rw [List.mem_singleton.mp ha]
      decide
  have htake : (c :: name' ++ " = ".toList ++ v :: value').takeWhile (· ≠ '=') = c :: name' ++ [' '] := by
    rw [hbody, List.takeWhile_append_of_pos hnoEq, List.takeWhile_cons_of_neg (by simp), List.append_nil]
  have hdrop : (c :: name' ++ " = ".toList ++ v :: value').dropWhile (· ≠ '=') = '=' :: ' ' :: v :: value' := by
    rw [hbody, List.dropWhile_append_of_pos hnoEq, List.dropWhile_cons_of_neg (by simp)]
  have htrim : trimEnd (c :: name' ++ [' ']) = c :: name' := by
    rw [trimEnd, List.rdropWhile_concat_pos _ _ _ (by decide)]
    exact rdropWhile_of_last (s := []) (List.cons_ne_nil _ _) fun a ha => hdelim a (List.mem_of_mem_getLast? ha)
  have hvalueDrop : (' ' :: v :: value').dropWhile fIsDelimiter = v :: value' := by
    rw [List.dropWhile_cons_of_pos (by decide), List.dropWhile_cons_of_neg (by rw [hvalue.head v rfl]; simp)]
  have hmem : '=' ∈ c :: name' ++ " = ".toList ++ v :: value' := by
    rw [hbody]
    exact List.mem_append_right _ List.mem_cons_self
  have hnot : '=' ∉ ' ' :: v :: value' := by
    intro h
    rcases List.mem_cons.mp h with h | h
    · cases h
    · exact (hvalue.chars '=' h).1 rfl
  have hhash : (c :: name' ++ " = ".toList ++ v :: value').head? ≠ some '#' :=
    fun h => isAlpha_ne hc rfl (Option.some.inj h)
  have hbracket : ¬ ((c :: name' ++ " = ".toList ++ v :: value').head? = some '[' ∧
      (c :: name' ++ " = ".toList ++ v :: value').getLast? = some ']') :=
    fun h => isAlpha_ne hc rfl (Option.some.inj h.1)
  have hnonempty : c :: name' ++ " = ".toList ++ v :: value' ≠ [] := List.cons_ne_nil _ _
  rw [readToken, if_neg hnonempty, if_neg hhash, hstart, if_neg hbracket, hin, if_neg (by decide),
    if_neg (not_not.mpr hmem), hvector, if_neg Bool.false_ne_true, htake, hdrop, htrim, List.tail_cons, if_neg hnot,
    hvalueDrop, squeeze_self hdelim, if_neg fun h => h.elim (List.cons_ne_nil _ _) squeeze_ne_nil]

theorem readLine_line {name value : Text} {d : Defined} (hname : Word name) (hvalue : Value value)
    (hin : d.inSection = true) (hvector : d.vector = false) :
    readLine d (line name value) = some (.scalar name (squeeze value), { d with scalar := true }) := by
  have hzero : ∀ c ∈ line name value, decide (c ≠ '\x00') = true := by
    intro c hc
    apply decide_eq_true
    rw [line] at hc
    rcases List.mem_append.mp hc with hc | hc
    · rcases List.mem_append.mp hc with hc | hc
      · rcases List.mem_append.mp hc with hc | hc
        · exact isAlpha_ne (hname.2 c hc) rfl
        · rintro rfl
          exact absurd hc (by decide)
      · exact (hvalue.chars c hc).2.1
    · rw [List.mem_singleton.mp hc]
      decide
  have htake : (line name value).takeWhile (· ≠ '\x00') = line name value := by
    rw [List.takeWhile_eq_self_iff]
    exact hzero
  have hend : (line name value).rdropWhile isLineEnd = name ++ " = ".toList ++ value := by
    rw [line, List.rdropWhile_concat_pos _ _ _ (by decide)]
    exact rdropWhile_of_last hvalue.nonempty fun c hc => (hvalue.last c hc).2
  have htrim : trimEnd (name ++ " = ".toList ++ value) = name ++ " = ".toList ++ value :=
    rdropWhile_of_last hvalue.nonempty fun c hc => (hvalue.last c hc).1
  have hne : line name value ≠ [] := fun h => List.cons_ne_nil _ _ (List.append_eq_nil_iff.mp h).2
  rw [readLine, htake, if_neg hne, hend, htrim]
  exact readToken_scalar hname hvalue hin hvector

theorem readLine_section (d : Defined) : readLine d sectionLine = some (.header sectionName, ⟨true, false, false⟩) := rfl

theorem getLines_append {acc body s : Text} (hbody : '\n' ∉ body) (hlen : acc.length + body.length < lineRoom) :
    getLines acc (body ++ '\n' :: s) = (acc ++ body ++ ['\n']) :: getLines [] s := by
  induction body generalizing acc with
  | nil =>
      rw [List.nil_append, List.append_nil, getLines]
      exact if_pos (.inl rfl)
  | cons c body ih =>
      obtain ⟨hc, hbody⟩ := not_or.mp (mt List.mem_cons.mpr hbody)
      rw [List.length_cons] at hlen
      have hrest := @ih (acc ++ [c]) hbody (by
        rw [List.length_append, List.length_singleton]
        omega)
      rw [List.append_assoc acc, List.singleton_append] at hrest
      rw [List.cons_append, getLines, ← hrest]
      apply if_neg
      rintro (h | h)
      · exact hc h.symm
      · rw [List.length_append, List.length_singleton] at h
        omega

def Slink.numbers (l : Slink) : List Nat := l.first ++ l.middle ++ l.last

def blankHead : List Text → List Text
  | [] => []
  | f :: fs => (' ' :: f) :: fs

def linkFields (l : Slink) : List Text :=
  l.first.map decimal ++ blankHead (l.middle.map decimal) ++ blankHead (l.last.map decimal)

variable {l : Slink} {ns : List Nat} {fs : List Text} {c : Char} {s : Text}

theorem commas_append (fs gs : List Text) : commas (fs ++ gs) = commas fs ++ commas gs := List.flatMap_append

theorem commas_blankHead (hfs : fs ≠ []) : commas (blankHead fs) = ' ' :: commas fs := by
  cases fs with
  | nil => exact absurd rfl hfs
  | cons f fs => rfl

theorem mem_commas (hc : c ∈ commas (ns.map decimal)) : c.isDigit ∨ c = ',' := by
  obtain ⟨f, hf, hc⟩ := List.mem_flatMap.mp hc
  obtain ⟨n, -, rfl⟩ := List.mem_map.mp hf
  rcases List.mem_append.mp hc with hc | hc
  · exact .inl (isDigit_decimal hc)
  · exact .inr (List.mem_singleton.mp hc)

theorem getLast?_commas (hfs : fs ≠ []) : (commas fs).getLast? = some ',' := by
  induction fs with
  | nil => exact absurd rfl hfs
  | cons f fs ih =>
      rw [commas, List.flatMap_cons, ← commas, List.getLast?_append]
      cases fs with
      | nil => rw [commas, List.flatMap_nil, List.getLast?_nil, Option.none_or, List.getLast?_concat]
      | cons g fs => rw [ih (List.cons_ne_nil g fs), Option.some_or]

theorem isDigit_ne {d : Char} (hc : c.isDigit ∨ c = ',') (hd : ¬ (d.isDigit ∨ d = ',')) : c ≠ d := by
  rintro rfl
  exact hd hc

theorem fIsDelimiter_number (hc : c.isDigit ∨ c = ',') : fIsDelimiter c = false := by
  rw [fIsDelimiter, decide_eq_false (isDigit_ne hc (by decide)), decide_eq_false (isDigit_ne hc (by decide))]
  rfl

theorem length_commas (hns : ∀ n ∈ ns, n < 10 ^ 10) : (commas (ns.map decimal)).length ≤ 11 * ns.length := by
  induction ns with
  | nil => exact Nat.le_refl 0
  | cons n ns ih =>
      obtain ⟨hn, hns⟩ := List.forall_mem_cons.mp hns
      have hhead := length_decimal_le (by decide) hn
      have hrest := ih hns
      rw [List.map_cons, commas, List.flatMap_cons, ← commas, List.length_append, List.length_append,
        List.length_singleton, List.length_cons]
      omega

theorem numbers_lt : ∀ n ∈ l.numbers, n < 2 ^ 32 := by
  have octet : ∀ x : UInt8, x.toNat < 2 ^ 32 := fun x => Nat.lt_trans x.toNat_lt (by decide)
  have half : ∀ x : UInt16, x.toNat < 2 ^ 32 := fun x => Nat.lt_trans x.toNat_lt (by decide)
  have word : ∀ x : UInt32, x.toNat < 2 ^ 32 := fun x => x.toNat_lt
  simp only [Slink.numbers, Slink.first, Slink.middle, Slink.last, List.cons_append, List.nil_append,
    List.forall_mem_cons, octet, half, word, List.not_mem_nil, false_implies, implies_true, and_self]

theorem mem_linkValue (hc : c ∈ linkValue l) : (c.isDigit ∨ c = ',') ∨ c = '\t' := by
  rw [linkValue] at hc
  have htabs : c ∈ tabs → c = '\t' := fun h => (List.mem_replicate.mp h).2
  rcases List.mem_append.mp hc with hc | hc
  · rcases List.mem_append.mp hc with hc | hc
    · rcases List.mem_append.mp hc with hc | hc
      · rcases List.mem_append.mp hc with hc | hc
        · exact .inl (mem_commas hc)
        · exact .inr (htabs hc)
      · exact .inl (mem_commas hc)
    · exact .inr (htabs hc)
  · exact .inl (mem_commas hc)

theorem decimal_head {n : Nat} {t : Text} (hc : c ∈ (decimal n ++ t).head?) : c.isDigit := by
  obtain ⟨d, ds, hn, hd⟩ := decimal_cons n
  rw [hn, List.cons_append] at hc
  obtain rfl := Option.some.inj hc
  exact hd

theorem value_linkValue (l : Slink) : Value (linkValue l) := by
  have hlast : (linkValue l).getLast? = some ',' := by
    rw [linkValue, List.getLast?_append, getLast?_commas (show l.last.map decimal ≠ [] from List.cons_ne_nil _ _),
      Option.some_or]
  constructor
  · rintro h
    rw [h] at hlast
    cases hlast
  · intro c hc
    rcases mem_linkValue hc with hc | rfl
    · exact ⟨isDigit_ne hc (by decide), isDigit_ne hc (by decide), isDigit_ne hc (by decide)⟩
    · decide
  · intro c hc
    have hfirst : linkValue l = decimal l.fiber.toNat ++ (linkValue l).drop (decimal l.fiber.toNat).length := by
      rw [linkValue, Slink.first, List.map_cons, commas, List.flatMap_cons]
      simp only [List.append_assoc, List.drop_left]
    rw [hfirst] at hc
    exact fIsDelimiter_number (.inl (decimal_head hc))
  · intro c hc
    rw [hlast] at hc
    obtain rfl := Option.some.inj hc
    exact ⟨rfl, rfl⟩

theorem squeezeFrom_tabs (hc : fIsDelimiter c = false) :
    squeezeFrom false (tabs ++ c :: s) = ' ' :: squeezeFrom false (c :: s) := by
  rw [squeezeFrom, hc, if_neg Bool.false_ne_true]
  change ' ' :: squeezeFrom true (c :: s) = _
  rw [squeezeFrom, hc, if_neg Bool.false_ne_true]

theorem squeezeFrom_tabs_commas (hns : ns ≠ []) : squeezeFrom false (tabs ++ (commas (ns.map decimal) ++ s)) =
    ' ' :: commas (ns.map decimal) ++ squeezeFrom false s := by
  have hplain : ∀ c ∈ commas (ns.map decimal), fIsDelimiter c = false := fun c hc => fIsDelimiter_number (mem_commas hc)
  rw [List.cons_append, ← squeezeFrom_append hplain]
  cases ns with
  | nil => exact absurd rfl hns
  | cons n ns =>
      obtain ⟨d, ds, hn, hd⟩ := decimal_cons n
      rw [List.map_cons, commas, List.flatMap_cons, hn]
      exact squeezeFrom_tabs (fIsDelimiter_number (.inl hd))

theorem squeeze_linkValue (l : Slink) : squeeze (linkValue l) = commas (linkFields l) := by
  have hfirst : ∀ c ∈ commas (l.first.map decimal), fIsDelimiter c = false :=
    fun c hc => fIsDelimiter_number (mem_commas hc)
  have hmiddle : l.middle.map decimal ≠ [] := List.cons_ne_nil _ _
  have hlast : l.last.map decimal ≠ [] := List.cons_ne_nil _ _
  have hend : squeezeFrom false (tabs ++ commas (l.last.map decimal)) = ' ' :: commas (l.last.map decimal) := by
    have h := squeezeFrom_tabs_commas (s := []) (show l.last ≠ [] from List.cons_ne_nil _ _)
    rwa [List.append_nil, squeezeFrom, List.append_nil] at h
  rw [squeeze, linkValue, linkFields, commas_append, commas_append, commas_blankHead hmiddle, commas_blankHead hlast]
  simp only [List.append_assoc]
  rw [squeezeFrom_append hfirst, squeezeFrom_tabs_commas (show l.middle ≠ [] from List.cons_ne_nil _ _), hend]

theorem field_decimal {n : Nat} (hn : n < 2 ^ 32) : Field (decimal n) ∧ Field (' ' :: decimal n) := by
  have hcomma : ',' ∉ decimal n := fun h => absurd (isDigit_decimal h) (by decide)
  have hlen : (decimal n).length ≤ 10 := length_decimal_le (by decide) (Nat.lt_trans hn (by decide))
  refine ⟨⟨hcomma, decimal_ne_nil, by omega⟩, fun h => ?_, List.cons_ne_nil _ _, ?_⟩
  · rcases List.mem_cons.mp h with h | h
    · cases h
    · exact hcomma h
  · rw [List.length_cons]
    omega

theorem field_map (hns : ∀ n ∈ ns, n < 2 ^ 32) :
    (∀ f ∈ ns.map decimal, Field f) ∧ ∀ f ∈ blankHead (ns.map decimal), Field f := by
  have hmap : ∀ ns : List Nat, (∀ n ∈ ns, n < 2 ^ 32) → ∀ f ∈ ns.map decimal, Field f := by
    intro ns hns f hf
    obtain ⟨n, hn, rfl⟩ := List.mem_map.mp hf
    exact (field_decimal (hns n hn)).1
  refine ⟨hmap ns hns, ?_⟩
  cases ns with
  | nil => exact nofun
  | cons n ns =>
      obtain ⟨hn, hns⟩ := List.forall_mem_cons.mp hns
      exact List.forall_mem_cons.mpr ⟨(field_decimal hn).2, hmap ns hns⟩

theorem strtol_map (hns : ∀ n ∈ ns, n < 2 ^ 32) :
    (ns.map decimal).map (fun f => (strtol 0 f).1) = ns.map Int.ofNat ∧
      (blankHead (ns.map decimal)).map (fun f => (strtol 0 f).1) = ns.map Int.ofNat := by
  have hmap : ∀ ns : List Nat, (∀ n ∈ ns, n < 2 ^ 32) →
      (ns.map decimal).map (fun f => (strtol 0 f).1) = ns.map Int.ofNat := by
    intro ns hns
    rw [List.map_map]
    apply List.map_congr_left
    intro n hn
    exact strtol_zero_written (Nat.lt_trans (hns n hn) (by decide))
  refine ⟨hmap ns hns, ?_⟩
  cases ns with
  | nil => rfl
  | cons n ns =>
      obtain ⟨hn, hns⟩ := List.forall_mem_cons.mp hns
      rw [List.map_cons, blankHead, List.map_cons, hmap ns hns, strtol_blank,
        strtol_zero_written (Nat.lt_trans hn (by decide))]
      rfl

theorem toNat_emod {n w : Nat} (h : n < 2 ^ w) : (Int.ofNat n % 2 ^ w).toNat = n := by
  have hmod := Nat.mod_eq_of_lt h
  show ((n : Int) % 2 ^ w).toNat = n
  norm_cast

theorem slinkOf_numbers (l : Slink) : slinkOf (l.numbers.map Int.ofNat ++ [0, 0]) = l := by
  have octet : ∀ x : UInt8, UInt8.ofInt (Int.ofNat x.toNat) = x := fun x =>
    (congrArg UInt8.ofNat (toNat_emod x.toNat_lt)).trans UInt8.ofNat_toNat
  have half : ∀ x : UInt16, UInt16.ofInt (Int.ofNat x.toNat) = x := fun x =>
    (congrArg UInt16.ofNat (toNat_emod x.toNat_lt)).trans UInt16.ofNat_toNat
  have word : ∀ x : UInt32, UInt32.ofInt (Int.ofNat x.toNat) = x := fun x =>
    (congrArg UInt32.ofNat (toNat_emod x.toNat_lt)).trans UInt32.ofNat_toNat
  simp only [slinkOf, Slink.numbers, Slink.first, Slink.middle, Slink.last, List.cons_append, List.nil_append,
    List.map_cons, List.map_nil, List.getD_cons_zero, List.getD_cons_succ, octet, half, word]

theorem fieldLoop_linkFields (l : Slink) :
    fieldLoop (List.replicate 30 0) 0 (commas (linkFields l)) = some (l.numbers.map Int.ofNat ++ [0, 0]) := by
  have hlt := numbers_lt (l := l)
  rw [Slink.numbers, List.forall_mem_append, List.forall_mem_append] at hlt
  obtain ⟨⟨hfirst, hmiddle⟩, hlast⟩ := hlt
  have hfields : ∀ f ∈ linkFields l, Field f := by
    rw [linkFields, List.forall_mem_append, List.forall_mem_append]
    exact ⟨⟨(field_map hfirst).1, (field_map hmiddle).2⟩, (field_map hlast).2⟩
  have hvalues : (linkFields l).map (fun f => (strtol 0 f).1) = l.numbers.map Int.ofNat := by
    rw [linkFields, List.map_append, List.map_append, (strtol_map hfirst).1, (strtol_map hmiddle).2,
      (strtol_map hlast).2, Slink.numbers, List.map_append, List.map_append]
  have h := fieldLoop_commas hfields [] 30 (show 28 < 30 by decide)
  rw [hvalues] at h
  exact h

theorem signed_chars {x : Int} (hc : c ∈ signed x) : c.isDigit ∨ c = '-' := by
  rw [signed] at hc
  split at hc
  · rcases List.mem_cons.mp hc with rfl | hc
    · exact .inr rfl
    · exact .inl (isDigit_decimal hc)
  · exact .inl (isDigit_decimal hc)

theorem fIsDelimiter_signed {x : Int} : ∀ c ∈ signed x, fIsDelimiter c = false := by
  intro c hc
  have hne : ∀ d : Char, ¬ (d.isDigit ∨ d = '-') → c ≠ d := by
    rintro d hd rfl
    exact hd (signed_chars hc)
  rw [fIsDelimiter, decide_eq_false (hne ' ' (by decide)), decide_eq_false (hne '\t' (by decide))]
  rfl

theorem value_signed (x : Int) : Value (signed x) := by
  have hne : ∀ c ∈ signed x, ∀ d : Char, ¬ (d.isDigit ∨ d = '-') → c ≠ d := by
    rintro c hc d hd rfl
    exact hd (signed_chars hc)
  constructor
  · rw [signed]
    split
    · exact List.cons_ne_nil _ _
    · exact decimal_ne_nil
  · intro c hc
    exact ⟨hne c hc '=' (by decide), hne c hc '\x00' (by decide), hne c hc '\n' (by decide)⟩
  · intro c hc
    exact fIsDelimiter_signed c (List.mem_of_mem_head? hc)
  · intro c hc
    have hmem := List.mem_of_mem_getLast? hc
    refine ⟨fIsDelimiter_signed c hmem, ?_⟩
    rw [isLineEnd, decide_eq_false (hne c hmem '\r' (by decide)), decide_eq_false (hne c hmem '\n' (by decide))]
    rfl

def printedFlag (first : Bool) (g : Group) : Int := if first then 1 else g.flag

def groupLines (first : Bool) (g : Group) : List Text :=
  sectionLine :: line groupidName (signed g.groupId) :: line flagName (signed (printedFlag first g)) ::
    g.linkarrays.map fun l => line linkName (linkValue l)

def groupTokens (first : Bool) (g : Group) : List Line :=
  .header sectionName :: .scalar groupidName (signed g.groupId) ::
    .scalar flagName (signed (printedFlag first g)) ::
    g.linkarrays.map fun l => .scalar linkName (commas (linkFields l))

theorem readLines_cons {d d' : Defined} {piece : Text} {ln : Line} (h : readLine d piece = some (ln, d'))
    (pieces : List Text) : readLines d (piece :: pieces) = (readLines d' pieces).map (ln :: ·) := by
  rw [readLines, h]
  cases hr : readLines d' pieces with
  | none => simp only [Option.bind_eq_bind, Option.bind_some, hr, Option.bind_none, Option.map_none]
  | some lines => simp only [Option.bind_eq_bind, Option.bind_some, hr, Option.map_some, pure]

theorem readLines_links (links : List Slink) (rest : List Text) :
    readLines ⟨true, true, false⟩ ((links.map fun l => line linkName (linkValue l)) ++ rest) =
      (readLines ⟨true, true, false⟩ rest).map fun lines =>
        (links.map fun l => .scalar linkName (commas (linkFields l))) ++ lines := by
  induction links with
  | nil => exact Option.map_id'.symm
  | cons l links ih =>
      have hline := readLine_line (d := ⟨true, true, false⟩) (show Word linkName by decide) (value_linkValue l) rfl rfl
      rw [squeeze_linkValue] at hline
      rw [List.map_cons, List.cons_append, readLines_cons hline, ih, Option.map_map]
      rfl

theorem readLines_group (first : Bool) (g : Group) (d : Defined) (rest : List Text) :
    readLines d (groupLines first g ++ rest) =
      (readLines ⟨true, true, false⟩ rest).map fun lines => groupTokens first g ++ lines := by
  have hid := readLine_line (d := ⟨true, false, false⟩) (show Word groupidName by decide) (value_signed g.groupId) rfl
    rfl
  have hflag := readLine_line (d := ⟨true, true, false⟩) (show Word flagName by decide)
    (value_signed (printedFlag first g)) rfl rfl
  rw [squeeze_self fIsDelimiter_signed] at hid hflag
  rw [groupLines, List.cons_append, List.cons_append, List.cons_append, readLines_cons (readLine_section d),
    readLines_cons hid, readLines_cons hflag, readLines_links, Option.map_map, Option.map_map, Option.map_map]
  rfl

theorem readLines_groups (first : Bool) (gs : List Group) (d : Defined) :
    readLines d (gs.flatMap (groupLines first)) = some (gs.flatMap (groupTokens first)) := by
  induction gs generalizing d with
  | nil => rfl
  | cons g gs ih => rw [List.flatMap_cons, readLines_group, ih, Option.map_some, List.flatMap_cons]

def Whole (piece : Text) : Prop := ∃ body, piece = body ++ ['\n'] ∧ '\n' ∉ body ∧ body.length < lineRoom

theorem getLines_flatten {pieces : List Text} (hp : ∀ piece ∈ pieces, Whole piece) :
    getLines [] pieces.flatten = pieces := by
  induction pieces with
  | nil => rfl
  | cons piece pieces ih =>
      obtain ⟨⟨body, rfl, hbody, hlen⟩, hpieces⟩ := List.forall_mem_cons.mp hp
      have h := @getLines_append [] body pieces.flatten hbody (by rwa [List.length_nil, Nat.zero_add])
      rw [List.flatten_cons, List.append_assoc, List.singleton_append, h, ih hpieces, List.nil_append]

theorem whole_line {name value : Text} (hname : Word name) (hvalue : Value value)
    (hlen : name.length + value.length < 1000) : Whole (line name value) := by
  refine ⟨name ++ " = ".toList ++ value, rfl, ?_, ?_⟩
  · intro h
    rcases List.mem_append.mp h with h | h
    · rcases List.mem_append.mp h with h | h
      · exact absurd (hname.2 _ h) (by decide)
      · exact absurd h (by decide)
    · exact (hvalue.chars _ h).2.2 rfl
  · rw [List.length_append, List.length_append, lineRoom]
    have hmid : " = ".toList.length = 3 := rfl
    omega

def IsInt (x : Int) : Prop := -2 ^ 31 ≤ x ∧ x < 2 ^ 31

instance (x : Int) : Decidable (IsInt x) := inferInstanceAs (Decidable (_ ∧ _))

theorem length_signed {x : Int} (hx : IsInt x) : (signed x).length ≤ 11 := by
  obtain ⟨h1, h2⟩ := hx
  have hlen : (decimal x.natAbs).length ≤ 10 := length_decimal_le (by decide) (by omega)
  rw [signed]
  split
  · rw [List.length_cons]
    omega
  · omega

theorem length_linkValue (l : Slink) : (linkValue l).length ≤ 318 := by
  have hlt : ∀ n ∈ l.numbers, n < 10 ^ 10 := fun n hn => Nat.lt_trans (numbers_lt n hn) (by decide)
  rw [Slink.numbers, List.forall_mem_append, List.forall_mem_append] at hlt
  obtain ⟨⟨hfirst, hmiddle⟩, hlast⟩ := hlt
  have h1 := length_commas hfirst
  have h2 := length_commas hmiddle
  have h3 := length_commas hlast
  have hn1 : l.first.length = 8 := rfl
  have hn2 : l.middle.length = 12 := rfl
  have hn3 : l.last.length = 8 := rfl
  have htabs : tabs.length = 5 := rfl
  simp only [linkValue, List.length_append]
  omega

def tokensOf (first : Bool) (g : Group) : List Token :=
  ⟨.scalar, some groupidName, signed g.groupId⟩ :: ⟨.scalar, some flagName, signed (printedFlag first g)⟩ ::
    g.linkarrays.map fun l => ⟨.scalar, some linkName, commas (linkFields l)⟩

theorem sectionsOf_links (links : List Slink) (lines : List Line) :
    sectionsOf ((links.map fun l => .scalar linkName (commas (linkFields l))) ++ lines) =
      ((links.map fun l => ⟨.scalar, some linkName, commas (linkFields l)⟩) ++ (sectionsOf lines).1,
        (sectionsOf lines).2) := by
  induction links with
  | nil => rfl
  | cons l links ih =>
      rw [List.map_cons, List.cons_append, sectionsOf, ih]
      · rfl
      · simp

theorem sectionsOf_groups (first : Bool) (gs : List Group) : sectionsOf (gs.flatMap (groupTokens first)) =
    ([], gs.map fun g => (sectionName, tokensOf first g)) := by
  induction gs with
  | nil => rfl
  | cons g gs ih =>
      have hgroup : sectionsOf (Line.scalar groupidName (signed g.groupId) ::
          Line.scalar flagName (signed (printedFlag first g)) ::
          ((g.linkarrays.map fun l => Line.scalar linkName (commas (linkFields l))) ++
            gs.flatMap (groupTokens first))) =
          (tokensOf first g, gs.map fun g => (sectionName, tokensOf first g)) := by
        rw [sectionsOf, sectionsOf, sectionsOf_links, ih]
        · dsimp only
          rw [List.append_nil]
          rfl
        · simp
        · simp
      rw [List.flatMap_cons, groupTokens, List.cons_append, List.cons_append, List.cons_append, sectionsOf, hgroup]
      rfl

def configOf (first : Bool) (gs : List Group) : CConfig := ⟨gs.flatMap (groupTokens first), true⟩

theorem named_configOf (first : Bool) (gs : List Group) :
    (configOf first gs).named sectionName = gs.map (tokensOf first) := by
  have hsame : ∀ s ∈ (configOf first gs).sections, (configOf first gs).sameName sectionName s.1 = true := by
    intro s hs
    rw [CConfig.sections, configOf, sectionsOf_groups] at hs
    obtain ⟨g, -, rfl⟩ := List.mem_map.mp hs
    change decide (sectionName = sectionName) = true
    exact decide_eq_true rfl
  rw [CConfig.named, List.filter_eq_self.mpr hsame, CConfig.sections, configOf, sectionsOf_groups, List.map_map]
  rfl

variable {first : Bool} {gs : List Group} {g : Group} {i : Nat}

theorem values_link (h : CConfig) (hc : h.iCaseSensitive = true) (g : Group) :
    h.values (some linkName) (tokensOf first g) = g.linkarrays.map fun l => commas (linkFields l) := by
  have hid : ∀ id, h.sameId (some linkName) (some id) = decide (linkName = id) := by
    intro id
    rw [CConfig.sameId, CConfig.sameName, if_pos hc]
  have hother : decide (linkName = groupidName) = false := by decide
  have hflag : decide (linkName = flagName) = false := by decide
  have hlinks : ((g.linkarrays.map fun l => (⟨.scalar, some linkName, commas (linkFields l)⟩ : Token)).filter fun t =>
      h.sameId (some linkName) t.name) = g.linkarrays.map fun l => ⟨.scalar, some linkName, commas (linkFields l)⟩ := by
    apply List.filter_eq_self.mpr
    intro t ht
    obtain ⟨l, -, rfl⟩ := List.mem_map.mp ht
    exact (hid linkName).trans (decide_eq_true rfl)
  rw [CConfig.values, tokensOf, List.filter_cons_of_neg (by rw [hid, hother]; simp),
    List.filter_cons_of_neg (by rw [hid, hflag]; simp), hlinks, List.map_map]
  rfl

theorem values_first (first : Bool) (h : CConfig) (hc : h.iCaseSensitive = true) (g : Group) :
    (h.values (some groupidName) (tokensOf first g))[0]? = some (signed g.groupId) ∧
      (h.values (some flagName) (tokensOf first g))[0]? = some (signed (printedFlag first g)) := by
  have hid : ∀ a id, h.sameId (some a) (some id) = decide (a = id) := by
    intro a id
    rw [CConfig.sameId, CConfig.sameName, if_pos hc]
  have hother : decide (flagName = groupidName) = false := by decide
  constructor
  · rw [CConfig.values, tokensOf, List.filter_cons_of_pos (by rw [hid]; exact decide_eq_true rfl)]
    rfl
  · rw [CConfig.values, tokensOf, List.filter_cons_of_neg (by rw [hid, hother]; simp),
      List.filter_cons_of_pos (by rw [hid]; exact decide_eq_true rfl)]
    rfl

theorem named_getElem (hg : gs[i]? = some g) : ((configOf first gs).named sectionName)[i]? = some (tokensOf first g) := by
  rw [named_configOf, List.getElem?_map, hg, Option.map_some]

theorem readCfgid_eq (hg : gs[i]? = some g) {j : Nat} (hl : g.linkarrays[j]? = some l) :
    readCfgid (configOf first gs) j i = some (some l) := by
  rw [readCfgid, cfgGetValue_eq, named_getElem hg, Option.bind_some, values_link _ rfl, List.getElem?_map, hl,
    Option.map_some]
  dsimp only
  rw [fieldLoop_linkFields, Option.map_some, slinkOf_numbers]

theorem readLinks_eq {links : List Slink} (hg : gs[i]? = some g) (n index : Nat)
    (hn : index + n = g.linkarrays.length) (hlen : links.length = g.linkarrays.length) :
    readLinks (configOf first gs) i n index links = some (true, links.take index ++ g.linkarrays.drop index) := by
  induction n generalizing index links with
  | zero =>
      rw [readLinks, List.take_of_length_le (by omega), List.drop_eq_nil_of_le (by omega), List.append_nil]
  | succ n ih =>
      have hlt : index < g.linkarrays.length := by omega
      rw [readLinks, readCfgid_eq hg (List.getElem?_eq_getElem hlt), Option.bind_some]
      dsimp only
      rw [ih (index + 1) (by omega) (by rwa [List.length_set]),
        List.take_succ_eq_append_getElem (by rw [List.length_set]; omega), List.getElem_set_self,
        List.take_set_of_le (Nat.le_refl _), List.append_assoc, List.singleton_append, List.getElem_cons_drop]

def loaded (g : Group) : Group := ⟨g.groupId, 0, g.linkarrays.length, g.linkarrays⟩

theorem loadGroup_eq (hg : gs[i]? = some g) (hid : IsInt g.groupId) (hflag : IsInt (printedFlag first g)) (old : Group) :
    loadGroup (configOf first gs) i old = some (true, loaded g) := by
  obtain ⟨hgroupid, hflagValue⟩ := values_first first (configOf first gs) rfl g
  have hidShort : shortValue (configOf first gs) groupidName i = some (some (signed g.groupId)) := by
    have hlen := length_signed hid
    rw [shortValue, cfgGetValue_eq, named_getElem hg, Option.bind_some, hgroupid]
    exact if_neg (by omega)
  have hflagShort : shortValue (configOf first gs) flagName i = some (some (signed (printedFlag first g))) := by
    have hlen := length_signed hflag
    rw [shortValue, cfgGetValue_eq, named_getElem hg, Option.bind_some, hflagValue]
    exact if_neg (by omega)
  have hscalar : ∀ t ∈ tokensOf first g, t.type = .scalar := by
    intro t ht
    rcases List.mem_cons.mp ht with rfl | ht
    · rfl
    · rcases List.mem_cons.mp ht with rfl | ht
      · rfl
      · obtain ⟨l, -, rfl⟩ := List.mem_map.mp ht
        rfl
  have hcount : cfgGetCount (configOf first gs) sectionName (some linkName) (i + 1) = g.linkarrays.length := by
    rw [cfgGetCount_eq (named_getElem hg) hscalar, values_link _ rfl, List.length_map]
  rw [loadGroup, hidShort, Option.bind_some, hflagShort, Option.bind_some]
  dsimp only
  rw [hcount, Int.toNat_natCast, readLinks_eq hg _ 0 (Nat.zero_add _) List.length_replicate, Option.map_some,
    Option.map_some, Option.getD_some, atoi_signed hid.1 hid.2]
  rfl

theorem loadGroups_eq (hgs : ∀ g ∈ gs, IsInt g.groupId ∧ IsInt (printedFlag first g)) (n i : Nat)
    {ginfo : List Group} (hn : i + n = gs.length) (hlen : gs.length ≤ ginfo.length) :
    loadGroups (configOf first gs) n i ginfo =
      some (0, ginfo.take i ++ (gs.drop i).map loaded ++ ginfo.drop gs.length) := by
  induction n generalizing i ginfo with
  | zero =>
      rw [loadGroups, List.drop_eq_nil_of_le (show gs.length ≤ i by omega), List.map_nil, List.append_nil, ← hn,
        Nat.add_zero, List.take_append_drop]
  | succ n ih =>
      have hlt : i < gs.length := by omega
      obtain ⟨hid, hflag⟩ := hgs gs[i] (List.getElem_mem hlt)
      rw [loadGroups, List.getElem?_eq_getElem (by omega), Option.bind_some,
        loadGroup_eq (List.getElem?_eq_getElem hlt) hid hflag, Option.bind_some, if_pos rfl,
        ih (i + 1) (by omega) (by rwa [List.length_set]),
        List.take_succ_eq_append_getElem (by rw [List.length_set]; omega), List.getElem_set_self,
        List.take_set_of_le (Nat.le_refl _), List.append_assoc (ginfo.take i), List.singleton_append]
      dsimp only
      rw [← List.map_cons, List.getElem_cons_drop, List.drop_set_of_lt hlt]

theorem byteLoop_append {α : Type} {xs : List α} (f : α → Text) {body : UInt8 → Text → Option Text}
    (hbody : ∀ k (hk : k < xs.length) s, body (UInt8.ofNat k) s = some (s ++ f xs[k])) (hlen : xs.length ≤ 255)
    {fuel : Nat} (hfuel : xs.length < fuel) (s : Text) :
    byteLoop xs.length body fuel s = some (s ++ xs.flatMap f) := by
  have hfrom : ∀ fuel k s, k ≤ xs.length → xs.length < k + fuel →
      loop (byteStep xs.length body) fuel (UInt8.ofNat k, s) = some (s ++ (xs.drop k).flatMap f) := by
    intro fuel
    induction fuel with
    | zero =>
        intro k s hk hf
        omega
    | succ fuel ih =>
        intro k s hk hf
        have hbyte : (UInt8.ofNat k).toNat = k := UInt8.toNat_ofNat_of_lt' (show k < 256 by omega)
        rw [loop, byteStep]
        dsimp only
        rw [hbyte]
        rcases Nat.lt_or_ge k xs.length with hlt | hge
        · rw [if_pos (Int.ofNat_lt.mpr hlt), hbody k hlt, Option.map_some, Option.bind_some, Sum.elim_inl,
            ← UInt8.ofNat_one, ← UInt8.ofNat_add, ih (k + 1) _ hlt (by omega), List.append_assoc, ← List.flatMap_cons,
            List.getElem_cons_drop]
        · rw [if_neg (fun h => Nat.not_le_of_lt (Int.ofNat_lt.mp h) hge), List.drop_eq_nil_of_le hge,
            List.flatMap_nil, List.append_nil]
          rfl
  have h := hfrom fuel 0 s (Nat.zero_le _) (by omega)
  rwa [List.drop_zero] at h

theorem byteLoop_ends {σ : Type} {body : UInt8 → σ → Option σ} {n : Nat}
    (hbody : ∀ k < n, ∀ s, ∃ t, body (UInt8.ofNat k) s = some t) (hn : n ≤ 255) {fuel : Nat} (hfuel : n < fuel)
    (s : σ) : ∃ t, byteLoop n body fuel s = some t := by
  have hround : ∀ s : UInt8 × σ, s.1.toNat ≤ n →
      Round (byteStep n body) (fun s => s.1.toNat ≤ n) (fun _ => True) (fun s => n - s.1.toNat) s := by
    intro s hs
    rcases Nat.lt_or_ge s.1.toNat n with hlt | hge
    · obtain ⟨t, ht⟩ := hbody _ hlt s.2
      rw [UInt8.ofNat_toNat] at ht
      have hnext : (s.1 + 1).toNat = s.1.toNat + 1 := by
        rw [UInt8.toNat_add, UInt8.toNat_one]
        omega
      refine .inl ⟨(s.1 + 1, t), ?_, ?_, ?_⟩
      · rw [byteStep, if_pos (Int.ofNat_lt.mpr hlt), ht, Option.map_some]
      · dsimp only
        omega
      · dsimp only
        omega
    · exact .inr ⟨s.2, if_neg fun h => Nat.not_le_of_lt (Int.ofNat_lt.mp h) hge, trivial⟩
  obtain ⟨t, ht, -⟩ := loop_total hround (show ((0, s) : UInt8 × σ).1.toNat ≤ n from Nat.zero_le n)
    (Nat.lt_of_le_of_lt (Nat.sub_le _ _) hfuel)
  exact ⟨t, ht⟩

theorem byteLoop_never {σ : Type} {bound : Int} {body : UInt8 → σ → Option σ} (hbound : 256 ≤ bound) (fuel : Nat)
    (s : σ) : byteLoop bound body fuel s = none := by
  have hfrom : ∀ fuel (s : UInt8 × σ), loop (byteStep bound body) fuel s = none := by
    intro fuel
    induction fuel with
    | zero => exact fun _ => rfl
    | succ fuel ih =>
        intro s
        have hlt := s.1.toNat_lt
        rw [loop, byteStep, if_pos (by omega)]
        cases body s.1 s.2 with
        | none => rfl
        | some t => exact ih _
  exact hfrom fuel (0, s)

structure Printable (g : Group) : Prop where
  groupId : IsInt g.groupId
  flag : IsInt g.flag
  size : g.linkarraysSize = g.linkarrays.length
  links : 0 < g.linkarrays.length ∧ g.linkarrays.length ≤ 255

theorem isInt_printedFlag (first : Bool) (hg : Printable g) : IsInt (printedFlag first g) := by
  rw [printedFlag]
  split
  · decide
  · exact hg.flag

theorem signed_printedFlag (first : Bool) (g : Group) :
    (if first then ['1'] else signed g.flag) = signed (printedFlag first g) := by
  rw [printedFlag]
  split
  · rfl
  · rfl

theorem printGroup_eq {ginfo : List Group} {fuel : Nat} {k : Nat} (hk : k < 256) (hg : ginfo[k]? = some g)
    (hp : Printable g) (hfuel : 256 ≤ fuel) (s : Text) :
    printGroup first fuel ginfo (UInt8.ofNat k) s = some (s ++ (groupLines first g).flatten) := by
  obtain ⟨-, hlinks⟩ := hp.links
  have hbyte : (UInt8.ofNat k).toNat = k := UInt8.toNat_ofNat_of_lt' hk
  have hsize : g.linkarraysSize % 256 = g.linkarrays.length := by
    rw [hp.size]
    omega
  have hbody : ∀ j (hj : j < g.linkarrays.length) s,
      printLink g.linkarrays (UInt8.ofNat j) s = some (s ++ line linkName (linkValue g.linkarrays[j])) := by
    intro j hj s
    have hbyte : (UInt8.ofNat j).toNat = j := UInt8.toNat_ofNat_of_lt' (show j < 256 by omega)
    rw [printLink, hbyte, List.getElem?_eq_getElem hj, Option.map_some]
  rw [printGroup, hbyte, hg, Option.bind_some]
  dsimp only
  rw [hsize, byteLoop_append (fun l => line linkName (linkValue l)) hbody hlinks (by omega), signed_printedFlag, groupLines]
  simp only [List.flatten_cons, List.append_assoc, List.flatMap_def]

theorem whole_groupLines (hg : Printable g) : ∀ piece ∈ groupLines first g, Whole piece := by
  have hid := length_signed hg.groupId
  have hflag := length_signed (isInt_printedFlag first hg)
  have h1 : groupidName.length = 7 := rfl
  have h2 : flagName.length = 4 := rfl
  have h3 : linkName.length = 4 := rfl
  intro piece hpiece
  rcases List.mem_cons.mp hpiece with rfl | hpiece
  · exact ⟨'[' :: sectionName ++ [']'], rfl, by decide, by decide⟩
  rcases List.mem_cons.mp hpiece with rfl | hpiece
  · exact whole_line (by decide) (value_signed _) (by omega)
  rcases List.mem_cons.mp hpiece with rfl | hpiece
  · exact whole_line (by decide) (value_signed _) (by omega)
  · obtain ⟨l, -, rfl⟩ := List.mem_map.mp hpiece
    have hlen := length_linkValue l
    exact whole_line (by decide) (value_linkValue l) (by omega)

def kept (g : Group) : Int × Int × List Slink := (g.groupId, g.linkarraysSize, g.linkarrays)

/-- The file of at most 255 groups is read back. -/
theorem aging_file_round_trip {gs : List Group} (hcount : gs.length ≤ 255) (hgs : ∀ g ∈ gs, Printable g) (gsize : Int)
    (more : List Group) {first : Bool} {setGroupInfoCout newGroupCout : Int}
    (hprinted : (if first then setGroupInfoCout else newGroupCout) = gs.length) {fuel : Nat} (hfuel : 256 ≤ fuel)
    {old : AllGroup} (hold : old.ginfo.length = maxGroup) :
    ∃ text, printGroupfile fuel ⟨gsize, gs ++ more⟩ first setGroupInfoCout newGroupCout =
        some (text, ⟨gs.length, gs ++ more⟩) ∧
      ∃ new, loadOldGroupFile (some text) old = some (0, new) ∧ new.gsize = gs.length ∧
        (new.ginfo.take gs.length).map kept = gs.map kept := by
  have hbody : ∀ k (hk : k < gs.length) s, printGroup first fuel (gs ++ more) (UInt8.ofNat k) s =
      some (s ++ (groupLines first gs[k]).flatten) := by
    intro k hk s
    have hg : (gs ++ more)[k]? = some gs[k] := by
      rw [List.getElem?_append_left hk, List.getElem?_eq_getElem hk]
    exact printGroup_eq (by omega) hg (hgs _ (List.getElem_mem hk)) hfuel s
  have hprint := byteLoop_append (fun g => (groupLines first g).flatten) hbody hcount
    (show gs.length < fuel by omega) []
  have htext : [] ++ gs.flatMap (fun g => (groupLines first g).flatten) = (gs.flatMap (groupLines first)).flatten := by
    rw [List.nil_append, List.flatMap_def, List.flatMap_def, List.flatten_flatten, List.map_map]
    rfl
  have hload : cfgInitialize (gs.flatMap (groupLines first)).flatten = some (configOf first gs) := by
    have hwhole : ∀ piece ∈ gs.flatMap (groupLines first), Whole piece := by
      intro piece hpiece
      obtain ⟨g, hg, hpiece⟩ := List.mem_flatMap.mp hpiece
      exact whole_groupLines (hgs g hg) piece hpiece
    rw [cfgInitialize, cfgLoadConfiguration, getLines_flatten hwhole, readLines_groups]
    rfl
  have hints : ∀ g ∈ gs, IsInt g.groupId ∧ IsInt (printedFlag first g) :=
    fun g hg => ⟨(hgs g hg).groupId, isInt_printedFlag first (hgs g hg)⟩
  have hsections : cfgGetCount (configOf first gs) sectionName none 0 = gs.length := by
    rw [cfgGetCount_sections, named_configOf, List.length_map]
  have hroom : gs.length ≤ old.ginfo.length := by
    rw [hold, maxGroup]
    omega
  have hgroups := loadGroups_eq hints gs.length 0 (Nat.zero_add _) hroom
  rw [htext] at hprint
  refine ⟨(gs.flatMap (groupLines first)).flatten, ?_, ⟨gs.length, gs.map loaded ++ old.ginfo.drop gs.length⟩, ?_, rfl, ?_⟩
  · rw [printGroupfile]
    dsimp only
    rw [hprinted, hprint]
    rfl
  · rw [loadOldGroupFile, hload]
    dsimp only
    rw [hsections, Int.toNat_natCast, hgroups]
    rfl
  · dsimp only
    rw [List.take_left' (List.length_map _), List.map_map]
    apply List.map_congr_left
    intro g hg
    rw [Function.comp_apply, loaded, kept, kept, (hgs g hg).size]

def oneGroup : Group :=
  ⟨-3, 1, 1, [{ Slink.zero with fiber := 255, mfi := 65535, svcType := 4294967295, v5Cnt := 8 }]⟩

theorem aging_file_oneGroup : ∃ text, printGroupfile 256 ⟨0, [oneGroup] ++ []⟩ true 1 0 =
      some (text, ⟨[oneGroup].length, [oneGroup] ++ []⟩) ∧
    ∃ new, loadOldGroupFile (some text) ⟨0, List.replicate maxGroup ⟨0, 0, 0, []⟩⟩ = some (0, new) ∧
      new.gsize = [oneGroup].length ∧ (new.ginfo.take [oneGroup].length).map kept = [oneGroup].map kept := by
  have hgs : ∀ g ∈ [oneGroup], Printable g := by
    intro g hg
    obtain rfl := List.mem_singleton.mp hg
    exact ⟨by decide, by decide, rfl, by decide⟩
  exact aging_file_round_trip (by decide) hgs 0 [] rfl (Nat.le_refl 256) List.length_replicate

end OiAmc.AgingFile

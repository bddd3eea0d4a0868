import OiAmc.CconfigReload
import OiAmc.FilterPrint

/-! The filter that a section of a configuration asks for. -/

namespace OiAmc.FilterCfg

open ByteBuffer ByteOrder Cconfig Filter FilterLogic Numerals

def ULONG_MAX : Nat := 2 ^ 64 - 1

/-- The numeral at the start of a text as strtoul and strtoull read it: too large a one is the largest of 64 bits, and
a negative one wraps around. -/
def unsigned (base : Nat) (s : Text) : Option (Nat × Text) :=
  let (negative, t) := sign (s.dropWhile isSpace)
  let (base, t) := baseOf base t
  let ds := t.takeWhile (isDigit base)
  if ds = [] then none
  else
    let v := Numerals.value base ds
    let ul := if ULONG_MAX < v then ULONG_MAX else if negative then (2 ^ 64 - v) % 2 ^ 64 else v
    some (ul, t.dropWhile (isDigit base))

def strtoul (base : Nat) (s : Text) : Nat × Text := (unsigned base s).getD (0, s)

/-- The `%u` of `sscanf`. -/
def scanUnsigned (s : Text) : Option (UInt32 × Text) := (unsigned 10 s).map fun r => (UInt32.ofNat r.1, r.2)

def scanAddr (ip : Text) : Option (UInt32 × UInt32 × UInt32 × UInt32) := do
  let (a, s) ← scanUnsigned ip
  let (b, s) ← scanUnsigned (← scanChar '.' s)
  let (c, s) ← scanUnsigned (← scanChar '.' s)
  let (d, _) ← scanUnsigned (← scanChar '.' s)
  return (a, b, c, d)

/-- The largest number where the text is not an address. -/
def getIpAddr (ip : Text) : UInt32 :=
  match scanAddr ip with
  | none => 0xffffffff
  | some (a, b, c, d) =>
      if a > 0 ∧ a < 255 ∧ b ≥ 0 ∧ b < 255 ∧ c ≥ 0 ∧ c < 255 ∧ d > 0 ∧ d < 255 then
        (a &&& 0xff) <<< 24 ||| (b &&& 0xff) <<< 16 ||| (c &&& 0xff) <<< 8 ||| (d &&& 0xff)
      else 0xffffffff

/-- `OP_EQ` -/
def opEq : UInt8 := 1

/-- The octets of a number where it stands in memory. -/
def octetsOf (host : Endian) (n : Nat) (v : Nat) : List UInt8 :=
  let octets := (List.range n).map fun i => UInt8.ofNat (v / 256 ^ i)
  match host with
  | .little => octets
  | .big => octets.reverse

/-- One of the four lists of a section: its name, the options it is compared with, and how a text is read. -/
structure Kind where
  id : Text
  options : List FilterOption
  datatype : UInt8
  read : Text → Option (List UInt8)

def readNumber (host : Endian) (n : Nat) (text : Text) : Option (List UInt8) :=
  let (ul, ptr) := strtoul 0 text
  if ptr = [] then some (octetsOf host n ul) else none

def ip (host : Endian) : Kind where
  id := "ip".toList
  options := [.srcIpAddr, .dstIpAddr]
  datatype := DataType.byte4
  read text :=
    let ip := getIpAddr text
    if ip = 0xffffffff then none else some (octetsOf host 4 ip.toNat)

def spc (host : Endian) : Kind := ⟨"spc".toList, [.opc, .dpc], DataType.byte4, readNumber host 4⟩

def sio (host : Endian) : Kind := ⟨"sio".toList, [.mtpSio], DataType.byte4, readNumber host 4⟩

def sgt (host : Endian) : Kind := ⟨"sgt".toList, [.ogt, .dgt], DataType.byte8, readNumber host 8⟩

/-- `sizeof(value)` -/
def valueRoom : Nat := 128

/-- The first comparison becomes the filter, and each other one is an alternative to it. -/
def addAlternatives (datatype : UInt8) (octets : List UInt8) : List FilterOption → SFilter → Option SFilter
  | [], filter => some filter
  | option :: options, filter => do
      let single ← filterSingle option opEq datatype octets none
      addAlternatives datatype octets options (if filter = .null then single else filterOr filter single)

/-- The values of a list from the i-th on. A value that does not fit has the outcome none. -/
def loadValues (h : CConfig) (sname : Text) (kind : Kind) : Nat → Nat → SFilter → Option (Int × SFilter)
  | _, 0, filter => some (0, filter)
  | i, n + 1, filter =>
      match cfgGetValue h sname (some kind.id) i 1 with
      | none => some (-1, filter)
      | some value =>
          if valueRoom ≤ value.length then none
          else match kind.read value with
            | none => some (-1, filter)
            | some octets => do
                let filter ← addAlternatives kind.datatype octets kind.options filter
                loadValues h sname kind (i + 1) n filter

def loadKind (h : CConfig) (sname : Text) (kind : Kind) (filter : SFilter) : Option (Int × SFilter) :=
  loadValues h sname kind 1 (cfgGetCount h sname (some kind.id) 1).toNat filter

def cfgExistSection (h : CConfig) (sname : Text) (sectionIndex : Nat) : Bool := (h.find sname sectionIndex).isSome

def snameOf (section_ : Option Text) : Text := section_.getD "Filter Condition".toList

/-- A list that cannot be read ends the load. -/
def thenLoad (loaded : Option (Int × SFilter)) (rest : SFilter → Option (Int × SFilter)) : Option (Int × SFilter) := do
  let (rc, filter) ← loaded
  if rc < 0 then return (rc, filter)
  rest filter

/-- Addresses hide the other lists. -/
def loadLists (host : Endian) (h : CConfig) (sname : Text) : Option (Int × SFilter) :=
  thenLoad (loadKind h sname (ip host) .null) fun filter =>
    if filter ≠ .null then some (0, filter)
    else
      thenLoad (loadKind h sname (spc host) filter) fun filter =>
        thenLoad (loadKind h sname (sio host) filter) (loadKind h sname (sgt host))

def filterCfgLoad (host : Endian) (h : CConfig) (section_ : Option Text) : Option (Int × SFilter) :=
  let sname := snameOf section_
  if !cfgExistSection h sname 1 then some (0, .null)
  else match cfgGetValue h sname (some "disabled".toList) 1 1 with
    | none => some (-1, .null)
    | some value =>
        if valueRoom ≤ value.length then none
        else if value ≠ "no".toList then some (0, .null)
        else loadLists host h sname

/-- Without a handle the filter stays as it is, and where the load fails it is released. -/
def filterCfghd (host : Endian) (cfghd : Option CConfig) (section_ : Option Text) (filter : SFilter) :
    Option (Int × SFilter) :=
  match cfghd with
  | none => some (-1, filter)
  | some h => (filterCfgLoad host h section_).map fun r => if r.1 < 0 then (-1, .null) else (0, r.2)

def filterCfgfile (host : Endian) (text : Text) (section_ : Option Text) (filter : SFilter) : Option (Int × SFilter) :=
  filterCfghd host (cfgInitialize text) section_ filter

def filterCfgstr (host : Endian) (cfgstr : Text) (section_ : Option Text) (filter : SFilter) :
    Option (Int × SFilter) :=
  filterCfghd host ((readLines .start (CconfigReload.splitString cfgstr)).map fun lines => ⟨lines, true⟩) section_ filter

structure Comparison where
  option : FilterOption
  octets : List UInt8

def comparisons (kind : Kind) (values : List Text) : Option (List Comparison) :=
  (values.mapM kind.read).map fun read => read.flatMap fun octets => kind.options.map fun o => ⟨o, octets⟩

def listed (host : Endian) (h : CConfig) (tokens : List Token) : Option (List Comparison) := do
  let of kind := comparisons kind (h.values (some kind.id) tokens)
  let ips ← of (ip host)
  if ips ≠ [] then return ips
  return (← of (spc host)) ++ (← of (sio host)) ++ (← of (sgt host))

/-- What a section asks for: the comparisons one of which is enough, none where it is refused. -/
def asked (host : Endian) (h : CConfig) (sname : Text) : Option (List Comparison) :=
  match h.named sname with
  | [] => some []
  | tokens :: _ =>
      match h.values (some "disabled".toList) tokens with
      | [] => none
      | disabled :: _ => if disabled ≠ "no".toList then some [] else listed host h tokens

def filterTraversing : SFilter → List UInt16
  | .null => []
  | .node f lchild rchild =>
      if f.type = FilterType.single then [f.optionType] else filterTraversing lchild ++ filterTraversing rchild

structure Stands (filter : SFilter) (cs : List Comparison) : Prop where
  null : filter = .null ↔ cs = []
  complete : filter ≠ .null → Complete filter
  visits : filterTraversing filter = cs.map fun c => c.option.val
  passes : filter ≠ .null → ∀ {α : Type} (arg : α) (compare : Compare α), ZeroOne compare →
    filterLogicResult arg compare filter =
      truth (cs.any fun c => compare arg c.option.val opEq c.octets (UInt32.ofNat c.octets.length) = 1)

/-- What comes of a load whose comparisons are these. -/
def Leaves (r : Int × SFilter) : Option (List Comparison) → Prop
  | none => r.1 = -1
  | some cs => r.1 = 0 ∧ Stands r.2 cs

structure Sized (kind : Kind) : Prop where
  options : kind.options ≠ []
  read : ∀ {text octets}, kind.read text = some octets → octets.length < 2 ^ 32 ∧
    valueLenOf kind.datatype octets none = some (some (UInt32.ofNat octets.length))

variable {host : Endian} {h : CConfig} {sname : Text} {kind : Kind} {tokens : List Token} {filter : SFilter}
  {cs : List Comparison} {octets : List UInt8} {datatype : UInt8} {n : Nat}

theorem octetsOf_length (host : Endian) (n v : Nat) : (octetsOf host n v).length = n := by
  cases host <;> simp [octetsOf]

theorem readNumber_eq_some {text : Text} (hread : readNumber host n text = some octets) : octets.length = n := by
  simp only [readNumber] at hread
  split_ifs at hread
  obtain rfl := Option.some.inj hread
  exact octetsOf_length host n _

theorem ip_sized (host : Endian) : Sized (ip host) where
  options := List.cons_ne_nil _ _
  read hread := by
    simp only [ip] at hread
    split_ifs at hread
    obtain rfl := Option.some.inj hread
    rw [octetsOf_length]
    exact ⟨by decide, rfl⟩

theorem spc_sized (host : Endian) : Sized (spc host) where
  options := List.cons_ne_nil _ _
  read hread := by
    rw [readNumber_eq_some hread]
    exact ⟨by decide, rfl⟩

theorem sio_sized (host : Endian) : Sized (sio host) where
  options := List.cons_ne_nil _ _
  read hread := by
    rw [readNumber_eq_some hread]
    exact ⟨by decide, rfl⟩

theorem sgt_sized (host : Endian) : Sized (sgt host) where
  options := List.cons_ne_nil _ _
  read hread := by
    rw [readNumber_eq_some hread]
    exact ⟨by decide, rfl⟩

theorem stands_null : Stands .null [] :=
  ⟨iff_of_true rfl rfl, fun hne => absurd rfl hne, rfl, fun hne => absurd rfl hne⟩

theorem stands_single {f : Fields} {o : FilterOption} (htype : f.type = FilterType.single) (hnon : f.non = 0)
    (hoption : f.optionType = o.val) (hop : f.op = opEq) (hvalue : f.value = octets)
    (hlen : f.valueLen = UInt32.ofNat octets.length) : Stands (.node f .null .null) [⟨o, octets⟩] := by
  refine ⟨iff_of_false SFilter.noConfusion (List.cons_ne_nil _ _), fun _ => Or.inl htype, ?_, ?_⟩
  · rw [filterTraversing, if_pos htype, hoption]
    rfl
  · intro _ α arg compare hcompare
    rw [filterLogicResult, if_pos htype, hnon, applyNon_zero, hoption, hop, hvalue, hlen]
    rcases hcompare arg o.val opEq octets (UInt32.ofNat octets.length) with e | e <;> simp [e, truth]

/-- A filter or another one. -/
theorem stands_or {a b : SFilter} {ds : List Comparison} (ha : Stands a cs) (hb : Stands b ds) (hna : a ≠ .null)
    (hnb : b ≠ .null) : Stands (filterOr a b) (cs ++ ds) := by
  have hor : filterOr a b = .node (compositeFields FilterType.compositeOr 0
      (UInt32.ofNat composeHeadSize + a.len + b.len)) a b := if_neg (not_or.mpr ⟨hna, hnb⟩)
  have hca := ha.complete hna
  have hcb := hb.complete hnb
  refine ⟨?_, fun _ => ?_, ?_, ?_⟩
  · rw [hor]
    exact iff_of_false SFilter.noConfusion (List.append_ne_nil_of_left_ne_nil (mt ha.null.mpr hna) ds)
  · rw [hor]
    exact Or.inr ⟨Or.inl rfl, hca, hcb⟩
  · rw [hor, filterTraversing]
    refine (if_neg FilterType.or_ne_single).trans ?_
    rw [ha.visits, hb.visits, List.map_append]
  · intro _ α arg compare hcompare
    rw [result_filterOr hcompare hca hcb, ha.passes hna arg compare hcompare, hb.passes hnb arg compare hcompare,
      List.any_append]
    cases cs.any _ <;> cases ds.any _ <;> rfl

/-- The comparison that is added is an alternative to those before. -/
theorem single_stands (hf : Stands filter cs) (hsize : octets.length < 2 ^ 32)
    (hlen : valueLenOf datatype octets none = some (some (UInt32.ofNat octets.length))) (o : FilterOption) :
    ∃ single, filterSingle o opEq datatype octets none = some single ∧
      Stands (if filter = .null then single else filterOr filter single) (cs ++ [⟨o, octets⟩]) := by
  have hnat : (UInt32.ofNat octets.length).toNat = octets.length := by
    rw [UInt32.toNat_ofNat', Nat.mod_eq_of_lt hsize]
  simp only [filterSingle, hlen, Option.bind_eq_bind, Option.bind_some, hnat, lt_irrefl, if_false, List.take_length]
  refine ⟨_, rfl, ?_⟩
  split
  · next hnull =>
      rw [hf.null.mp hnull, List.nil_append]
      exact stands_single rfl rfl rfl rfl rfl rfl
  · next hne => exact stands_or hf (stands_single rfl rfl rfl rfl rfl rfl) hne SFilter.noConfusion

theorem alternatives_stand (hf : Stands filter cs) (hsize : octets.length < 2 ^ 32)
    (hlen : valueLenOf datatype octets none = some (some (UInt32.ofNat octets.length))) (options : List FilterOption) :
    ∃ filter', addAlternatives datatype octets options filter = some filter' ∧
      Stands filter' (cs ++ options.map fun o => ⟨o, octets⟩) := by
  induction options generalizing filter cs with
  | nil => exact ⟨filter, rfl, by rwa [List.map_nil, List.append_nil]⟩
  | cons o options ih =>
      obtain ⟨single, hsingle, hstands⟩ := single_stands hf hsize hlen o
      obtain ⟨filter', hadd, hstands'⟩ := ih hstands
      refine ⟨filter', ?_, by rwa [List.append_assoc] at hstands'⟩
      rw [addAlternatives, hsingle]
      exact hadd

theorem comparisons_nil (kind : Kind) : comparisons kind [] = some [] := rfl

theorem comparisons_cons (kind : Kind) (v : Text) (vs : List Text) : comparisons kind (v :: vs) =
    (kind.read v).bind fun octets => (comparisons kind vs).map
      fun cs => kind.options.map (fun o => ⟨o, octets⟩) ++ cs := by
  rw [comparisons, List.mapM_cons]
  cases kind.read v with
  | none => rfl
  | some octets => cases hvs : vs.mapM kind.read <;> simp [comparisons, hvs]

theorem values_room (hroom : ∀ t ∈ tokens, t.value.length < valueRoom) {id : Option Text} {v : Text}
    (hv : v ∈ h.values id tokens) : v.length < valueRoom := by
  obtain ⟨t, ht, rfl⟩ := List.mem_map.mp hv
  exact hroom t (List.mem_of_mem_filter ht)

/-- One list of the section: all its values are read, or the first that is not ends the load. -/
theorem loadValues_leaves (hkind : Sized kind) (hname : (h.named sname)[0]? = some tokens)
    (hroom : ∀ t ∈ tokens, t.value.length < valueRoom) (n : Nat) {k : Nat}
    (hn : k + n = (h.values (some kind.id) tokens).length) (hf : Stands filter cs) :
    ∃ r, loadValues h sname kind (k + 1) n filter = some r ∧
      Leaves r ((comparisons kind ((h.values (some kind.id) tokens).drop k)).map (cs ++ ·)) := by
  induction n generalizing k filter cs with
  | zero =>
      rw [List.drop_eq_nil_of_le (by omega), comparisons_nil, Option.map_some, List.append_nil]
      exact ⟨_, rfl, rfl, hf⟩
  | succ n ih =>
      have hk : k < (h.values (some kind.id) tokens).length := by omega
      obtain ⟨v, hv⟩ : ∃ v, v = (h.values (some kind.id) tokens)[k] := ⟨_, rfl⟩
      have hget : cfgGetValue h sname (some kind.id) (k + 1) 1 = some v := by
        rw [cfgGetValue_eq, hname, Option.bind_some, List.getElem?_eq_getElem hk, hv]
      have hlt : ¬ valueRoom ≤ v.length :=
        Nat.not_le_of_lt (values_room hroom (hv ▸ List.getElem_mem hk))
      rw [List.drop_eq_getElem_cons hk, ← hv, comparisons_cons, loadValues, hget]
      simp only [if_neg hlt]
      cases hread : kind.read v with
      | none => exact ⟨_, rfl, rfl⟩
      | some octets =>
          obtain ⟨hsize, hlen⟩ := hkind.read hread
          obtain ⟨filter', hadd, hstands⟩ := alternatives_stand hf hsize hlen kind.options
          obtain ⟨r, hload, hr⟩ := ih (k := k + 1) (by omega) hstands
          refine ⟨r, ?_, ?_⟩
          · simp only [hadd, Option.bind_eq_bind, Option.bind_some]
            exact hload
          · rw [Option.bind_some, Option.map_map]
            simpa only [Function.comp_def, List.append_assoc] using hr

theorem loadKind_leaves (hkind : Sized kind) (hname : (h.named sname)[0]? = some tokens)
    (hscalar : ∀ t ∈ tokens, t.type = .scalar) (hroom : ∀ t ∈ tokens, t.value.length < valueRoom)
    (hf : Stands filter cs) : ∃ r, loadKind h sname kind filter = some r ∧
      Leaves r ((comparisons kind (h.values (some kind.id) tokens)).map (cs ++ ·)) := by
  have hcount : cfgGetCount h sname (some kind.id) 1 = (h.values (some kind.id) tokens).length :=
    cfgGetCount_eq hname hscalar kind.id
  rw [loadKind, hcount, Int.toNat_natCast]
  simpa only [List.drop_zero] using loadValues_leaves hkind hname hroom _ (Nat.zero_add _) hf

theorem scalar_of_valued (hmixed : Unmixed tokens) {id : Text} (hv : h.values (some id) tokens ≠ []) :
    ∀ t ∈ tokens, t.type = .scalar := by
  rcases hmixed with hs | hvec
  · exact fun t ht => (hs t ht).1
  · refine absurd (List.map_eq_nil_iff.mpr (List.filter_eq_nil_iff.mpr fun t ht => ?_)) hv
    rw [(hvec t ht).2]
    exact Bool.false_ne_true

theorem thenLoad_leaves {loaded : Option (Int × SFilter)} {rest : SFilter → Option (Int × SFilter)}
    {a : Option (List Comparison)} {b : List Comparison → Option (List Comparison)}
    (hload : ∃ r, loaded = some r ∧ Leaves r a)
    (hrest : ∀ cs filter, Stands filter cs → ∃ r, rest filter = some r ∧ Leaves r (b cs)) :
    ∃ r, thenLoad loaded rest = some r ∧ Leaves r (a.bind b) := by
  obtain ⟨⟨rc, filter⟩, rfl, hr⟩ := hload
  simp only [thenLoad, Option.bind_eq_bind, Option.bind_some]
  cases a with
  | none =>
      obtain rfl : rc = -1 := hr
      exact ⟨_, if_pos (by decide), rfl⟩
  | some cs =>
      obtain ⟨rfl, hstands⟩ : rc = 0 ∧ Stands filter cs := hr
      rw [if_neg (lt_irrefl _)]
      exact hrest cs filter hstands

theorem loadLists_leaves (host : Endian) (hname : (h.named sname)[0]? = some tokens)
    (hscalar : ∀ t ∈ tokens, t.type = .scalar) (hroom : ∀ t ∈ tokens, t.value.length < valueRoom) :
    ∃ r, loadLists host h sname = some r ∧ Leaves r (listed host h tokens) := by
  have hkind : ∀ kind, Sized kind → ∀ cs filter, Stands filter cs → ∃ r, loadKind h sname kind filter = some r ∧
      Leaves r ((comparisons kind (h.values (some kind.id) tokens)).map (cs ++ ·)) :=
    fun kind hkind cs filter hf => loadKind_leaves hkind hname hscalar hroom hf
  have hlisted : listed host h tokens = ((comparisons (ip host) (h.values (some (ip host).id) tokens)).map ([] ++ ·)).bind
      fun ips => if ips ≠ [] then some ips else
        ((comparisons (spc host) (h.values (some (spc host).id) tokens)).map (ips ++ ·)).bind fun cs =>
          ((comparisons (sio host) (h.values (some (sio host).id) tokens)).map (cs ++ ·)).bind fun cs =>
            (comparisons (sgt host) (h.values (some (sgt host).id) tokens)).map (cs ++ ·) := by
    simp only [listed, Option.bind_eq_bind, Option.pure_def, List.nil_append, Option.map_id']
    congr 1
    funext ips
    split_ifs with hips
    · rfl
    · obtain rfl := not_not.mp hips
      cases comparisons (spc host) _ <;> cases comparisons (sio host) _ <;> cases comparisons (sgt host) _ <;> rfl
  rw [hlisted]
  apply thenLoad_leaves (hkind _ (ip_sized host) [] .null stands_null)
  intro ips filter hf
  by_cases hnull : filter = .null
  · rw [if_neg (not_not_intro hnull), if_neg (not_not_intro (hf.null.mp hnull))]
    apply thenLoad_leaves (hkind _ (spc_sized host) ips filter hf)
    intro cs filter hf
    exact thenLoad_leaves (hkind _ (sio_sized host) cs filter hf) (hkind _ (sgt_sized host))
  · rw [if_pos hnull, if_pos (mt hf.null.mpr hnull)]
    exact ⟨_, rfl, rfl, hf⟩

theorem filterCfgLoad_leaves (host : Endian) (section_ : Option Text)
    (hmixed : ∀ tokens, (h.named (snameOf section_))[0]? = some tokens → Unmixed tokens)
    (hroom : ∀ tokens, (h.named (snameOf section_))[0]? = some tokens → ∀ t ∈ tokens, t.value.length < valueRoom) :
    ∃ r, filterCfgLoad host h section_ = some r ∧ Leaves r (asked host h (snameOf section_)) := by
  simp only [filterCfgLoad, asked]
  generalize snameOf section_ = sname at *
  generalize "disabled".toList = disabledId
  generalize "no".toList = no
  have hexist : cfgExistSection h sname 1 = (h.named sname)[0]?.isSome := by
    rw [cfgExistSection, find_eq]
  have hget : cfgGetValue h sname (some disabledId) 1 1 =
      (h.named sname)[0]?.bind fun tokens => (h.values (some disabledId) tokens)[0]? := cfgGetValue_eq
  rw [hexist, hget]
  cases hnamed : h.named sname with
  | nil => exact ⟨_, rfl, rfl, stands_null⟩
  | cons tokens rest =>
      have hname : (h.named sname)[0]? = some tokens := by
        rw [hnamed]
        rfl
      have hroom := hroom tokens hname
      dsimp only [List.getElem?_cons_zero, Option.isSome_some, Bool.not_true, Option.bind_some]
      cases hdisabled : h.values (some disabledId) tokens with
      | nil => exact ⟨_, rfl, rfl⟩
      | cons disabled others =>
          have hscalar := scalar_of_valued (hmixed tokens hname) (hdisabled ▸ List.cons_ne_nil disabled others)
          have hlt : ¬ valueRoom ≤ disabled.length :=
            Nat.not_le_of_lt (values_room hroom (hdisabled ▸ List.mem_cons_self))
          simp only [List.getElem?_cons_zero, Bool.false_eq_true, if_false, if_neg hlt]
          by_cases hno : disabled = no
          · rw [if_neg (not_not_intro hno), if_neg (not_not_intro hno)]
            exact loadLists_leaves host hname hscalar hroom
          · rw [if_pos hno, if_pos hno]
            exact ⟨_, rfl, rfl, stands_null⟩

/-- What the caller is left with: no filter where the section is refused. -/
def Settled (r : Int × SFilter) : Option (List Comparison) → Prop
  | none => r.1 = -1 ∧ r.2 = .null
  | some cs => r.1 = 0 ∧ Stands r.2 cs

theorem filterCfghd_settled {lines : List Line} {pieces : List Text} (host : Endian) (cs : Bool)
    (section_ : Option Text) (filter : SFilter) (hlines : readLines .start pieces = some lines)
    (hroom : ∀ tokens, ((CConfig.mk lines cs).named (snameOf section_))[0]? = some tokens →
      ∀ t ∈ tokens, t.value.length < valueRoom) :
    ∃ r, filterCfghd host (some ⟨lines, cs⟩) section_ filter = some r ∧
      Settled r (asked host ⟨lines, cs⟩ (snameOf section_)) := by
  have hmixed : ∀ tokens, ((CConfig.mk lines cs).named (snameOf section_))[0]? = some tokens → Unmixed tokens := by
    intro tokens hname
    obtain ⟨s, hs, rfl⟩ := List.mem_map.mp (List.mem_of_getElem? hname)
    exact (readLines_unmixed hlines).2 s (List.mem_of_mem_filter hs)
  obtain ⟨⟨rc, f⟩, hload, hr⟩ := filterCfgLoad_leaves host section_ hmixed hroom
  simp only [filterCfghd, hload, Option.map_some]
  refine ⟨_, rfl, ?_⟩
  cases hasked : asked host ⟨lines, cs⟩ (snameOf section_) with
  | none =>
      rw [hasked] at hr
      obtain rfl : rc = -1 := hr
      exact ⟨rfl, rfl⟩
  | some leaves =>
      rw [hasked] at hr
      obtain ⟨rfl, hstands⟩ : rc = 0 ∧ Stands f leaves := hr
      exact ⟨rfl, hstands⟩

/-- The filter that a string makes lets pass what one of the listed comparisons does, visits them in order, and there
is none where nothing is listed or something listed cannot be read. -/
theorem filterCfgstr_settled {lines : List Line} (host : Endian) (cfgstr : Text) (section_ : Option Text)
    (filter : SFilter) (hlines : readLines .start (CconfigReload.splitString cfgstr) = some lines)
    (hroom : ∀ tokens, ((CConfig.mk lines true).named (snameOf section_))[0]? = some tokens →
      ∀ t ∈ tokens, t.value.length < valueRoom) :
    ∃ r, filterCfgstr host cfgstr section_ filter = some r ∧
      Settled r (asked host ⟨lines, true⟩ (snameOf section_)) := by
  rw [filterCfgstr, hlines]
  exact filterCfghd_settled host true section_ filter hlines hroom

def twoCodes : Text := "[f]\ndisabled=no\nspc=0x11\nsio=5\n".toList

theorem twoCodes_lines : readLines .start (CconfigReload.splitString twoCodes) =
    some [.header "f".toList, .scalar "disabled".toList "no".toList, .scalar "spc".toList "0x11".toList,
      .scalar "sio".toList "5".toList] := by
  rw [CconfigReload.splitString_eq (by decide)]
  decide

theorem filterCfgstr_settled_two : ∃ r, filterCfgstr .little twoCodes (some "f".toList) .null = some r ∧
    Settled r (asked .little ⟨[.header "f".toList, .scalar "disabled".toList "no".toList,
      .scalar "spc".toList "0x11".toList, .scalar "sio".toList "5".toList], true⟩ (snameOf (some "f".toList))) :=
  filterCfgstr_settled .little twoCodes (some "f".toList) .null twoCodes_lines (by
    intro tokens htokens
    obtain rfl := Option.some.inj htokens
    decide)

end OiAmc.FilterCfg

import Mathlib.Algebra.Group.Fin.Basic
import Mathlib.Algebra.Ring.Int.Defs
import Mathlib.Algebra.Ring.Nat
import Mathlib.Data.Finset.Card
import Mathlib.Logic.Function.Basic
import OiAmc.PartialMachine

/-! The files of an archive, of which `archive_write` keeps some open. -/

namespace OiAmc.Archive

open Function PartialMachine

section Files

variable {κ : Type} [DecidableEq κ] {dir : κ → Option Nat} {name old new : κ} {i j n : Nat} {v : Option Nat}

theorem update_eq_some : update dir new v name = some i ↔ (name = new ∧ v = some i) ∨ (name ≠ new ∧ dir name = some i) := by
  by_cases h : name = new
  · rw [h, update_self]
    exact ⟨fun hv => .inl ⟨rfl, hv⟩, fun hv => hv.elim And.right fun hv => absurd rfl hv.1⟩
  · rw [update_of_ne h]
    exact ⟨fun hv => .inr ⟨h, hv⟩, fun hv => hv.elim (fun hv => absurd hv.1 h) And.right⟩

def Unlinked (dir : κ → Option Nat) : Prop := ∀ a b i, dir a = some i → dir b = some i → a = b

theorem Unlinked.remove (h : Unlinked dir) (old : κ) : Unlinked (update dir old none) := by
  intro a b i ha hb
  rcases update_eq_some.mp ha with ⟨-, ha⟩ | ⟨-, ha⟩
  · cases ha
  · rcases update_eq_some.mp hb with ⟨-, hb⟩ | ⟨-, hb⟩
    · cases hb
    · exact h a b i ha hb

theorem Unlinked.link (h : Unlinked dir) (hi : ∀ name, dir name ≠ some i) (new : κ) :
    Unlinked (update dir new (some i)) := by
  intro a b j ha hb
  rcases update_eq_some.mp ha with ⟨hnew, hj⟩ | ⟨-, ha⟩
  · rcases update_eq_some.mp hb with ⟨hnew', -⟩ | ⟨-, hb⟩
    · exact hnew.trans hnew'.symm
    · exact absurd (hb.trans hj.symm) (hi b)
  · rcases update_eq_some.mp hb with ⟨-, hj⟩ | ⟨-, hb⟩
    · exact absurd (ha.trans hj.symm) (hi a)
    · exact h a b j ha hb

theorem Unlinked.remove_ne (h : Unlinked dir) (hold : dir old = some i) (name : κ) : update dir old none name ≠ some i := by
  intro hname
  rcases update_eq_some.mp hname with ⟨-, hname⟩ | ⟨hne, hname⟩
  · cases hname
  · exact hne (h _ _ _ hname hold)

/-- A directory, and what has been appended to its files. A file keeps its number under a new name. -/
structure Files (κ α : Type) where
  dir : κ → Option Nat
  data : Nat → List α
  size : Nat
  dir_lt : ∀ name i, dir name = some i → i < size
  unlinked : Unlinked dir

namespace Files

variable {α : Type} {fs : Files κ α}

/-- Without the old name nothing happens; a file that had the new name is gone. -/
def rename (fs : Files κ α) (old new : κ) : Files κ α :=
  match h : fs.dir old with
  | none => fs
  | some i =>
      { fs with
        dir := update (update fs.dir old none) new (some i)
        dir_lt := by
          intro name j hj
          rcases update_eq_some.mp hj with ⟨-, hj⟩ | ⟨-, hj⟩
          · exact fs.dir_lt old j (h.trans hj)
          · rcases update_eq_some.mp hj with ⟨-, hj⟩ | ⟨-, hj⟩
            · cases hj
            · exact fs.dir_lt name j hj
        unlinked := (fs.unlinked.remove old).link (fs.unlinked.remove_ne h) new }

/-- `fopen(name, "ab")` -/
def openAppend (fs : Files κ α) (name : κ) : Files κ α × Nat :=
  match fs.dir name with
  | some i => (fs, i)
  | none =>
      ({ dir := update fs.dir name (some fs.size)
         data := update fs.data fs.size []
         size := fs.size + 1
         dir_lt := by
          intro name' j hj
          rcases update_eq_some.mp hj with ⟨-, hj⟩ | ⟨-, hj⟩
          · exact Option.some.inj hj ▸ Nat.lt_succ_self _
          · exact Nat.lt_succ_of_lt (fs.dir_lt _ _ hj)
         unlinked := fs.unlinked.link (fun name' h => Nat.lt_irrefl _ (fs.dir_lt _ _ h)) name }, fs.size)

def append (fs : Files κ α) (i : Nat) (record : α) : Files κ α :=
  { fs with data := update fs.data i (fs.data i ++ [record]) }

def read (fs : Files κ α) (name : κ) : Option (List α) := (fs.dir name).map fs.data

omit [DecidableEq κ] in
theorem read_some (h : fs.dir name = some i) : fs.read name = some (fs.data i) := by
  rw [read, h]
  rfl

omit [DecidableEq κ] in
theorem read_none (h : fs.dir name = none) : fs.read name = none := by
  rw [read, h]
  rfl

theorem rename_none (h : fs.dir old = none) : fs.rename old new = fs := by
  rw [rename]
  split <;> rename_i heq
  · rfl
  · cases h.symm.trans heq

theorem rename_dir (h : fs.dir old = some i) : (fs.rename old new).dir = update (update fs.dir old none) new (some i) := by
  rw [rename]
  split <;> rename_i heq
  · cases h.symm.trans heq
  · rw [Option.some.inj (h.symm.trans heq)]

theorem rename_data : (fs.rename old new).data = fs.data := by
  rw [rename]
  split <;> rfl

theorem rename_dir_ne (hold : name ≠ old) (hnew : name ≠ new) : (fs.rename old new).dir name = fs.dir name := by
  cases h : fs.dir old with
  | none => rw [rename_none h]
  | some i => rw [rename_dir h, update_of_ne hnew, update_of_ne hold]

theorem rename_read_ne (hold : name ≠ old) (hnew : name ≠ new) : (fs.rename old new).read name = fs.read name := by
  rw [read, rename_dir_ne hold hnew, rename_data, read]

theorem openAppend_dir : (fs.openAppend name).1.dir name = some (fs.openAppend name).2 := by
  rw [openAppend]
  split <;> rename_i h
  · exact h
  · exact update_self _ _ _

theorem openAppend_dir_ne {name' : κ} (h : name' ≠ name) : (fs.openAppend name).1.dir name' = fs.dir name' := by
  rw [openAppend]
  split
  · rfl
  · exact update_of_ne h _ _

theorem openAppend_data (h : i < fs.size) : (fs.openAppend name).1.data i = fs.data i := by
  rw [openAppend]
  split
  · rfl
  · exact update_of_ne (Nat.ne_of_lt h) _ _

theorem openAppend_read : (fs.openAppend name).1.read name = some ((fs.read name).getD []) := by
  rw [read, openAppend_dir, read, openAppend]
  split <;> rename_i h
  · rw [h]
    rfl
  · rw [h]
    exact congrArg some (update_self _ _ _)

theorem openAppend_read_ne {name' : κ} (h : name' ≠ name) : (fs.openAppend name).1.read name' = fs.read name' := by
  rw [read, openAppend_dir_ne h, read]
  cases hi : fs.dir name' with
  | none => rfl
  | some i => exact congrArg some (openAppend_data (fs.dir_lt _ _ hi))

omit [DecidableEq κ] in
theorem append_read {record : α} (h : fs.dir name = some i) :
    (fs.append i record).read name = some (fs.data i ++ [record]) := by
  rw [read]
  exact (congrArg (Option.map _) h).trans (congrArg some (update_self _ _ _))

omit [DecidableEq κ] in
theorem append_read_ne {name' : κ} {record : α} (h : fs.dir name = some i) (hne : name' ≠ name) :
    (fs.append i record).read name' = fs.read name' := by
  rw [read, read]
  show Option.map _ (fs.dir name') = _
  cases hj : fs.dir name' with
  | none => rfl
  | some j =>
      refine congrArg some (update_of_ne ?_ _ _)
      rintro rfl
      exact hne (fs.unlinked _ _ _ hj h)

end Files

end Files

abbrev FileName := List Char

/-- `archive_form_filename`, where the base has the path, the prefix, the date and the suffix. -/
def formFilename (base : Nat → FileName) (timet : Nat) : FileName := base timet ++ ['.', 'p', 'a', 'r', 't']

/-- `realname[len - 5] = 0;` -/
def realname (partname : FileName) : FileName := partname.take (partname.length - 5)

structure Handle where
  period : Nat
  concurrent : Nat
  direct : Bool
  oldest : Nat
  fp : Nat → Option Nat
  timet : Nat → Nat
  th : Fin 128 → Nat
  thptr : Fin 128

structure State (α : Type) where
  handle : Handle
  files : Files FileName α

/-- An end of the period at 2^32 is 0. -/
def matchedTimet (timeta period timetb : Nat) : Bool := timeta ≤ timetb && timetb < (timeta + period) % 2 ^ 32

def findOpened (h : Handle) (timet : Nat) : Option Nat :=
  (List.range h.concurrent).find? fun i => (h.fp i).isSome && matchedTimet (h.timet i) h.period timet

/-- The start time of the file of a time, from the place thptr backwards and around. -/
def searchHistory (h : Handle) (timet : Nat) (j : Fin 128) : Option Nat :=
  if matchedTimet (h.th j) h.period timet then some (h.th j)
  else if j - 1 = h.thptr then none
  else searchHistory h timet (j - 1)
termination_by (j - 1 - h.thptr).val
decreasing_by
  rename_i hj
  rw [sub_right_comm, Fin.val_sub_one_of_ne_zero (sub_ne_zero.mpr hj)]
  exact Nat.sub_lt (Fin.pos_iff_ne_zero.mpr (sub_ne_zero.mpr hj)) Nat.one_pos

/-- The time to open a file for, and the times kept for later. -/
def reuseTimet (h : Handle) (timet : Nat) : Handle × Nat :=
  match searchHistory h timet h.thptr with
  | some timet => (h, timet)
  | none => ({ h with thptr := h.thptr + 1, th := update h.th (h.thptr + 1) timet }, timet)

/-- The first free slot, or else the one with the smallest start time. -/
def locateOldest (h : Handle) : List Nat → Nat → Nat → Nat
  | [], _, oldest => oldest
  | j :: js, timet, oldest =>
      match h.fp j with
      | none => j
      | some _ => if h.timet j < timet then locateOldest h js (h.timet j) j else locateOldest h js timet oldest

structure Call (α : Type) where
  buf : α
  timet : UInt32

structure Written where
  slot : Nat
  closed : Option Nat
  deriving DecidableEq

section Write

variable {α : Type} (base : Nat → FileName)

def openNewFile (s : State α) (i timet : Nat) : State α :=
  let partname := formFilename base timet
  let files := if s.handle.direct then s.files else s.files.rename (realname partname) partname
  let name := if s.handle.direct then realname partname else partname
  { handle := { s.handle with
      fp := update s.handle.fp i (some (files.openAppend name).2)
      timet := update s.handle.timet i timet }
    files := (files.openAppend name).1 }

def closeFile (s : State α) (i : Nat) : State α :=
  let partname := formFilename base (s.handle.timet i)
  { handle := { s.handle with fp := update s.handle.fp i none }
    files := if s.handle.direct then s.files else s.files.rename partname (realname partname) }

def evictOldest (s : State α) : State α :=
  if (s.handle.fp s.handle.oldest).isSome then closeFile base s s.handle.oldest else s

def prepareFile (s : State α) (timet : Nat) : State α × Written :=
  match findOpened s.handle timet with
  | some i => (s, ⟨i, none⟩)
  | none =>
      let i := s.handle.oldest
      let closed := (s.handle.fp i).map fun _ => i
      let s := evictOldest base s
      let reused := reuseTimet s.handle timet
      let s := openNewFile base { s with handle := reused.1 } i reused.2
      let oldest := locateOldest s.handle (List.range s.handle.concurrent) (2 ^ 32 - 1) s.handle.oldest
      ({ s with handle := { s.handle with oldest := oldest } }, ⟨i, closed⟩)

def Call.start (c : Call α) (period : Nat) : Nat := c.timet.toNat - c.timet.toNat % period

/-- None when there is no file for `format_output`. -/
def archiveWrite (s : State α) (c : Call α) : Option (State α × Written) :=
  let prepared := prepareFile base s (c.start s.handle.period)
  (prepared.1.handle.fp prepared.2.slot).map fun file =>
    ({ prepared.1 with files := prepared.1.files.append file c.buf }, prepared.2)

end Write

/-- None without a handle; a product with 60 that is no int has no value. -/
def archiveOpen (quota period concurrent : Int) : Option Handle :=
  if quota < 0 ∨ quota > 99 ∨ concurrent < 1 ∨ concurrent > 32 then none
  else if period < 1 then none
  else if 2 ^ 31 ≤ period * 60 then none
  else some
    { period := (period * 60).toNat
      concurrent := concurrent.toNat
      direct := false
      oldest := 0
      fp := fun _ => none
      timet := fun _ => 0
      th := fun _ => 0
      thptr := 0 }

def Rounded (period t : Nat) : Prop := period ∣ t ∧ t < 2 ^ 32

/-- Distinct rounded times have distinct names, with and without `.part`. -/
structure DistinctNames (base : Nat → FileName) (period : Nat) : Prop where
  inj : ∀ s t, Rounded period s → Rounded period t → base s = base t → s = t
  apart : ∀ s t, Rounded period s → Rounded period t → base s ≠ formFilename base t

/-- What the file of a start time has, under the name that it has at the time. -/
def fileOf {α : Type} (base : Nat → FileName) (files : Files FileName α) (t : Nat) : List α :=
  ((files.read (base t)).or (files.read (formFilename base t))).getD []

section Names

variable {α : Type} {base : Nat → FileName} {period s t u n : Nat} {files : Files FileName α}

theorem realname_formFilename (t : Nat) : realname (formFilename base t) = base t := by
  rw [realname, formFilename, List.length_append]
  exact List.take_left

theorem DistinctNames.part_ne (hd : DistinctNames base period) (hs : Rounded period s) (ht : Rounded period t)
    (hne : s ≠ t) : formFilename base s ≠ formFilename base t :=
  fun h => hne (hd.inj s t hs ht (List.append_cancel_right h))

theorem DistinctNames.base_ne (hd : DistinctNames base period) (hs : Rounded period s) (ht : Rounded period t)
    (hne : s ≠ t) : base s ≠ base t := fun h => hne (hd.inj s t hs ht h)

/-- The names of a time, of which a step on another one takes none. -/
def SameNames (base : Nat → FileName) (files files' : Files FileName α) (t : Nat) : Prop :=
  files'.dir (base t) = files.dir (base t) ∧ files'.dir (formFilename base t) = files.dir (formFilename base t)

def openPart (base : Nat → FileName) (files : Files FileName α) (t : Nat) : Files FileName α × Nat :=
  (files.rename (base t) (formFilename base t)).openAppend (formFilename base t)

def closePart (base : Nat → FileName) (files : Files FileName α) (t : Nat) : Files FileName α :=
  files.rename (formFilename base t) (base t)

theorem openPart_dir : (openPart base files t).1.dir (formFilename base t) = some (openPart base files t).2 :=
  Files.openAppend_dir

theorem openPart_base (hd : DistinctNames base period) (ht : Rounded period t) :
    (openPart base files t).1.dir (base t) = none := by
  rw [openPart, Files.openAppend_dir_ne (hd.apart t t ht ht)]
  cases h : files.dir (base t) with
  | none => rw [Files.rename_none h, h]
  | some n => rw [Files.rename_dir h, update_of_ne (hd.apart t t ht ht), update_self]

theorem openPart_same (hd : DistinctNames base period) (ht : Rounded period t) (hu : Rounded period u) (hne : u ≠ t) :
    SameNames base files (openPart base files t).1 u := by
  constructor
  · rw [openPart, Files.openAppend_dir_ne (hd.apart u t hu ht),
      Files.rename_dir_ne (hd.base_ne hu ht hne) (hd.apart u t hu ht)]
  · rw [openPart, Files.openAppend_dir_ne (hd.part_ne hu ht hne),
      Files.rename_dir_ne (hd.apart t u ht hu).symm (hd.part_ne hu ht hne)]

theorem openPart_file (hd : DistinctNames base period) (ht : Rounded period t) (hu : Rounded period u) :
    fileOf base (openPart base files t).1 u = fileOf base files u := by
  by_cases hne : u = t
  · subst hne
    rw [fileOf, Files.read_none (openPart_base hd hu), openPart, Files.openAppend_read, fileOf]
    cases h : files.dir (base u) with
    | none =>
        rw [Files.rename_none h, Files.read_none h]
        cases files.read (formFilename base u) <;> rfl
    | some n =>
        rw [Files.read, Files.rename_dir h, update_self, Files.rename_data, Files.read_some h]
        rfl
  · rw [fileOf, openPart, Files.openAppend_read_ne (hd.apart u t hu ht),
      Files.rename_read_ne (hd.base_ne hu ht hne) (hd.apart u t hu ht),
      Files.openAppend_read_ne (hd.part_ne hu ht hne),
      Files.rename_read_ne (hd.apart t u ht hu).symm (hd.part_ne hu ht hne), fileOf]

theorem closePart_dir (h : files.dir (formFilename base t) = some n) :
    (closePart base files t).dir (base t) = some n := by
  rw [closePart, Files.rename_dir h, update_self]

theorem closePart_part (hd : DistinctNames base period) (ht : Rounded period t)
    (h : files.dir (formFilename base t) = some n) : (closePart base files t).dir (formFilename base t) = none := by
  rw [closePart, Files.rename_dir h, update_of_ne (hd.apart t t ht ht).symm, update_self]

theorem closePart_same (hd : DistinctNames base period) (ht : Rounded period t) (hu : Rounded period u) (hne : u ≠ t) :
    SameNames base files (closePart base files t) u :=
  ⟨Files.rename_dir_ne (hd.apart u t hu ht) (hd.base_ne hu ht hne),
    Files.rename_dir_ne (hd.part_ne hu ht hne) (hd.apart t u ht hu).symm⟩

theorem closePart_file (hd : DistinctNames base period) (ht : Rounded period t) (hu : Rounded period u)
    (h : files.dir (formFilename base t) = some n) (hbase : files.dir (base t) = none) :
    fileOf base (closePart base files t) u = fileOf base files u := by
  by_cases hne : u = t
  · subst hne
    rw [fileOf, Files.read_some (closePart_dir h), fileOf, Files.read_none hbase, Files.read_some h, closePart,
      Files.rename_data]
    rfl
  · rw [fileOf, closePart, Files.rename_read_ne (hd.apart u t hu ht) (hd.base_ne hu ht hne),
      Files.rename_read_ne (hd.part_ne hu ht hne) (hd.apart t u ht hu).symm, fileOf]

theorem append_file {record : α} (h : files.dir (formFilename base t) = some n) (hbase : files.dir (base t) = none) :
    fileOf base (files.append n record) t = fileOf base files t ++ [record] := by
  have hread : (files.append n record).read (base t) = none := Files.read_none hbase
  rw [fileOf, hread, Files.append_read h, fileOf, Files.read_none hbase, Files.read_some h]
  rfl

theorem append_file_ne (hd : DistinctNames base period) (ht : Rounded period t) (hu : Rounded period u) (hne : u ≠ t)
    {record : α} (h : files.dir (formFilename base t) = some n) :
    fileOf base (files.append n record) u = fileOf base files u := by
  rw [fileOf, Files.append_read_ne h (hd.apart u t hu ht), Files.append_read_ne h (hd.part_ne hu ht hne), fileOf]

end Names

structure Valid (h : Handle) : Prop where
  period_even : 2 ∣ h.period
  period_pos : 0 < h.period
  period_lt : h.period < 2 ^ 31
  concurrent_pos : 0 < h.concurrent
  direct : h.direct = false
  history : ∀ j, Rounded h.period (h.th j)

structure Slots {α : Type} (base : Nat → FileName) (s : State α) : Prop where
  valid : Valid s.handle
  lt : ∀ i n, s.handle.fp i = some n → i < s.handle.concurrent
  rounded : ∀ i n, s.handle.fp i = some n → Rounded s.handle.period (s.handle.timet i)
  part : ∀ i n, s.handle.fp i = some n → s.files.dir (formFilename base (s.handle.timet i)) = some n
  base : ∀ i n, s.handle.fp i = some n → s.files.dir (base (s.handle.timet i)) = none
  inj : ∀ i j m n, s.handle.fp i = some m → s.handle.fp j = some n → s.handle.timet i = s.handle.timet j → i = j

/-- The slot that is next to be used is free, or else all are in use and it has the smallest start time. -/
structure OldestFirst (h : Handle) : Prop where
  lt : h.oldest < h.concurrent
  full : ∀ n, h.fp h.oldest = some n → ∀ j < h.concurrent, (h.fp j).isSome ∧ h.timet h.oldest ≤ h.timet j

section Handle

variable {h : Handle} {x t u i : Nat}

theorem rounded_eq (hpos : 0 < h.period) (hx : Rounded h.period x) (ht : Rounded h.period t) (hle : x ≤ t) (hlt : t < x + h.period) : x = t := by
  obtain ⟨a, rfl⟩ := hx.1
  obtain ⟨b, rfl⟩ := ht.1
  rw [← Nat.mul_succ] at hlt
  have hab := Nat.lt_of_mul_lt_mul_left hlt
  rcases Nat.eq_or_lt_of_le (Nat.le_of_lt_succ hab) with hba | hba
  · rw [hba]
  · exact absurd (Nat.le_of_mul_le_mul_left hle hpos) (Nat.not_le_of_lt hba)

theorem matched_iff (hv : Valid h) (hx : Rounded h.period x) (ht : Rounded h.period t) :
    matchedTimet x h.period t ↔ x = t ∧ t + h.period < 2 ^ 32 := by
  have hperiod := hv.period_lt
  have hpos := hv.period_pos
  have hlt := hx.2
  rw [matchedTimet, Bool.and_eq_true, decide_eq_true_iff, decide_eq_true_iff]
  constructor
  · rintro ⟨hle, hmod⟩
    have hnowrap : x + h.period < 2 ^ 32 := by omega
    rw [Nat.mod_eq_of_lt hnowrap] at hmod
    obtain rfl := rounded_eq hpos hx ht hle hmod
    exact ⟨rfl, hnowrap⟩
  · rintro ⟨rfl, hnowrap⟩
    rw [Nat.mod_eq_of_lt hnowrap]
    omega

theorem rounded_start {α : Type} (c : Call α) (period : Nat) : Rounded period (c.start period) :=
  ⟨Nat.dvd_sub_mod _, Nat.lt_of_le_of_lt (Nat.sub_le _ _) c.timet.toNat_lt⟩

theorem searchHistory_eq {j : Fin 128} (hv : Valid h) (ht : Rounded h.period t) (hu : searchHistory h t j = some u) : u = t := by
  induction hn : (j - 1 - h.thptr).val using Nat.strong_induction_on generalizing j with
  | _ n ih =>
      subst hn
      rw [searchHistory] at hu
      split_ifs at hu with hmatch hstop
      · obtain rfl := Option.some.inj hu
        exact ((matched_iff hv (hv.history j) ht).mp hmatch).1
      · refine ih _ ?_ hu rfl
        rw [sub_right_comm, Fin.val_sub_one_of_ne_zero (sub_ne_zero.mpr hstop)]
        exact Nat.sub_lt (Fin.pos_iff_ne_zero.mpr (sub_ne_zero.mpr hstop)) Nat.one_pos

theorem reuseTimet_eq (hv : Valid h) (ht : Rounded h.period t) :
    ∃ th thptr, reuseTimet h t = ({ h with th := th, thptr := thptr }, t) ∧ ∀ j, Rounded h.period (th j) := by
  rw [reuseTimet]
  cases hu : searchHistory h t h.thptr with
  | some u => exact ⟨h.th, h.thptr, congrArg (h, ·) (searchHistory_eq hv ht hu), hv.history⟩
  | none =>
      refine ⟨_, _, rfl, fun j => ?_⟩
      by_cases hj : j = h.thptr + 1
      · rwa [hj, update_self]
      · rw [update_of_ne hj]
        exact hv.history j

theorem findOpened_some (hi : findOpened h t = some i) :
    ∃ n, h.fp i = some n ∧ matchedTimet (h.timet i) h.period t := by
  have hfound := List.find?_some hi
  rw [Bool.and_eq_true] at hfound
  obtain ⟨n, hn⟩ := Option.isSome_iff_exists.mp hfound.1
  exact ⟨n, hn, hfound.2⟩

theorem findOpened_none (hnone : findOpened h t = none) {n : Nat} (hi : i < h.concurrent) (hn : h.fp i = some n) :
    ¬ matchedTimet (h.timet i) h.period t := by
  have hall := List.find?_eq_none.mp hnone i (List.mem_range.mpr hi)
  rwa [hn, Option.isSome_some, Bool.true_and] at hall

theorem locateOldest_spec (h : Handle) (js : List Nat) (bound oldest : Nat) :
    (∃ j ∈ js, locateOldest h js bound oldest = j ∧ h.fp j = none) ∨ (∀ j ∈ js, (h.fp j).isSome) ∧
      ((locateOldest h js bound oldest = oldest ∧ ∀ j ∈ js, bound ≤ h.timet j) ∨
        (locateOldest h js bound oldest ∈ js ∧ h.timet (locateOldest h js bound oldest) < bound ∧
          ∀ j ∈ js, h.timet (locateOldest h js bound oldest) ≤ h.timet j)) := by
  induction js generalizing bound oldest with
  | nil => exact .inr ⟨nofun, .inl ⟨rfl, nofun⟩⟩
  | cons j js ih =>
      rw [locateOldest]
      cases hj : h.fp j with
      | none => exact .inl ⟨j, List.mem_cons_self, rfl, hj⟩
      | some n =>
          have hsome : (h.fp j).isSome := by rw [hj]; rfl
          dsimp only
          by_cases hlt : h.timet j < bound
          · rw [if_pos hlt]
            rcases ih (h.timet j) j with ⟨k, hk, hfree⟩ | ⟨hall, ⟨heq, hle⟩ | ⟨hmem, hless, hle⟩⟩
            · exact .inl ⟨k, List.mem_cons_of_mem j hk, hfree⟩
            · refine .inr ⟨List.forall_mem_cons.mpr ⟨hsome, hall⟩, .inr ?_⟩
              rw [heq]
              exact ⟨List.mem_cons_self, hlt, List.forall_mem_cons.mpr ⟨Nat.le_refl _, hle⟩⟩
            · refine .inr ⟨List.forall_mem_cons.mpr ⟨hsome, hall⟩, .inr ⟨List.mem_cons_of_mem j hmem, hless.trans hlt, ?_⟩⟩
              exact List.forall_mem_cons.mpr ⟨Nat.le_of_lt hless, hle⟩
          · rw [if_neg hlt]
            rcases ih bound oldest with ⟨k, hk, hfree⟩ | ⟨hall, ⟨heq, hle⟩ | ⟨hmem, hless, hle⟩⟩
            · exact .inl ⟨k, List.mem_cons_of_mem j hk, hfree⟩
            · exact .inr ⟨List.forall_mem_cons.mpr ⟨hsome, hall⟩,
                .inl ⟨heq, List.forall_mem_cons.mpr ⟨Nat.le_of_not_lt hlt, hle⟩⟩⟩
            · refine .inr ⟨List.forall_mem_cons.mpr ⟨hsome, hall⟩, .inr ⟨List.mem_cons_of_mem j hmem, hless, ?_⟩⟩
              exact List.forall_mem_cons.mpr ⟨Nat.le_of_lt (Nat.lt_of_lt_of_le hless (Nat.le_of_not_lt hlt)), hle⟩

theorem rounded_lt_max (hv : Valid h) (ht : Rounded h.period t) : t < 2 ^ 32 - 1 := by
  have heven := Nat.dvd_trans hv.period_even ht.1
  have hlt := ht.2
  omega

theorem oldestFirst_located {α : Type} {base : Nat → FileName} {s : State α} (hs : Slots base s) (oldest : Nat) :
    OldestFirst { s.handle with
      oldest := locateOldest s.handle (List.range s.handle.concurrent) (2 ^ 32 - 1) oldest } := by
  rcases locateOldest_spec s.handle (List.range s.handle.concurrent) (2 ^ 32 - 1) oldest with
    ⟨j, hj, heq, hfree⟩ | ⟨hall, ⟨-, hle⟩ | ⟨hmem, -, hle⟩⟩
  · refine ⟨heq ▸ List.mem_range.mp hj, fun n hn => ?_⟩
    rw [heq] at hn
    cases hfree.symm.trans hn
  · have hzero := List.mem_range.mpr hs.valid.concurrent_pos
    obtain ⟨n, hn⟩ := Option.isSome_iff_exists.mp (hall 0 hzero)
    exact absurd (rounded_lt_max hs.valid (hs.rounded 0 n hn)) (Nat.not_lt_of_le (hle 0 hzero))
  · refine ⟨List.mem_range.mp hmem, fun n _ j hj => ?_⟩
    exact ⟨hall j (List.mem_range.mpr hj), hle j (List.mem_range.mpr hj)⟩

end Handle

/-- The file of a time that was written has its `.part` name while it is open, and its own one when it is closed. -/
def Kept {α : Type} (base : Nat → FileName) (s : State α) (t : Nat) : Prop :=
  (∃ i n, s.handle.fp i = some n ∧ s.handle.timet i = t) ∨
    ((s.files.dir (base t)).isSome ∧ s.files.dir (formFilename base t) = none)

structure Refiled {α : Type} (base : Nat → FileName) (s s' : State α) : Prop where
  slots : Slots base s'
  period : s'.handle.period = s.handle.period
  concurrent : s'.handle.concurrent = s.handle.concurrent
  files : ∀ t, Rounded s.handle.period t → fileOf base s'.files t = fileOf base s.files t
  kept : ∀ t, Rounded s.handle.period t → Kept base s t → Kept base s' t

section Steps

variable {α : Type} {base : Nat → FileName} {s s' s'' : State α} {i t n : Nat}

theorem SameNames.kept {files : Files FileName α} (h : SameNames base s.files files t)
    (hk : (s.files.dir (base t)).isSome ∧ s.files.dir (formFilename base t) = none) :
    (files.dir (base t)).isSome ∧ files.dir (formFilename base t) = none :=
  ⟨by rw [h.1]; exact hk.1, h.2.trans hk.2⟩

theorem closeFile_files (hs : Slots base s) (i : Nat) :
    (closeFile base s i).files = closePart base s.files (s.handle.timet i) := by
  rw [closeFile, hs.valid.direct, if_neg Bool.false_ne_true, realname_formFilename, closePart]

theorem refiled_close (hd : DistinctNames base s.handle.period) (hs : Slots base s) (hi : s.handle.fp i = some n) :
    Refiled base s (closeFile base s i) := by
  have hround := hs.rounded i n hi
  have hother : ∀ j m, (closeFile base s i).handle.fp j = some m → s.handle.fp j = some m ∧
      SameNames base s.files (closeFile base s i).files (s.handle.timet j) := by
    intro j m hj
    rcases update_eq_some.mp hj with ⟨-, hj⟩ | ⟨hne, hj⟩
    · cases hj
    · refine ⟨hj, ?_⟩
      rw [closeFile_files hs]
      exact closePart_same hd hround (hs.rounded j m hj) fun h => hne (hs.inj j i m n hj hi h)
  constructor
  · exact
      { valid := { hs.valid with }
        lt := fun j m hj => hs.lt j m (hother j m hj).1
        rounded := fun j m hj => hs.rounded j m (hother j m hj).1
        part := fun j m hj => (hother j m hj).2.2.trans (hs.part j m (hother j m hj).1)
        base := fun j m hj => (hother j m hj).2.1.trans (hs.base j m (hother j m hj).1)
        inj := fun j k m m' hj hk => hs.inj j k m m' (hother j m hj).1 (hother k m' hk).1 }
  · rfl
  · rfl
  · intro t ht
    rw [closeFile_files hs]
    exact closePart_file hd hround ht (hs.part i n hi) (hs.base i n hi)
  · intro t ht hk
    by_cases htime : t = s.handle.timet i
    · right
      rw [closeFile_files hs, htime, closePart_dir (hs.part i n hi)]
      exact ⟨rfl, closePart_part hd hround (hs.part i n hi)⟩
    · rcases hk with ⟨j, m, hj, hjt⟩ | hk
      · refine .inl ⟨j, m, update_eq_some.mpr (.inr ⟨?_, hj⟩), hjt⟩
        rintro rfl
        exact htime hjt.symm
      · right
        rw [closeFile_files hs]
        exact (closePart_same hd hround ht htime).kept hk

theorem openNewFile_files (hs : Slots base s) (i t : Nat) :
    (openNewFile base s i t).files = (openPart base s.files t).1 := by
  rw [openNewFile]
  simp only [hs.valid.direct, Bool.false_eq_true, if_false, realname_formFilename, openPart]

theorem openNewFile_fp (hs : Slots base s) (i t : Nat) :
    (openNewFile base s i t).handle.fp = update s.handle.fp i (some (openPart base s.files t).2) := by
  rw [openNewFile]
  simp only [hs.valid.direct, Bool.false_eq_true, if_false, realname_formFilename, openPart]

theorem refiled_open (hd : DistinctNames base s.handle.period) (hs : Slots base s) (hi : i < s.handle.concurrent)
    (hfree : s.handle.fp i = none) (ht : Rounded s.handle.period t)
    (hnot : ∀ j m, s.handle.fp j = some m → s.handle.timet j ≠ t) : Refiled base s (openNewFile base s i t) := by
  have hcases : ∀ j m, (openNewFile base s i t).handle.fp j = some m →
      (j = i ∧ (openNewFile base s i t).handle.timet j = t ∧ m = (openPart base s.files t).2) ∨
        (j ≠ i ∧ s.handle.fp j = some m ∧ (openNewFile base s i t).handle.timet j = s.handle.timet j ∧
          SameNames base s.files (openNewFile base s i t).files (s.handle.timet j)) := by
    intro j m hj
    rw [openNewFile_fp hs] at hj
    rcases update_eq_some.mp hj with ⟨hji, hm⟩ | ⟨hne, hm⟩
    · exact .inl ⟨hji, by rw [hji]; exact update_self _ _ _, (Option.some.inj hm).symm⟩
    · refine .inr ⟨hne, hm, update_of_ne hne _ _, ?_⟩
      rw [openNewFile_files hs]
      exact openPart_same hd ht (hs.rounded j m hm) (hnot j m hm)
  constructor
  · refine ⟨{ hs.valid with }, ?_, ?_, ?_, ?_, ?_⟩
    · intro j m hj
      rcases hcases j m hj with ⟨rfl, -⟩ | ⟨-, hm, -⟩
      · exact hi
      · exact hs.lt j m hm
    · intro j m hj
      rcases hcases j m hj with ⟨-, htime, -⟩ | ⟨-, hm, htime, -⟩
      · rw [htime]
        exact ht
      · rw [htime]
        exact hs.rounded j m hm
    · intro j m hj
      rcases hcases j m hj with ⟨-, htime, rfl⟩ | ⟨-, hm, htime, hsame⟩
      · rw [htime, openNewFile_files hs]
        exact openPart_dir
      · rw [htime]
        exact hsame.2.trans (hs.part j m hm)
    · intro j m hj
      rcases hcases j m hj with ⟨-, htime, -⟩ | ⟨-, hm, htime, hsame⟩
      · rw [htime, openNewFile_files hs]
        exact openPart_base hd ht
      · rw [htime]
        exact hsame.1.trans (hs.base j m hm)
    · intro j k m m' hj hk htimes
      rcases hcases j m hj with ⟨hji, htime, -⟩ | ⟨-, hm, htime, -⟩ <;>
        rcases hcases k m' hk with ⟨hki, htime', -⟩ | ⟨-, hm', htime', -⟩
      · exact hji.trans hki.symm
      · exact absurd (htime'.symm.trans (htimes.symm.trans htime)) (hnot k m' hm')
      · exact absurd (htime.symm.trans (htimes.trans htime')) (hnot j m hm)
      · exact hs.inj j k m m' hm hm' (htime.symm.trans (htimes.trans htime'))
  · rfl
  · rfl
  · intro u hu
    rw [openNewFile_files hs]
    exact openPart_file hd ht hu
  · intro u hu hk
    by_cases hut : u = t
    · left
      refine ⟨i, (openPart base s.files t).2, ?_, ?_⟩
      · rw [openNewFile_fp hs, update_self]
      · rw [hut]
        exact update_self _ _ _
    · rcases hk with ⟨j, m, hj, hju⟩ | hk
      · have hne : j ≠ i := by
          rintro rfl
          cases hfree.symm.trans hj
        refine .inl ⟨j, m, ?_, (update_of_ne hne _ _).trans hju⟩
        rw [openNewFile_fp hs, update_of_ne hne, hj]
      · right
        rw [openNewFile_files hs]
        exact (openPart_same hd ht hu hut).kept hk

theorem Refiled.rfl (hs : Slots base s) : Refiled base s s := ⟨hs, Eq.refl _, Eq.refl _, fun _ _ => Eq.refl _, fun _ _ h => h⟩

theorem Refiled.trans (h : Refiled base s s') (h' : Refiled base s' s'') : Refiled base s s'' where
  slots := h'.slots
  period := h'.period.trans h.period
  concurrent := h'.concurrent.trans h.concurrent
  files t ht := (h'.files t (h.period ▸ ht)).trans (h.files t ht)
  kept t ht hk := h'.kept t (h.period ▸ ht) (h.kept t ht hk)

/-- A call is not for a file that is open and that ends behind 2^32, unless there is one slot only. -/
def NotTwice (s : State α) (c : Call α) : Prop :=
  s.handle.concurrent = 1 ∨ c.start s.handle.period + s.handle.period < 2 ^ 32 ∨
    ∀ i < s.handle.concurrent, (s.handle.fp i).isSome → s.handle.timet i ≠ c.start s.handle.period

instance (s : State α) (c : Call α) : Decidable (NotTwice s c) := inferInstanceAs (Decidable (_ ∨ _ ∨ _))

structure Prepared (base : Nat → FileName) (s : State α) (t : Nat) (p : State α × Written) : Prop where
  refiled : Refiled base s p.1
  oldest : OldestFirst p.1.handle
  slot : ∃ n, p.1.handle.fp p.2.slot = some n ∧ p.1.handle.timet p.2.slot = t
  closed : ∀ i ∈ p.2.closed, ∀ j < s.handle.concurrent, (s.handle.fp j).isSome ∧ s.handle.timet i ≤ s.handle.timet j
  stays : ∀ i n, s.handle.fp i = some n → p.2.closed ≠ some i →
    p.1.handle.fp i = some n ∧ p.1.handle.timet i = s.handle.timet i

theorem refiled_history {th : Fin 128 → Nat} (hs : Slots base s) (hth : ∀ j, Rounded s.handle.period (th j)) (thptr : Fin 128) :
    Refiled base s { s with handle := { s.handle with th := th, thptr := thptr } } where
  slots := { hs with valid := { hs.valid with history := hth } }
  period := rfl
  concurrent := rfl
  files _ _ := rfl
  kept _ _ h := h

theorem refiled_oldest (hs : Slots base s) (oldest : Nat) :
    Refiled base s { s with handle := { s.handle with oldest := oldest } } where
  slots := { hs with valid := { hs.valid with } }
  period := rfl
  concurrent := rfl
  files _ _ := rfl
  kept _ _ h := h

theorem evictOldest_handle : (evictOldest base s).handle = { s.handle with fp := update s.handle.fp s.handle.oldest none } := by
  rw [evictOldest]
  split_ifs with h
  · rfl
  · rw [Option.not_isSome_iff_eq_none] at h
    rw [← h, update_eq_self]

theorem refiled_evict (hd : DistinctNames base s.handle.period) (hs : Slots base s) : Refiled base s (evictOldest base s) := by
  rw [evictOldest]
  split_ifs with h
  · obtain ⟨n, hn⟩ := Option.isSome_iff_exists.mp h
    exact refiled_close hd hs hn
  · exact Refiled.rfl hs

theorem not_open_evicted {c : Call α} (hs : Slots base s) (ho : OldestFirst s.handle) (hc : NotTwice s c)
    (hnone : findOpened s.handle (c.start s.handle.period) = none) {j m : Nat}
    (hj : update s.handle.fp s.handle.oldest none j = some m) : s.handle.timet j ≠ c.start s.handle.period := by
  rcases update_eq_some.mp hj with ⟨-, hj⟩ | ⟨hne, hj⟩
  · cases hj
  · intro htime
    have hlt := hs.lt j m hj
    have hmatch := findOpened_none hnone hlt hj
    rw [matched_iff hs.valid (hs.rounded j m hj) (rounded_start c _)] at hmatch
    rcases hc with hone | hend | hnot
    · have holdest := ho.lt
      omega
    · exact hmatch ⟨htime, hend⟩
    · exact hnot j hlt (by rw [hj]; rfl) htime

theorem prepareFile_none (hd : DistinctNames base s.handle.period) (hs : Slots base s) (ht : Rounded s.handle.period t)
    (hnone : findOpened s.handle t = none) : ∃ s', Refiled base s s' ∧
      s'.handle.fp = update s.handle.fp s.handle.oldest none ∧ s'.handle.timet = s.handle.timet ∧
      s'.files = (evictOldest base s).files ∧
      prepareFile base s t = ({ openNewFile base s' s.handle.oldest t with
          handle := { (openNewFile base s' s.handle.oldest t).handle with
            oldest := locateOldest (openNewFile base s' s.handle.oldest t).handle
              (List.range (openNewFile base s' s.handle.oldest t).handle.concurrent) (2 ^ 32 - 1)
              (openNewFile base s' s.handle.oldest t).handle.oldest } },
        ⟨s.handle.oldest, (s.handle.fp s.handle.oldest).map fun _ => s.handle.oldest⟩) := by
  have hevict := refiled_evict hd hs
  have ht' : Rounded (evictOldest base s).handle.period t := by
    rw [hevict.period]
    exact ht
  obtain ⟨th, thptr, hreuse, hth⟩ := reuseTimet_eq hevict.slots.valid ht'
  refine ⟨_, hevict.trans (refiled_history hevict.slots hth thptr), ?_, ?_, rfl, ?_⟩
  · show (evictOldest base s).handle.fp = _
    rw [evictOldest_handle]
  · show (evictOldest base s).handle.timet = _
    rw [evictOldest_handle]
  · rw [prepareFile, hnone]
    dsimp only
    rw [hreuse]

theorem prepareFile_prepared {c : Call α} (hd : DistinctNames base s.handle.period) (hs : Slots base s)
    (ho : OldestFirst s.handle) (hc : NotTwice s c) :
    Prepared base s (c.start s.handle.period) (prepareFile base s (c.start s.handle.period)) := by
  have ht := rounded_start c s.handle.period
  cases hfound : findOpened s.handle (c.start s.handle.period) with
  | some i =>
      obtain ⟨n, hn, hmatch⟩ := findOpened_some hfound
      have htime := ((matched_iff hs.valid (hs.rounded i n hn) ht).mp hmatch).1
      rw [prepareFile, hfound]
      exact ⟨Refiled.rfl hs, ho, ⟨n, hn, htime⟩, nofun, fun _ _ h _ => ⟨h, rfl⟩⟩
  | none =>
      obtain ⟨s', hs', hfp, htimet, -, hprepare⟩ := prepareFile_none hd hs ht hfound
      have hfree : s'.handle.fp s.handle.oldest = none := by
        rw [hfp]
        exact update_self _ _ _
      have hnot : ∀ j m, s'.handle.fp j = some m → s'.handle.timet j ≠ c.start s.handle.period := by
        intro j m hj
        rw [hfp] at hj
        rw [htimet]
        exact not_open_evicted hs ho hc hfound hj
      have hopen := refiled_open (hs'.period.symm ▸ hd) hs'.slots (hs'.concurrent ▸ ho.lt) hfree (hs'.period.symm ▸ ht) hnot
      rw [hprepare]
      refine ⟨hs'.trans (hopen.trans (refiled_oldest hopen.slots _)), ?_, ?_, ?_, ?_⟩
      · exact oldestFirst_located hopen.slots _
      · exact ⟨_, update_self _ _ _, update_self _ _ _⟩
      · intro i hi j hj
        obtain ⟨n, hn, rfl⟩ := Option.map_eq_some_iff.mp hi
        exact ho.full n hn j hj
      · intro i n hi hclosed
        have hne : i ≠ s.handle.oldest := by
          rintro rfl
          exact hclosed (by rw [hi]; rfl)
        constructor
        · show update s'.handle.fp _ _ i = _
          rw [update_of_ne hne, hfp]
          exact (update_of_ne hne _ _).trans hi
        · show update s'.handle.timet _ _ i = _
          rw [update_of_ne hne, htimet]

/-- The slot of a call has the file of its time. A file is closed only when all slots are in use, and it has the smallest
start time. -/
structure Handed (s : State α) (c : Call α) (s' : State α) (o : Written) : Prop where
  slot : ∃ n, s'.handle.fp o.slot = some n ∧ s'.handle.timet o.slot = c.start s.handle.period
  closed : ∀ i ∈ o.closed, ∀ j < s.handle.concurrent, (s.handle.fp j).isSome ∧ s.handle.timet i ≤ s.handle.timet j
  stays : ∀ i n, s.handle.fp i = some n → o.closed ≠ some i →
    s'.handle.fp i = some n ∧ s'.handle.timet i = s.handle.timet i

structure Step (base : Nat → FileName) (s : State α) (c : Call α) (s' : State α) (o : Written) : Prop where
  slots : Slots base s'
  oldest : OldestFirst s'.handle
  period : s'.handle.period = s.handle.period
  concurrent : s'.handle.concurrent = s.handle.concurrent
  handed : Handed s c s' o
  files : ∀ t, Rounded s.handle.period t →
    fileOf base s'.files t = fileOf base s.files t ++ if c.start s.handle.period = t then [c.buf] else []
  kept : ∀ t, Rounded s.handle.period t → Kept base s t → Kept base s' t

theorem write_step {c : Call α} (hd : DistinctNames base s.handle.period) (hs : Slots base s)
    (ho : OldestFirst s.handle) (hc : NotTwice s c) :
    ∃ s' o, archiveWrite base s c = some (s', o) ∧ Step base s c s' o := by
  have hp := prepareFile_prepared hd hs ho hc
  obtain ⟨n, hn, htime⟩ := hp.slot
  have hpart := hp.refiled.slots.part _ n hn
  have hbase := hp.refiled.slots.base _ n hn
  rw [htime] at hpart hbase
  refine ⟨_, _, by rw [archiveWrite, hn]; rfl, ?_⟩
  exact
    { slots := { hp.refiled.slots with }
      oldest := hp.oldest
      period := hp.refiled.period
      concurrent := hp.refiled.concurrent
      handed := ⟨⟨n, hn, htime⟩, hp.closed, hp.stays⟩
      files := by
        intro t ht
        rw [← hp.refiled.files t ht]
        by_cases heq : c.start s.handle.period = t
        · rw [if_pos heq, ← heq]
          exact append_file hpart hbase
        · rw [if_neg heq, List.append_nil]
          exact append_file_ne hd (rounded_start c _) ht (Ne.symm heq) hpart
      kept := hp.refiled.kept }

theorem openPart_found {files : Files FileName α} (h : files.dir (formFilename base t) = some n)
    (hbase : files.dir (base t) = none) : (openPart base files t).2 = n := by
  rw [openPart, Files.rename_none hbase, Files.openAppend]
  split <;> rename_i heq
  · exact Option.some.inj (heq.symm.trans h)
  · cases heq.symm.trans h

theorem prepareFile_fp (hd : DistinctNames base s.handle.period) (hs : Slots base s) (ht : Rounded s.handle.period t)
    (hnone : findOpened s.handle t = none) : (prepareFile base s t).1.handle.fp =
      update (update s.handle.fp s.handle.oldest none) s.handle.oldest
        (some (openPart base (evictOldest base s).files t).2) := by
  obtain ⟨s', hs', hfp, -, hfiles, hprepare⟩ := prepareFile_none hd hs ht hnone
  rw [hprepare, ← hfp, ← hfiles]
  exact openNewFile_fp hs'.slots _ _

theorem last_not_oldest (hs : Slots base s) (ho : OldestFirst s.handle) (hone : s.handle.concurrent ≠ 1)
    (ht : Rounded s.handle.period t) (hend : 2 ^ 32 ≤ t + s.handle.period) (hi : s.handle.fp i = some n)
    (htime : s.handle.timet i = t) : i ≠ s.handle.oldest := by
  rintro rfl
  have hlt := ho.lt
  obtain ⟨j, hj, hne⟩ : ∃ j < s.handle.concurrent, j ≠ s.handle.oldest := by
    by_cases h0 : s.handle.oldest = 0
    · exact ⟨1, by omega, by omega⟩
    · exact ⟨0, by omega, fun h => h0 h.symm⟩
  obtain ⟨hsome, hle⟩ := ho.full n hi j hj
  obtain ⟨m, hm⟩ := Option.isSome_iff_exists.mp hsome
  have hround := hs.rounded j m hm
  have heq := rounded_eq hs.valid.period_pos ht hround (htime ▸ hle) (Nat.lt_of_lt_of_le hround.2 hend)
  exact hne (hs.inj j s.handle.oldest m n hm hi (heq.symm.trans htime.symm))

theorem notTwice_of_distinct {c : Call α} {o : Written} (hd : DistinctNames base s.handle.period) (hs : Slots base s)
    (ho : OldestFirst s.handle) (hw : archiveWrite base s c = some (s', o))
    (hdist : ∀ i j n, s'.handle.fp i = some n → s'.handle.fp j = some n → i = j) : NotTwice s c := by
  by_contra hc
  simp only [NotTwice, not_or, not_lt, not_forall, not_not] at hc
  obtain ⟨hone, hend, a, ha, hsome, htime⟩ := hc
  have ht := rounded_start c s.handle.period
  obtain ⟨n, hn⟩ := Option.isSome_iff_exists.mp hsome
  have hnone : findOpened s.handle (c.start s.handle.period) = none := by
    cases hfound : findOpened s.handle (c.start s.handle.period) with
    | none => rfl
    | some i =>
        obtain ⟨m, hm, hmatch⟩ := findOpened_some hfound
        have hnowrap := ((matched_iff hs.valid (hs.rounded i m hm) ht).mp hmatch).2
        omega
  have hne := last_not_oldest hs ho hone ht hend hn htime
  have hevict := (refiled_evict hd hs).slots
  have hfp : (evictOldest base s).handle.fp a = some n := by
    rw [evictOldest_handle]
    exact (update_of_ne hne _ _).trans hn
  have htime' : (evictOldest base s).handle.timet a = c.start s.handle.period := by
    rw [evictOldest_handle]
    exact htime
  have hfile := openPart_found (htime' ▸ hevict.part a n hfp) (htime' ▸ hevict.base a n hfp)
  have hslots := prepareFile_fp hd hs ht hnone
  rw [hfile] at hslots
  rw [archiveWrite] at hw
  obtain ⟨file, -, heq⟩ := Option.map_eq_some_iff.mp hw
  obtain ⟨rfl, -⟩ := Prod.mk.inj heq
  refine hne (hdist a s.handle.oldest n ?_ ?_)
  · show (prepareFile base s _).1.handle.fp a = _
    rw [hslots, update_of_ne hne, update_of_ne hne, hn]
  · show (prepareFile base s _).1.handle.fp _ = _
    rw [hslots, update_self]

end Steps

section Runs

variable {α : Type} {base : Nat → FileName} {s₀ s : State α} {calls done : List (Call α)}

structure Sound (base : Nat → FileName) (s₀ : State α) (calls : List (Call α)) (s : State α) : Prop where
  files : ∀ t, Rounded s₀.handle.period t → fileOf base s.files t = fileOf base s₀.files t ++
    (calls.filter (·.start s₀.handle.period = t)).map Call.buf
  opened : ∀ is : Finset Nat, (∀ i ∈ is, (s.handle.fp i).isSome) → is.card ≤ s₀.handle.concurrent
  distinct : ∀ i j n, s.handle.fp i = some n → s.handle.fp j = some n → i = j
  named : ∀ i n, s.handle.fp i = some n → s.files.dir (formFilename base (s.handle.timet i)) = some n
  kept : ∀ c ∈ calls, Kept base s (c.start s₀.handle.period)

structure Reached (base : Nat → FileName) (s₀ : State α) (calls : List (Call α)) (s : State α) : Prop where
  slots : Slots base s
  oldest : OldestFirst s.handle
  period : s.handle.period = s₀.handle.period
  concurrent : s.handle.concurrent = s₀.handle.concurrent
  files : ∀ t, Rounded s₀.handle.period t → fileOf base s.files t = fileOf base s₀.files t ++
    (calls.filter (·.start s₀.handle.period = t)).map Call.buf
  kept : ∀ c ∈ calls, Kept base s (c.start s₀.handle.period)

theorem Reached.sound (hd : DistinctNames base s₀.handle.period) (h : Reached base s₀ calls s) :
    Sound base s₀ calls s where
  files := h.files
  opened is his := by
    have hsub : is ⊆ Finset.range s₀.handle.concurrent := by
      intro i hi
      obtain ⟨n, hn⟩ := Option.isSome_iff_exists.mp (his i hi)
      exact Finset.mem_range.mpr (h.concurrent ▸ h.slots.lt i n hn)
    exact (Finset.card_le_card hsub).trans_eq (Finset.card_range _)
  distinct i j n hi hj := by
    have hnames := s.files.unlinked _ _ n (h.slots.part i n hi) (h.slots.part j n hj)
    have hround := h.period ▸ h.slots.rounded i n hi
    have hround' := h.period ▸ h.slots.rounded j n hj
    exact h.slots.inj i j n n hi hj (hd.inj _ _ hround hround' (List.append_cancel_right hnames))
  named := h.slots.part
  kept := h.kept

theorem Reached.step {c : Call α} {s' : State α} {o : Written} (h : Reached base s₀ calls s) (hs : Step base s c s' o) :
    Reached base s₀ (calls ++ [c]) s' where
  slots := hs.slots
  oldest := hs.oldest
  period := hs.period.trans h.period
  concurrent := hs.concurrent.trans h.concurrent
  files t ht := by
    rw [hs.files t (h.period ▸ ht), h.files t ht, h.period, List.filter_append, List.map_append, List.append_assoc]
    congr 2
    by_cases heq : c.start s₀.handle.period = t
    · simp [heq]
    · simp [heq]
  kept d hd := by
    rcases List.mem_append.mp hd with hd | hd
    · exact hs.kept _ (h.period ▸ rounded_start d _) (h.kept d hd)
    · obtain rfl := List.mem_singleton.mp hd
      obtain ⟨n, hn, htime⟩ := hs.handed.slot
      exact .inl ⟨o.slot, n, hn, h.period ▸ htime⟩

theorem run_reached (hd : DistinctNames base s₀.handle.period) (h : Reached base s₀ done s)
    (hg : Guarded (archiveWrite base) NotTwice s calls) {js : List (Call α)} (hjs : js <+: calls) :
    ∃ t os, run (archiveWrite base) s js = some (t, os) ∧ Reached base s₀ (done ++ js) t := by
  induction calls generalizing s done js with
  | nil =>
      obtain rfl := List.prefix_nil.mp hjs
      exact ⟨s, [], rfl, by rwa [List.append_nil]⟩
  | cons c calls ih =>
      cases js with
      | nil => exact ⟨s, [], rfl, by rwa [List.append_nil]⟩
      | cons d js =>
          obtain ⟨rfl, hrest⟩ := List.cons_prefix_cons.mp hjs
          obtain ⟨s', o, hw, hs⟩ := write_step (h.period.symm ▸ hd) h.slots h.oldest hg.1
          obtain ⟨t, os, hr, ht⟩ := ih (h.step hs) (hg.2 _ hw) hrest
          refine ⟨t, o :: os, run_cons.mpr ⟨s', o, os, hw, hr, rfl⟩, ?_⟩
          rwa [List.append_assoc] at ht

theorem guarded_iff_sound (hd : DistinctNames base s₀.handle.period) (h : Reached base s₀ [] s₀) (calls : List (Call α)) :
    Guarded (archiveWrite base) NotTwice s₀ calls ↔ ∀ js, js <+: calls →
      ∃ s os, run (archiveWrite base) s₀ js = some (s, os) ∧ Sound base s₀ js s ∧
        ∀ c, js ++ [c] <+: calls → ∃ s' o, archiveWrite base s c = some (s', o) ∧ Handed s c s' o := by
  constructor
  · intro hg js hjs
    obtain ⟨s, os, hr, hs⟩ := run_reached hd h hg hjs
    refine ⟨s, os, hr, hs.sound hd, fun c hc => ?_⟩
    obtain ⟨s', o, hw, hstep⟩ := write_step (hs.period.symm ▸ hd) hs.slots hs.oldest (guarded_at hg hc hr)
    exact ⟨s', o, hw, hstep.handed⟩
  · intro hall
    refine guarded_of_prefixes
      (I := fun s => Slots base s ∧ OldestFirst s.handle ∧ s.handle.period = s₀.handle.period)
      (P := fun s => ∀ i j n, s.handle.fp i = some n → s.handle.fp j = some n → i = j) ?_
      ⟨h.slots, h.oldest, rfl⟩ fun js hjs => ?_
    · rintro s c s' o ⟨hs, ho, hperiod⟩ hw hdist
      have hd' : DistinctNames base s.handle.period := hperiod.symm ▸ hd
      have hc := notTwice_of_distinct hd' hs ho hw hdist
      obtain ⟨t, o', hw', hstep⟩ := write_step hd' hs ho hc
      obtain ⟨rfl, -⟩ := Prod.mk.inj (Option.some.inj (hw.symm.trans hw'))
      exact ⟨hc, hstep.slots, hstep.oldest, hstep.period.trans hperiod⟩
    · obtain ⟨s, os, hr, hs, -⟩ := hall js hjs
      exact ⟨s, os, hr, hs.distinct⟩

theorem archiveOpen_reached (base : Nat → FileName) {quota period concurrent : Int} {h : Handle} (hopen : archiveOpen quota period concurrent = some h)
    (files : Files FileName α) : Reached base ⟨h, files⟩ [] ⟨h, files⟩ := by
  rw [archiveOpen] at hopen
  split_ifs at hopen with hbad hperiod hbig
  obtain rfl := Option.some.inj hopen
  have hvalid : Valid
      { period := (period * 60).toNat, concurrent := concurrent.toNat, direct := false, oldest := 0,
        fp := fun _ => none, timet := fun _ => 0, th := fun _ => 0, thptr := 0 } :=
    { period_even := by dsimp only; omega
      period_pos := by dsimp only; omega
      period_lt := by dsimp only; omega
      concurrent_pos := by dsimp only; omega
      direct := rfl
      history := fun _ => ⟨Nat.dvd_zero _, Nat.two_pow_pos 32⟩ }
  exact
    { slots := ⟨hvalid, nofun, nofun, nofun, nofun, nofun⟩
      oldest := ⟨hvalid.concurrent_pos, nofun⟩
      period := rfl
      concurrent := rfl
      files := fun t _ => (List.append_nil _).symm
      kept := nofun }

/-- The calls for a handle keep the files, with at most concurrent of them open, none of them twice, just as long as none
is for an open file that ends behind 2^32. -/
theorem archive_iff {quota period concurrent : Int} {h : Handle} (hopen : archiveOpen quota period concurrent = some h)
    (hd : DistinctNames base h.period) (files : Files FileName α) (calls : List (Call α)) :
    Guarded (archiveWrite base) NotTwice ⟨h, files⟩ calls ↔ ∀ js, js <+: calls →
      ∃ s os, run (archiveWrite base) ⟨h, files⟩ js = some (s, os) ∧ Sound base ⟨h, files⟩ js s ∧
        ∀ c, js ++ [c] <+: calls → ∃ s' o, archiveWrite base s c = some (s', o) ∧ Handed s c s' o :=
  guarded_iff_sound hd (archiveOpen_reached base hopen files) calls

end Runs

/-- Of path `d`, prefix `p` and an empty suffix, for the time 0. -/
def firstName : FileName :=
  ['d', '/', 'p', '_', '1', '9', '7', '0', '_', '0', '1', '_', '0', '1', '_', '0', '0', '_', '0', '0']

def someNames (t : Nat) : FileName := firstName ++ List.replicate t 'x'

theorem someNames_distinct (period : Nat) : DistinctNames someNames period where
  inj s t _ _ h := by
    rw [someNames, someNames] at h
    have hlength := congrArg List.length (List.append_cancel_left h)
    rwa [List.length_replicate, List.length_replicate] at hlength
  apart s t _ _ h := by
    rw [formFilename, someNames, someNames, List.append_assoc] at h
    have hdot : '.' ∈ List.replicate s 'x' := by
      rw [List.append_cancel_left h]
      exact List.mem_append_right _ List.mem_cons_self
    exact absurd (List.eq_of_mem_replicate hdot) (by decide)

def twoSlots : Handle where
  period := 60
  concurrent := 2
  direct := false
  oldest := 0
  fp := fun _ => none
  timet := fun _ => 0
  th := fun _ => 0
  thptr := 0

def noFiles : Files FileName Nat where
  dir := fun _ => none
  data := fun _ => []
  size := 0
  dir_lt := nofun
  unlinked := nofun

theorem archive_oneCall : ∃ s os, run (archiveWrite someNames) ⟨twoSlots, noFiles⟩ [⟨7, 59⟩] = some (s, os) ∧
    Sound someNames ⟨twoSlots, noFiles⟩ [⟨7, 59⟩] s := by
  have hopen : archiveOpen 50 1 2 = some twoSlots := rfl
  have hguard : Guarded (archiveWrite someNames) NotTwice ⟨twoSlots, noFiles⟩ [⟨7, 59⟩] :=
    ⟨.inr (.inl (by decide)), fun _ _ => trivial⟩
  have hall := (archive_iff hopen (someNames_distinct _) noFiles [⟨7, 59⟩]).mp hguard
  obtain ⟨s, os, hr, hs, -⟩ := hall _ (List.prefix_refl _)
  exact ⟨s, os, hr, hs⟩

/-- Two calls for the last period open its file twice. -/
theorem last_twice : ¬ ∀ (base : Nat → FileName) (quota period concurrent : Int) (h : Handle),
    archiveOpen quota period concurrent = some h → DistinctNames base h.period →
      ∀ (files : Files FileName Nat) (calls js : List (Call Nat)), js <+: calls →
        ∃ s os, run (archiveWrite base) ⟨h, files⟩ js = some (s, os) ∧ Sound base ⟨h, files⟩ js s ∧
          ∀ c, js ++ [c] <+: calls → ∃ s' o, archiveWrite base s c = some (s', o) ∧ Handed s c s' o := by
  intro hall
  have hopen : archiveOpen 50 1 2 = some twoSlots := rfl
  have hstart : ∀ n, (⟨n, 4294967295⟩ : Call Nat).start 60 = 4294967280 := by
    intro n
    show (4294967295 : UInt32).toNat - (4294967295 : UInt32).toNat % 60 = _
    decide
  have hreached := archiveOpen_reached someNames hopen noFiles
  have hsound := hall someNames 50 1 2 twoSlots hopen (someNames_distinct _) noFiles [⟨7, 4294967295⟩, ⟨8, 4294967295⟩]
  obtain ⟨hfirst, hnext⟩ := (guarded_iff_sound (someNames_distinct _) hreached _).mpr hsound
  obtain ⟨s, o, hw, hstep⟩ := write_step (someNames_distinct _) hreached.slots hreached.oldest hfirst
  obtain ⟨n, hn, htime⟩ := hstep.handed.slot
  have hperiod : s.handle.period = 60 := hstep.period
  have htwice := (hnext _ hw).1
  rw [NotTwice, hperiod, hstart] at htwice
  rcases htwice with hone | hend | hnot
  · exact absurd (hstep.concurrent.symm.trans hone) (by decide)
  · exact absurd hend (by decide)
  · exact hnot o.slot (hstep.slots.lt _ n hn) (by rw [hn]; rfl) htime

end OiAmc.Archive

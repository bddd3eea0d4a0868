import Mathlib.Algebra.Ring.Int.Defs
import Mathlib.Data.Nat.Find
import OiAmc.Arena

/-! Groups that the library converts for the driver, and the memory they take. -/

namespace OiAmc.Gfplib

open Arena Function

structure GfpLink where
  au4 : Int
  e1 : Int

structure GfpGroup where
  id : Int
  linksNum : Int
  links : Nat → GfpLink

structure GfpGroups where
  groupsNum : Int
  groups : Nat → GfpGroup

structure Limits where
  groupsTrialGroupMaxnum : Int
  groupTrialLinkMaxnum : Int
  groupFormalLinkMaxnum : Int

structure SlinkInfo where
  fiber : UInt8
  fiberRate : UInt8
  channel : UInt8
  channelRate : UInt8

/-- linkarrays is NULL or the address of a block. -/
structure SgroupInfo where
  groupId : Int
  isValid : Int
  linkarraysSize : Int
  linkarrays : Option Nat
  resokpkt : UInt8
  reserrpkt : UInt8

def SgroupInfo.zero : SgroupInfo := ⟨0, 0, 0, none, 0, 0⟩

inductive Block
  | gsinfo
  | ginfo
  | linkarrays (links : List SlinkInfo)

inductive GroupType
  | trial
  | set
  deriving DecidableEq

structure GfpTrialResult where
  id : Int
  succsPkts : UInt8
  errorPkts : UInt8

structure Driver where
  setGroups : Int
  tryResult : Nat → Int × (Nat → UInt8 × UInt8)

def malloc (found : Bool) (x : Block) (m : Pool Block) : Option Nat × Pool Block :=
  if found then (some m.next, m.alloc x) else (none, m)

def lsize (data : GfpGroups) (i : Nat) : Int := (data.groups i).linksNum % 0x100

def ofInt (n : Int) : UInt8 := .ofNat (n % 0x100).toNat

def groupId (type : GroupType) (group : GfpGroup) : Int :=
  match type with
  | .trial => group.id
  | .set => ((group.links 0).au4 - 1) % 0x40 * 0x40 + ((group.links 0).e1 - 1) % 0x40

def slink (group : GfpGroup) (j : Nat) : SlinkInfo where
  fiber := ofInt ((group.links j).au4 - 1)
  fiberRate := 0
  channel := ofInt ((group.links j).e1 - 1)
  channelRate := 2

variable (room : Nat → Bool) (type : GroupType) (data : GfpGroups)

/-- The loop over the groups: the sum of the links, or none where it is left with an error. It has
no outcome where an entry outside of the array or no memory is written. -/
def convert (size : Nat) : List Nat → Int → (Nat → SgroupInfo) → Pool Block →
    Option (Option Int × (Nat → SgroupInfo) × Pool Block)
  | [], sum, ginfo, m => some (some sum, ginfo, m)
  | i :: is, sum, ginfo, m =>
      let lsize := lsize data i
      if size ≤ i then none
      else if lsize < 1 ∨ 64 < lsize then
        some (none, update ginfo i { ginfo i with linkarraysSize := lsize }, m)
      else
        let links := (List.range lsize.toNat).map (slink (data.groups i))
        match malloc (room (i + 2)) (.linkarrays links) m with
        -- memset comes before the comparison with NULL
        | (none, _) => none
        | (some p, m) =>
            let entry := { ginfo i with
              linkarraysSize := lsize, linkarrays := some p,
              groupId := groupId type (data.groups i), isValid := 1 }
            convert size is (sum + lsize) (update ginfo i entry) m

def linkMaxnum (limits : Limits) : GroupType → Int
  | .trial => limits.groupTrialLinkMaxnum
  | .set => limits.groupFormalLinkMaxnum

/-- The entries are as many as the octet gsize says; only the first is cleared, the others
have what the memory held. -/
def gsize : Nat := (data.groupsNum % 0x100).toNat

def cleared (fresh : Nat → SgroupInfo) : Nat → SgroupInfo := update fresh 0 .zero

def data2driver (limits : Limits) (fresh : Nat → SgroupInfo) (m : Pool Block) :
    Option (Int × Nat × (Nat → SgroupInfo) × Pool Block) :=
  match malloc (room 1) .ginfo m with
  | (none, _) => none
  | (some ginfo, m) =>
      if gsize data = 0 then none
      else
        (convert room type data (gsize data) (List.range (gsize data)) 0 (cleared fresh) m).map
          fun (sum, entries, m) =>
            match sum with
            | none => (-1, ginfo, entries, m)
            | some sum => (if linkMaxnum limits type < sum then -1 else 0, ginfo, entries, m)

def entry (size : Nat) (ginfo : Nat → SgroupInfo) (i : Nat) : Option SgroupInfo :=
  if i < size then some (ginfo i) else none

def freeLinkarrays (size : Nat) (ginfo : Nat → SgroupInfo) (m : Pool Block) (i : Nat) : Option (Pool Block) :=
  (entry size ginfo i).bind fun group =>
    match group.linkarrays with
    | some p => m.free p
    | none => some m

/-- What stands behind trial_group_exit and set_group_exit. -/
def groupExit (entries : Nat → SgroupInfo) (ginfo gsinfo : Nat) (m : Pool Block) : Option (Pool Block) :=
  (List.range data.groupsNum.toNat).foldlM (freeLinkarrays (gsize data) entries) m >>= fun m =>
    m.free ginfo >>= fun m => m.free gsinfo

def driver2data (entries : Nat → SgroupInfo) (pkts : Nat → UInt8 × UInt8) : Option (List GfpTrialResult) :=
  (List.range data.groupsNum.toNat).mapM fun i =>
    (entry (gsize data) entries i).map fun group => ⟨group.groupId, (pkts i).1, (pkts i).2⟩

/-- The loop that waits for a result: at most so many calls, the first of them the n-th. -/
def waitResult (driver : Driver) (n : Nat) : Nat → Int × (Nat → UInt8 × UInt8)
  | 0 => driver.tryResult n
  | cnt + 1 => if (driver.tryResult n).1 ≤ 0 then driver.tryResult n else waitResult driver (n + 1) cnt

def timeoutCnt : Nat := 10

def gfplibSetTrialGroups (limits : Limits) (driver : Driver) (fresh : Nat → SgroupInfo) (hd : Bool)
    (m : Pool Block) : Option (Int × List GfpTrialResult × Pool Block) :=
  if hd = false then some (-1, [], m)
  else if data.groupsNum < 1 then some (0, [], m)
  else if limits.groupsTrialGroupMaxnum < data.groupsNum then some (-1, [], m)
  else
    match malloc (room 0) .gsinfo m with
    | (none, m) => some (-1, [], m)
    | (some gsinfo, m) => do
        let (rv, ginfo, entries, m) ← data2driver room .trial data limits fresh m
        if rv ≠ 0 then return (-1, [], m)
        if driver.setGroups ≠ 0 then
          let m ← groupExit data entries ginfo gsinfo m
          return (-1, [], m)
        let (rv, pkts) := waitResult driver 0 (timeoutCnt - 1)
        let results ← if rv = 0 then driver2data data entries pkts else some []
        let m ← groupExit data entries ginfo gsinfo m
        return (rv, results, m)

def gfplibSetGroups (limits : Limits) (driver : Driver) (fresh : Nat → SgroupInfo) (hd : Bool)
    (m : Pool Block) : Option (Int × Pool Block) :=
  if hd = false then some (-1, m)
  else if data.groupsNum < 1 then some (0, m)
  else if limits.groupFormalLinkMaxnum < data.groupsNum then some (-1, m)
  else
    match malloc (room 0) .gsinfo m with
    | (none, m) => some (-1, m)
    | (some gsinfo, m) => do
        let (rv, ginfo, entries, m) ← data2driver room .set data limits fresh m
        let m ← groupExit data entries ginfo gsinfo m
        return (if rv ≠ 0 ∨ driver.setGroups ≠ 0 then -1 else 0, m)

/-- The octet that is taken for links_num is a number of links. -/
def Convertible (data : GfpGroups) (i : Nat) : Prop := 1 ≤ lsize data i ∧ lsize data i ≤ 64

/-- Between i and k each entry has a block of its own, in the order of the addresses; all else
is as it was. -/
structure Filled (m : Pool Block) (ginfo : Nat → SgroupInfo) (i k : Nat) (m' : Pool Block)
    (ginfo' : Nat → SgroupInfo) : Prop where
  next : m'.next = m.next + (k - i)
  old : ∀ q < m.next, m'.get q = m.get q
  live : ∀ q, m.next ≤ q → q < m'.next → m'.get q ≠ none
  filled : ∀ j, i ≤ j → j < k → (ginfo' j).linkarrays = some (m.next + (j - i))
  rest : ∀ j, ¬ (i ≤ j ∧ j < k) → (ginfo' j).linkarrays = (ginfo j).linkarrays

section Convert

variable {room type data} {size i k n : Nat} {m m' : Pool Block} {ginfo ginfo' : Nat → SgroupInfo} {sum : Int}

theorem filled_refl (m : Pool Block) {g : SgroupInfo} (h : g.linkarrays = (ginfo i).linkarrays) :
    Filled m ginfo i i m (update ginfo i g) := by
  refine ⟨by omega, fun q _ => rfl, fun q _ hq => absurd hq (by omega), fun j _ hj => absurd hj (by omega), ?_⟩
  intro j _
  by_cases hj : j = i
  · rw [hj, update_self, h]
  · rw [update_of_ne hj]

theorem filled_cons {x : Block} {g : SgroupInfo} (hg : g.linkarrays = some m.next) (hik : i + 1 ≤ k)
    (h : Filled (m.alloc x) (update ginfo i g) (i + 1) k m' ginfo') : Filled m ginfo i k m' ginfo' := by
  have hnext : (m.alloc x).next = m.next + 1 := alloc_next
  refine ⟨by rw [h.next, hnext]; omega, fun q hq => ?_, fun q hq hq' => ?_, fun j hj hjk => ?_, fun j hj => ?_⟩
  · rw [h.old q (by omega), alloc_get, update_of_ne (by omega)]
  · by_cases hm : q = m.next
    · rw [h.old q (by omega), alloc_get, hm, update_self]
      exact Option.some_ne_none x
    · exact h.live q (by omega) hq'
  · by_cases hij : j = i
    · rw [h.rest j (by omega), hij, update_self, hg, Nat.sub_self, Nat.add_zero]
    · rw [h.filled j (by omega) hjk, hnext, Option.some.injEq]
      omega
  · rw [h.rest j (by omega), update_of_ne (by omega)]

theorem convert_step {is : List Nat} (hsize : i < size) (hgood : Convertible data i)
    (hroom : room (i + 2) = true) : ∃ x g, g.linkarrays = some m.next ∧
      convert room type data size (i :: is) sum ginfo m =
        convert room type data size is (sum + lsize data i) (update ginfo i g) (m.alloc x) := by
  obtain ⟨hpos, hle⟩ := hgood
  rw [convert, if_neg (by omega), if_neg (by omega)]
  simp only [malloc, if_pos hroom]
  refine ⟨_, _, ?_, rfl⟩
  rfl

theorem convert_all (hsize : i + n ≤ size)
    (hgood : ∀ j, i ≤ j → j < i + n → Convertible data j ∧ room (j + 2) = true) :
    ∃ ginfo' m', convert room type data size (List.range' i n) sum ginfo m =
      some (some (sum + ((List.range' i n).map (lsize data)).sum), ginfo', m') ∧
      Filled m ginfo i (i + n) m' ginfo' := by
  induction n generalizing i sum ginfo m with
  | zero =>
      refine ⟨ginfo, m, ?_, ?_⟩
      · simp [convert]
      · have h := @filled_refl i ginfo m _ rfl
        rwa [update_eq_self] at h
  | succ n ih =>
      obtain ⟨hconv, hroom⟩ := hgood i (by omega) (by omega)
      obtain ⟨x, g, hg, hstep⟩ := @convert_step room type data size i m ginfo sum
        (List.range' (i + 1) n) (by omega) hconv hroom
      obtain ⟨ginfo', m', heq, hfilled⟩ := @ih (i + 1) (m.alloc x) (update ginfo i g)
        (sum + lsize data i) (by omega) fun j hj hjn => hgood j (by omega) (by omega)
      refine ⟨ginfo', m', ?_, ?_⟩
      · rw [List.range'_succ, hstep, heq, List.map_cons, List.sum_cons, Int.add_assoc]
      · rw [Nat.add_right_comm] at hfilled
        exact filled_cons hg (by omega) hfilled

theorem convert_left (hsize : i + n ≤ size) (hik : i ≤ k) (hkn : k < i + n)
    (hgood : ∀ j, i ≤ j → j < k → Convertible data j ∧ room (j + 2) = true) (hbad : ¬ Convertible data k) :
    ∃ ginfo' m', convert room type data size (List.range' i n) sum ginfo m = some (none, ginfo', m') ∧
      Filled m ginfo i k m' ginfo' := by
  induction n generalizing i sum ginfo m with
  | zero => omega
  | succ n ih =>
      rw [List.range'_succ]
      by_cases hk : k = i
      · subst hk
        rw [convert, if_neg (by omega), if_pos (by rw [Convertible] at hbad; omega)]
        exact ⟨_, _, rfl, filled_refl m rfl⟩
      · obtain ⟨hconv, hroom⟩ := hgood i (by omega) (by omega)
        obtain ⟨x, g, hg, hstep⟩ := @convert_step room type data size i m ginfo sum
          (List.range' (i + 1) n) (by omega) hconv hroom
        obtain ⟨ginfo', m', heq, hfilled⟩ := @ih (i + 1) (m.alloc x) (update ginfo i g)
          (sum + lsize data i) (by omega) (by omega) (by omega)
          fun j hj hjk => hgood j (by omega) hjk
        exact ⟨ginfo', m', hstep.trans heq, filled_cons hg (by omega) hfilled⟩

theorem convert_no_room (hsize : i + n ≤ size) (hik : i ≤ k) (hkn : k < i + n)
    (hgood : ∀ j, i ≤ j → j < k → Convertible data j ∧ room (j + 2) = true) (hconv : Convertible data k)
    (hroom : ¬ room (k + 2) = true) :
    convert room type data size (List.range' i n) sum ginfo m = none := by
  induction n generalizing i sum ginfo m with
  | zero => omega
  | succ n ih =>
      rw [List.range'_succ]
      by_cases hk : k = i
      · subst hk
        obtain ⟨hpos, hle⟩ := hconv
        rw [convert, if_neg (by omega), if_neg (by omega)]
        simp only [malloc, if_neg hroom]
      · obtain ⟨hgood', hfound⟩ := hgood i (by omega) (by omega)
        obtain ⟨x, g, -, hstep⟩ := @convert_step room type data size i m ginfo sum
          (List.range' (i + 1) n) (by omega) hgood' hfound
        rw [hstep]
        exact ih (by omega) (by omega) (by omega) fun j hj hjk => hgood j (by omega) hjk

end Convert

section Exit

variable {size i j n b p : Nat} {m m' : Pool Block} {entries : Nat → SgroupInfo}

theorem free_filled (hsize : i + n ≤ size)
    (hfilled : ∀ j, i ≤ j → j < i + n → (entries j).linkarrays = some (b + j))
    (hlive : ∀ q, b + i ≤ q → q < b + i + n → m.get q ≠ none) :
    ∃ m', (List.range' i n).foldlM (freeLinkarrays size entries) m = some m' ∧
      ∀ q, m'.get q = if b + i ≤ q ∧ q < b + i + n then none else m.get q := by
  induction n generalizing i m with
  | zero =>
      refine ⟨m, rfl, fun q => ?_⟩
      rw [if_neg (by omega)]
  | succ n ih =>
      obtain ⟨m1, hfree, hget, -⟩ := free_some (hlive (b + i) (Nat.le_refl _) (by omega))
      have hother (q : Nat) (hq : q ≠ b + i) : m1.get q = m.get q := by
        rw [hget, update_of_ne hq]
      obtain ⟨m', hrest, hget'⟩ := ih (i := i + 1) (m := m1) (by omega)
        (fun j hj hjn => hfilled j (by omega) (by omega)) fun q hq hqn => by
          rw [hother q (by omega)]
          exact hlive q (by omega) (by omega)
      refine ⟨m', ?_, fun q => ?_⟩
      · rw [List.range'_succ, List.foldlM_cons, freeLinkarrays, entry, if_pos (by omega), Option.bind_some,
          hfilled i (Nat.le_refl _) (by omega)]
        simp only [hfree]
        exact hrest
      · rw [hget']
        by_cases hq : q = b + i
        · rw [if_neg (by omega), if_pos (by omega), hq, hget, update_self]
        · rw [hother q hq]
          exact if_congr (by omega) rfl rfl

theorem free_dead (hp : m.get p = none) (hfree : freeLinkarrays size entries m i = some m') :
    m'.get p = none := by
  rw [freeLinkarrays, entry, Option.bind_eq_some_iff] at hfree
  obtain ⟨group, -, hfree⟩ := hfree
  cases hlink : group.linkarrays with
  | none =>
      simp only [hlink, Option.some.injEq] at hfree
      rwa [← hfree]
  | some q =>
      simp only [hlink] at hfree
      obtain ⟨-, hget, -⟩ := free_eq_some.mp hfree
      rw [hget]
      by_cases hq : p = q
      · rw [hq, update_self]
      · rwa [update_of_ne hq]

theorem free_none {is : List Nat} (hp : m.get p = none) (hj : j ∈ is)
    (hbad : ∀ m : Pool Block, m.get p = none → freeLinkarrays size entries m j = none) :
    is.foldlM (freeLinkarrays size entries) m = none := by
  induction is generalizing m with
  | nil => cases hj
  | cons i is ih =>
      rw [List.foldlM_cons]
      cases hfree : freeLinkarrays size entries m i with
      | none => rfl
      | some m' =>
          rcases List.mem_cons.mp hj with rfl | hj
          · rw [hbad m hp] at hfree
            cases hfree
          · exact ih (free_dead hp hfree) hj

theorem entry_outside (hj : size ≤ j) (m : Pool Block) : freeLinkarrays size entries m j = none := by
  rw [freeLinkarrays, entry, if_neg (by omega)]
  rfl

theorem entry_dangling (hj : j < size) (hlink : (entries j).linkarrays = some p) (m : Pool Block)
    (hp : m.get p = none) : freeLinkarrays size entries m j = none := by
  rw [freeLinkarrays, entry, if_pos hj, Option.bind_some, hlink]
  cases hfree : m.free p with
  | none => simp only [hfree]
  | some m' => exact absurd hp (free_eq_some.mp hfree).1

end Exit

section Conversion

variable {room : Nat → Bool} {type : GroupType} {data : GfpGroups} {limits : Limits} {k : Nat}
  {fresh entries : Nat → SgroupInfo} {m m' : Pool Block} {rv : Int}

/-- The groups before k are converted and find memory. -/
def GoodTo (room : Nat → Bool) (data : GfpGroups) (k : Nat) : Prop :=
  ∀ i < k, Convertible data i ∧ room (i + 2) = true

def sumLinksnum (data : GfpGroups) : Int := ((List.range (gsize data)).map (lsize data)).sum

theorem data2driver_all (hroom : room 1 = true) (hsize : gsize data ≠ 0) (hgood : GoodTo room data (gsize data)) :
    ∃ rv entries m', data2driver room type data limits fresh m = some (rv, m.next, entries, m') ∧
      (rv = 0 ↔ sumLinksnum data ≤ linkMaxnum limits type) ∧
      Filled (m.alloc .ginfo) (cleared fresh) 0 (gsize data) m' entries := by
  obtain ⟨entries, m', heq, hfilled⟩ := @convert_all room type data _ 0 _ (m.alloc .ginfo) (cleared fresh) 0
    (Nat.le_of_eq (Nat.zero_add (gsize data))) fun j _ hj => hgood j (by omega)
  rw [Nat.zero_add] at hfilled
  rw [← List.range_eq_range', ← sumLinksnum, Int.zero_add] at heq
  refine ⟨if linkMaxnum limits type < sumLinksnum data then -1 else 0, entries, m', ?_, ?_, hfilled⟩
  · rw [data2driver, malloc, if_pos hroom]
    simp only [if_neg hsize, heq, Option.map_some]
  · split_ifs with hover
    · exact iff_of_false (by decide) (by omega)
    · exact iff_of_true rfl (by omega)

theorem data2driver_left (hroom : room 1 = true) (hk : k < gsize data) (hgood : GoodTo room data k)
    (hbad : ¬ Convertible data k) :
    ∃ entries m', data2driver room type data limits fresh m = some (-1, m.next, entries, m') ∧
      Filled (m.alloc .ginfo) (cleared fresh) 0 k m' entries := by
  obtain ⟨entries, m', heq, hfilled⟩ := @convert_left room type data _ 0 k _ (m.alloc .ginfo)
    (cleared fresh) 0 (Nat.le_of_eq (Nat.zero_add (gsize data))) (Nat.zero_le k)
    (by omega) (fun j _ hj => hgood j hj) hbad
  refine ⟨entries, m', ?_, hfilled⟩
  rw [data2driver, malloc, if_pos hroom]
  simp only [if_neg (by omega : gsize data ≠ 0), List.range_eq_range', heq, Option.map_some]

theorem data2driver_none (h : room 1 = true → gsize data ≠ 0 → ∃ k < gsize data, GoodTo room data k ∧
    Convertible data k ∧ ¬ room (k + 2) = true) : data2driver room type data limits fresh m = none := by
  rw [data2driver, malloc]
  by_cases hroom : room 1 = true
  · rw [if_pos hroom]
    by_cases hsize : gsize data = 0
    · exact if_pos hsize
    · obtain ⟨k, hk, hgood, hconv, hfull⟩ := h hroom hsize
      simp only [if_neg hsize, List.range_eq_range']
      rw [convert_no_room (Nat.le_of_eq (Nat.zero_add _)) (Nat.zero_le k) (by omega)
        (fun j _ hj => hgood j hj) hconv hfull]
      rfl
  · rw [if_neg hroom]

theorem exists_end (h : ¬ GoodTo room data (gsize data)) :
    ∃ k < gsize data, GoodTo room data k ∧
      (¬ Convertible data k ∨ Convertible data k ∧ ¬ room (k + 2) = true) := by
  classical
  simp only [GoodTo, not_forall] at h
  have hex : ∃ i, i < gsize data ∧ ¬ (Convertible data i ∧ room (i + 2) = true) := by
    obtain ⟨i, hi, hbad⟩ := h
    exact ⟨i, hi, hbad⟩
  obtain ⟨hlt, hbad⟩ := Nat.find_spec hex
  refine ⟨Nat.find hex, hlt, fun j hj => ?_, ?_⟩
  · have hmin := Nat.find_min hex hj
    by_contra hnot
    exact hmin ⟨by omega, hnot⟩
  · by_cases hconv : Convertible data (Nat.find hex)
    · exact Or.inr ⟨hconv, fun hroom => hbad ⟨hconv, hroom⟩⟩
    · exact Or.inl hconv

/-- A memory in which the two first blocks are live and all behind them are free. -/
structure Opened (m m' : Pool Block) : Prop where
  old : ∀ q < m.next, m'.get q = m.get q
  gsinfo : m'.get m.next ≠ none
  ginfo : m'.get (m.next + 1) ≠ none
  free : ∀ q, m.next + 2 ≤ q → m'.get q = none

theorem free_opened (h : Opened m m') :
    ∃ m'', (m'.free (m.next + 1) >>= fun m' => m'.free m.next) = some m'' ∧ m''.get = m.get := by
  obtain ⟨m1, hfree1, hget1, -⟩ := free_some h.ginfo
  have hlive : m1.get m.next ≠ none := by
    rw [hget1, update_of_ne (by omega)]
    exact h.gsinfo
  obtain ⟨m2, hfree2, hget2, -⟩ := free_some hlive
  refine ⟨m2, ?_, ?_⟩
  · rw [hfree1]
    exact hfree2
  · funext q
    rw [hget2, hget1]
    rcases Nat.lt_or_ge q m.next with hq | hq
    · rw [update_of_ne (by omega), update_of_ne (by omega), h.old q hq]
    · rw [m.bounded q hq]
      by_cases hq0 : q = m.next
      · rw [hq0, update_self]
      · rw [update_of_ne hq0]
        by_cases hq1 : q = m.next + 1
        · rw [hq1, update_self]
        · rw [update_of_ne hq1]
          exact h.free q (by omega)

/-- What the conversion leaves of the memory before the call. -/
abbrev twoBlocks (m : Pool Block) : Pool Block := (m.alloc .gsinfo).alloc .ginfo

theorem filled_live (h : Filled (twoBlocks m) fresh 0 k m' entries) :
    (∀ q < m.next, m'.get q = m.get q) ∧ m'.get m.next ≠ none ∧ m'.get (m.next + 1) ≠ none := by
  have hnext : (twoBlocks m).next = m.next + 2 := rfl
  refine ⟨fun q hq => ?_, ?_, ?_⟩
  · rw [h.old q (by omega), alloc_get, alloc_next, update_of_ne (by omega), alloc_get, update_of_ne (by omega)]
  · rw [h.old _ (by omega), alloc_get, alloc_next, update_of_ne (by omega), alloc_get, update_self]
    exact Option.some_ne_none _
  · rw [h.old _ (by omega), alloc_get, alloc_next, update_self]
    exact Option.some_ne_none _

theorem groupExit_clean (hsize : data.groupsNum.toNat = gsize data)
    (hk : k = gsize data ∨ k = 0 ∧ gsize data = 1)
    (h : Filled (twoBlocks m) (cleared fresh) 0 k m' entries) :
    ∃ m'', groupExit data entries (m.next + 1) m.next m' = some m'' ∧ m''.get = m.get := by
  have hnext : (twoBlocks m).next = m.next + 2 := rfl
  obtain ⟨hold, hgsinfo, hginfo⟩ := filled_live h
  have hlinks : ∃ m3, (List.range data.groupsNum.toNat).foldlM (freeLinkarrays (gsize data) entries) m' = some m3 ∧
      Opened m m3 := by
    rw [hsize]
    rcases hk with rfl | ⟨rfl, hone⟩
    · obtain ⟨m3, hfree, hget⟩ := @free_filled (gsize data) 0 (gsize data) _ m' entries (by omega)
        (fun j hj hjn => h.filled j hj (by omega))
        fun q hq hqn => h.live q (by omega) (by rw [h.next]; omega)
      rw [List.range_eq_range']
      refine ⟨m3, hfree, fun q hq => ?_, ?_, ?_, fun q hq => ?_⟩
      · rw [hget, if_neg (by omega), hold q hq]
      · rw [hget, if_neg (by omega)]
        exact hgsinfo
      · rw [hget, if_neg (by omega)]
        exact hginfo
      · rw [hget]
        split_ifs with hin
        · rfl
        · exact m'.bounded q (by rw [h.next]; omega)
    · have hnull : (entries 0).linkarrays = none := by
        rw [h.rest 0 (by omega), cleared, update_self]
        rfl
      refine ⟨m', ?_, hold, hgsinfo, hginfo, fun q hq => m'.bounded q (by rw [h.next]; omega)⟩
      rw [hone, List.range_one, List.foldlM_cons, freeLinkarrays, entry, if_pos (by decide), Option.bind_some,
        hnull]
      rfl
  obtain ⟨m3, hfree, hopened⟩ := hlinks
  obtain ⟨m'', hexit, hget⟩ := free_opened hopened
  refine ⟨m'', ?_, hget⟩
  rw [groupExit, hfree]
  exact hexit

theorem groupExit_none {j p : Nat} (hp : m'.get p = none) (hj : j < data.groupsNum.toNat)
    (hbad : ∀ m : Pool Block, m.get p = none → freeLinkarrays (gsize data) entries m j = none)
    (ginfo gsinfo : Nat) :
    groupExit data entries ginfo gsinfo m' = none := by
  rw [groupExit, free_none hp (List.mem_range.mpr hj) hbad]
  rfl

end Conversion

section Clean

variable (room : Nat → Bool) (data : GfpGroups) (limits : Limits) (hd : Bool) (m : Pool Block)

/-- Whatever the driver answers and the memory of malloc held before, the call comes to its end,
and exactly the blocks from before are there. -/
def TrialClean : Prop := ∀ driver fresh, ∃ rv results m',
  gfplibSetTrialGroups room data limits driver fresh hd m = some (rv, results, m') ∧ m'.get = m.get

def SetClean : Prop := ∀ driver fresh, ∃ rv m',
  gfplibSetGroups room data limits driver fresh hd m = some (rv, m') ∧ m'.get = m.get

def Rejected (maxnum : Int) : Prop :=
  hd = false ∨ data.groupsNum < 1 ∨ maxnum < data.groupsNum ∨ room 0 = false

variable {room data limits hd m}

theorem gsize_eq (hpos : 1 ≤ data.groupsNum) (hle : data.groupsNum ≤ 255) :
    data.groupsNum.toNat = gsize data ∧ gsize data ≠ 0 := by
  rw [gsize]
  omega

theorem gsize_lt (hpos : 255 < data.groupsNum) : gsize data < data.groupsNum.toNat := by
  rw [gsize]
  omega

theorem groupExit_large (m' : Pool Block) (entries : Nat → SgroupInfo) (hlarge : ¬ data.groupsNum ≤ 255)
    (ginfo gsinfo : Nat) : groupExit data entries ginfo gsinfo m' = none :=
  groupExit_none (m'.bounded _ (Nat.le_refl _)) (gsize_lt (by omega))
    (fun m _ => entry_outside (Nat.le_refl _) m) ginfo gsinfo

theorem trial_eq (hhd : hd = true) (hpos : 1 ≤ data.groupsNum)
    (hmax : data.groupsNum ≤ limits.groupsTrialGroupMaxnum) (hroom : room 0 = true) (driver : Driver)
    (fresh : Nat → SgroupInfo) :
    gfplibSetTrialGroups room data limits driver fresh hd m = (do
      let (rv, ginfo, entries, m') ← data2driver room .trial data limits fresh (m.alloc .gsinfo)
      if rv ≠ 0 then return (-1, [], m')
      if driver.setGroups ≠ 0 then
        let m' ← groupExit data entries ginfo m.next m'
        return (-1, [], m')
      let (rv, pkts) := waitResult driver 0 (timeoutCnt - 1)
      let results ← if rv = 0 then driver2data data entries pkts else some []
      let m' ← groupExit data entries ginfo m.next m'
      return (rv, results, m')) := by
  rw [gfplibSetTrialGroups, if_neg (by simp [hhd]), if_neg (by omega), if_neg (by omega), malloc, if_pos hroom]

theorem set_eq (hhd : hd = true) (hpos : 1 ≤ data.groupsNum)
    (hmax : data.groupsNum ≤ limits.groupFormalLinkMaxnum) (hroom : room 0 = true) (driver : Driver)
    (fresh : Nat → SgroupInfo) :
    gfplibSetGroups room data limits driver fresh hd m = (do
      let (rv, ginfo, entries, m') ← data2driver room .set data limits fresh (m.alloc .gsinfo)
      let m' ← groupExit data entries ginfo m.next m'
      return (if rv ≠ 0 ∨ driver.setGroups ≠ 0 then -1 else 0, m')) := by
  rw [gfplibSetGroups, if_neg (by simp [hhd]), if_neg (by omega), if_neg (by omega), malloc, if_pos hroom]

theorem trial_rejected (h : Rejected room data hd limits.groupsTrialGroupMaxnum) :
    TrialClean room data limits hd m := by
  intro driver fresh
  rw [gfplibSetTrialGroups]
  by_cases h1 : hd = false
  · rw [if_pos h1]
    exact ⟨_, _, m, rfl, rfl⟩
  rw [if_neg h1]
  by_cases h2 : data.groupsNum < 1
  · rw [if_pos h2]
    exact ⟨_, _, m, rfl, rfl⟩
  rw [if_neg h2]
  rcases h with h | h | h | h
  · exact absurd h h1
  · exact absurd h h2
  · rw [if_pos h]
    exact ⟨_, _, m, rfl, rfl⟩
  · rw [malloc, h, if_neg Bool.false_ne_true]
    by_cases h3 : limits.groupsTrialGroupMaxnum < data.groupsNum
    · rw [if_pos h3]
      exact ⟨_, _, m, rfl, rfl⟩
    · rw [if_neg h3]
      exact ⟨_, _, m, rfl, rfl⟩

theorem set_rejected (h : Rejected room data hd limits.groupFormalLinkMaxnum) :
    SetClean room data limits hd m := by
  intro driver fresh
  rw [gfplibSetGroups]
  by_cases h1 : hd = false
  · rw [if_pos h1]
    exact ⟨_, m, rfl, rfl⟩
  rw [if_neg h1]
  by_cases h2 : data.groupsNum < 1
  · rw [if_pos h2]
    exact ⟨_, m, rfl, rfl⟩
  rw [if_neg h2]
  rcases h with h | h | h | h
  · exact absurd h h1
  · exact absurd h h2
  · rw [if_pos h]
    exact ⟨_, m, rfl, rfl⟩
  · rw [malloc, h, if_neg Bool.false_ne_true]
    by_cases h3 : limits.groupFormalLinkMaxnum < data.groupsNum
    · rw [if_pos h3]
      exact ⟨_, m, rfl, rfl⟩
    · rw [if_neg h3]
      exact ⟨_, m, rfl, rfl⟩

theorem driver2data_some (hsize : data.groupsNum.toNat = gsize data) (entries : Nat → SgroupInfo)
    (pkts : Nat → UInt8 × UInt8) : ∃ results, driver2data data entries pkts = some results := by
  have hall (is : List Nat) (his : ∀ i ∈ is, i < gsize data) : ∃ results, is.mapM (fun i =>
      (entry (gsize data) entries i).map fun group =>
        (⟨group.groupId, (pkts i).1, (pkts i).2⟩ : GfpTrialResult)) = some results := by
    induction is with
    | nil => exact ⟨[], rfl⟩
    | cons i is ih =>
        obtain ⟨hi, his⟩ := List.forall_mem_cons.mp his
        obtain ⟨results, hrest⟩ := ih his
        refine ⟨⟨(entries i).groupId, (pkts i).1, (pkts i).2⟩ :: results, ?_⟩
        rw [List.mapM_cons, hrest, entry, if_pos hi]
        rfl
  exact hall _ fun i hi => by
    rw [← hsize]
    exact List.mem_range.mp hi

theorem trial_clean (hhd : hd = true) (hpos : 1 ≤ data.groupsNum) (hle : data.groupsNum ≤ 255)
    (hmax : data.groupsNum ≤ limits.groupsTrialGroupMaxnum) (hroom0 : room 0 = true) (hroom1 : room 1 = true)
    (hgood : GoodTo room data (gsize data)) (hsum : sumLinksnum data ≤ limits.groupTrialLinkMaxnum) :
    TrialClean room data limits hd m := by
  intro driver fresh
  obtain ⟨hsize, hne⟩ := gsize_eq hpos hle
  obtain ⟨rv, entries, m', hconv, hrv, hfilled⟩ := @data2driver_all room .trial data limits fresh
    (m.alloc .gsinfo) hroom1 hne hgood
  obtain ⟨m'', hexit, hget⟩ := groupExit_clean hsize (Or.inl rfl) hfilled
  obtain ⟨results, hresults⟩ := driver2data_some hsize entries (waitResult driver 0 (timeoutCnt - 1)).2
  rw [trial_eq hhd hpos hmax hroom0, hconv]
  simp only [hrv.mpr hsum, alloc_next, Option.bind_eq_bind, Option.bind_some, ne_eq, not_true_eq_false, if_false]
  by_cases hset : driver.setGroups = 0
  · rw [if_neg (not_not_intro hset)]
    by_cases hresult : (waitResult driver 0 (timeoutCnt - 1)).1 = 0
    · rw [if_pos hresult, hresults]
      exact ⟨_, _, _, by simp only [Option.bind_some, hexit]; rfl, hget⟩
    · rw [if_neg hresult]
      exact ⟨_, _, _, by simp only [Option.bind_some, hexit]; rfl, hget⟩
  · rw [if_pos hset]
    exact ⟨_, _, _, by simp only [Option.bind_some, hexit]; rfl, hget⟩

theorem set_clean (hhd : hd = true) (hpos : 1 ≤ data.groupsNum) (hle : data.groupsNum ≤ 255)
    (hmax : data.groupsNum ≤ limits.groupFormalLinkMaxnum) (hroom0 : room 0 = true) (hroom1 : room 1 = true)
    (hgood : GoodTo room data (gsize data) ∨ data.groupsNum = 1 ∧ ¬ Convertible data 0) :
    SetClean room data limits hd m := by
  intro driver fresh
  obtain ⟨hsize, hne⟩ := gsize_eq hpos hle
  have hconv : ∃ k rv entries m', (k = gsize data ∨ k = 0 ∧ gsize data = 1) ∧
      data2driver room .set data limits fresh (m.alloc .gsinfo) = some (rv, m.next + 1, entries, m') ∧
      Filled (twoBlocks m) (cleared fresh) 0 k m' entries := by
    rcases hgood with hgood | ⟨hone, hbad⟩
    · obtain ⟨rv, entries, m', hconv, -, hfilled⟩ := @data2driver_all room .set data limits fresh
        (m.alloc .gsinfo) hroom1 hne hgood
      exact ⟨_, rv, entries, m', Or.inl rfl, hconv, hfilled⟩
    · obtain ⟨entries, m', hconv, hfilled⟩ := @data2driver_left room .set data limits 0 fresh
        (m.alloc .gsinfo) hroom1 (by omega)
        (fun i hi => absurd hi (by omega)) hbad
      exact ⟨0, -1, entries, m', Or.inr ⟨rfl, by omega⟩, hconv, hfilled⟩
  obtain ⟨k, rv, entries, m', hk, hconv, hfilled⟩ := hconv
  obtain ⟨m'', hexit, hget⟩ := groupExit_clean hsize hk hfilled
  refine ⟨if rv ≠ 0 ∨ driver.setGroups ≠ 0 then -1 else 0, m'', ?_, hget⟩
  rw [set_eq hhd hpos hmax hroom0, hconv]
  simp only [Option.bind_eq_bind, Option.bind_some, hexit]
  rfl

theorem conversion_cases (type : GroupType) (fresh : Nat → SgroupInfo) :
    data2driver room type data limits fresh (m.alloc .gsinfo) = none ∨
    ∃ k rv entries m', data2driver room type data limits fresh (m.alloc .gsinfo) =
        some (rv, m.next + 1, entries, m') ∧
      room 1 = true ∧ gsize data ≠ 0 ∧ Filled (twoBlocks m) (cleared fresh) 0 k m' entries ∧
      (k = gsize data ∧ GoodTo room data (gsize data) ∧ (rv = 0 ↔ sumLinksnum data ≤ linkMaxnum limits type) ∨
        k < gsize data ∧ ¬ Convertible data k ∧ rv = -1) := by
  by_cases hroom : room 1 = true
  · by_cases hsize : gsize data = 0
    · exact Or.inl (data2driver_none fun _ hne => absurd hsize hne)
    · by_cases hgood : GoodTo room data (gsize data)
      · obtain ⟨rv, entries, m', hconv, hrv, hfilled⟩ := @data2driver_all room type data limits fresh
          (m.alloc .gsinfo) hroom hsize hgood
        exact Or.inr ⟨_, rv, entries, m', hconv, hroom, hsize, hfilled, Or.inl ⟨rfl, hgood, hrv⟩⟩
      · obtain ⟨k, hk, hbefore, hbad | hfull⟩ := exists_end hgood
        · obtain ⟨entries, m', hconv, hfilled⟩ := @data2driver_left room type data limits k fresh
            (m.alloc .gsinfo) hroom hk hbefore hbad
          exact Or.inr ⟨k, -1, entries, m', hconv, hroom, hsize, hfilled, Or.inr ⟨hk, hbad, rfl⟩⟩
        · exact Or.inl (data2driver_none fun _ _ => ⟨k, hk, hbefore, hfull⟩)
  · exact Or.inl (data2driver_none fun h => absurd h hroom)

theorem trial_converted (hhd : hd = true) (hpos : 1 ≤ data.groupsNum)
    (hmax : data.groupsNum ≤ limits.groupsTrialGroupMaxnum) (hroom0 : room 0 = true)
    (hclean : TrialClean room data limits hd m) :
    data.groupsNum ≤ 255 ∧ room 1 = true ∧ GoodTo room data (gsize data) ∧
      sumLinksnum data ≤ limits.groupTrialLinkMaxnum := by
  obtain ⟨rv', results, m'', hrun, hget⟩ := hclean ⟨-1, fun _ => (0, fun _ => (0, 0))⟩ fun _ => .zero
  rw [trial_eq hhd hpos hmax hroom0] at hrun
  rcases @conversion_cases room data limits m .trial (fun _ => SgroupInfo.zero) with
    hnone | ⟨k, rv, entries, m', hconv, hroom1, hsize, hfilled, hend⟩
  · rw [hnone] at hrun
    cases hrun
  rw [hconv] at hrun
  simp only [Option.bind_eq_bind, Option.bind_some] at hrun
  by_cases hrv : rv = 0
  · rw [if_neg (not_not_intro hrv), if_pos (by decide)] at hrun
    rcases hend with ⟨-, hgood, hsum⟩ | ⟨-, -, hrv'⟩
    · refine ⟨?_, hroom1, hgood, hsum.mp hrv⟩
      by_contra hlarge
      rw [groupExit_large m' entries hlarge] at hrun
      cases hrun
    · rw [hrv] at hrv'
      cases hrv'
  · rw [if_pos hrv] at hrun
    cases hrun
    refine absurd (congrFun hget m.next) ?_
    rw [m.bounded m.next (Nat.le_refl _)]
    exact (filled_live hfilled).2.1

theorem set_converted (hhd : hd = true) (hpos : 1 ≤ data.groupsNum)
    (hmax : data.groupsNum ≤ limits.groupFormalLinkMaxnum) (hroom0 : room 0 = true)
    (hclean : SetClean room data limits hd m) :
    data.groupsNum ≤ 255 ∧ room 1 = true ∧
      (GoodTo room data (gsize data) ∨ data.groupsNum = 1 ∧ ¬ Convertible data 0) := by
  -- the unset entries point to where nothing is
  let dangling : SgroupInfo := { SgroupInfo.zero with linkarrays := some (m.next + 2 + gsize data) }
  obtain ⟨rv', m'', hrun, hget⟩ := hclean ⟨0, fun _ => (0, fun _ => (0, 0))⟩ fun _ => dangling
  rw [set_eq hhd hpos hmax hroom0] at hrun
  rcases @conversion_cases room data limits m .set (fun _ => dangling) with
    hnone | ⟨k, rv, entries, m', hconv, hroom1, hsize, hfilled, hend⟩
  · rw [hnone] at hrun
    cases hrun
  rw [hconv] at hrun
  simp only [Option.bind_eq_bind, Option.bind_some] at hrun
  have hle : data.groupsNum ≤ 255 := by
    by_contra hlarge
    rw [groupExit_large m' entries hlarge] at hrun
    cases hrun
  refine ⟨hle, hroom1, ?_⟩
  rcases hend with ⟨-, hgood, -⟩ | ⟨hk, hbad, -⟩
  · exact Or.inl hgood
  · refine Or.inr ?_
    obtain ⟨hnum, -⟩ := gsize_eq hpos hle
    by_cases hone : gsize data = 1
    · obtain rfl : k = 0 := by omega
      exact ⟨by omega, hbad⟩
    · exfalso
      have hlink : (entries (gsize data - 1)).linkarrays = some (m.next + 2 + gsize data) := by
        rw [hfilled.rest _ (by omega), cleared, update_of_ne (by omega)]
      have hdead : m'.get (m.next + 2 + gsize data) = none := by
        refine m'.bounded _ ?_
        rw [hfilled.next, alloc_next, alloc_next]
        omega
      rw [groupExit_none hdead (by omega : gsize data - 1 < _)
        fun m hm => entry_dangling (by omega) hlink m hm] at hrun
      cases hrun

/-- The calls that end before the conversion, and those in which it is of every group; a trial also
leaves the sum of the links within its limit. -/
structure Converts (room : Nat → Bool) (data : GfpGroups) (limits : Limits) (hd : Bool) : Prop where
  trial : Rejected room data hd limits.groupsTrialGroupMaxnum ∨
    data.groupsNum ≤ 255 ∧ room 1 = true ∧ GoodTo room data (gsize data) ∧
      sumLinksnum data ≤ limits.groupTrialLinkMaxnum
  set : Rejected room data hd limits.groupFormalLinkMaxnum ∨
    data.groupsNum ≤ 255 ∧ room 1 = true ∧
      (GoodTo room data (gsize data) ∨ data.groupsNum = 1 ∧ ¬ Convertible data 0)

theorem not_rejected {maxnum : Int} (h : ¬ Rejected room data hd maxnum) :
    hd = true ∧ 1 ≤ data.groupsNum ∧ data.groupsNum ≤ maxnum ∧ room 0 = true := by
  simp only [Rejected, not_or, Bool.not_eq_false] at h
  obtain ⟨hhd, hnum, hmax, hroom⟩ := h
  exact ⟨hhd, by omega, by omega, hroom⟩

theorem groups_clean_iff (room : Nat → Bool) (data : GfpGroups) (limits : Limits) (hd : Bool) (m : Pool Block) :
    TrialClean room data limits hd m ∧ SetClean room data limits hd m ↔ Converts room data limits hd := by
  constructor
  · rintro ⟨htrial, hset⟩
    constructor
    · by_cases hrej : Rejected room data hd limits.groupsTrialGroupMaxnum
      · exact Or.inl hrej
      · obtain ⟨hhd, hpos, hmax, hroom⟩ := not_rejected hrej
        exact Or.inr (trial_converted hhd hpos hmax hroom htrial)
    · by_cases hrej : Rejected room data hd limits.groupFormalLinkMaxnum
      · exact Or.inl hrej
      · obtain ⟨hhd, hpos, hmax, hroom⟩ := not_rejected hrej
        exact Or.inr (set_converted hhd hpos hmax hroom hset)
  · rintro ⟨htrial, hset⟩
    constructor
    · by_cases hrej : Rejected room data hd limits.groupsTrialGroupMaxnum
      · exact trial_rejected hrej
      · obtain ⟨hhd, hpos, hmax, hroom⟩ := not_rejected hrej
        obtain ⟨hle, hroom1, hgood, hsum⟩ := htrial.resolve_left hrej
        exact trial_clean hhd hpos hle hmax hroom hroom1 hgood hsum
    · by_cases hrej : Rejected room data hd limits.groupFormalLinkMaxnum
      · exact set_rejected hrej
      · obtain ⟨hhd, hpos, hmax, hroom⟩ := not_rejected hrej
        obtain ⟨hle, hroom1, hgood⟩ := hset.resolve_left hrej
        exact set_clean hhd hpos hle hmax hroom hroom1 hgood

/-- One group without links, given to a trial: its two blocks stay. -/
theorem empty_group_leaks : ¬ ∀ room data limits hd m,
    TrialClean room data limits hd m ∧ SetClean room data limits hd m := by
  intro h
  let data : GfpGroups := ⟨1, fun _ => ⟨0, 0, fun _ => ⟨1, 1⟩⟩⟩
  have hclean := (h (fun _ => true) data ⟨256, 256, 256⟩ true .empty).1
  obtain ⟨-, -, hgood, -⟩ := trial_converted rfl (Int.le_refl 1) (by decide) rfl hclean
  exact absurd (hgood 0 (by decide)).1.1 (by decide)

end Clean

end OiAmc.Gfplib

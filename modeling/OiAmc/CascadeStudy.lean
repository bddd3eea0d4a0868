import OiAmc.GotoLoop
import OiAmc.SetInfo
import OiAmc.GrpsmPush
import OiAmc.GrpsmGet

namespace OiAmc.CascadeTry

open GotoLoop SgfpGroup GrpsmLinks

def maxLink : Int := 255

def maxGroup : Nat := 256

structure Settings where
  tryCount : UInt8
  okPktCount : UInt16
  errPktCount : UInt16
  validCount : UInt8

/-- The counters of the groups of a batch, by position: resokpkt and reserrpkt. -/
abbrev Counters := Nat → UInt8 × UInt8

/-- What a call of OIC_GET_FPGA_TRY_RESULT comes to; one that fails may have written the
counters before. -/
inductive GetOutcome
  | result (counters : Counters)
  | noResult
  | unknown
  | error (written : Option Counters)

/-- What the calls of one trial come to: the set call returns set, the result is asked for up to
five times. -/
structure TrialOutcome where
  set : Int
  get : Nat → GetOutcome

/-- What the program meets: the outcomes of the trials, one after the other, and what malloc
hands out for the groups of each batch. -/
structure World where
  settings : Settings
  device : Nat → TrialOutcome
  fresh : Nat → Nat → SgroupInfo

def timeoutMax : Nat := 5

def putCounters (counters : Counters) (groups : List SgroupInfo) : List SgroupInfo :=
  groups.mapIdx fun j g => { g with resokpkt := (counters j).1, reserrpkt := (counters j).2 }

/-- The loop of sgfplib_set_try_group, with the number of calls left. -/
def getTryResult (outcome : TrialOutcome) : Nat → Nat → List SgroupInfo → Int × List SgroupInfo
  | 0, _, groups => (0, groups)
  | left + 1, timeout, groups =>
      match outcome.get timeout with
      | .result counters => (0, putCounters counters groups)
      | .error none => (-1, groups)
      | .error (some counters) => (-1, putCounters counters groups)
      | .noResult | .unknown => getTryResult outcome left (timeout + 1) groups

/-- sgfplib_set_try_group, for a valid handle. -/
def sgfplibSetTryGroup (outcome : TrialOutcome) (groups : List SgroupInfo) : Int × List SgroupInfo :=
  if groups = [] then (-1, groups)
  else if outcome.set ≠ 0 then (-1, groups)
  else getTryResult outcome timeoutMax 0 groups

/-- One group of alloc_tmptry. -/
def tmpGroup (fresh : Nat → SgroupInfo) (i : Nat) (g : SgroupInfo) : Option SgroupInfo := do
  let links ← (List.range g.linkarraysSize.toNat).mapM g.link
  pure { fresh i with
    linkarrays := some links
    groupId := i
    isValid := 1
    linkarraysSize := g.linkarraysSize }

def allocTmptry (fresh : Nat → SgroupInfo) (tryGroup : List SgroupInfo) (groupSize curGroup : Nat) :
    Option (List SgroupInfo) :=
  (List.range groupSize).mapM fun i => tryGroup[i + curGroup]? >>= tmpGroup fresh i

def passes (settings : Settings) (g : SgroupInfo) : Prop :=
  g.resokpkt.toNat ≥ settings.okPktCount.toNat ∧ g.reserrpkt.toNat ≤ settings.errPktCount.toNat

instance (settings : Settings) (g : SgroupInfo) : Decidable (passes settings g) :=
  inferInstanceAs (Decidable (_ ∧ _))

/-- The static data that try works on: m_objGroupCfg, m_objSetGroup with its counter,
m_objVaildCount, m_nPreTryGroupNum. trial counts the trials, and batches has every batch with
its first candidate as it was handed to the device. -/
structure TryState where
  cfgs : List GroupCfg
  set : List SgroupInfo
  setCount : Nat
  valid : Nat → Nat
  preTryNum : Nat
  okflag : Bool
  trial : Nat
  batches : List (Nat × List SgroupInfo)

def countValid (settings : Settings) (groups : List SgroupInfo) (valid : Nat → Nat) :
    Option (Nat → Nat) :=
  (List.range groups.length).foldlM (fun valid j => do
    let g ← groups[j]?
    if passes settings g then
      if j < maxGroup then pure (Function.update valid j (valid j + 1)) else none
    else pure valid) valid

def runTrials (world : World) : Nat → Nat → List SgroupInfo → (Nat → Nat) →
    Option (List SgroupInfo × (Nat → Nat))
  | 0, _, groups, valid => some (groups, valid)
  | left + 1, trial, groups, valid => do
      let groups := (sgfplibSetTryGroup (world.device trial) groups).2
      let valid ← countValid world.settings groups valid
      runTrials world left (trial + 1) groups valid

def learnedId (first : SlinkInfo) : Int :=
  ((first.channel.toNat <<< 2) + first.fiber.toNat % 4 : Nat)

/-- The copy of a successful group behind those in m_objSetGroup. -/
def collect (st : TryState) (g : SgroupInfo) (num : Nat) : Option TryState := do
  let links ← (List.range num).mapM g.link
  let first ← links.head?
  if st.setCount < st.set.length then
    pure { st with
      set := st.set.set st.setCount
        { g with linkarrays := some links, isValid := 1, groupId := learnedId first }
      setCount := st.setCount + 1 }
  else none

def setResult (cfgs : List GroupCfg) (i : Nat) (result : UInt8) : List GroupCfg :=
  cfgs.modify i fun cfg => { cfg with result := result }

/-- The verdict on one group of a batch; on the right try returns -1. -/
def finishGroup (settings : Settings) (pre k : Nat) (g : SgroupInfo) (st : TryState) :
    Option (TryState ⊕ TryState) := do
  let st := { st with preTryNum := st.preTryNum + 1 }
  let cfg ← st.cfgs[k + pre]?
  if k ≥ maxGroup then none
  else if st.valid k < settings.validCount.toNat then
    pure (.inl { st with cfgs := setResult st.cfgs (k + pre) 0, valid := Function.update st.valid k 0 })
  else do
    let st := { st with okflag := true, cfgs := setResult st.cfgs (k + pre) 1 }
    if st.setCount > maxGroup then pure (.inr st)
    else do
      let st ← collect st g (cfg.chs.length % 256)
      pure (.inl { st with valid := Function.update st.valid k 0 })

def finishBatch (settings : Settings) (pre : Nat) : Nat → List SgroupInfo → TryState →
    Option (TryState ⊕ TryState)
  | _, [], st => some (.inl st)
  | k, g :: groups, st => do
      let r ← finishGroup settings pre k g st
      match r with
      | .inl st => finishBatch settings pre (k + 1) groups st
      | .inr st => pure (.inr st)

/-- Where the for loop over the candidates stops: the index and the links so far. -/
def scanFor (n : Nat) : Nat → Int → List SgroupInfo → Option (Nat × Int)
  | _, _, [] => none
  | i, curLink, g :: rest =>
      let cur := curLink + g.linkarraysSize
      if cur > maxLink ∨ i + 1 = n then some (i, cur) else scanFor n (i + 1) cur rest

def batchEnd (n i : Nat) (cur : Int) : Nat :=
  if cur > maxLink ∧ i + 1 = n then n - 1 else if i + 1 = n then n else i

/-- The local variables of try between two batches. -/
structure Cursor where
  i : Nat
  preTmp : Nat
  tmp : Nat
  curLink : Int

/-- One round of the while loop; on the right what try returns. -/
def tryRound (world : World) (tryGroup : List SgroupInfo) (s : Cursor × TryState) :
    Option ((Cursor × TryState) ⊕ (Int × TryState)) :=
  let (c, st) := s
  let n := tryGroup.length
  if ¬ c.i < n then some (.inr (0, st))
  else match scanFor n c.tmp c.curLink (tryGroup.drop c.tmp) with
    | none => some (.inl ({ c with i := n }, st))
    | some (i, cur) => do
        let tmp := batchEnd n i cur
        let groups ← allocTmptry (world.fresh st.batches.length) tryGroup (tmp - c.preTmp) c.preTmp
        let (groups', valid) ← runTrials world world.settings.tryCount.toNat st.trial groups st.valid
        let st := { st with
          valid := valid
          trial := st.trial + world.settings.tryCount.toNat
          batches := st.batches ++ [(c.preTmp, groups)] }
        let r ← finishBatch world.settings c.preTmp 0 groups' st
        match r with
        | .inr st => pure (.inr (-1, st))
        | .inl st =>
            if st.okflag = true ∨ tmp = n then pure (.inr (0, st))
            else pure (.inl (⟨i, tmp, tmp, 0⟩, st))

/-- try: the return code and the data after it; none stands for an access outside of an array,
and for a loop that takes more rounds than fuel. -/
def tryGroups (world : World) (tryGroup : List SgroupInfo) (fuel : Nat) (st : TryState) :
    Option (Int × TryState) :=
  loop (tryRound world tryGroup) fuel (⟨0, 0, 0, 0⟩, { st with preTryNum := 0, okflag := false })

end OiAmc.CascadeTry

namespace OiAmc.CascadeStudy

open GotoLoop SgfpGroup GrpsmLinks GrpsmPush GrpsmGet CascadeTry

/-- What a study meets: beside the trials what malloc hands out in each call of Get, for grpsm
and for m_objTryGroup. -/
structure StudyWorld extends World where
  blocks : Nat → Nat → Fresh
  ginfo : Nat → Nat → SgroupInfo
  linkarrays : Nat → Nat → Nat → SlinkInfo

/-- The handle of grpsm, the number of calls of Get so far, and the static data of try;
m_nGroupCfgNum is the length of the candidates. -/
structure StudyState where
  ctl : GrpsmCtl
  gets : Nat
  data : TryState

def tryLink (fresh : SlinkInfo) (c : GroupChannel) : SlinkInfo :=
  { fresh with
    fiber := c.fiber
    fiberRate := c.fiberRate
    channel := c.channel.toUInt8
    channelRate := c.channelRate }

/-- The entry of m_objTryGroup for a candidate. -/
def tryGroupOf (fresh : SgroupInfo) (links : Nat → SlinkInfo) (cfg : GroupCfg) : SgroupInfo :=
  { fresh with
    linkarraysSize := cfg.chs.length
    linkarrays := some (cfg.chs.mapIdx fun j c => tryLink (links j) c)
    isValid := 1 }

/-- The arguments of grpsm_get: nothing is handed in as long as there are no candidates. -/
def getCall (world : StudyWorld) (s : StudyState) : GetCall :=
  if s.data.cfgs = [] then ⟨none, 0, world.blocks s.gets⟩
  else ⟨some s.data.cfgs, s.data.preTryNum, world.blocks s.gets⟩

def objTryGroup (world : StudyWorld) (gets : Nat) (gs : List GroupCfg) : List SgroupInfo :=
  gs.mapIdx fun i cfg => tryGroupOf (world.ginfo gets i) (world.linkarrays gets i) cfg

/-- Get: the return code, the data and m_objTryGroup after it. -/
def get (world : StudyWorld) (s : StudyState) : Option (Int × StudyState × List SgroupInfo) := do
  let (ctl, gs) ← grpsmGet s.ctl (getCall world s)
  pure (if gs = [] then 0 else 1, ⟨ctl, s.gets + 1, { s.data with cfgs := gs }⟩,
    objTryGroup world s.gets gs)

def studyRound (world : StudyWorld) (fuel : Nat) (s : StudyState) :
    Option (StudyState ⊕ StudyState) := do
  let (rc, s, tryGroup) ← get world s
  if ¬ rc > 0 then pure (.inr s)
  else do
    let (rc, data) ← tryGroups world.toWorld tryGroup fuel s.data
    let s := { s with data := data }
    pure (if rc < 0 then .inr s else .inl s)

def pushTable (s : StudyState) (links : List LinkInfo) : Option StudyState :=
  (grpsmPush s.ctl links []).map fun r => { s with ctl := r.2 }

def clear (s : StudyState) : StudyState :=
  { s with data := { s.data with cfgs := [], valid := fun _ => 0 } }

/-- Studies one after the other, each of a table and for a number of rounds, with the clear behind
each. -/
def studies (world : StudyWorld) (fuel : Nat) : List (List LinkInfo × Nat) → StudyState →
    Option StudyState
  | [], s => some s
  | (links, n) :: rest, s => do
      let s ← pushTable s links
      let r ← rounds (studyRound world fuel) n s
      studies world fuel rest (clear (r.elim id id))

end OiAmc.CascadeStudy

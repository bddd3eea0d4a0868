import OiAmc.SnmpTables

namespace OiAmc.SnmpLocks

open ByteOrder LockedCode Code NmGlb PartialMachine SnmpTables KeyedList

section Discipline

variable {entry held : Lock → Bool} {next : Fn} {ε : Type} {t : Reader ε}

@[simp] theorem disciplined_load {next : Mem → Fn} :
    Disciplined entry held (load next) ↔ ∀ m, Disciplined entry held (next m) := Iff.rfl

@[simp] theorem disciplined_store {f : Mem → Mem} :
    Disciplined entry held (store f next) ↔ Disciplined entry held next :=
  ⟨fun h => h ⟨⟨[], 0⟩, ⟨[], 0⟩, ⟨[], 0⟩, fun _ => ⟨0, 0, 0, 0⟩, []⟩, fun h _ => h⟩

@[simp] theorem disciplined_emit {out : Out} :
    Disciplined entry held (emit out next) ↔ Disciplined entry held next := disciplined_store

theorem disciplined_deref {m : Mem} {p : RowPtr} {next : ε → Fn}
    (h : ∀ row, Disciplined entry held (next row)) : Disciplined entry held (deref t m p next) := by
  unfold deref
  split
  · exact h _
  · exact fun hf => Bool.noConfusion hf

theorem disciplined_leave {k : Lock} (hk : entry k = false) (rc : Int) :
    Disciplined entry (Function.update entry k true) (unlock k <| ret rc : Fn) :=
  (disciplined_unlock hk).mpr disciplined_ret

theorem disciplined_getNext (h : entry t.lstlock = false) (loopContext : Option RowPtr) :
    Disciplined entry entry (getNextDataPoint t loopContext) := by
  refine (disciplined_lock h).mpr ?_
  cases loopContext with
  | none => exact disciplined_leave h 0
  | some p =>
      intro m
      exact disciplined_deref fun row => disciplined_emit.mpr (disciplined_leave h 1)

theorem disciplined_modeGet (h : Disciplined entry held next) (requests : List Request) :
    Disciplined entry held (modeGet t requests next) := by
  induction requests with
  | nil => exact h
  | cons request requests ih =>
      unfold modeGet
      split
      · exact ih
      · exact fun m => disciplined_deref fun row => disciplined_emit.mpr ih

theorem disciplined_readHandler (h : entry t.lstlock = false) (mode : Mode) (requests : List Request) :
    Disciplined entry entry (readHandler t mode requests) := by
  refine (disciplined_lock h).mpr ?_
  cases mode with
  | get => exact disciplined_modeGet (disciplined_leave h 0) requests
  | _ => exact disciplined_leave h 0

theorem disciplined_sendLoop (h : Disciplined entry held next) (entries : List BoardsInfoTable.Entry) :
    Disciplined entry held (sendLoop entries next) := by
  induction entries with
  | nil => exact h
  | cons row entries ih =>
      simp only [sendLoop]
      split
      · exact disciplined_emit.mpr ih
      · split
        · exact disciplined_emit.mpr ih
        · exact ih

theorem disciplined_e1Loop {host : Endian} {alloc : Nat → Bool} {position : UInt32} {data : Octets}
    (h : Disciplined entry held next) (ks : List Nat) :
    Disciplined entry held (e1Loop host alloc position data ks next) := by
  induction ks with
  | nil => exact h
  | cons k ks ih =>
      intro m
      dsimp only
      split
      · exact disciplined_store.mpr ih
      · exact ⟨trivial, disciplined_store.mpr (disciplined_store.mpr ih)⟩

theorem disciplined_switchLoop {alloc : Nat → Bool} {position : UInt32} {data : Octets}
    (h : Disciplined entry held next) (is : List Nat) (ps : Nat) :
    Disciplined entry held (switchLoop alloc position data is ps next) := by
  induction is generalizing ps with
  | nil => exact h
  | cons i is ih =>
      intro m
      dsimp only
      split
      · exact fun _ => disciplined_store.mpr (ih _)
      · split
        · exact disciplined_store.mpr fun _ => disciplined_store.mpr (ih _)
        · exact ih ps

theorem disciplined_modeSetReserve1 (hk : entry .switch = false) (requests : List Request)
    (h : Disciplined entry (Function.update entry .switch true) next) :
    Disciplined entry (Function.update entry .switch true) (modeSetReserve1 requests next) := by
  induction requests with
  | nil => exact h
  | cons request requests ih =>
      unfold modeSetReserve1
      split
      · split
        · exact disciplined_emit.mpr (disciplined_leave hk 0)
        · exact ih
      · exact disciplined_emit.mpr (disciplined_leave hk 0)

theorem disciplined_modeSet {f : Request → SwitchEntry → SwitchEntry} (h : Disciplined entry held next)
    (requests : List Request) : Disciplined entry held (modeSet f requests next) := by
  induction requests with
  | nil => exact h
  | cons request requests ih =>
      unfold modeSet
      split
      · split
        · exact fun hf => Bool.noConfusion hf
        · exact fun m => disciplined_deref fun _ => disciplined_store.mpr ih
      · exact ih

theorem disciplined_getboards (hk : entry .boards = false) (bdtype : Int) (po : Option Nat) :
    Disciplined entry entry (boardsInfoTableGetboards bdtype po) := by
  cases po with
  | none => exact disciplined_ret
  | some base =>
      refine (disciplined_lock hk).mpr fun m _ => disciplined_store.mpr ?_
      exact ⟨trivial, disciplined_leave hk _⟩

theorem disciplined_boardsUpdate (hk : entry .boards = false) (alloc : Bool) (bdinfo : Option Record) :
    Disciplined entry entry (boardsInfoTableUpdate alloc bdinfo) := by
  cases bdinfo with
  | none => exact disciplined_ret
  | some bdinfo =>
      refine (disciplined_lock hk).mpr fun m => ?_
      dsimp only
      split
      · exact disciplined_store.mpr (disciplined_leave hk 0)
      · split
        · exact disciplined_store.mpr (disciplined_leave hk 0)
        · exact disciplined_leave hk (-1)

theorem disciplined_resetValid (hk : entry .boards = false) :
    Disciplined entry entry boardsInfoTableResetValid := by
  intro m
  dsimp only
  split
  · exact disciplined_ret
  · exact (disciplined_lock hk).mpr (disciplined_store.mpr (disciplined_leave hk 0))

theorem disciplined_deleteInvalid (hk : entry .boards = false) :
    Disciplined entry entry boardsInfoTableDeleteInvalid :=
  (disciplined_lock hk).mpr (disciplined_store.mpr (disciplined_leave hk 0))

theorem disciplined_getbdtype (hk : entry .boards = false) (po : NmLkaddrInfo) (given : Bool) :
    Disciplined entry entry (boardsInfoTableGetbdtype po given) := by
  unfold boardsInfoTableGetbdtype
  split
  · exact disciplined_ret
  · refine (disciplined_lock hk).mpr fun m => ?_
    dsimp only
    split
    · exact disciplined_emit.mpr (disciplined_leave hk 0)
    · exact disciplined_leave hk (-1)

theorem disciplined_procSendReq (hk : entry .boards = false) :
    Disciplined entry entry boardsInfoTableProcSendReq :=
  (disciplined_lock hk).mpr fun m => disciplined_sendLoop (disciplined_leave hk 0) m.boards.head

theorem disciplined_e1Update (hk : entry .e1 = false) (host : Endian) (alloc : Nat → Bool)
    (po : NmLkaddrInfo) (data : Octets) :
    Disciplined entry entry (e1PhyMibPortInfoAlarmTableUpdate host alloc po data) := by
  intro m
  dsimp only
  split
  · exact disciplined_ret
  · exact (disciplined_lock hk).mpr ⟨trivial, disciplined_e1Loop (disciplined_leave hk 0) _⟩

theorem disciplined_switchUpdate (hk : entry .switch = false) (alloc : Nat → Bool) (po : NmLkaddrInfo)
    (cnt : Nat) (data : Option Octets) :
    Disciplined entry entry (switchMibPortInfoStatTableUpdate alloc po cnt data) := by
  cases data with
  | none => exact disciplined_ret
  | some data =>
      intro m
      dsimp only
      split
      · exact disciplined_ret
      · exact (disciplined_lock hk).mpr (disciplined_switchLoop (disciplined_leave hk 0) _ 0)

theorem disciplined_e1CheckAndClear (hk : entry .e1 = false) (hb : entry .boards = false) :
    Disciplined entry entry e1PhyMibPortInfoAlarmTableCheckAndClear := by
  have hb' : Function.update entry .e1 true .boards = false := hb
  intro m
  dsimp only
  split
  · exact disciplined_ret
  · refine (disciplined_lock hk).mpr (disciplined_store.mpr ⟨disciplined_getboards hb' _ _, fun cnt => ?_⟩)
    exact disciplined_store.mpr (disciplined_leave hk 0)

theorem disciplined_switchCheckAndClear (hk : entry .switch = false) (hb : entry .boards = false) :
    Disciplined entry entry switchMibPortInfoStatTableCheckAndClear := by
  have hb' : Function.update entry .switch true .boards = false := hb
  intro m
  dsimp only
  split
  · exact disciplined_ret
  · refine (disciplined_lock hk).mpr (disciplined_store.mpr ⟨disciplined_getboards hb' _ _, fun cnt1 => ?_⟩)
    refine ⟨disciplined_getboards hb' _ _, fun cnt2 => ⟨disciplined_getboards hb' _ _, fun cnt3 => ?_⟩⟩
    exact disciplined_store.mpr (disciplined_leave hk 0)

theorem disciplined_switchHandler (hk : entry .switch = false) (mode : Mode) (requests : List Request) :
    Disciplined entry entry (switchMibPortInfoStatTableHandler mode requests) := by
  refine (disciplined_lock hk).mpr ?_
  cases mode with
  | get => exact disciplined_modeGet (disciplined_leave hk 0) requests
  | setReserve1 => exact disciplined_modeSetReserve1 hk requests (disciplined_leave hk 0)
  | setAction => exact disciplined_modeSet (disciplined_leave hk 0) requests
  | setUndo => exact disciplined_modeSet (disciplined_leave hk 0) requests
  | _ => exact disciplined_leave hk 0

theorem disciplined_updateLoop (hk : entry .boards = false) {alloc : Nat → Bool} {p : Octets}
    (h : Disciplined entry entry next) (is : List Nat) : Disciplined entry entry (updateLoop alloc p is next) := by
  induction is with
  | nil => exact h
  | cons i is ih => exact ⟨disciplined_boardsUpdate hk _ _, fun _ => ih⟩

end Discipline

/-- What the agent may be asked for. alloc says which of the new rows of a call get memory. -/
inductive Step
  | packet (alloc : Nat → Bool) (sent : Bool) (module cmd : UInt8) (p : Octets)
  | timer
  | boardsGetFirst
  | boardsGetNext (loopContext : Option RowPtr)
  | boardsHandler (mode : Mode) (requests : List Request)
  | boardsResetValid
  | boardsUpdate (alloc : Bool) (bdinfo : Option Record)
  | boardsDeleteInvalid
  | boardsGetbdtype (po : NmLkaddrInfo) (given : Bool)
  | boardsGetboards (bdtype : Int) (po : Option Nat)
  | boardsClear
  | boardsProcSendReq
  | e1GetFirst
  | e1GetNext (loopContext : Option RowPtr)
  | e1Handler (mode : Mode) (requests : List Request)
  | e1Update (alloc : Nat → Bool) (po : NmLkaddrInfo) (data : Octets)
  | e1CheckAndClear
  | e1Clear
  | switchGetFirst
  | switchGetNext (loopContext : Option RowPtr)
  | switchHandler (mode : Mode) (requests : List Request)
  | switchUpdate (alloc : Nat → Bool) (po : NmLkaddrInfo) (cnt : Nat) (data : Option Octets)
  | switchCheckAndClear
  | switchClear

def Step.code (host : Endian) : Step → Fn
  | packet alloc sent module cmd p => socketAdaptRxProcess host alloc sent module cmd p
  | timer => socketAdaptTimercb
  | boardsGetFirst => boardsInfoTableGetFirstDataPoint
  | boardsGetNext loopContext => boardsInfoTableGetNextDataPoint loopContext
  | boardsHandler mode requests => boardsInfoTableHandler mode requests
  | boardsResetValid => boardsInfoTableResetValid
  | boardsUpdate alloc bdinfo => boardsInfoTableUpdate alloc bdinfo
  | boardsDeleteInvalid => boardsInfoTableDeleteInvalid
  | boardsGetbdtype po given => boardsInfoTableGetbdtype po given
  | boardsGetboards bdtype po => boardsInfoTableGetboards bdtype po
  | boardsClear => boardsInfoTableClear
  | boardsProcSendReq => boardsInfoTableProcSendReq
  | e1GetFirst => e1PhyMibPortInfoAlarmTableGetFirstDataPoint
  | e1GetNext loopContext => e1PhyMibPortInfoAlarmTableGetNextDataPoint loopContext
  | e1Handler mode requests => e1PhyMibPortInfoAlarmTableHandler mode requests
  | e1Update alloc po data => e1PhyMibPortInfoAlarmTableUpdate host alloc po data
  | e1CheckAndClear => e1PhyMibPortInfoAlarmTableCheckAndClear
  | e1Clear => e1PhyMibPortInfoAlarmTableClear
  | switchGetFirst => switchMibPortInfoStatTableGetFirstDataPoint
  | switchGetNext loopContext => switchMibPortInfoStatTableGetNextDataPoint loopContext
  | switchHandler mode requests => switchMibPortInfoStatTableHandler mode requests
  | switchUpdate alloc po cnt data => switchMibPortInfoStatTableUpdate alloc po cnt data
  | switchCheckAndClear => switchMibPortInfoStatTableCheckAndClear
  | switchClear => switchMibPortInfoStatTableClear

def free : Lock → Bool := fun _ => false

theorem disciplined_answer (sent : Bool) (module cmd : UInt8) (p : Octets) (dlen : Int) :
    Disciplined free free (answer sent module cmd p dlen) := by
  unfold answer
  split
  · exact disciplined_ret
  · refine disciplined_emit.mpr ?_
    split
    all_goals exact disciplined_ret

theorem disciplined_rxProcess (host : Endian) (alloc : Nat → Bool) (sent : Bool) (module cmd : UInt8)
    (p : Octets) : Disciplined free free (socketAdaptRxProcess host alloc sent module cmd p) := by
  have hanswer := disciplined_answer sent module cmd p
  unfold socketAdaptRxProcess
  split
  · refine ⟨?_, hanswer⟩
    unfold socketAdaptProcGlbinfoModule
    split
    · refine ⟨disciplined_resetValid rfl, fun _ => disciplined_updateLoop rfl ?_ _⟩
      exact ⟨disciplined_deleteInvalid rfl, fun _ => disciplined_ret⟩
    · exact disciplined_ret
  · split
    · refine ⟨?_, hanswer⟩
      unfold socketAdaptProcE1phyModule
      split
      · exact ⟨disciplined_e1Update rfl host _ _ _, fun _ => disciplined_ret⟩
      · exact disciplined_ret
    · split
      · refine ⟨?_, hanswer⟩
        unfold socketAdaptProcSwitchModule
        split
        · exact ⟨disciplined_switchUpdate rfl _ _ _ _, fun _ => disciplined_ret⟩
        · split
          all_goals exact disciplined_ret
      · exact disciplined_ret

theorem step_disciplined (host : Endian) (i : Step) : Disciplined free free (i.code host) := by
  cases i with
  | packet alloc sent module cmd p => exact disciplined_rxProcess host alloc sent module cmd p
  | timer => exact disciplined_emit.mpr ⟨disciplined_procSendReq rfl, fun _ => disciplined_ret⟩
  | boardsGetFirst | e1GetFirst | switchGetFirst => exact fun m => disciplined_getNext rfl _
  | boardsGetNext loopContext | e1GetNext loopContext | switchGetNext loopContext =>
      exact disciplined_getNext rfl loopContext
  | boardsHandler mode requests | e1Handler mode requests => exact disciplined_readHandler rfl mode requests
  | boardsResetValid => exact disciplined_resetValid rfl
  | boardsUpdate alloc bdinfo => exact disciplined_boardsUpdate rfl alloc bdinfo
  | boardsDeleteInvalid => exact disciplined_deleteInvalid rfl
  | boardsGetbdtype po given => exact disciplined_getbdtype rfl po given
  | boardsGetboards bdtype po => exact disciplined_getboards rfl bdtype po
  | boardsClear | e1Clear | switchClear =>
      exact (disciplined_lock rfl).mpr (disciplined_store.mpr (disciplined_leave rfl 0))
  | boardsProcSendReq => exact disciplined_procSendReq rfl
  | e1Update alloc po data => exact disciplined_e1Update rfl host alloc po data
  | e1CheckAndClear => exact disciplined_e1CheckAndClear rfl rfl
  | switchHandler mode requests => exact disciplined_switchHandler rfl mode requests
  | switchUpdate alloc po cnt data => exact disciplined_switchUpdate rfl alloc po cnt data
  | switchCheckAndClear => exact disciplined_switchCheckAndClear rfl rfl

section Errors

variable {s s' : State Lock Mem} {rc : Int} {next : Fn} {entry : Lock → Bool}

def tables (m : Mem) : BoardsInfoTable.Table × Rows E1Entry × Rows SwitchEntry := (m.boards, m.e1, m.switch)

theorem run_ret {rc' : Int} (hr : (ret rc' : Fn).run s = some (rc, s')) : rc = rc' ∧ s' = s := by
  obtain ⟨rfl, rfl⟩ := Prod.mk.inj (Option.some.inj hr)
  exact ⟨rfl, rfl⟩

theorem e1Loop_run {host : Endian} {alloc : Nat → Bool} {position : UInt32} {data : Octets}
    (ks : List Nat) (hs : s.held ≠ entry) (hp : (e1Loop host alloc position data ks next).Passes entry s) :
    ∃ s1, (e1Loop host alloc position data ks next).run s = next.run s1 := by
  induction ks generalizing s with
  | nil => exact ⟨s, rfl⟩
  | cons k ks ih =>
      simp only [e1Loop, load, Passes, Code.run] at hp ⊢
      split at hp
      · exact ih hs hp
      · cases ha : alloc k with
        | false =>
            rw [ha] at hp
            exact absurd hp hs
        | true =>
            rw [ha] at hp
            exact ih hs hp

theorem returns_switchLoop {P : Int → Prop} {alloc : Nat → Bool} {position : UInt32} {data : Octets}
    (h : next.Returns P) (is : List Nat) (ps : Nat) :
    (switchLoop alloc position data is ps next).Returns P := by
  induction is generalizing ps with
  | nil => exact h
  | cons i is ih =>
      intro m
      dsimp only
      split
      · exact fun _ _ => ih _
      · split
        · exact fun _ _ _ => ih _
        · exact ih ps

theorem returns_updateLoop {P : Int → Prop} {alloc : Nat → Bool} {p : Octets} (h : next.Returns P)
    (is : List Nat) : (updateLoop alloc p is next).Returns P := by
  induction is with
  | nil => exact h
  | cons i is ih => exact fun _ => ih

theorem boardsUpdate_error {alloc : Bool} {bdinfo : Option Record}
    (hr : (boardsInfoTableUpdate alloc bdinfo).run s = some (rc, s')) (hrc : rc ≠ 0) :
    tables s'.mem = tables s.mem := by
  cases bdinfo with
  | none =>
      obtain ⟨-, rfl⟩ := run_ret hr
      rfl
  | some bdinfo =>
      simp only [boardsInfoTableUpdate, load, store, Code.run] at hr
      split at hr
      · cases hr
      · split at hr
        · obtain ⟨rfl, -⟩ := run_ret hr
          exact absurd rfl hrc
        · split at hr
          · obtain ⟨rfl, -⟩ := run_ret hr
            exact absurd rfl hrc
          · obtain ⟨-, rfl⟩ := run_ret hr
            rfl

theorem getbdtype_error {po : NmLkaddrInfo} {given : Bool}
    (hr : (boardsInfoTableGetbdtype po given).run s = some (rc, s')) : tables s'.mem = tables s.mem := by
  unfold boardsInfoTableGetbdtype at hr
  split at hr
  · obtain ⟨-, rfl⟩ := run_ret hr
    rfl
  · simp only [load, emit, store, Code.run] at hr
    split at hr
    · cases hr
    · split at hr
      all_goals
        obtain ⟨-, rfl⟩ := run_ret hr
        rfl

theorem getboards_error {bdtype : Int} {po : Option Nat}
    (hr : (boardsInfoTableGetboards bdtype po).run s = some (rc, s')) : tables s'.mem = tables s.mem := by
  cases po with
  | none =>
      obtain ⟨-, rfl⟩ := run_ret hr
      rfl
  | some base =>
      simp only [boardsInfoTableGetboards, load, store, Code.run] at hr
      split at hr
      · cases hr
      · split at hr
        · split at hr
          all_goals
            obtain ⟨-, rfl⟩ := run_ret hr
            rfl
        · cases hr

/-- A call that does not get to its lock leaves everything. Where its checks pass, one that does
returns no error. -/
theorem e1Update_error {host : Endian} {alloc : Nat → Bool} {po : NmLkaddrInfo} {data : Octets}
    (hp : (e1PhyMibPortInfoAlarmTableUpdate host alloc po data).Passes free s)
    (hr : (e1PhyMibPortInfoAlarmTableUpdate host alloc po data).run s = some (rc, s')) (hrc : rc ≠ 0) :
    tables s'.mem = tables s.mem := by
  have htaken : (s.hold .e1 true).held ≠ free := fun h => Bool.noConfusion (congrFun h .e1)
  simp only [e1PhyMibPortInfoAlarmTableUpdate, load, Code.run, Passes] at hr hp
  split at hp
  · rename_i hcount
    rw [if_pos hcount] at hr
    obtain ⟨-, rfl⟩ := run_ret hr
    rfl
  · rename_i hcount
    rw [if_neg hcount, Code.run] at hr
    split at hr
    · cases hr
    · cases hdata : data 0 == 16 && data 1 == 8 with
      | false =>
          simp only [hdata, Passes] at hp
          exact absurd hp htaken
      | true =>
          simp only [hdata, Passes] at hp
          obtain ⟨s1, hloop⟩ := e1Loop_run _ htaken hp
          rw [hdata, Code.run, if_pos rfl] at hr
          obtain ⟨rfl, -⟩ := run_ret (hloop.symm.trans hr)
          exact absurd rfl hrc

theorem switchUpdate_error {alloc : Nat → Bool} {po : NmLkaddrInfo} {cnt : Nat} {data : Option Octets}
    (hr : (switchMibPortInfoStatTableUpdate alloc po cnt data).run s = some (rc, s')) (hrc : rc ≠ 0) :
    tables s'.mem = tables s.mem := by
  cases data with
  | none =>
      obtain ⟨-, rfl⟩ := run_ret hr
      rfl
  | some data =>
      simp only [switchMibPortInfoStatTableUpdate, load, Code.run] at hr
      split at hr
      · obtain ⟨-, rfl⟩ := run_ret hr
        rfl
      · have hzero : (unlock .switch <| ret 0 : Fn).Returns (· = 0) := rfl
        exact absurd (returns_run (c := lock .switch _) (returns_switchLoop hzero _ 0) hr) hrc

theorem glbinfo_error {alloc : Nat → Bool} {cmd : UInt8} {p : Octets}
    (hr : (socketAdaptProcGlbinfoModule alloc cmd p).run s = some (rc, s')) : rc = 0 ∨ rc = -1 ∧ s' = s := by
  unfold socketAdaptProcGlbinfoModule at hr
  split at hr
  · have hend : (call boardsInfoTableDeleteInvalid fun _ => ret 0).Returns (· = 0) := fun _ => rfl
    exact Or.inl (returns_run (c := call _ _) (P := (· = 0)) (fun _ => returns_updateLoop hend _) hr)
  · exact Or.inr (run_ret hr)

theorem e1phy_error {host : Endian} {alloc : Nat → Bool} {cmd : UInt8} {p : Octets}
    (hr : (socketAdaptProcE1phyModule host alloc cmd p).run s = some (rc, s')) :
    rc = 0 ∨ rc = -1 ∧ s' = s := by
  unfold socketAdaptProcE1phyModule at hr
  split at hr
  · exact Or.inl (returns_run (c := call _ fun _ => ret 0) (P := (· = 0)) (fun _ => rfl) hr)
  · exact Or.inr (run_ret hr)

theorem switch_error {alloc : Nat → Bool} {cmd : UInt8} {p : Octets}
    (hr : (socketAdaptProcSwitchModule alloc cmd p).run s = some (rc, s')) : rc = 0 ∨ rc = -1 ∧ s' = s := by
  unfold socketAdaptProcSwitchModule at hr
  split at hr
  · exact Or.inl (returns_run (c := call _ fun _ => ret 0) (P := (· = 0)) (fun _ => rfl) hr)
  · split at hr
    · exact Or.inl (run_ret hr).1
    · exact Or.inr (run_ret hr)

theorem answer_error {sent : Bool} {module cmd : UInt8} {p : Octets} {body : Fn}
    (hbody : ∀ {dlen s1}, body.run s = some (dlen, s1) → dlen = 0 ∨ dlen = -1 ∧ s1 = s)
    (hr : (call body (answer sent module cmd p)).run s = some (rc, s')) (hrc : rc ≠ 0) : s' = s := by
  obtain ⟨⟨dlen, s1⟩, hr1, hr2⟩ := Option.bind_eq_some_iff.mp hr
  rcases hbody hr1 with rfl | ⟨rfl, rfl⟩
  · exact absurd (run_ret hr2).1 hrc
  · exact (run_ret hr2).2

theorem rxProcess_error {host : Endian} {alloc : Nat → Bool} {sent : Bool} {module cmd : UInt8} {p : Octets}
    (hr : (socketAdaptRxProcess host alloc sent module cmd p).run s = some (rc, s')) (hrc : rc ≠ 0) :
    s' = s := by
  unfold socketAdaptRxProcess at hr
  split at hr
  · exact answer_error glbinfo_error hr hrc
  · split at hr
    · exact answer_error e1phy_error hr hrc
    · split at hr
      · exact answer_error switch_error hr hrc
      · exact (run_ret hr).2

end Errors

section Conditions

variable {s : State Lock Mem} {next : Fn} {entry : Lock → Bool} {host : Endian} {position : UInt32}
  {data : Octets} {k k' : Nat} {m : Mem}

theorem e1Ptr_inj (h : e1Ptr position k = e1Ptr position k') : k = k' := by
  simp only [e1Ptr, RowPtr.e1.injEq, true_and] at h
  omega

def e1Ptrs (m : Mem) : List RowPtr := m.e1.head.map e1Reader.ptr

theorem e1Ptrs_setE1 : e1Ptrs (setE1 host position data k m) = e1Ptrs m := map_alter fun _ _ hx => hx

/-- With its lock taken, the checks of the loop pass just when there is a row or memory for each
E1. -/
theorem e1Loop_passes {alloc : Nat → Bool} (hnext : ∀ s1 : State Lock Mem, next.Passes entry s1)
    {ks : List Nat} (hks : ks.Nodup) (hs : s.held ≠ entry) :
    (e1Loop host alloc position data ks next).Passes entry s ↔
      ∀ k ∈ ks, alloc k = true ∨ e1Ptr position k ∈ e1Ptrs s.mem := by
  induction ks generalizing s with
  | nil => exact iff_of_true (hnext s) (fun _ hk => absurd hk List.not_mem_nil)
  | cons k ks ih =>
      obtain ⟨hk, hks⟩ := List.nodup_cons.mp hks
      have hrest : ∀ s1 : State Lock Mem, s1.held = s.held →
          ((store (setE1 host position data k) (e1Loop host alloc position data ks next)).Passes entry s1 ↔
            ∀ k ∈ ks, alloc k = true ∨ e1Ptr position k ∈ e1Ptrs s1.mem) := by
        intro s1 hs1
        refine (ih (s := s1.map (setE1 host position data k)) hks (ne_of_eq_of_ne hs1 hs)).trans ?_
        rw [State.map, e1Ptrs_setE1]
      rw [List.forall_mem_cons]
      simp only [e1Loop, load, Passes]
      split
      · rename_i hfound
        have hrow : e1Ptr position k ∈ e1Ptrs s.mem :=
          lookup_isSome_iff.mp (Option.isSome_iff_exists.mpr ⟨_, hfound⟩)
        rw [and_iff_right (Or.inr hrow)]
        exact hrest (s.map id) rfl
      · rename_i hfound
        have hrow : e1Ptr position k ∉ e1Ptrs s.mem := lookup_none_iff.mp hfound
        rw [or_iff_left hrow]
        cases alloc k with
        | false => exact iff_of_false hs fun h => Bool.noConfusion h.1
        | true =>
            refine (hrest ((s.map id).map (addE1 position k)) rfl).trans (Iff.trans ?_ (and_iff_right rfl).symm)
            refine forall₂_congr fun k' hk' => or_congr_right ?_
            have hne : e1Ptr position k' ≠ e1Ptr position k := fun he => hk (e1Ptr_inj he ▸ hk')
            exact List.mem_cons.trans (or_iff_right hne)

/-- When the checks of an update pass: the table is full, or the numbers are right and there is a
row or memory for each E1. -/
theorem e1Update_passes {alloc : Nat → Bool} {po : NmLkaddrInfo} :
    (e1PhyMibPortInfoAlarmTableUpdate host alloc po data).Passes free s ↔
      e1phymaxitems ≤ s.mem.e1.count ∨ (data 0 = 16 ∧ data 1 = 8) ∧
        ∀ k < 8 * 16, alloc k = true ∨ e1Ptr (positionOf po) k ∈ e1Ptrs s.mem := by
  have htaken : (s.hold .e1 true).held ≠ free := fun h => Bool.noConfusion (congrFun h .e1)
  have hend : ∀ s1, (unlock .e1 <| ret 0 : Fn).Passes free s1 := fun _ => trivial
  have hloop : (e1Loop host alloc (positionOf po) data (List.range (8 * 16)) <| unlock .e1 <| ret 0).Passes
      free (s.hold .e1 true) ↔ ∀ k < 8 * 16, alloc k = true ∨ e1Ptr (positionOf po) k ∈ e1Ptrs s.mem := by
    refine (e1Loop_passes hend List.nodup_range htaken).trans ?_
    simp only [List.mem_range]
    exact Iff.rfl
  simp only [e1PhyMibPortInfoAlarmTableUpdate, load, Passes]
  split
  · rename_i hcount
    exact iff_of_true trivial (Or.inl hcount)
  · rename_i hcount
    refine Iff.trans ?_ (or_iff_right hcount).symm
    have hdata : (data 0 == 16 && data 1 == 8) = true ↔ data 0 = 16 ∧ data 1 = 8 := by
      rw [Bool.and_eq_true, beq_iff_eq, beq_iff_eq]
    rw [Passes, Passes, ← hdata]
    split
    · rename_i h
      exact hloop.trans (and_iff_right h).symm
    · rename_i h
      exact iff_of_false htaken fun hp => h hp.1

theorem getboards_passes {bdtype : Int} {base : Nat} :
    (boardsInfoTableGetboards bdtype (some base)).Passes free s ↔
      base + (s.mem.boards.head.filter fun entry => decide (entry.boardType = bdtype)).length ≤
        BoardsInfoTable.snmpMaxBoardCnt ∧
      (s.mem.boards.head.filter fun entry => decide (entry.boardType = bdtype)).length <
        BoardsInfoTable.snmpMaxBoardCnt := by
  have htaken : (s.hold .boards true).held ≠ free := fun h => Bool.noConfusion (congrFun h .boards)
  simp only [boardsInfoTableGetboards, load, store, Passes, decide_eq_true_eq, List.length_map,
    List.length_take]
  split
  · rename_i h
    rw [min_eq_right h.le, and_true]
    exact (and_iff_left h).symm
  · rename_i h
    exact iff_of_false (fun hp => htaken hp.2) fun hp => h hp.2

end Conditions

def Step.ErrorExit : Step → Int → Prop
  | packet .., rc => rc ≠ 0
  | boardsUpdate .., rc => rc ≠ 0
  | boardsGetbdtype .., rc => rc ≠ 0
  | e1Update .., rc => rc ≠ 0
  | switchUpdate .., rc => rc ≠ 0
  | boardsGetboards .., _ => True
  | _, _ => False

def step (host : Endian) (s : State Lock Mem) (i : Step) : Option (State Lock Mem × Int) :=
  ((i.code host).run s).map Prod.swap

/-- No check fails of those that leave a lock taken, and what a call points to is there. -/
def ChecksPass (host : Endian) (s : State Lock Mem) (i : Step) : Prop := (i.code host).Passes s.held s

variable {host : Endian} {s s' : State Lock Mem} {i : Step} {rc : Int}

theorem step_eq_some : step host s i = some (s', rc) ↔ (i.code host).run s = some (rc, s') := by
  rw [step, Option.map_eq_some_iff]
  constructor
  · rintro ⟨⟨rc1, s1⟩, hr, he⟩
    obtain ⟨rfl, rfl⟩ := Prod.mk.inj he
    exact hr
  · exact fun hr => ⟨_, hr, rfl⟩

theorem step_free_iff (hs : s.held = free) (i : Step) :
    ChecksPass host s i ↔ ∃ s' rc, step host s i = some (s', rc) ∧ s'.held = free := by
  have hd : Disciplined s.held s.held (i.code host) := by
    rw [hs]
    exact step_disciplined host i
  refine (balanced_iff hd).symm.trans ⟨?_, ?_⟩
  · rintro ⟨rc, s', hr, hs'⟩
    exact ⟨s', rc, step_eq_some.mpr hr, hs'.trans hs⟩
  · rintro ⟨s', rc, hr, hs'⟩
    exact ⟨rc, s', step_eq_some.mp hr, hs'.trans hs.symm⟩

theorem error_keeps (hs : s.held = free) (hp : ChecksPass host s i) (hr : step host s i = some (s', rc))
    (he : i.ErrorExit rc) : tables s'.mem = tables s.mem := by
  have hrun := step_eq_some.mp hr
  rw [ChecksPass, hs] at hp
  cases i with
  | packet alloc sent module cmd p => rw [rxProcess_error hrun he]
  | boardsUpdate alloc bdinfo => exact boardsUpdate_error hrun he
  | boardsGetbdtype po given => exact getbdtype_error hrun
  | boardsGetboards bdtype po => exact getboards_error hrun
  | e1Update alloc po data => exact e1Update_error hp hrun he
  | switchUpdate alloc po cnt data => exact switchUpdate_error hrun he
  | _ => exact he.elim

/-- In a run each lock is free after each call, and each call that tells of an error leaves the
tables, just when the checks of each call pass. -/
theorem lstlocks_free_iff (host : Endian) (m : Mem) (steps : List Step) :
    Guarded (step host) (ChecksPass host) ⟨free, m⟩ steps ↔
      ∀ pre, pre <+: steps → ∃ s rcs, run (step host) ⟨free, m⟩ pre = some (s, rcs) ∧ s.held = free ∧
        ∀ i s' rc, pre ++ [i] <+: steps → step host s i = some (s', rc) → i.ErrorExit rc →
          tables s'.mem = tables s.mem := by
  have hstep : ∀ s i, s.held = free →
      (ChecksPass host s i ↔ ∃ s' rc, step host s i = some (s', rc) ∧ s'.held = free) :=
    fun s i hs => step_free_iff hs i
  have hfree : (⟨free, m⟩ : State Lock Mem).held = free := rfl
  have hiff := guarded_iff hstep hfree steps
  constructor
  · intro h pre hpre
    obtain ⟨s, rcs, hr, hs⟩ := hiff.mp h pre hpre
    exact ⟨s, rcs, hr, hs, fun i s' rc hi => error_keeps hs (guarded_at h hi hr)⟩
  · intro h
    refine hiff.mpr fun pre hpre => ?_
    obtain ⟨s, rcs, hr, hs, -⟩ := h pre hpre
    exact ⟨s, rcs, hr, hs⟩

/-- A report of the alarms of 2 * 8 E1. -/
def shortReport : Step :=
  .packet (fun _ => true) true 0x01 0x01 fun i => if i = 4 then 2 else if i = 5 then 8 else 0

def noRows : Mem := ⟨⟨[], 0⟩, ⟨[], 0⟩, ⟨[], 0⟩, fun _ => ⟨0, 0, 0, 0⟩, []⟩

/-- After it the lock of the alarms is taken, and the next request waits for it. -/
theorem report_blocks :
    ((run (step .little) ⟨free, noRows⟩ [shortReport]).map fun r => (r.1.held .e1, r.2)) =
        some (true, [0]) ∧
      run (step .little) ⟨free, noRows⟩ [shortReport, .e1Handler .get []] = none ∧
      ¬∀ (host : Endian) (m : Mem) (steps pre : List Step), pre <+: steps →
        ∃ s rcs, run (step host) ⟨free, m⟩ pre = some (s, rcs) ∧ s.held = free := by
  have hstuck : run (step .little) ⟨free, noRows⟩ [shortReport, .e1Handler .get []] = none := rfl
  refine ⟨rfl, hstuck, fun h => ?_⟩
  obtain ⟨s, rcs, hr, -⟩ := h .little noRows [shortReport, .e1Handler .get []] _ List.prefix_rfl
  rw [hstuck] at hr
  cases hr

end OiAmc.SnmpLocks

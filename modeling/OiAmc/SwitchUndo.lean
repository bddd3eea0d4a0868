import OiAmc.SnmpTables

namespace OiAmc

structure Slot (V : Type) where
  cur : V
  old : V

namespace Slot

variable {V : Type}

def write (s : Slot V) (v : V) : Slot V := ⟨v, s.cur⟩

def undo [Zero V] (s : Slot V) : Slot V := ⟨s.old, 0⟩

def undos [Zero V] (n : Nat) (s : Slot V) : Slot V := undo^[n] s

theorem undos_succ [Zero V] (n : Nat) (s : Slot V) : undos (n + 1) s = undos n (undo s) := rfl

theorem undos_zero [Zero V] (n : Nat) : undos n (⟨0, 0⟩ : Slot V) = ⟨0, 0⟩ := by
  induction n with
  | zero => rfl
  | succ n ih => exact ih

/-- As many undos as writes bring a value back when there was one write at most, or when the
value was zero. -/
theorem undos_writes_iff [Zero V] (vs : List V) (s : Slot V) :
    (undos vs.length (vs.foldl write s)).cur = s.cur ↔ (2 ≤ vs.length → s.cur = 0) := by
  match vs with
  | [] | [_] => simp [undos, undo, write]
  | v :: w :: vs =>
      simp only [List.length_cons, undos_succ]
      rw [undo, undo, undos_zero]
      simp only [Nat.le_add_left, forall_const]
      exact eq_comm

end Slot

namespace SwitchUndo

open KeyedList LockedCode Code SnmpTables

def linkEnableColumn : Nat := 5
def autoNegColumn : Nat := 6

/-- The two columns that can be written, each with its old value. -/
def slot (colnum : Nat) (entry : SwitchEntry) : Slot Int :=
  if colnum = 5 then ⟨entry.linkEnable, entry.oldLinkEnable⟩ else ⟨entry.autoNeg, entry.oldAutoNeg⟩

def value (colnum : Nat) (entry : SwitchEntry) : Int := (slot colnum entry).cur

def Writable (rows : List SwitchEntry) (request : Request) : Prop :=
  (∃ entry ∈ rows, request.entry = some (switchReader.ptr entry)) ∧
    (request.colnum = linkEnableColumn ∨ request.colnum = autoNegColumn)

def pass (requests : List Request) (s : State Lock Mem) (mode : Mode) : Option (State Lock Mem) :=
  ((switchMibPortInfoStatTableHandler mode requests).run s).map Prod.snd

def setUndone (requests : List Request) (s : State Lock Mem) : Option (State Lock Mem) :=
  [Mode.setReserve1, .setReserve2, .setAction, .setUndo].foldlM (pass requests) s

def cells (s : State Lock Mem) : List (Int × Int) :=
  s.mem.switch.head.map fun entry => (entry.linkEnable, entry.autoNeg)

def named (requests : List Request) (p : RowPtr) (colnum : Nat) : List Request :=
  requests.filter fun request => decide (request.entry = some p ∧ request.colnum = colnum)

def RepeatsZero (requests : List Request) (rows : List SwitchEntry) : Prop :=
  ∀ entry ∈ rows, ∀ colnum, colnum = linkEnableColumn ∨ colnum = autoNegColumn →
    2 ≤ (named requests (switchReader.ptr entry) colnum).length → value colnum entry = 0

section Rows

variable {rows : List SwitchEntry} {requests : List Request} {f : Request → SwitchEntry → SwitchEntry}

def touch (f : Request → SwitchEntry → SwitchEntry) (requests : List Request) (entry : SwitchEntry) :
    SwitchEntry :=
  requests.foldl
    (fun entry request => if request.entry = some (switchReader.ptr entry) then f request entry else entry)
    entry

theorem touch_cons (f : Request → SwitchEntry → SwitchEntry) (request : Request)
    (requests : List Request) (entry : SwitchEntry) : touch f (request :: requests) entry =
      touch f requests
        (if request.entry = some (switchReader.ptr entry) then f request entry else entry) := rfl

def KeepsPtr (f : Request → SwitchEntry → SwitchEntry) : Prop :=
  ∀ request entry, switchReader.ptr (f request entry) = switchReader.ptr entry

theorem setAction_keepsPtr : KeepsPtr setAction := by
  intro request entry
  rw [setAction]
  split_ifs <;> rfl

theorem setUndo_keepsPtr : KeepsPtr setUndo := by
  intro request entry
  rw [setUndo]
  split_ifs <;> rfl

theorem touch_ptr (hf : KeepsPtr f) (requests : List Request) (entry : SwitchEntry) :
    switchReader.ptr (touch f requests entry) = switchReader.ptr entry := by
  induction requests generalizing entry with
  | nil => rfl
  | cons request requests ih =>
      rw [touch_cons, ih]
      split_ifs
      · exact hf request entry
      · rfl

theorem ptrs_touch (hf : KeepsPtr f) (requests : List Request) (rows : List SwitchEntry) :
    (rows.map (touch f requests)).map switchReader.ptr = rows.map switchReader.ptr := by
  rw [List.map_map]
  exact List.map_congr_left fun entry _ => touch_ptr hf requests entry

theorem writable_iff {request : Request} : Writable rows request ↔
    (∃ p ∈ rows.map switchReader.ptr, request.entry = some p) ∧
      (request.colnum = 5 ∨ request.colnum = 6) := by
  simp only [Writable, List.mem_map, exists_exists_and_eq_and]
  exact Iff.rfl

theorem Writable.touched (hf : KeepsPtr f) {request : Request} (h : Writable rows request)
    (done : List Request) : Writable (rows.map (touch f done)) request := by
  rw [writable_iff] at h ⊢
  rw [ptrs_touch hf]
  exact h

theorem deref_some {m : Mem} {p : RowPtr} (hp : p ∈ m.switch.head.map switchReader.ptr)
    (next : SwitchEntry → Fn) : ∃ entry, deref switchReader m p next = next entry := by
  obtain ⟨entry, hentry⟩ := Option.isSome_iff_exists.mp (lookup_isSome_iff.mpr hp)
  refine ⟨entry, ?_⟩
  rw [deref, show lookup switchReader.ptr p (switchReader.rows m) = some entry from hentry]

def setRows (rows : List SwitchEntry) (m : Mem) : Mem :=
  { m with switch := { m.switch with head := rows } }

theorem modeSet_run (hf : KeepsPtr f) (requests : List Request) (next : Fn) (s : State Lock Mem)
    (h : ∀ request ∈ requests, Writable s.mem.switch.head request) :
    (modeSet f requests next).run s =
      next.run (s.map (setRows (s.mem.switch.head.map (touch f requests)))) := by
  induction requests generalizing s with
  | nil =>
      have hsame : s.mem.switch.head.map (touch f []) = s.mem.switch.head := List.map_id _
      rw [hsame]
      rfl
  | cons request requests ih =>
      obtain ⟨⟨p, hp, hentry⟩, hcol⟩ := writable_iff.mp (h request List.mem_cons_self)
      obtain ⟨entry, hderef⟩ := deref_some hp fun _ =>
        store (fun m => setRows (alter switchReader.ptr p (f request) m.switch.head) m)
          (modeSet f requests next)
      have halter : alter switchReader.ptr p (f request) s.mem.switch.head =
          s.mem.switch.head.map (touch f [request]) := by
        refine List.map_congr_left fun entry _ => ?_
        simp only [touch, List.foldl_cons, List.foldl_nil, hentry, Option.some.injEq, eq_comm]
      have hrest := ih (s.map (setRows (s.mem.switch.head.map (touch f [request]))))
        fun later hlater => (h later (List.mem_cons_of_mem _ hlater)).touched hf [request]
      have hcompose : (s.mem.switch.head.map (touch f [request])).map (touch f requests) =
          s.mem.switch.head.map (touch f (request :: requests)) := List.map_map
      rw [modeSet, if_pos hcol, hentry]
      change (deref switchReader s.mem p _).run s = _
      rw [← hcompose]
      refine (congrArg (fun c => Code.run c s) hderef).trans ?_
      change (modeSet f requests next).run (s.map (setRows (alter switchReader.ptr p (f request)
        s.mem.switch.head))) = _
      rw [halter, hrest]
      rfl

end Rows

section Passes

variable {requests : List Request} {s : State Lock Mem}

theorem State.hold_release (hfree : s.held .switch = false) :
    (s.hold .switch true).hold .switch false = s := by
  rw [State.hold, State.hold, Function.update_idem, ← hfree, Function.update_eq_self]

theorem modeSetReserve1_run (next : Fn) (requests : List Request) (s : State Lock Mem) :
    ((∀ request ∈ requests, (request.colnum = 5 ∨ request.colnum = 6) ∧ request.checkVbInt = 0) ∧
        (modeSetReserve1 requests next).run s = next.run s) ∨
      ∃ err, (modeSetReserve1 requests next).run s =
        some (0, (s.map fun m => { m with out := m.out ++ [.error err] }).hold .switch false) := by
  induction requests with
  | nil => exact .inl ⟨fun _ h => absurd h List.not_mem_nil, rfl⟩
  | cons request requests ih =>
      rw [modeSetReserve1]
      by_cases hcol : request.colnum = 5 ∨ request.colnum = 6
      · rw [if_pos hcol]
        by_cases hvb : request.checkVbInt = 0
        · rw [if_neg (not_not_intro hvb)]
          refine ih.imp_left ?_
          rintro ⟨hall, hrun⟩
          exact ⟨List.forall_mem_cons.mpr ⟨⟨hcol, hvb⟩, hall⟩, hrun⟩
        · rw [if_pos hvb]
          exact .inr ⟨_, rfl⟩
      · rw [if_neg hcol]
        exact .inr ⟨_, rfl⟩

theorem pass_eq (hfree : s.held .switch = false) {mode : Mode} {body : Fn}
    (hmode : switchMibPortInfoStatTableHandler mode requests = lock .switch body) :
    pass requests s mode = (body.run (s.hold .switch true)).map Prod.snd := by
  rw [pass, hmode, Code.run, hfree, if_neg Bool.false_ne_true]

theorem reserve1_keeps (requests : List Request) (hfree : s.held .switch = false) :
    ∃ s', pass requests s .setReserve1 = some s' ∧ s'.mem.switch = s.mem.switch := by
  rw [pass_eq hfree rfl]
  rcases modeSetReserve1_run (unlock .switch <| ret 0) requests (s.hold .switch true) with
    ⟨-, h⟩ | ⟨err, h⟩
  · rw [h]
    exact ⟨_, rfl, rfl⟩
  · rw [h]
    exact ⟨_, rfl, rfl⟩

theorem reserve1_accepts (hfree : s.held .switch = false)
    (h : ∀ request ∈ requests, (request.colnum = 5 ∨ request.colnum = 6) ∧ request.checkVbInt = 0) :
    pass requests s .setReserve1 = some s := by
  have haccept (next : Fn) (t : State Lock Mem) : (modeSetReserve1 requests next).run t = next.run t := by
    induction requests with
    | nil => rfl
    | cons request requests ih =>
        obtain ⟨⟨hcol, hvb⟩, hall⟩ := List.forall_mem_cons.mp h
        rw [modeSetReserve1, if_pos hcol, if_neg (not_not_intro hvb)]
        exact ih hall
  rw [pass_eq hfree rfl, haccept]
  exact congrArg some (State.hold_release hfree)

theorem reserve2_keeps (hfree : s.held .switch = false) : pass requests s .setReserve2 = some s := by
  rw [pass_eq hfree rfl]
  exact congrArg some (State.hold_release hfree)

theorem pass_modeSet (mode : Mode) {f : Request → SwitchEntry → SwitchEntry} (hf : KeepsPtr f)
    (hmode : switchMibPortInfoStatTableHandler mode requests =
      lock .switch (modeSet f requests <| unlock .switch <| ret 0))
    (hfree : s.held .switch = false)
    (h : ∀ request ∈ requests, Writable s.mem.switch.head request) :
    pass requests s mode =
      some (s.map (setRows (s.mem.switch.head.map (touch f requests)))) := by
  have hrun := modeSet_run hf requests (unlock .switch <| ret 0) (s.hold .switch true) h
  rw [pass_eq hfree hmode, hrun]
  have hrelease := State.hold_release (s := s.map (setRows (s.mem.switch.head.map (touch f requests)))) hfree
  exact congrArg some hrelease

theorem setUndone_eq (hfree : s.held .switch = false)
    (h : ∀ request ∈ requests, Writable s.mem.switch.head request)
    (hok : ∀ request ∈ requests, request.checkVbInt = 0) :
    setUndone requests s = some (s.map (setRows
      (s.mem.switch.head.map fun entry => touch setUndo requests (touch setAction requests entry)))) := by
  have haction := pass_modeSet .setAction setAction_keepsPtr rfl hfree h
  have hundo := pass_modeSet (s := s.map (setRows (s.mem.switch.head.map (touch setAction requests))))
    .setUndo setUndo_keepsPtr rfl hfree fun request hr => (h request hr).touched setAction_keepsPtr requests
  have hmap : (s.mem.switch.head.map (touch setAction requests)).map (touch setUndo requests) =
      s.mem.switch.head.map fun entry => touch setUndo requests (touch setAction requests entry) :=
    List.map_map
  rw [setUndone, List.foldlM_cons,
    reserve1_accepts hfree fun request hr => ⟨(writable_iff.mp (h request hr)).2, hok request hr⟩]
  simp only [Option.bind_eq_bind, Option.bind_some, List.foldlM_cons, List.foldlM_nil,
    reserve2_keeps hfree, haction, hundo, Option.pure_def, ← hmap]
  rfl

end Passes

section Cells

variable {requests : List Request} {colnum : Nat}

theorem named_cons (request : Request) (requests : List Request) (p : RowPtr) (colnum : Nat) :
    named (request :: requests) p colnum =
      if request.entry = some p ∧ request.colnum = colnum then request :: named requests p colnum
      else named requests p colnum := by
  rw [named, List.filter_cons]
  simp only [decide_eq_true_eq]
  rfl

theorem slot_setAction (hcol : colnum = 5 ∨ colnum = 6) {request : Request}
    (hreq : request.colnum = 5 ∨ request.colnum = 6) (entry : SwitchEntry) :
    slot colnum (setAction request entry) =
      if request.colnum = colnum then (slot colnum entry).write request.integer else slot colnum entry := by
  rcases hcol with rfl | rfl <;> rcases hreq with h | h <;> simp [slot, setAction, Slot.write, h]

theorem slot_setUndo (hcol : colnum = 5 ∨ colnum = 6) {request : Request}
    (hreq : request.colnum = 5 ∨ request.colnum = 6) (entry : SwitchEntry) :
    slot colnum (setUndo request entry) =
      if request.colnum = colnum then (slot colnum entry).undo else slot colnum entry := by
  rcases hcol with rfl | rfl <;> rcases hreq with h | h <;> simp [slot, setUndo, Slot.undo, h]

theorem slot_action (hcol : colnum = 5 ∨ colnum = 6)
    (hreq : ∀ request ∈ requests, request.colnum = 5 ∨ request.colnum = 6) (entry : SwitchEntry) :
    slot colnum (touch setAction requests entry) =
      ((named requests (switchReader.ptr entry) colnum).map Request.integer).foldl Slot.write
        (slot colnum entry) := by
  induction requests generalizing entry with
  | nil => rfl
  | cons request requests ih =>
      obtain ⟨hfirst, hall⟩ := List.forall_mem_cons.mp hreq
      rw [touch_cons, ih hall, named_cons]
      by_cases hrow : request.entry = some (switchReader.ptr entry)
      · rw [if_pos hrow, setAction_keepsPtr, slot_setAction hcol hfirst]
        by_cases hc : request.colnum = colnum
        · rw [if_pos hc, if_pos ⟨hrow, hc⟩]
          rfl
        · rw [if_neg hc, if_neg (fun h => hc h.2)]
      · rw [if_neg hrow, if_neg (fun h => hrow h.1)]

theorem slot_undo (hcol : colnum = 5 ∨ colnum = 6)
    (hreq : ∀ request ∈ requests, request.colnum = 5 ∨ request.colnum = 6) (entry : SwitchEntry) :
    slot colnum (touch setUndo requests entry) =
      (slot colnum entry).undos (named requests (switchReader.ptr entry) colnum).length := by
  induction requests generalizing entry with
  | nil => rfl
  | cons request requests ih =>
      obtain ⟨hfirst, hall⟩ := List.forall_mem_cons.mp hreq
      rw [touch_cons, ih hall, named_cons]
      by_cases hrow : request.entry = some (switchReader.ptr entry)
      · rw [if_pos hrow, setUndo_keepsPtr, slot_setUndo hcol hfirst]
        by_cases hc : request.colnum = colnum
        · rw [if_pos hc, if_pos ⟨hrow, hc⟩]
          rfl
        · rw [if_neg hc, if_neg (fun h => hc h.2)]
      · rw [if_neg hrow, if_neg (fun h => hrow h.1)]

theorem value_undone_iff (hcol : colnum = 5 ∨ colnum = 6)
    (hreq : ∀ request ∈ requests, request.colnum = 5 ∨ request.colnum = 6) (entry : SwitchEntry) :
    value colnum (touch setUndo requests (touch setAction requests entry)) = value colnum entry ↔
      (2 ≤ (named requests (switchReader.ptr entry) colnum).length → value colnum entry = 0) := by
  have h := Slot.undos_writes_iff
    ((named requests (switchReader.ptr entry) colnum).map Request.integer) (slot colnum entry)
  rw [List.length_map] at h
  rw [value, slot_undo hcol hreq, touch_ptr setAction_keepsPtr, slot_action hcol hreq]
  exact h

theorem cells_undone_iff (hreq : ∀ request ∈ requests, request.colnum = 5 ∨ request.colnum = 6)
    (rows : List SwitchEntry) :
    ((rows.map fun entry => touch setUndo requests (touch setAction requests entry)).map
        fun entry => (entry.linkEnable, entry.autoNeg)) =
      (rows.map fun entry => (entry.linkEnable, entry.autoNeg)) ↔ RepeatsZero requests rows := by
  rw [List.map_map, List.map_inj_left, RepeatsZero]
  refine forall₂_congr fun entry _ => ?_
  have hlink := value_undone_iff (.inl rfl) hreq entry
  have hneg := value_undone_iff (.inr rfl) hreq entry
  simp only [forall_eq_or_imp, forall_eq, linkEnableColumn, autoNegColumn]
  rw [← hlink, ← hneg, Function.comp_apply, Prod.mk.injEq]
  rfl

end Cells

theorem set_undone_iff {s : State Lock Mem} {requests : List Request} (hfree : s.held .switch = false)
    (h : ∀ request ∈ requests, Writable s.mem.switch.head request)
    (hok : ∀ request ∈ requests, request.checkVbInt = 0) :
    (∃ s', setUndone requests s = some s' ∧ cells s' = cells s) ↔
      RepeatsZero requests s.mem.switch.head := by
  rw [setUndone_eq hfree h hok, ← cells_undone_iff fun request hr => (writable_iff.mp (h request hr)).2]
  constructor
  · rintro ⟨s', hs, hcells⟩
    obtain rfl := Option.some.inj hs
    exact hcells
  · intro hcells
    exact ⟨_, rfl, hcells⟩

/-- A SET is undone exactly when the cells that it names more than once are zero. A RESERVE1 that
reports an error has changed nothing. -/
theorem failed_set_undone_iff {s : State Lock Mem} {requests : List Request}
    (hfree : s.held .switch = false) (h : ∀ request ∈ requests, Writable s.mem.switch.head request)
    (hok : ∀ request ∈ requests, request.checkVbInt = 0) :
    ((∃ s', setUndone requests s = some s' ∧ cells s' = cells s) ↔
        RepeatsZero requests s.mem.switch.head) ∧
      ∀ refused, ∃ s', pass refused s .setReserve1 = some s' ∧ s'.mem.switch = s.mem.switch :=
  ⟨set_undone_iff hfree h hok, fun refused => reserve1_keeps refused hfree⟩

def onePort : State Lock Mem where
  held _ := false
  mem := {
    boards := ⟨[], 0⟩
    e1 := ⟨[], 0⟩
    switch := ⟨[⟨0x01010300, 2, [], 1, 1, 0, 1, 0, 100, 1, 1⟩], 1⟩
    po := fun _ => ⟨0, 0, 0, 0⟩
    out := [] }

def enable (v : Int) : Request := ⟨some (.switch 0x01010300 2), 5, 0, v⟩

theorem enable_writable (v : Int) : Writable onePort.mem.switch.head (enable v) :=
  ⟨⟨_, List.mem_singleton_self _, rfl⟩, .inl rfl⟩

theorem failed_set_undone_iff_onePort :
    ((∃ s', setUndone [enable 2] onePort = some s' ∧ cells s' = cells onePort) ↔
        RepeatsZero [enable 2] onePort.mem.switch.head) ∧
      ∀ refused, ∃ s', pass refused onePort .setReserve1 = some s' ∧
        s'.mem.switch = onePort.mem.switch :=
  failed_set_undone_iff rfl (List.forall_mem_singleton.mpr (enable_writable 2))
    (List.forall_mem_singleton.mpr rfl)

/-- LinkEnable of one port is set to 2 and then to 3: UNDO leaves 0. -/
theorem repeated_cell_lost :
    ¬∀ (s : State Lock Mem) (requests : List Request), s.held .switch = false →
      (∀ request ∈ requests, Writable s.mem.switch.head request) →
      (∀ request ∈ requests, request.checkVbInt = 0) →
      ∃ s', setUndone requests s = some s' ∧ cells s' = cells s := by
  intro h
  have hundone := h onePort [enable 2, enable 3] rfl
    (List.forall_mem_cons.mpr ⟨enable_writable 2, List.forall_mem_singleton.mpr (enable_writable 3)⟩)
    (List.forall_mem_cons.mpr ⟨rfl, List.forall_mem_singleton.mpr rfl⟩)
  rw [set_undone_iff rfl
    (List.forall_mem_cons.mpr ⟨enable_writable 2, List.forall_mem_singleton.mpr (enable_writable 3)⟩)
    (List.forall_mem_cons.mpr ⟨rfl, List.forall_mem_singleton.mpr rfl⟩)] at hundone
  exact absurd (hundone _ (List.mem_singleton_self _) 5 (.inl rfl) (by decide)) (by decide)

end SwitchUndo

end OiAmc

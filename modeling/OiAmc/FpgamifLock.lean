import OiAmc.Fpgamif

namespace OiAmc.FpgamifLock

open LockedCode Code Fpgamif PartialMachine

def free : Lock → Bool := fun _ => false

def taken : Lock → Bool := Function.update free .oicdev true

section Discipline

variable {μ τ : Type} {entry held : Lock → Bool} {reg : Reg}

@[simp] theorem disciplined_lock {next : Fn μ} :
    Disciplined free free (lock .oicdev next) ↔ Disciplined free taken next := Code.disciplined_lock rfl

@[simp] theorem disciplined_unlock {next : Fn μ} :
    Disciplined free taken (unlock .oicdev next) ↔ Disciplined free free next := Code.disciplined_unlock rfl

@[simp] theorem disciplined_check {ok : Bool} {exit next : Fn μ} :
    Disciplined entry held (check ok exit next) ↔ exit.Plain ∧ Disciplined entry held next := Iff.rfl

@[simp] theorem disciplined_load {p : Pointer μ τ} {next : τ → Fn μ} :
    Disciplined entry held (load p next) ↔ ∀ m : Bus × μ, Disciplined entry held (next (p.get m.2)) := Iff.rfl

variable [Inhabited μ]

@[simp] theorem disciplined_readReg {next : UInt8 → Fn μ} :
    Disciplined entry held (readReg reg next) ↔ ∀ x, Disciplined entry held (next x) :=
  ⟨fun h x => h (⟨fun _ => x, []⟩, default), fun h m => h (m.1.answers m.1.log)⟩

@[simp] theorem disciplined_bdregchk {val : UInt32} {next : Fn μ} :
    Disciplined entry held (bdregchk reg val next) ↔ Disciplined entry held next := by
  rw [bdregchk, writeReg, Disciplined, forall_const, disciplined_readReg]
  exact ⟨fun h => (h 0).2, fun h _ => ⟨fun _ => trivial, h⟩⟩

@[simp] theorem disciplined_store {p : Pointer μ τ} {f : τ → τ} {next : Fn μ} :
    Disciplined entry held (store p f next) ↔ Disciplined entry held next := by
  rw [store, Disciplined, forall_const]

theorem disciplined_waitStarted {next : Fn μ} (h : Disciplined free taken next) (left : Nat) :
    Disciplined free taken (waitStarted left next) := by
  induction left with
  | zero =>
      rw [waitStarted, disciplined_readReg]
      intro dsr
      split
      · exact h
      · simp
  | succ left ih =>
      rw [waitStarted, disciplined_readReg]
      intro dsr
      split
      · exact h
      · exact ih

theorem disciplined_setBdStart : Disciplined free free (setBdStart : Fn μ) := by
  simp only [setBdStart, disciplined_lock, disciplined_bdregchk]
  exact disciplined_waitStarted (by simp) 9

theorem disciplined_setIp (sel : UInt32) (ip : Ip) : Disciplined free free (setIp sel ip : Fn μ) := by
  simp [setIp, cfgData, cfgEnable]

theorem disciplined_getIp (sel : UInt32) (ip : Pointer μ Ip) : Disciplined free free (getIp sel ip) := by
  simp [getIp, cfgEnable]

theorem disciplined_setPort (sel : UInt32) (port : Port) : Disciplined free free (setPort sel port : Fn μ) := by
  simp [setPort, cfgData, cfgEnable]

theorem disciplined_getPort (sel : UInt32) (port : Pointer μ Port) :
    Disciplined free free (getPort sel port) := by
  simp [getPort, cfgEnable]

@[simp] theorem disciplined_e1Loop {e1S : Pointer μ E1Status} {next : Fn μ} (is : List Nat) :
    Disciplined entry held (e1Loop e1S is next) ↔ Disciplined entry held next := by
  induction is with
  | nil => rfl
  | cons i is ih => simpa [e1Loop] using ih

theorem disciplined_hdlcLoop {mode : Int} {port : UInt32} {stat : Pointer μ (Nat → HdlcChannelStat)}
    {next : Nat → Fn μ} (h : ∀ num, Disciplined entry held (next num)) (is : List Nat) (num : Nat) :
    Disciplined entry held (hdlcLoop mode port stat is num next) := by
  induction is generalizing num with
  | nil => exact h num
  | cons i is ih =>
      have hstat : Disciplined entry held (hdlcStat stat num <| hdlcLoop mode port stat is (num + 1) next) := by
        simpa [hdlcStat] using ih (num + 1)
      simp only [hdlcLoop, disciplined_bdregchk, disciplined_readReg]
      intro tmpval
      split
      · exact ih num
      · split
        · rw [disciplined_readReg]
          intro x
          split
          · exact ih (num + 1)
          · exact hstat
        · exact hstat

theorem disciplined_getHdlcInfo (mode : Int) (port : UInt32) (chanNum : Pointer μ UInt32)
    (stat : Pointer μ (Nat → HdlcChannelStat)) : Disciplined free free (getHdlcInfo mode port chanNum stat) := by
  unfold getHdlcInfo
  -- No round of the loop over the channels is to be unfolded.
  generalize List.range fpgadrvOiamcChanAll = is
  exact disciplined_lock.mpr (disciplined_hdlcLoop (fun num => by simp) is 0)

theorem disciplined_getOnePort (phyStat : Pointer μ SdhPhyStat) :
    Disciplined free free (fpgamifGetOnePortPhyStatus phyStat) := by
  simp [fpgamifGetOnePortPhyStatus, readCounters]

theorem disciplined_phyLoop (phyStatus : Pointer μ (Nat → SdhPhyStat)) {next : Fn μ}
    (h : Disciplined free free next) (is : List Nat) : Disciplined free free (phyLoop phyStatus is next) := by
  induction is with
  | nil => exact h
  | cons i is ih =>
      rw [phyLoop, disciplined_store]
      exact ⟨disciplined_getOnePort _, fun _ => ih⟩

end Discipline

structure Call where
  μ : Type
  code : Fn μ
  mem : μ

inductive Op
  | getBdInfo (ver : Verinfo)
  | setBdStart
  | setSel (sel : UInt32)
  | getSel (sel : UInt32)
  | setSmac (smac : SrcMac)
  | getSmac (smac : SrcMac)
  | setSip (sip : Ip)
  | getSip (sip : Ip)
  | setDip (dip : Ip)
  | getDip (dip : Ip)
  | setSport (sport : Port)
  | getSport (sport : Port)
  | setDport1 (dport1 : Port)
  | getDport1 (dport1 : Port)
  | setDport2 (dport2 : Port)
  | getDport2 (dport2 : Port)
  | setDevId (devid : UInt32)
  | getDevId (devid : UInt32)
  | setFpgaClearIndex (index : UInt32)
  | setFpgaSilence (sn : FpgaSilence)
  | getFpgaSilence (sn : FpgaSilence)
  | setFpgaIndexlimit (val : UInt32)
  | getFpgaIndexlimit (indexlimit : UInt32)
  | setFpgaRel (index : UInt32)
  | setFpgaResetPointer
  | setFpgaScanClear (mask : UInt8)
  | setFpgaTranEn (en revert : UInt8)
  | setFpgaAnm (index : UInt32)
  | getE1Vaild (e1S : E1Status)
  | getHdlcInfo (mode : Int) (port chanNum : UInt32) (stat : Nat → HdlcChannelStat)
  | getAllHdlcChannelStat (stat : GetHdlcStatToFile)
  | setFpgaChanTran (tran : ChanTranCfg)
  | getOnePortPhyStatus (phyStat : SdhPhyStat)
  | getPhyStatus (phyStatus : Nat → SdhPhyStat)

/-- A call whose pointer, if it has one, leads to the whole memory. -/
def Call.of {μ : Type} (code : Pointer μ μ → Fn μ) (mem : μ) : Call :=
  ⟨μ, code (.whole μ), mem⟩

def Op.call : Op → Call
  | getBdInfo ver => .of Fpgamif.getBdInfo ver
  | setBdStart => .of (fun _ => Fpgamif.setBdStart) ()
  | setSel sel => .of (fun _ => fpgamifSetSel sel) ()
  | getSel sel => .of fpgamifGetSel sel
  | setSmac smac => .of (fun _ => fpgamifSetSmac smac) ()
  | getSmac smac => .of fpgamifGetSmac smac
  | setSip sip => .of (fun _ => fpgamifSetSip sip) ()
  | getSip sip => .of fpgamifGetSip sip
  | setDip dip => .of (fun _ => fpgamifSetDip dip) ()
  | getDip dip => .of fpgamifGetDip dip
  | setSport sport => .of (fun _ => fpgamifSetSport sport) ()
  | getSport sport => .of fpgamifGetSport sport
  | setDport1 dport1 => .of (fun _ => fpgamifSetDport1 dport1) ()
  | getDport1 dport1 => .of fpgamifGetDport1 dport1
  | setDport2 dport2 => .of (fun _ => fpgamifSetDport2 dport2) ()
  | getDport2 dport2 => .of fpgamifGetDport2 dport2
  | setDevId devid => .of (fun _ => fpgamifSetDevId devid) ()
  | getDevId devid => .of fpgamifGetDevId devid
  | setFpgaClearIndex index => .of (fun _ => fpgamifSetFpgaClearIndex index) ()
  | setFpgaSilence sn => .of (fun _ => fpgamifSetFpgaSilence sn) ()
  | getFpgaSilence sn => .of fpgamifGetFpgaSilence sn
  | setFpgaIndexlimit val => .of (fun _ => fpgamifSetFpgaIndexlimit val) ()
  | getFpgaIndexlimit indexlimit => .of fpgamifGetFpgaIndexlimit indexlimit
  | setFpgaRel index => .of (fun _ => fpgamifSetFpgaRel index) ()
  | setFpgaResetPointer => .of (fun _ => fpgamifSetFpgaResetPointer) ()
  | setFpgaScanClear mask => .of (fun _ => fpgamifSetFpgaScanClear mask) ()
  | setFpgaTranEn en revert => .of (fun _ => fpgamifSetFpgaTranEn en revert) ()
  | setFpgaAnm index => .of (fun _ => fpgamifSetFpgaAnm index) ()
  | getE1Vaild e1S => .of fpgamifGetE1Vaild e1S
  | getHdlcInfo mode port chanNum stat =>
      .of (fun _ => Fpgamif.getHdlcInfo mode port ⟨Prod.fst, fun f => Prod.map f id⟩ ⟨Prod.snd, Prod.map id⟩)
        (chanNum, stat)
  | getAllHdlcChannelStat stat => .of fpgamifGetAllHdlcChannelStat stat
  | setFpgaChanTran tran => .of (fun _ => fpgamifSetFpgaChanTran tran) ()
  | getOnePortPhyStatus phyStat => .of fpgamifGetOnePortPhyStatus phyStat
  | getPhyStatus phyStatus => .of fpgamifGetPhyStatus phyStatus

theorem op_disciplined (op : Op) : Disciplined free free op.call.code := by
  cases op with
  | setBdStart => exact disciplined_setBdStart
  | getHdlcInfo mode port chanNum stat => exact disciplined_getHdlcInfo mode port _ _
  | getAllHdlcChannelStat stat =>
      refine disciplined_store.mpr ⟨disciplined_getHdlcInfo _ _ _ _, fun rc => ?_⟩
      dsimp only
      split
      all_goals exact disciplined_ret
  | getE1Vaild e1S => simp [Op.call, Call.of, fpgamifGetE1Vaild]
  | getOnePortPhyStatus phyStat => exact disciplined_getOnePort _
  | getPhyStatus phyStatus => exact disciplined_phyLoop _ disciplined_ret _
  | setFpgaClearIndex index => simp [Op.call, Call.of, fpgamifSetFpgaClearIndex, Plain]
  | getBdInfo ver => simp [Op.call, Call.of, Fpgamif.getBdInfo]
  | setSel sel => simp [Op.call, Call.of, fpgamifSetSel]
  | getSel sel => simp [Op.call, Call.of, fpgamifGetSel]
  | setSmac smac => simp [Op.call, Call.of, fpgamifSetSmac, cfgData, cfgEnable]
  | getSmac smac => simp [Op.call, Call.of, fpgamifGetSmac, cfgEnable]
  | setSip ip | setDip ip => exact disciplined_setIp _ ip
  | getSip ip | getDip ip => exact disciplined_getIp _ _
  | setSport port | setDport1 port | setDport2 port => exact disciplined_setPort _ port
  | getSport port | getDport1 port | getDport2 port => exact disciplined_getPort _ _
  | setDevId devid => simp [Op.call, Call.of, fpgamifSetDevId, cfgEnable]
  | getDevId devid => simp [Op.call, Call.of, fpgamifGetDevId, cfgEnable]
  | setFpgaSilence sn => simp [Op.call, Call.of, fpgamifSetFpgaSilence, slientWrite]
  | getFpgaSilence sn => simp [Op.call, Call.of, fpgamifGetFpgaSilence, slientRead]
  | setFpgaIndexlimit val => simp [Op.call, Call.of, fpgamifSetFpgaIndexlimit, slientWrite]
  | getFpgaIndexlimit indexlimit => simp [Op.call, Call.of, fpgamifGetFpgaIndexlimit, slientRead]
  | setFpgaRel index => simp [Op.call, Call.of, fpgamifSetFpgaRel]
  | setFpgaResetPointer => simp [Op.call, Call.of, fpgamifSetFpgaResetPointer]
  | setFpgaScanClear mask => exact disciplined_ret
  | setFpgaTranEn en revert => exact disciplined_ret
  | setFpgaAnm index => exact disciplined_ret
  | setFpgaChanTran tran => simp [Op.call, Call.of, fpgamifSetFpgaChanTran]

abbrev Sys := State Lock Bus

def Call.enter (c : Call) (s : Sys) : State Lock (Bus × c.μ) := ⟨s.held, (s.mem, c.mem)⟩

def step (s : Sys) (op : Op) : Option (Sys × Int) :=
  (op.call.code.run (op.call.enter s)).map fun r => (⟨r.2.held, r.2.mem.1⟩, r.1)

/-- Every check of a call that is made with the lock taken finds what it looks for. -/
def ReadsBack (s : Sys) (op : Op) : Prop := op.call.code.Passes s.held (op.call.enter s)

/-- After fpgamif_open, for registers that give any answers. -/
def opened (answers : List Access → UInt8) : Sys := ⟨free, ⟨answers, []⟩⟩

/-- With the lock taken, a register that is checked has to give what was written to it. -/
theorem passes_bdregchk {μ : Type} {entry : Lock → Bool} {reg : Reg} {val : UInt32} {next : Fn μ}
    {s : State Lock (Bus × μ)} (hs : s.held ≠ entry) :
    (bdregchk reg val next).Passes entry s ↔
      (s.mem.1.answers (.read reg :: .write reg val.toUInt8 :: s.mem.1.log)).toUInt32 = val ∧
        next.Passes entry ⟨s.held,
          ({ s.mem.1 with log := .read reg :: .write reg val.toUInt8 :: s.mem.1.log }, s.mem.2)⟩ := by
  simp only [bdregchk, writeReg, readReg, Passes, beq_iff_eq]
  split
  · rename_i h
    exact (and_iff_right h).symm
  · rename_i h
    exact iff_of_false hs fun ⟨hx, _⟩ => h hx

/-- A call takes the lock and has released it in the end just when its checks find what they
look for. -/
theorem step_free_iff {s : Sys} (hs : s.held = free) (op : Op) :
    ReadsBack s op ↔ ∃ s' rc, step s op = some (s', rc) ∧ s'.held = free := by
  have hd : Disciplined (op.call.enter s).held (op.call.enter s).held op.call.code := by
    rw [Call.enter, hs]
    exact op_disciplined op
  rw [ReadsBack, ← hs]
  refine (balanced_iff hd).symm.trans ⟨?_, ?_⟩
  · rintro ⟨rc, s', hr, hs'⟩
    exact ⟨_, rc, Option.map_eq_some_iff.mpr ⟨_, hr, rfl⟩, hs'⟩
  · rintro ⟨s', rc, hr, hs'⟩
    obtain ⟨⟨rc1, s1⟩, hr1, he⟩ := Option.map_eq_some_iff.mp hr
    obtain ⟨rfl, rfl⟩ := Prod.mk.inj he
    exact ⟨rc1, s1, hr1, hs'⟩

/-- Any sequence of calls leaves the lock free after each of them just when in none of them a
check fails that is made with the lock taken. -/
theorem lock_free_iff (answers : List Access → UInt8) (ops : List Op) :
    Guarded step ReadsBack (opened answers) ops ↔
      ∀ pre, pre <+: ops → ∃ s rcs, run step (opened answers) pre = some (s, rcs) ∧ s.held = free :=
  guarded_iff (fun _ op hs => step_free_iff hs op) rfl ops

/-- Registers that stay 0 make a call leave with the lock, and the next one waits for it. -/
theorem lock_kept :
    ((run step (opened fun _ => 0) [.setSel 1]).map fun r => (r.1.held .oicdev, r.2)) = some (true, [-1]) ∧
      run step (opened fun _ => 0) [.setSel 1, .getSel 0] = none ∧
      ¬∀ (answers : List Access → UInt8) (ops pre : List Op), pre <+: ops →
        ∃ s rcs, run step (opened answers) pre = some (s, rcs) ∧ s.held = free := by
  have hstuck : run step (opened fun _ => 0) [.setSel 1, .getSel 0] = none := rfl
  refine ⟨rfl, hstuck, fun h => ?_⟩
  obtain ⟨s, rcs, hr, -⟩ := h (fun _ => 0) [.setSel 1, .getSel 0] _ List.prefix_rfl
  rw [hstuck] at hr
  cases hr

end OiAmc.FpgamifLock

import Mathlib.Logic.Function.Basic
import OiAmc.Script

namespace OiAmc.SlinkSessions

open Script Bracket

/-- The constants of the network manager's header that sdhlib.c uses. The loops over
the numbers count with a uint8_t. -/
structure Common where
  stm1Maxnum : UInt8
  channelMaxnum : UInt8
  tug3Maxnum : UInt8
  tug2Maxnum : UInt8
  c1xMaxnum : UInt8
  speed155M : UInt8
  speed622M : UInt8
  speed2500M : UInt8
  speed10000M : UInt8
  protocolTug : UInt32
  protocolUeq : UInt32
  fpgaTypeHp : UInt8
  fpgaTypeLp : UInt8

/-- struct fpga_board_runinfo_port_ex, as far as it is read here. -/
structure PortEx where
  los : UInt8
  stm1Synced : UInt8
  phyType : UInt8
  b1Cnt : UInt16
  b2Cnt : UInt16
  b3Cnt : UInt16
  c2Val : UInt8
  svcType : UInt32
  j1 : Fin 4 → UInt32
  deriving Inhabited

/-- struct slink_info, as far as it is read here. -/
structure SlinkInfo where
  channelRate : UInt8
  svcType : UInt32
  v5Val : UInt8
  e1Sync : UInt8
  nfmE1Sync : UInt8
  deriving Inhabited

/-- What is issued on `cur_fd`, with the fields of the argument that are set before. -/
inductive Ioctl
  | slinkInfoStart
  | slinkInfoEnd
  | slinkInfo (fiber channel : UInt8)
  | slinkInfoHp (fiber : UInt8)
  | bdRuninfoEx (startPort : UInt32)

/-- The return value and what the driver left in the argument. -/
@[reducible] def Result : Ioctl → Type
  | .slinkInfoStart | .slinkInfoEnd => Int
  | .slinkInfo _ _ => Int × SlinkInfo
  | .slinkInfoHp _ => Int × PortEx
  | .bdRuninfoEx _ => Int × PortEx

abbrev Calls := Script Ioctl Result

abbrev Results := Nat → (q : Ioctl) → Result q

structure SdhHd where
  fd : Nat → Int
  fpgaType : Int → UInt8

/-- The fpga a port of the high order side belongs to. -/
def portConvFpgaid (hpPort : UInt8) : Option UInt8 :=
  if hpPort ∈ [1, 2, 5, 6, 7, 8] then some 1
  else if hpPort ∈ [3, 4, 9, 10, 11, 12] then some 2
  else if hpPort ∈ [13, 14, 17, 18, 19, 20] then some 3
  else if hpPort ∈ [15, 16, 21, 22, 23, 24] then some 4
  else none

def fpgaidFdMap (hd : SdhHd) (fpgaid : UInt8) : Option Int :=
  let opened (i : Nat) : Option Int := if hd.fd i < 0 then none else some (hd.fd i)
  if fpgaid = 1 then opened 0
  else if fpgaid = 2 then opened 1
  else if fpgaid = 3 then opened 2
  else if fpgaid = 4 then opened 3
  else none

/-- The fiber number of a channel of a high order port: `((hport & 0x03) << 6) | i`. -/
def hpFiber (port i : UInt8) : UInt8 :=
  let hport : UInt8 := if port % 2 = 0 then 1 else 0
  ((hport &&& 0x03) <<< 6) ||| i

structure Stm1Soh where
  b1 : UInt16
  b2 : UInt16
  b3 : UInt16
  c2 : UInt8
  j1 : Fin 4 → UInt32
  deriving Inhabited

structure SohHpinfo where
  port : UInt8
  speed : UInt8
  stm1sNum : UInt8
  stm1s : Nat → Stm1Soh
  deriving Inhabited

/-- How many STM-1 a port of a speed has. -/
def stm1sOf (c : Common) (speed : UInt8) : Option UInt8 :=
  if speed = c.speed10000M then some c.stm1Maxnum
  else if speed = c.speed2500M then some 16
  else if speed = c.speed622M then some 4
  else if speed = c.speed155M then some 1
  else none

/-- A round of the loop, with what the driver said of the channel. -/
def takeSohHp (c : Common) (port : UInt8) (i : Nat) (info : SohHpinfo) (rc : Int) (pinfo : PortEx) :
    SohHpinfo ⊕ SohHpinfo :=
  if rc ≠ 0 then .inr info
  else
    let stm1 : Stm1Soh := ⟨pinfo.b1Cnt, pinfo.b2Cnt, pinfo.b3Cnt, pinfo.c2Val, pinfo.j1⟩
    if i = 0 then
      let info := { info with port := port, speed := pinfo.phyType }
      match stm1sOf c pinfo.phyType with
      | some n => .inl { info with stm1sNum := n, stm1s := Function.update info.stm1s i stm1 }
      | none => .inr { info with stm1sNum := 0 }
    else .inl { info with stm1s := Function.update info.stm1s i stm1 }

def sohHpRound (c : Common) (port : UInt8) (i : Nat) (info : SohHpinfo) :
    Calls (SohHpinfo ⊕ SohHpinfo) :=
  query (.slinkInfoHp (hpFiber port (.ofNat i))) fun a => takeSohHp c port i info a.1 a.2

def sdhlibGetSohHpinfo (c : Common) (hd : SdhHd) (port : UInt8) : Calls (Int × SohHpinfo) :=
  match portConvFpgaid port with
  | none => done (-1, default)
  | some fpgaid =>
      if hd.fpgaType (fpgaid.toNat - 1) ≠ c.fpgaTypeHp then done (-1, default)
      else if (fpgaidFdMap hd fpgaid).isNone then done (-1, default)
      else ask .slinkInfoStart fun (rc : Int) =>
        if rc ≠ 0 then done (-1, default)
        else (each (sohHpRound c port) (List.range c.stm1Maxnum.toNat) default).bind <| Sum.elim
          (fun info => query .slinkInfoEnd fun (rc : Int) => (if rc ≠ 0 then -1 else 0, info))
          -- err:
          (fun info => query .slinkInfoEnd fun _ => (-1, info))

structure ChannelSoh where
  v5 : UInt8
  e1valid : UInt8
  e1type : UInt8
  deriving Inhabited

structure SohLpinfo where
  id : UInt8
  c2 : UInt8
  channelsNum : UInt8
  channels : Nat → ChannelSoh
  deriving Inhabited

def channelSoh (link : SlinkInfo) : ChannelSoh :=
  if link.e1Sync ≠ 0 then ⟨link.v5Val, 1, 1⟩
  else if link.nfmE1Sync ≠ 0 then ⟨link.v5Val, 1, 2⟩
  else ⟨link.v5Val, 0, if link.svcType = 1 then 3 else 0⟩

def sohLpRound (port : UInt8) (i : Nat) (info : SohLpinfo) : Calls (SohLpinfo ⊕ SohLpinfo) :=
  query (.slinkInfo (port - 1) (.ofNat i)) fun a =>
    if a.1 ≠ 0 then .inr info
    else .inl { info with channels := Function.update info.channels i (channelSoh a.2) }

def sdhlibGetSohLpinfo (c : Common) (hd : SdhHd) (fpgaid port : UInt8) :
    Calls (Int × Option SohLpinfo) :=
  if hd.fpgaType (fpgaid.toNat - 1) ≠ c.fpgaTypeLp then done (-1, none)
  else if (fpgaidFdMap hd fpgaid).isNone then done (-1, none)
  else ask (.bdRuninfoEx (.ofInt (port.toNat - 1))) fun (rc, port0) =>
    if rc ≠ 0 then done (-1, some default)
    else ask .slinkInfoStart fun (rc : Int) =>
      let info : SohLpinfo := { (default : SohLpinfo) with
                                id := fpgaid
                                c2 := port0.c2Val
                                channelsNum := c.channelMaxnum }
      if rc ≠ 0 then done (-1, some info)
      else (each (sohLpRound port) (List.range c.channelMaxnum.toNat) info).bind <| Sum.elim
        (fun info => query .slinkInfoEnd fun (rc : Int) => (if rc ≠ 0 then -1 else 0, some info))
        -- err:
        (fun info => query .slinkInfoEnd fun _ => (-1, some info))

structure Stm1Payload where
  id : UInt8
  type : UInt32

structure PayloadHpinfo where
  port : UInt8
  speed : UInt8
  stm1sNum : UInt8
  stm1s : Nat → Stm1Payload

/-- How the loop of `get_payload_hp` is left before its end. -/
inductive HpExit
  /-- The first channel has no signal: `break`. -/
  | lost (info : PayloadHpinfo)
  /-- `goto err` -/
  | err (info : PayloadHpinfo)
  /-- The speed is unknown: `return -1`. -/
  | unknownSpeed (info : PayloadHpinfo)

def stm1Payload (c : Common) (i : Nat) (pinfo : PortEx) : Stm1Payload where
  id := .ofNat (i + 1)
  type :=
    if pinfo.c2Val = 2 then c.protocolTug
    else if pinfo.c2Val = 0 then c.protocolUeq
    else pinfo.svcType

def takePayloadHp (c : Common) (i : Nat) (info : PayloadHpinfo) (rc : Int) (pinfo : PortEx) :
    PayloadHpinfo ⊕ HpExit :=
  if rc ≠ 0 then .inr (.err info)
  else
    let stm1s := Function.update info.stm1s i (stm1Payload c i pinfo)
    if i = 0 then
      if pinfo.los ≠ 0 ∨ pinfo.stm1Synced ≠ 0 then .inr (.lost { info with stm1sNum := 0 })
      else
        let info := { info with speed := pinfo.phyType }
        match stm1sOf c pinfo.phyType with
        | some n => .inl { info with stm1sNum := n, stm1s := stm1s }
        | none => .inr (.unknownSpeed info)
    else .inl { info with stm1s := stm1s }

def payloadHpRound (c : Common) (i : Nat) (info : PayloadHpinfo) :
    Calls (PayloadHpinfo ⊕ HpExit) :=
  query (.slinkInfoHp (hpFiber info.port (.ofNat i))) fun a => takePayloadHp c i info a.1 a.2

def endPayloadHp (info : PayloadHpinfo) : Calls (Int × PayloadHpinfo) :=
  query .slinkInfoEnd fun (rc : Int) => (if rc ≠ 0 then -1 else 0, info)

def leavePayloadHp : HpExit → Calls (Int × PayloadHpinfo)
  | .lost info => endPayloadHp info
  | .err info => query .slinkInfoEnd fun _ => (-1, info)
  | .unknownSpeed info => done (-1, info)

def getPayloadHp (c : Common) (info : PayloadHpinfo) : Calls (Int × PayloadHpinfo) :=
  ask .slinkInfoStart fun (rc : Int) =>
    if rc ≠ 0 then done (-1, info)
    else (each (payloadHpRound c) (List.range c.stm1Maxnum.toNat) info).bind <|
      Sum.elim endPayloadHp leavePayloadHp

structure PayloadC1x where
  id : UInt8
  type : UInt32
  tssNum : UInt8

structure PayloadTug2 where
  id : UInt8
  type : UInt8
  c1xsNum : UInt8
  c1xs : Nat → PayloadC1x

structure PayloadTug3 where
  id : UInt8
  type : UInt32
  tug2sNum : UInt8
  tug2s : Nat → PayloadTug2

structure PayloadLpinfo where
  id : UInt8
  type : UInt32
  tug3sNum : UInt8
  tug3s : Nat → PayloadTug3

def fill {α : Type} (n : UInt8) (set : Nat → α → α) (old : Nat → α) : Nat → α :=
  fun i => if i < n.toNat then set i (old i) else old i

/-- The tree of tributary units, from what the channels answered. -/
def fillTug3s (c : Common) (slink : List SlinkInfo) (info : PayloadLpinfo) : PayloadLpinfo :=
  let entry (n : Nat) : SlinkInfo := slink.getD (n % 256) default
  { info with
    tug3s := fill info.tug3sNum
      (fun i tug3 => ⟨.ofNat (i + 1), c.protocolTug, c.tug2Maxnum, fill c.tug2Maxnum
        (fun j tug2 => ⟨.ofNat (j + 1), (entry (i * c.tug3Maxnum.toNat + j)).channelRate, c.c1xMaxnum,
          fill c.c1xMaxnum (fun k _ => ⟨.ofNat (k + 1), (entry (i + j * 3 + k * 21)).svcType, 0⟩)
            tug2.c1xs⟩)
        tug3.tug2s⟩)
      info.tug3s }

def takeChannel (slink : List SlinkInfo) (rc : Int) (link : SlinkInfo) : List SlinkInfo ⊕ Unit :=
  if rc ≠ 0 then .inr () else .inl (slink ++ [link])

def payloadLpRound (id : UInt8) (i : Nat) (slink : List SlinkInfo) :
    Calls (List SlinkInfo ⊕ Unit) :=
  query (.slinkInfo (id - 1) (.ofNat i)) fun a => takeChannel slink a.1 a.2

/-- `allocated`: whether malloc found room for the channels. -/
def getPayloadLp (c : Common) (allocated : Bool) (info : PayloadLpinfo) :
    Calls (Int × PayloadLpinfo) :=
  if ¬allocated then done (-1, info)
  else ask (.slinkInfoHp (info.id - 1)) fun a =>
    if a.1 ≠ 0 then done (-1, info)
    else if a.2.c2Val = 0x00 then done (0, { info with type := c.protocolUeq, tug3sNum := 0 })
    else if a.2.c2Val = 0x02 then
      let info := { info with type := c.protocolTug, tug3sNum := c.tug3Maxnum }
      ask .slinkInfoStart fun (rc : Int) =>
        if rc ≠ 0 then done (-1, info)
        else (each (payloadLpRound info.id) (List.range c.channelMaxnum.toNat) []).bind <| Sum.elim
          (fun slink => query .slinkInfoEnd fun (rc : Int) =>
            (if rc ≠ 0 then -1 else 0, fillTug3s c slink info))
          -- err: only frees the channels
          (fun _ => done (-1, info))
    else done (0, { info with tug3sNum := 0 })

/-- A successful START opens a session, an END closes it, also when the driver refuses it. -/
def kind : Event Ioctl Result → Bracket
  | ⟨.slinkInfoStart, (rc : Int)⟩ => if rc = 0 then .opens else .passes
  | ⟨.slinkInfoEnd, _⟩ => .closes
  | ⟨.slinkInfo _ _, _⟩ | ⟨.slinkInfoHp _, _⟩ | ⟨.bdRuninfoEx _, _⟩ => .passes

/-- The four functions that open a session, with their arguments. -/
inductive Caller
  | sohHpinfo (port : UInt8)
  | sohLpinfo (fpgaid port : UInt8)
  | payloadHp (info : PayloadHpinfo)
  | payloadLp (allocated : Bool) (info : PayloadLpinfo)

def issued (c : Common) (hd : SdhHd) (results : Results) : Caller → List (Event Ioctl Result)
  | .sohHpinfo port => (sdhlibGetSohHpinfo c hd port).log results
  | .sohLpinfo fpgaid port => (sdhlibGetSohLpinfo c hd fpgaid port).log results
  | .payloadHp info => (getPayloadHp c info).log results
  | .payloadLp allocated info => (getPayloadLp c allocated info).log results

/-- The return value of the n-th ioctl, for a channel's information. -/
def channelRc (results : Results) (n : Nat) (fiber channel : UInt8) : Int :=
  (results n (.slinkInfo fiber channel)).1

/-- After a successful START, the first channel has a signal of a speed that
`get_payload_hp` does not know, or a channel of `get_payload_lp` cannot be read. -/
def Skips (c : Common) (results : Results) : Caller → Prop
  | .sohHpinfo _ | .sohLpinfo _ _ => False
  | .payloadHp info =>
      let first := results 1 (.slinkInfoHp (hpFiber info.port 0))
      results 0 .slinkInfoStart = (0 : Int) ∧ c.stm1Maxnum ≠ 0 ∧ first.1 = 0 ∧
        first.2.los = 0 ∧ first.2.stm1Synced = 0 ∧
        first.2.phyType ∉ [c.speed155M, c.speed622M, c.speed2500M, c.speed10000M]
  | .payloadLp allocated info =>
      let port := results 0 (.slinkInfoHp (info.id - 1))
      allocated ∧ port.1 = 0 ∧ port.2.c2Val = 0x02 ∧ results 1 .slinkInfoStart = (0 : Int) ∧
        ∃ i < c.channelMaxnum.toNat, channelRc results (i + 2) (info.id - 1) (.ofNat i) ≠ 0

section Brackets

variable {R : Type}

/-- A function that leaves no session open, whatever the results are. -/
abbrev Closes (isOpen : Bool) (p : Calls R) : Prop :=
  Safe (watch kind) isOpen p fun isOpen _ => isOpen = false

theorem watch_start (rc : Int) :
    watch kind false ⟨.slinkInfoStart, rc⟩ = some (decide (rc = 0)) := by
  have hkind : kind ⟨.slinkInfoStart, rc⟩ = if rc = 0 then .opens else .passes := rfl
  unfold watch
  rw [hkind]
  split_ifs with hrc
  · rw [decide_eq_true hrc]
  · rw [decide_eq_false hrc]

theorem Closes.start {f : Int → Calls R} (hfail : ∀ rc, rc ≠ 0 → Closes false (f rc))
    (hopen : Closes true (f 0)) : Closes false (ask .slinkInfoStart f) := by
  intro (rc : Int)
  refine ⟨_, watch_start rc, ?_⟩
  by_cases hrc : rc = 0
  · rw [hrc]
    exact hopen
  · rw [decide_eq_false hrc]
    exact hfail rc hrc

theorem Closes.finish (f : Int → R) : Closes true (query .slinkInfoEnd f) :=
  Safe.query fun _ => ⟨false, rfl, rfl⟩

theorem Closes.loop {ι σ E : Type} {round : ι → σ → Calls (σ ⊕ E)} {is : List ι} {s : σ}
    {ok : σ → Calls R} {err : E → Calls R} (good : E → Prop)
    (hround : ∀ i ∈ is, ∀ s, Safe (watch kind) true (round i s) fun isOpen x =>
      isOpen = true ∧ ∀ e, x = .inr e → good e)
    (hok : ∀ s, Closes true (ok s)) (herr : ∀ e, good e → Closes true (err e)) :
    Closes true ((each round is s).bind (Sum.elim ok err)) := by
  have hloop : Safe (watch kind) true (each round is s) fun isOpen =>
      Sum.elim (fun _ : σ => isOpen = true) fun e => isOpen = true ∧ good e := by
    refine Safe.each (I := fun isOpen _ => isOpen = true) ?_ rfl
    intro i hi isOpen s hopen
    rw [hopen]
    refine (hround i hi s).mono ?_
    intro isOpen x hx
    cases x with
    | inl s => exact hx.1
    | inr e => exact ⟨hx.1, hx.2 e rfl⟩
  refine Safe.bind (hloop.mono ?_)
  intro isOpen x hx
  cases x with
  | inl s =>
      rw [show isOpen = true from hx]
      exact hok s
  | inr e =>
      obtain ⟨hopen, he⟩ : isOpen = true ∧ good e := hx
      rw [hopen]
      exact herr e he

theorem Closes.balanced {p : Calls R} (h : Closes false p) (results : Results) :
    Balanced kind (p.log results) := by
  obtain ⟨isOpen, hlog, hopen⟩ := Safe.log h results
  rw [balanced_iff, hlog, hopen]

end Brackets

theorem sdhlibGetSohHpinfo_closes (c : Common) (hd : SdhHd) (port : UInt8) :
    Closes false (sdhlibGetSohHpinfo c hd port) := by
  rw [sdhlibGetSohHpinfo]
  cases portConvFpgaid port with
  | none => rfl
  | some fpgaid =>
      simp only
      split_ifs with htype hfd
      · rfl
      · rfl
      refine Closes.start (fun rc hrc => ?_) ?_
      · rw [if_pos hrc]
        rfl
      rw [if_neg (not_not_intro rfl)]
      exact Closes.loop (fun _ => True) (fun _ _ _ => Safe.query fun _ => ⟨true, rfl, rfl, fun _ _ => trivial⟩)
        (fun _ => Closes.finish _) fun _ _ => Closes.finish _

theorem sdhlibGetSohLpinfo_closes (c : Common) (hd : SdhHd) (fpgaid port : UInt8) :
    Closes false (sdhlibGetSohLpinfo c hd fpgaid port) := by
  rw [sdhlibGetSohLpinfo]
  split_ifs with htype hfd
  · rfl
  · rfl
  intro (rc, port0)
  refine ⟨false, rfl, ?_⟩
  by_cases hrc : rc ≠ 0
  · simp only [if_pos hrc]
    rfl
  simp only [if_neg hrc]
  refine Closes.start (fun rc hrc => ?_) ?_
  · rw [if_pos hrc]
    rfl
  rw [if_neg (not_not_intro rfl)]
  exact Closes.loop (fun _ => True) (fun _ _ _ => Safe.query fun _ => ⟨true, rfl, rfl, fun _ _ => trivial⟩)
    (fun _ => Closes.finish _) fun _ _ => Closes.finish _

theorem stm1sOf_eq_none (c : Common) (speed : UInt8) : stm1sOf c speed = none ↔
    speed ∉ [c.speed155M, c.speed622M, c.speed2500M, c.speed10000M] := by
  unfold stm1sOf
  split_ifs <;> simp_all

theorem takePayloadHp_zero (c : Common) (info : PayloadHpinfo) (rc : Int) (pinfo : PortEx) :
    (∃ info', takePayloadHp c 0 info rc pinfo = .inr (.unknownSpeed info')) ↔
      rc = 0 ∧ pinfo.los = 0 ∧ pinfo.stm1Synced = 0 ∧ stm1sOf c pinfo.phyType = none := by
  rw [takePayloadHp]
  by_cases hrc : rc = 0
  swap
  · simp [hrc]
  rw [if_neg (not_not_intro hrc), if_pos rfl]
  by_cases hlost : pinfo.los ≠ 0 ∨ pinfo.stm1Synced ≠ 0
  · rw [if_pos hlost]
    simp only [Sum.inr.injEq, reduceCtorEq, exists_false, false_iff]
    tauto
  rw [if_neg hlost]
  cases hspeed : stm1sOf c pinfo.phyType with
  | none => simpa [hrc] using hlost
  | some n => simp

theorem takePayloadHp_succ (c : Common) {i : Nat} (hi : i ≠ 0) (info : PayloadHpinfo) (rc : Int)
    (pinfo : PortEx) (info' : PayloadHpinfo) :
    takePayloadHp c i info rc pinfo ≠ .inr (.unknownSpeed info') := by
  unfold takePayloadHp
  split_ifs <;> simp

/-- What is done after a round of `get_payload_hp`. -/
def afterPayloadHp (c : Common) (is : List Nat) (x : PayloadHpinfo ⊕ HpExit) :
    Calls (Int × PayloadHpinfo) :=
  (x.elim (each (payloadHpRound c) is) fun e => done (.inr e)).bind <|
    Sum.elim endPayloadHp leavePayloadHp

theorem leavePayloadHp_closes {e : HpExit} (he : ∀ info, e ≠ .unknownSpeed info) :
    Closes true (leavePayloadHp e) := by
  cases e with
  | lost info => exact Closes.finish _
  | err info => exact Closes.finish _
  | unknownSpeed info => exact absurd rfl (he info)

theorem afterPayloadHp_closes (c : Common) (is : List Nat) (his : ∀ i ∈ is, i ≠ 0)
    {x : PayloadHpinfo ⊕ HpExit} (hx : ∀ info, x ≠ .inr (.unknownSpeed info)) :
    Closes true (afterPayloadHp c is x) := by
  cases x with
  | inl info =>
      refine Closes.loop (fun e => ∀ info, e ≠ .unknownSpeed info) (fun i hi info => ?_)
        (fun _ => Closes.finish _) fun _ he => leavePayloadHp_closes he
      refine Safe.query fun a => ⟨true, rfl, rfl, ?_⟩
      rintro e he info' rfl
      exact takePayloadHp_succ c (his i hi) info a.1 a.2 info' he
  | inr e => exact leavePayloadHp_closes fun info he => hx info (congrArg _ he)

theorem log_start {R : Type} (f : Int → Calls R) (results : Results) :
    Balanced kind ((ask .slinkInfoStart f).log results) ↔
      ((f (results 0 .slinkInfoStart)).log fun n => results (n + 1)).foldlM (watch kind)
        (decide (results 0 .slinkInfoStart = (0 : Int))) = some false := by
  rw [balanced_iff, log_ask, List.foldlM_cons, watch_start]
  rfl

theorem log_passes {R : Type} {q : Ioctl} (hq : ∀ a, kind ⟨q, a⟩ = .passes) (f : Result q → Calls R)
    (results : Results) : Balanced kind ((ask q f).log results) ↔
      Balanced kind ((f (results 0 q)).log fun n => results (n + 1)) := by
  rw [balanced_iff, balanced_iff, log_ask, List.foldlM_cons]
  unfold watch
  rw [hq]
  rfl

theorem getPayloadHp_balanced (c : Common) (info : PayloadHpinfo) (results : Results) :
    Balanced kind ((getPayloadHp c info).log results) ↔ ¬Skips c results (.payloadHp info) := by
  rw [getPayloadHp, log_start, Skips]
  by_cases hrc : results 0 .slinkInfoStart = (0 : Int)
  swap
  · rw [if_pos hrc, decide_eq_false hrc]
    exact ⟨fun _ h => hrc h.1, fun _ => rfl⟩
  rw [if_neg (not_not_intro hrc), decide_eq_true hrc]
  by_cases hmax : c.stm1Maxnum = 0
  · rw [hmax]
    exact ⟨fun _ h => h.2.1 rfl, fun _ => rfl⟩
  obtain ⟨n, hn⟩ : ∃ n, c.stm1Maxnum.toNat = n + 1 :=
    Nat.exists_eq_succ_of_ne_zero fun h => hmax (UInt8.toNat_inj.mp h)
  rw [hn, List.range_succ_eq_map]
  -- the first channel is asked for, and what comes after it depends on the answer
  change ((afterPayloadHp c (List.map Nat.succ (List.range n)) (takePayloadHp c 0 info
    (results 1 (.slinkInfoHp (hpFiber info.port 0))).1
    (results 1 (.slinkInfoHp (hpFiber info.port 0))).2)).log
      fun n => results (n + 2)).foldlM (watch kind) true = _ ↔ _
  have hskip := takePayloadHp_zero c info (results 1 (.slinkInfoHp (hpFiber info.port 0))).1
    (results 1 (.slinkInfoHp (hpFiber info.port 0))).2
  rw [stm1sOf_eq_none] at hskip
  by_cases hx : ∃ info', takePayloadHp c 0 info (results 1 (.slinkInfoHp (hpFiber info.port 0))).1
      (results 1 (.slinkInfoHp (hpFiber info.port 0))).2 = .inr (.unknownSpeed info')
  · have h := hskip.mp hx
    obtain ⟨info', hx⟩ := hx
    rw [hx]
    constructor
    · intro hlog
      cases hlog
    · intro hskips
      exact absurd ⟨hrc, hmax, h⟩ hskips
  · have hclose := afterPayloadHp_closes c (List.map Nat.succ (List.range n)) (by simp)
      (not_exists.mp hx)
    obtain ⟨isOpen, hlog, hopen⟩ := hclose.log fun n => results (n + 2)
    rw [hlog, hopen]
    exact ⟨fun _ h => hx (hskip.mpr h.2.2), fun _ => rfl⟩

theorem payloadLp_loop {R : Type} (id : UInt8) {finish : List SlinkInfo → Calls R}
    (hfinish : ∀ slink, Closes true (finish slink)) (r : R) (n k : Nat) (slink : List SlinkInfo)
    (results : Results) :
    (((each (payloadLpRound id) (List.range' k n) slink).bind
        (Sum.elim finish fun _ => done r)).log results).foldlM (watch kind) true = some false ↔
      ∀ i < n, channelRc results i (id - 1) (.ofNat (k + i)) = 0 := by
  induction n generalizing k slink results with
  | zero =>
      obtain ⟨isOpen, hlog, hopen⟩ := (hfinish slink).log results
      refine ⟨fun _ i hi => absurd hi (Nat.not_lt_zero i), fun _ => ?_⟩
      rw [← hopen]
      exact hlog
  | succ n ih =>
      rw [List.range'_succ, Nat.forall_lt_succ_left, each_cons_bind, payloadLpRound, log_query_bind]
      generalize hentry : (results 0 (.slinkInfo (id - 1) (.ofNat k))).2 = entry
      by_cases hrc : channelRc results 0 (id - 1) (.ofNat k) = 0
      · have htake : takeChannel slink (channelRc results 0 (id - 1) (.ofNat k)) entry =
            .inl (slink ++ [entry]) := if_neg (not_not_intro hrc)
        have hgo := ih (k + 1) (slink ++ [entry]) fun n => results (n + 1)
        simp only [Nat.add_assoc, Nat.add_comm 1] at hgo
        rw [channelRc] at htake
        rw [htake, Nat.add_zero k, and_iff_right hrc]
        exact hgo
      · have htake : takeChannel slink (channelRc results 0 (id - 1) (.ofNat k)) entry =
            .inr () := if_pos hrc
        rw [channelRc] at htake
        rw [htake]
        constructor
        · intro hlog
          cases hlog
        · intro hall
          exact absurd hall.1 hrc

theorem getPayloadLp_balanced (c : Common) (allocated : Bool) (info : PayloadLpinfo)
    (results : Results) : Balanced kind ((getPayloadLp c allocated info).log results) ↔
      ¬Skips c results (.payloadLp allocated info) := by
  rw [getPayloadLp, Skips]
  by_cases halloc : allocated = true
  swap
  · rw [if_pos halloc, balanced_iff]
    exact ⟨fun _ h => halloc h.1, fun _ => rfl⟩
  rw [if_neg (not_not_intro halloc), log_passes fun _ => rfl]
  by_cases hrc : (results 0 (.slinkInfoHp (info.id - 1))).1 = 0
  swap
  · rw [if_pos hrc]
    exact ⟨fun _ h => hrc h.2.1, fun _ => (balanced_iff ..).mpr rfl⟩
  rw [if_neg (not_not_intro hrc)]
  by_cases hueq : (results 0 (.slinkInfoHp (info.id - 1))).2.c2Val = 0x00
  · rw [if_pos hueq]
    refine ⟨fun _ h => ?_, fun _ => (balanced_iff ..).mpr rfl⟩
    rw [hueq] at h
    exact absurd h.2.2.1 (by decide)
  rw [if_neg hueq]
  by_cases htug : (results 0 (.slinkInfoHp (info.id - 1))).2.c2Val = 0x02
  swap
  · rw [if_neg htug]
    exact ⟨fun _ h => htug h.2.2.1, fun _ => (balanced_iff ..).mpr rfl⟩
  rw [if_pos htug, log_start]
  by_cases hstart : results 1 .slinkInfoStart = (0 : Int)
  swap
  · rw [if_pos hstart, decide_eq_false hstart]
    exact ⟨fun _ h => hstart h.2.2.2.1, fun _ => rfl⟩
  rw [if_neg (not_not_intro hstart), decide_eq_true hstart, List.range_eq_range',
    payloadLp_loop _ fun _ => Closes.finish _]
  constructor
  · rintro hall ⟨-, -, -, -, i, hi, hne⟩
    have h := hall i hi
    rw [Nat.zero_add] at h
    exact hne h
  · intro hskips i hi
    rw [Nat.zero_add]
    by_contra hne
    exact hskips ⟨halloc, hrc, htug, hstart, i, hi, hne⟩

/-- A function closes every session that it opened, and no other, unless one of the
two functions that read the payload is left without the END. -/
theorem sessions_closed_iff (c : Common) (hd : SdhHd) (results : Results) (f : Caller) :
    Balanced kind (issued c hd results f) ↔ ¬Skips c results f := by
  cases f with
  | sohHpinfo port =>
      exact iff_of_true ((sdhlibGetSohHpinfo_closes c hd port).balanced results) not_false
  | sohLpinfo fpgaid port =>
      exact iff_of_true ((sdhlibGetSohLpinfo_closes c hd fpgaid port).balanced results) not_false
  | payloadHp info => exact getPayloadHp_balanced c info results
  | payloadLp allocated info => exact getPayloadLp_balanced c allocated info results

/-- The numbers of an STM-64 port with its tributaries. -/
def stm64 : Common where
  stm1Maxnum := 64
  channelMaxnum := 63
  tug3Maxnum := 3
  tug2Maxnum := 7
  c1xMaxnum := 3
  speed155M := 0
  speed622M := 1
  speed2500M := 2
  speed10000M := 3
  protocolTug := 5
  protocolUeq := 8
  fpgaTypeHp := 1
  fpgaTypeLp := 2

/-- Every ioctl succeeds, and the driver reports a speed of 4. -/
def speedFour : Results
  | _, .slinkInfoStart | _, .slinkInfoEnd => (0 : Int)
  | _, .slinkInfo _ _ => (0, default)
  | _, .slinkInfoHp _ => (0, { (default : PortEx) with phyType := 4 })
  | _, .bdRuninfoEx _ => (0, default)

/-- `get_payload_hp` starts the collection on port 1, reads the first channel, and
returns. -/
theorem unknown_speed_leaves_open : ¬∀ (c : Common) (hd : SdhHd) (results : Results) (f : Caller),
    Balanced kind (issued c hd results f) := by
  intro h
  have hlog := (balanced_iff ..).mp
    (h stm64 ⟨fun _ => 3, fun _ => 1⟩ speedFour (.payloadHp ⟨1, 0, 0, fun _ => ⟨0, 0⟩⟩))
  revert hlog
  decide

end OiAmc.SlinkSessions

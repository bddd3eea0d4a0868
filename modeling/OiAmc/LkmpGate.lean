import OiAmc.Lkmp
import OiAmc.PartialMachine

namespace OiAmc.LkmpGate

open ByteOrder Lkmp Numerals PartialMachine Pkt
open MessageLayout hiding Octets

/-- A pass of the loop, with or without a packet to be received, or a call back. `before` is what
the memory for a message holds. -/
inductive Act
  | checkPhy
  | receive (addr : Nat) (ph : Octets) (before : Value PspField) (ackResult : Int)
  | connect
  | disconnect

inductive Event
  | checked (ops : List Op)
  | received (addr : Nat) (ph : Octets) (ops : List Op) (freed : List Nat)
  | connected (ops : List Op)
  | lost (ops : List Op)
  | ended

def step (host : Endian) (charSigned : Bool) (glb : PsagentGlb) (pops : PspOps) (agent : Agent) :
    Act → Option (Agent × Event)
  | .checkPhy =>
      some (agent, if agent.running then .checked (checkPhyStatus glb pops) else .ended)
  | .receive addr ph before ackResult =>
      if agent.running then
        let r := psagentReceive host charSigned glb pops ackResult agent addr ph before
        some (r.1, .received addr ph r.2.1 r.2.2)
      else some (agent, .ended)
  | .connect => some ((psagentConncb pops agent).1, .connected (psagentConncb pops agent).2)
  | .disconnect => some ((psagentDisccb pops agent).1, .lost (psagentDisccb pops agent).2)

def Acknowledges (host : Endian) (charSigned : Bool) (glb : PsagentGlb) (ph : Octets) : Prop :=
  checkDevice host charSigned glb ph = true ∧ msgId ph = pspMsgRegisterAck ∧
    ∃ before, (pspDecodeMsg host ph before).isSome

def Registered (host : Endian) (charSigned : Bool) (glb : PsagentGlb) (es : List Event) : Prop :=
  ∃ as addr ph ops freed bs, es = as ++ .received addr ph ops freed :: bs ∧
    Acknowledges host charSigned glb ph ∧ ∀ ops, .lost ops ∉ bs

/-- The gate: a packet is freed once and causes one operation at most, that only if it is for
this device, and before a registration only to register again or to note it. -/
def Gated (host : Endian) (charSigned : Bool) (glb : PsagentGlb) (es : List Event) : Prop :=
  ∀ as addr ph ops freed bs, es = as ++ .received addr ph ops freed :: bs →
    freed = [addr] ∧ ops.length ≤ 1 ∧
    (ops ≠ [] → localDevice charSigned glb = (pkthdrGetDevice host ph &&& 0xff)) ∧
    (¬ Registered host charSigned glb as → ∀ op ∈ ops,
      op = .registerMsg ∧ msgId ph = pspMsgRegisterUnack ∨
      op = .registerAckMsg ∧ Acknowledges host charSigned glb ph)

variable {host : Endian} {charSigned : Bool} {glb : PsagentGlb} {pops : PspOps} {agent : Agent}
  {es : List Event} {ph : Octets}

theorem length_psagentOp (pops : PspOps) (op : Op) : (psagentOp pops op).length ≤ 1 := by
  rw [psagentOp]
  split
  · exact Nat.le_refl 1
  · exact Nat.zero_le 1

theorem mem_psagentOp {op op' : Op} (h : op' ∈ psagentOp pops op) : op' = op := by
  rw [psagentOp] at h
  split at h
  · exact List.mem_singleton.mp h
  · cases h

theorem process_spec (pops : PspOps) (ackResult : Int) (agent : Agent) (id : UInt16) :
    let r := psagentProcess pops ackResult agent id
    r.1.registerFlag = agent.registerFlag ∧ r.2.length ≤ 1 ∧ ∀ op ∈ r.2, opOf id = some op := by
  dsimp only
  rw [psagentProcess]
  split
  · rename_i hop
    refine ⟨rfl, Nat.le_refl 1, fun op hmem => ?_⟩
    rw [List.mem_singleton.mp hmem]
    exact hop
  · rename_i op _ hop
    refine ⟨rfl, length_psagentOp pops op, fun op' hmem => ?_⟩
    rw [mem_psagentOp hmem]
    exact hop
  · exact ⟨rfl, Nat.zero_le 1, fun op hmem => absurd hmem List.not_mem_nil⟩

theorem decode_id {before : Value PspField} {msg : PspMsg}
    (h : pspDecodeMsg host ph before = some msg) : msg.id = msgId ph := by
  obtain ⟨gets, -, hr⟩ := Option.bind_eq_some_iff.mp h
  dsimp only at hr
  split at hr
  · rw [← Option.some.inj hr]
  · cases hr

theorem checkRegisterAck_spec (hdevice : checkDevice host charSigned glb ph = true)
    (pops : PspOps) (ackResult : Int) (agent : Agent) (before : Value PspField) :
    let r := checkRegisterAck host pops ackResult agent ph before
    r.2.length ≤ 1 ∧
      (∀ op ∈ r.2, op = .registerMsg ∧ msgId ph = pspMsgRegisterUnack ∨
        op = .registerAckMsg ∧ Acknowledges host charSigned glb ph) ∧
      (r.1.registerFlag = true → agent.registerFlag = true ∨ Acknowledges host charSigned glb ph) := by
  have hnone : ([] : List Op).length ≤ 1 ∧
      (∀ op ∈ ([] : List Op), op = .registerMsg ∧ msgId ph = pspMsgRegisterUnack ∨
        op = .registerAckMsg ∧ Acknowledges host charSigned glb ph) ∧
      (agent.registerFlag = true → agent.registerFlag = true ∨
        Acknowledges host charSigned glb ph) :=
    ⟨Nat.zero_le 1, fun op hop => absurd hop List.not_mem_nil, Or.inl⟩
  dsimp only
  rw [checkRegisterAck]
  cases hmsg : pspDecodeMsg host ph before with
  | none => exact hnone
  | some msg =>
      have hid := decode_id hmsg
      dsimp only
      by_cases hack : msg.id = pspMsgRegisterAck
      · rw [if_neg (not_not.mpr hack)]
        have hacknowledges : Acknowledges host charSigned glb ph :=
          ⟨hdevice, hid ▸ hack, before, by rw [hmsg]; rfl⟩
        obtain ⟨-, hlen, hops⟩ :=
          process_spec pops ackResult { agent with registerFlag := true } msg.id
        refine ⟨hlen, fun op hop => Or.inr ⟨?_, hacknowledges⟩, fun _ => Or.inr hacknowledges⟩
        have hop' := hops op hop
        rw [hack] at hop'
        exact (Option.some.inj hop').symm
      · rw [if_pos hack]
        by_cases hunack : msg.id = pspMsgRegister ||| 0x0400
        · rw [if_pos hunack]
          obtain ⟨hflag, hlen, hops⟩ := process_spec pops ackResult agent pspMsgRegister
          refine ⟨hlen, fun op hop => Or.inl ⟨?_, hid ▸ hunack⟩, fun h => Or.inl (hflag ▸ h)⟩
          exact (Option.some.inj (hops op hop)).symm
        · rw [if_neg hunack]
          exact hnone

theorem receive_spec (host : Endian) (charSigned : Bool) (glb : PsagentGlb) (pops : PspOps)
    (ackResult : Int) (agent : Agent) (addr : Nat) (ph : Octets) (before : Value PspField) :
    let r := psagentReceive host charSigned glb pops ackResult agent addr ph before
    r.2.2 = [addr] ∧ r.2.1.length ≤ 1 ∧
      (r.2.1 ≠ [] → localDevice charSigned glb = (pkthdrGetDevice host ph &&& 0xff)) ∧
      (agent.registerFlag = false → ∀ op ∈ r.2.1,
        op = .registerMsg ∧ msgId ph = pspMsgRegisterUnack ∨
        op = .registerAckMsg ∧ Acknowledges host charSigned glb ph) ∧
      (r.1.registerFlag = true → agent.registerFlag = true ∨
        Acknowledges host charSigned glb ph) := by
  dsimp only
  rw [psagentReceive]
  cases hdevice : checkDevice host charSigned glb ph with
  | false =>
      exact ⟨rfl, Nat.zero_le 1, fun h => absurd rfl h, fun _ op hop => absurd hop List.not_mem_nil,
        Or.inl⟩
  | true =>
      have hlocal : localDevice charSigned glb = (pkthdrGetDevice host ph &&& 0xff) :=
        beq_iff_eq.mp hdevice
      rw [if_neg (by simp)]
      cases hflag : agent.registerFlag with
      | false =>
          obtain ⟨hlen, hops, hnext⟩ := checkRegisterAck_spec hdevice pops ackResult agent before
          rw [hflag] at hnext
          exact ⟨rfl, hlen, fun _ => hlocal, fun _ => hops, hnext⟩
      | true =>
          rw [if_neg (by simp)]
          cases hmsg : pspDecodeMsg host ph before with
          | none =>
              exact ⟨rfl, Nat.zero_le 1, fun _ => hlocal, nofun,
                fun _ => Or.inl rfl⟩
          | some msg =>
              obtain ⟨-, hlen, -⟩ := process_spec pops ackResult agent msg.id
              exact ⟨rfl, hlen, fun _ => hlocal, nofun, fun _ => Or.inl rfl⟩

theorem registered_snoc (h : Registered host charSigned glb es) {e : Event}
    (he : ∀ ops, e ≠ .lost ops) : Registered host charSigned glb (es ++ [e]) := by
  obtain ⟨as, addr, ph, ops, freed, bs, rfl, hack, hkept⟩ := h
  refine ⟨as, addr, ph, ops, freed, bs ++ [e], by rw [List.append_assoc, List.cons_append], hack,
    fun ops hmem => ?_⟩
  rcases List.mem_append.mp hmem with hmem | hmem
  · exact hkept ops hmem
  · exact he ops (List.mem_singleton.mp hmem).symm

/-- Packets pass the gate, and the flag means that a registration was acknowledged. -/
structure Kept (host : Endian) (charSigned : Bool) (glb : PsagentGlb) (agent : Agent)
    (es : List Event) : Prop where
  gated : Gated host charSigned glb es
  flag : agent.registerFlag = true → Registered host charSigned glb es

theorem gated_snoc (h : Gated host charSigned glb es) {e : Event}
    (he : ∀ addr ph ops freed, e = .received addr ph ops freed → freed = [addr] ∧ ops.length ≤ 1 ∧
      (ops ≠ [] → localDevice charSigned glb = (pkthdrGetDevice host ph &&& 0xff)) ∧
      (¬ Registered host charSigned glb es → ∀ op ∈ ops,
        op = .registerMsg ∧ msgId ph = pspMsgRegisterUnack ∨
        op = .registerAckMsg ∧ Acknowledges host charSigned glb ph)) :
    Gated host charSigned glb (es ++ [e]) := by
  intro as addr ph ops freed bs heq
  rcases output_snoc heq with ⟨rfl, hlast⟩ | ⟨bs', hes⟩
  · exact he addr ph ops freed hlast.symm
  · exact h as addr ph ops freed bs' hes

theorem kept_other (h : Kept host charSigned glb agent es) {agent' : Agent} {e : Event}
    (hother : ∀ addr ph ops freed, e ≠ .received addr ph ops freed)
    (hflag : agent'.registerFlag = true → agent.registerFlag = true ∧ ∀ ops, e ≠ .lost ops) :
    Kept host charSigned glb agent' (es ++ [e]) where
  gated := gated_snoc h.gated fun addr ph ops freed he => absurd he (hother addr ph ops freed)
  flag hset := registered_snoc (h.flag (hflag hset).1) (hflag hset).2

theorem step_kept (pops : PspOps) (agent : Agent) (es : List Event) (act : Act)
    (h : Kept host charSigned glb agent es) :
    ∃ agent' e, step host charSigned glb pops agent act = some (agent', e) ∧
      Kept host charSigned glb agent' (es ++ [e]) := by
  cases act with
  | checkPhy =>
      refine ⟨agent, _, rfl, ?_⟩
      split
      · exact kept_other h nofun fun hflag => ⟨hflag, nofun⟩
      · exact kept_other h nofun fun hflag => ⟨hflag, nofun⟩
  | receive addr ph before ackResult =>
      rw [step]
      split
      · obtain ⟨hfreed, hlen, hdevice, hops, hnext⟩ :=
          receive_spec host charSigned glb pops ackResult agent addr ph before
        refine ⟨_, _, rfl, gated_snoc h.gated fun _ _ _ _ he => ?_, fun hflag => ?_⟩
        · cases he
          refine ⟨hfreed, hlen, hdevice, fun hout => hops ?_⟩
          exact Bool.eq_false_iff.mpr fun hflag => hout (h.flag hflag)
        · rcases hnext hflag with hold | hack
          · exact registered_snoc (h.flag hold) nofun
          · exact ⟨es, addr, ph, _, _, [], rfl, hack, fun _ hmem => absurd hmem List.not_mem_nil⟩
      · exact ⟨_, _, rfl, kept_other h nofun fun hflag => ⟨hflag, nofun⟩⟩
  | connect => exact ⟨_, _, rfl, kept_other h nofun fun hflag => ⟨hflag, nofun⟩⟩
  | disconnect => exact ⟨_, _, rfl, kept_other h nofun nofun⟩

/-- Whatever is received and whenever the connection comes and goes, packets pass the gate. -/
theorem packets_gated (host : Endian) (charSigned : Bool) (glb : PsagentGlb) (pops : PspOps)
    (acts : List Act) :
    ∃ agent es, run (step host charSigned glb pops) ⟨false, true⟩ acts = some (agent, es) ∧
      Gated host charSigned glb es := by
  have hstart : Kept host charSigned glb ⟨false, true⟩ [] :=
    ⟨fun as _ _ _ _ _ he => (by cases as <;> cases he), nofun⟩
  obtain ⟨agent, es, hrun, h⟩ := guarded_log
    (fun agent es act h _ => step_kept pops agent es act h) hstart
    (guarded_true (⟨false, true⟩ : Agent) acts)
  exact ⟨agent, es, hrun, h.gated⟩

end OiAmc.LkmpGate

import OiAmc.Pktcmd
import OiAmc.Script

namespace OiAmc.Pktcmd

open MessageLayout ByteBuffer Pkt OiAmc.Bracket
open ByteOrder (Endian store32_swap32 store16_swap16 putBe32_of_outside putBe16_of_outside)

def Ev.kind (b : Block) : Ev → Bracket
  | .made b' => if b' = b then opens else passes
  | .freed b' => if b' = b then closes else passes
  | .refused _ | .written .. => passes

structure Sent where
  ph : Octets
  size : Int
  ip : Option (List UInt8)
  port : Int

def Ev.sent? : Ev → Option Sent
  | .written ph size ip port => some ⟨ph, size, ip, port⟩
  | .made _ | .freed _ | .refused _ => none

def sent (events : List Ev) : List Sent := events.filterMap Ev.sent?

def Quiet (events : List Ev) : Prop :=
  ∀ e ∈ events, e.kind .packet = passes ∧ e.kind .result = passes ∧ e.sent? = none

namespace Quiet

variable {l l' : List Ev}

theorem nil : Quiet [] := by
  intro e he
  cases he

theorem append (h : Quiet l) (h' : Quiet l') : Quiet (l ++ l') := fun e he =>
  (List.mem_append.mp he).elim (h e) (h' e)

theorem trace_packet (h : Quiet l) : trace (Ev.kind .packet) l = [] :=
  trace_eq_nil _ fun e he => (h e he).1

theorem trace_result (h : Quiet l) : trace (Ev.kind .result) l = [] :=
  trace_eq_nil _ fun e he => (h e he).2.1

theorem sent_eq (h : Quiet l) : sent l = [] :=
  List.filterMap_eq_nil_iff.mpr fun e he => (h e he).2.2

theorem of_decodeArg (a : Answers) (arg : Octets) (len : Int) (m : Message Field) {b : Block}
    (hb : b = .inData ∨ b = .outData) : Quiet (decodeArg a arg len m b).events := by
  intro e he
  simp only [decodeArg] at he
  split_ifs at he
  · obtain rfl := List.mem_singleton.mp he
    rcases hb with rfl | rfl <;> exact ⟨rfl, rfl, rfl⟩
  · cases he

theorem of_handed (m : Message Field) (v : Value Field) : Quiet (handed m v) := by
  intro e he
  unfold handed at he
  split_ifs at he
  · obtain rfl := List.mem_singleton.mp he
    exact ⟨rfl, rfl, rfl⟩
  · cases he

theorem of_release (v : Value Field) {b : Block} (hb : b = .inData ∨ b = .outData) :
    Quiet (release v b) := by
  intro e he
  unfold release at he
  split_ifs at he
  · obtain rfl := List.mem_singleton.mp he
    rcases hb with rfl | rfl <;> exact ⟨rfl, rfl, rfl⟩
  · cases he

end Quiet

/-- What a handler leaves of a command that it may answer. -/
structure SameHead (cmd cmd' : Cmdinfo) : Prop where
  ph : cmd'.ph = cmd.ph
  ip : cmd'.ip = cmd.ip
  port : cmd'.port = cmd.port
  id : cmd'.id = cmd.id
  type : cmd'.type = cmd.type

/-- A handler of commands leaves a result, unless malloc refuses. -/
structure Allocated (cmd : Cmdinfo) (d : Done) : Prop where
  same : SameHead cmd d.cmd
  packet : trace (Ev.kind .packet) d.events = []
  sent : sent d.events = []
  result : (∀ n, .refused n ∉ d.events) →
    trace (Ev.kind .result) d.events = [opens] ∧ d.cmd.result.map Buffer.block = some .result

section Handlers

variable {a : Answers} {cmd : Cmdinfo}

theorem allocateResult_same (n : Int) : SameHead cmd (pktcmdAllocateResult a cmd n).1 := by
  unfold pktcmdAllocateResult
  dsimp only
  split_ifs <;> exact ⟨rfl, rfl, rfl, rfl, rfl⟩

theorem allocated_of {d : Done} {n : Int} {l l' : List Ev} (hl : Quiet l) (hl' : Quiet l')
    (hevents : d.events = l ++ (pktcmdAllocateResult a cmd n).2 ++ l')
    (hsame : SameHead (pktcmdAllocateResult a cmd n).1 d.cmd)
    (hresult : d.cmd.result.map Buffer.block =
      (pktcmdAllocateResult a cmd n).1.result.map Buffer.block) : Allocated cmd d := by
  have hhead : SameHead cmd _ := allocateResult_same (a := a) n
  have hall : SameHead cmd d.cmd := ⟨hsame.ph.trans hhead.ph, hsame.ip.trans hhead.ip,
    hsame.port.trans hhead.port, hsame.id.trans hhead.id, hsame.type.trans hhead.type⟩
  unfold pktcmdAllocateResult at hevents hresult
  dsimp only at hevents hresult
  split_ifs at hevents hresult with halloc
  · refine ⟨hall, ?_, ?_, fun _ => ⟨?_, hresult⟩⟩
    · rw [hevents, trace_append, trace_append, hl.trace_packet, hl'.trace_packet]
      rfl
    · have h := hl.sent_eq
      have h' := hl'.sent_eq
      unfold sent at *
      rw [hevents, List.filterMap_append, List.filterMap_append, h, h']
      rfl
    · rw [hevents, trace_append, trace_append, hl.trace_result, hl'.trace_result]
      rfl
  · refine ⟨hall, ?_, ?_, fun h => absurd ?_ (h ((hdrSize + n).bmod 0x100000000))⟩
    · rw [hevents, trace_append, trace_append, hl.trace_packet, hl'.trace_packet]
      rfl
    · have h := hl.sent_eq
      have h' := hl'.sent_eq
      unfold sent at *
      rw [hevents, List.filterMap_append, List.filterMap_append, h, h']
      rfl
    · rw [hevents]
      exact List.mem_append_left _ (List.mem_append_right _ (.head _))

theorem sameHead_refl (cmd : Cmdinfo) : SameHead cmd cmd := ⟨rfl, rfl, rfl, rfl, rfl⟩

theorem encodeResult_block (cmd : Cmdinfo) (octets : List UInt8) :
    (encodeResult cmd octets).result.map Buffer.block = cmd.result.map Buffer.block := by
  rw [encodeResult, Option.map_map]
  rfl

variable (arg : Octets) (len : Int) (i o : Message Field) (n : Nat)
  (cb : Option (Cmdinfo → Value Field → Int × Value Field)) (hcmd : cmd.type = PKT_TYPE_CMD)

include hcmd

theorem hdlIn_allocated : Allocated cmd (hdlIn a cmd arg len i cb) := by
  have hi := Quiet.of_decodeArg a arg len i (b := .inData) (.inl rfl)
  rw [hdlIn, if_neg (not_not.mpr hcmd)]
  dsimp only
  split_ifs
  · exact allocated_of .nil .nil (by simp) (sameHead_refl _) rfl
  all_goals exact allocated_of .nil hi (by simp) (sameHead_refl _) rfl

theorem hdlInOut_allocated : Allocated cmd (hdlInOut a cmd arg len i o n cb) := by
  have hi := Quiet.of_decodeArg a arg len i (b := .inData) (.inl rfl)
  rw [hdlInOut, if_neg (not_not.mpr hcmd)]
  dsimp only
  split_ifs
  · exact allocated_of .nil .nil (by simp) (sameHead_refl _) rfl
  · exact allocated_of .nil hi (by simp) (sameHead_refl _) rfl
  · exact allocated_of .nil hi (by simp) (sameHead_refl _) rfl
  · exact allocated_of .nil (hi.append (.of_handed _ _))
      (by rw [List.nil_append, List.append_assoc]) ⟨rfl, rfl, rfl, rfl, rfl⟩ (encodeResult_block _ _)
  · exact allocated_of .nil (hi.append (.of_handed _ _))
      (by rw [List.nil_append, List.append_assoc]) ⟨rfl, rfl, rfl, rfl, rfl⟩ (encodeResult_block _ _)

theorem hdlInOutVarsize_allocated : Allocated cmd (hdlInOutVarsize a cmd arg len i o n cb) := by
  have hi := Quiet.of_decodeArg a arg len i (b := .inData) (.inl rfl)
  have hrelease (v : Value Field) := Quiet.of_release v (b := .outData) (.inr rfl)
  rw [hdlInOutVarsize, if_neg (not_not.mpr hcmd)]
  dsimp only
  split_ifs
  · exact allocated_of hi .nil (by simp) (sameHead_refl _) rfl
  · exact allocated_of hi .nil (by simp) (sameHead_refl _) rfl
  · exact allocated_of (hi.append (.of_handed _ _)) (hrelease _) rfl (sameHead_refl _) rfl
  all_goals
    exact allocated_of (hi.append (.of_handed _ _)) (hrelease _) rfl ⟨rfl, rfl, rfl, rfl, rfl⟩
      (encodeResult_block _ _)

theorem hdlInVarsize_allocated : Allocated cmd (hdlInVarsize a cmd arg len i cb) := by
  have hi := Quiet.of_decodeArg a arg len i (b := .inData) (.inl rfl)
  have hrelease (v : Value Field) := Quiet.of_release v (b := .inData) (.inl rfl)
  rw [hdlInVarsize, if_neg (not_not.mpr hcmd)]
  dsimp only
  split_ifs
  · exact allocated_of .nil .nil (by simp) (sameHead_refl _) rfl
  · exact allocated_of .nil hi (by simp) (sameHead_refl _) rfl
  all_goals
    exact allocated_of .nil (hi.append (hrelease _)) (by rw [List.nil_append, List.append_assoc])
      (sameHead_refl _) rfl

theorem hdlInVarsizeOutVarsize_allocated :
    Allocated cmd (hdlInVarsizeOutVarsize a cmd arg len i o n cb) := by
  have hi := Quiet.of_decodeArg a arg len i (b := .inData) (.inl rfl)
  have hrelease (v : Value Field) := Quiet.of_release v (b := .inData) (.inl rfl)
  have hrelease' (v w : Value Field) :=
    (Quiet.of_release v (b := .inData) (.inl rfl)).append (.of_release w (b := .outData) (.inr rfl))
  rw [hdlInVarsizeOutVarsize, if_neg (not_not.mpr hcmd)]
  dsimp only
  split_ifs
  · exact allocated_of hi .nil (by simp) (sameHead_refl _) rfl
  · exact allocated_of hi (hrelease _) rfl (sameHead_refl _) rfl
  · exact allocated_of (hi.append (.of_handed _ _)) (hrelease' _ _) rfl (sameHead_refl _) rfl
  all_goals
    exact allocated_of (hi.append (.of_handed _ _)) (hrelease' _ _) rfl ⟨rfl, rfl, rfl, rfl, rfl⟩
      (encodeResult_block _ _)

theorem cmdcb_allocated (c : Cmd) (abi : Abi) : Allocated cmd (c.cmdcb abi a cmd arg len) := by
  unfold Cmd.cmdcb
  split
  · exact hdlIn_allocated arg len _ _ hcmd
  · exact hdlInOut_allocated arg len _ _ _ _ hcmd
  · exact hdlInOutVarsize_allocated arg len _ _ _ _ hcmd
  · exact hdlInVarsize_allocated arg len _ _ hcmd
  · exact hdlInVarsizeOutVarsize_allocated arg len _ _ _ _ hcmd

omit hcmd in
theorem ackcb_quiet (c : Cmd) (hack : cmd.type ≠ PKT_TYPE_CMD) :
    (c.ackcb a cmd arg len).cmd = cmd ∧ Quiet (c.ackcb a cmd arg len).events := by
  have ho (m : Message Field) : Quiet (decodeAck a cmd arg len m).events := by
    unfold decodeAck
    split_ifs
    · exact .of_decodeArg a arg len m (.inr rfl)
    · exact .nil
  have hrelease (v : Value Field) := Quiet.of_release v (b := .outData) (.inr rfl)
  unfold Cmd.ackcb
  split
  · rw [ackhdl, if_neg hack]
    split_ifs <;> exact ⟨rfl, .nil⟩
  · rw [ackhdlOut, if_neg hack]
    dsimp only
    split_ifs <;> exact ⟨rfl, ho _⟩
  · rw [ackhdlOutVarsize, if_neg hack]
    dsimp only
    split_ifs
    · exact ⟨rfl, ho _⟩
    all_goals exact ⟨rfl, (ho _).append (hrelease _)⟩

end Handlers

theorem forall_octet {P : UInt8 → Prop} (h : ∀ n < 256, P (.ofNat n)) (t : UInt8) : P t := by
  have ht := h t.toNat t.toNat_lt
  rwa [UInt8.ofNat_toNat] at ht

def idBits : UInt8 := ~~~(PKT_TYPE_CMDACK ||| PKT_TYPE_CMDNACK)

theorem type_bits (t : UInt8) : (TYPE_IS_CMD t → t ≠ PKT_TYPE_KEEPALIVE) ∧
    ((if t &&& PKT_TYPE_CMDACK ≠ 0 then PKT_TYPE_CMDACK
      else if t &&& PKT_TYPE_CMDNACK ≠ 0 then PKT_TYPE_CMDNACK
      else PKT_TYPE_CMD) = PKT_TYPE_CMD ↔ t &&& (PKT_TYPE_CMDACK ||| PKT_TYPE_CMDNACK) = 0) := by
  revert t
  refine forall_octet ?_
  decide +kernel

theorem ack_bits (t : UInt8) {ack : UInt8} (hack : ack = PKT_TYPE_CMDACK ∨ ack = PKT_TYPE_CMDNACK) :
    ((t &&& idBits) &&& 0xf3 ||| ack) &&& idBits = t &&& idBits ∧
      ((t &&& idBits) &&& 0xf3 ||| ack) &&& (PKT_TYPE_CMDACK ||| PKT_TYPE_CMDNACK) = ack := by
  revert t
  refine forall_octet ?_
  rcases hack with rfl | rfl
  · decide +kernel
  · decide +kernel

theorem toNat_joinId (t s : UInt8) :
    (t.toUInt16 <<< 8 ||| s.toUInt16).toNat = 256 * t.toNat + s.toNat := by
  have ht := t.toNat_lt
  rw [UInt16.toNat_or, UInt16.toNat_shiftLeft, UInt8.toNat_toUInt16, UInt8.toNat_toUInt16,
    ← shiftLeft_or_octet]
  congr 1
  rw [Nat.shiftLeft_eq, Nat.shiftLeft_eq]
  exact Nat.mod_eq_of_lt (by simp; omega)

theorem high_joinId (t s : UInt8) : ((t.toUInt16 <<< 8 ||| s.toUInt16) >>> 8).toUInt8 = t := by
  have hs := s.toNat_lt
  have ht := t.toNat_lt
  apply UInt8.toNat.inj
  rw [UInt16.toNat_toUInt8, UInt16.toNat_shiftRight, toNat_joinId]
  change (256 * t.toNat + s.toNat) >>> 8 % 256 = _
  rw [Nat.shiftRight_eq_div_pow]
  omega

theorem low_joinId (t s : UInt8) : ((t.toUInt16 <<< 8 ||| s.toUInt16) &&& 0x00ff).toUInt8 = s := by
  have hs := s.toNat_lt
  apply UInt8.toNat.inj
  rw [UInt16.toNat_toUInt8, UInt16.toNat_and, toNat_joinId]
  change ((256 * t.toNat + s.toNat) &&& 255) % 256 = _
  rw [Nat.and_two_pow_sub_one_eq_mod _ 8]
  omega

theorem stamped_of_lt (host : Endian) (ph : Octets) (dev channel : UInt16) (s ns : UInt32) {i : Nat}
    (hi : i < 8) :
    pkthdrSetTs host (pkthdrSetChannel host (pkthdrSetDevice host ph dev) channel) s ns i = ph i := by
  rw [setTs_of_lt _ _ _ _ (by omega), pkthdrSetChannel, store16_swap16,
    putBe16_of_outside _ _ _ (.inl (by omega)), pkthdrSetDevice, store16_swap16,
    putBe16_of_outside _ _ _ (.inl hi)]

section Process

variable (host : Endian) (abi : Abi)

/-- A packet whose type is a command without the bits of an answer. -/
def PlainCommand (ph : Octets) : Prop :=
  TYPE_IS_CMD (pkthdrGetType ph) ∧ pkthdrGetType ph &&& (PKT_TYPE_CMDACK ||| PKT_TYPE_CMDNACK) = 0

instance (ph : Octets) : Decidable (PlainCommand ph) := inferInstanceAs (Decidable (_ ∧ _))

def pktId (ph : Octets) : UInt8 × UInt8 := (pkthdrGetType ph &&& idBits, pkthdrGetSubtype ph)

/-- A call of pktcmd_process, with the command that the one before left. -/
structure Call where
  ctl : Cmdinfo
  answers : Answers
  packet : Option Packet

namespace Call

def processed (c : Call) : Processed := pktcmdProcess host abi c.answers c.ctl c.packet

def isCommand (c : Call) : Bool :=
  match c.packet with
  | none => false
  | some p => decide (PlainCommand p.ph)

def Answered (c : Call) (s : Sent) : Prop :=
  ∃ p cmd, c.packet = some p ∧ pktcmdReceived c.ctl p = some cmd ∧ s.ip = some p.ip ∧
    s.port = p.port ∧ pktId s.ph = pktId p.ph ∧
    pkthdrGetType s.ph &&& (PKT_TYPE_CMDACK ||| PKT_TYPE_CMDNACK) =
      if 0 ≤ (pktcmdHandle host abi c.answers cmd p.ph).rc then PKT_TYPE_CMDACK else PKT_TYPE_CMDNACK

end Call

def calls : Cmdinfo → List (Answers × Option Packet) → List Call
  | _, [] => []
  | ctl, (a, packet) :: steps =>
      ⟨ctl, a, packet⟩ :: calls (pktcmdProcess host abi a ctl packet).ctl steps

def log (cs : List Call) : List Ev := cs.flatMap fun c => (c.processed host abi).events

variable {a : Answers} {ctl cmd : Cmdinfo} {p : Packet}

theorem received_eq_none (h : ¬TYPE_IS_CMD (pkthdrGetType p.ph)) : pktcmdReceived ctl p = none := by
  rw [pktcmdReceived, pktcmdProcessCheckCmd]
  dsimp only
  split_ifs
  · rfl
  · rfl

theorem received_spec (ctl : Cmdinfo) (h : TYPE_IS_CMD (pkthdrGetType p.ph)) : ∃ cmd, pktcmdReceived ctl p = some cmd ∧
    cmd.ph = some p.ph ∧ cmd.ip = p.ip ∧ cmd.port = p.port ∧ cmd.result = none ∧
    cmd.id = (pkthdrGetType p.ph &&& idBits).toUInt16 <<< 8 ||| (pkthdrGetSubtype p.ph).toUInt16 ∧
    (cmd.type = PKT_TYPE_CMD ↔ PlainCommand p.ph) := by
  have hbits := type_bits (pkthdrGetType p.ph)
  rw [pktcmdReceived, pktcmdProcessCheckCmd]
  dsimp only
  rw [if_neg (hbits.1 h), if_neg (not_not.mpr h)]
  exact ⟨_, rfl, rfl, rfl, rfl, rfl, rfl, hbits.2.trans (and_iff_right h).symm⟩

theorem reply_type {cmd : Cmdinfo} (hid : cmd.id = (pkthdrGetType p.ph &&& idBits).toUInt16 <<< 8 |||
      (pkthdrGetSubtype p.ph).toUInt16)
    (hack : cmd.ackType = PKT_TYPE_CMDACK ∨ cmd.ackType = PKT_TYPE_CMDNACK) (octets : Octets) :
    pktId (pktcmdReply host a cmd octets) = pktId p.ph ∧
      pkthdrGetType (pktcmdReply host a cmd octets) &&& (PKT_TYPE_CMDACK ||| PKT_TYPE_CMDNACK) =
        cmd.ackType := by
  have htype : pkthdrGetType (pktcmdReply host a cmd octets) =
      (pkthdrGetType p.ph &&& idBits) &&& 0xf3 ||| cmd.ackType := by
    rw [pktcmdReply, pkthdrGetType, setTs_of_lt _ _ _ _ (by decide), hid, high_joinId]
    rfl
  have hsub : pkthdrGetSubtype (pktcmdReply host a cmd octets) = pkthdrGetSubtype p.ph := by
    rw [pktcmdReply, pkthdrGetSubtype, setTs_of_lt _ _ _ _ (by decide), hid, low_joinId]
    rfl
  obtain ⟨hkeep, hbits⟩ := ack_bits (pkthdrGetType p.ph) hack
  refine ⟨?_, ?_⟩
  · rw [pktId, htype, hsub, hkeep]
    rfl
  · rw [htype, hbits]

theorem handle_command (hph : cmd.ph = some p.ph) (hcmd : cmd.type = PKT_TYPE_CMD)
    (h : ∀ n, .refused n ∉ (pktcmdHandle host abi a cmd p.ph).events) :
    let d := pktcmdHandle host abi a cmd p.ph
    d.cmd.ip = cmd.ip ∧ d.cmd.port = cmd.port ∧ d.cmd.id = cmd.id ∧ sent d.events = [] ∧
      trace (Ev.kind .packet) d.events = [] ∧
      ((d.cmd.ph.isSome ∧ trace (Ev.kind .result) d.events = [opens] ∧
          ∃ r, d.cmd.result = some r ∧ r.block = .result) ∨
        (d.cmd.ph = none ∧ trace (Ev.kind .result) d.events = [] ∧
          ∃ r, d.cmd.result = some r ∧ r.block = .packet)) := by
  unfold pktcmdHandle at *
  cases hquery : pktcmdHtQuery cmd.id with
  | none =>
      have hdone : pktcmdDefaultCallback host cmd = ⟨-1, { cmd with
          result := some ⟨.packet, p.ph⟩
          size := pkthdrGetPlen host p.ph
          ph := none }, [], none⟩ := by
        rw [pktcmdDefaultCallback, if_neg (not_not.mpr hcmd), hph]
      dsimp only
      rw [hdone]
      exact ⟨rfl, rfl, rfl, rfl, rfl, .inr ⟨rfl, rfl, _, rfl, rfl⟩⟩
  | some c =>
      simp only [hquery, if_pos hcmd] at h ⊢
      have hdone := cmdcb_allocated (a := a) (fun i => p.ph (20 + i)) (pkthdrGetDlen host p.ph) hcmd c abi
      obtain ⟨htrace, hresult⟩ := hdone.result h
      obtain ⟨r, hr, hblock⟩ := Option.map_eq_some_iff.mp hresult
      refine ⟨hdone.same.ip, hdone.same.port, hdone.same.id, hdone.sent, hdone.packet, .inl ⟨?_, htrace, r, hr, hblock⟩⟩
      rw [hdone.same.ph, hph]
      rfl

theorem handle_ack (hcmd : cmd.type ≠ PKT_TYPE_CMD) :
    (pktcmdHandle host abi a cmd p.ph).cmd = cmd ∧ Quiet (pktcmdHandle host abi a cmd p.ph).events := by
  unfold pktcmdHandle
  cases hquery : pktcmdHtQuery cmd.id with
  | none =>
      dsimp only
      rw [pktcmdDefaultCallback, if_pos hcmd]
      exact ⟨rfl, .nil⟩
  | some c =>
      simp only [if_neg hcmd]
      exact ackcb_quiet _ _ c hcmd

theorem sent_append (l l' : List Ev) : sent (l ++ l') = sent l ++ sent l' := List.filterMap_append

theorem sent_made (b : Block) (l : List Ev) : sent (.made b :: l) = sent l := rfl

theorem trace_made {b b' : Block} (l : List Ev) :
    trace (Ev.kind b) (.made b' :: l) = if b' = b then opens :: trace (Ev.kind b) l else trace (Ev.kind b) l := by
  by_cases h : b' = b <;> simp [trace, Ev.kind, h]

theorem trace_freed {b b' : Block} (l : List Ev) :
    trace (Ev.kind b) (.freed b' :: l) = if b' = b then closes :: trace (Ev.kind b) l else trace (Ev.kind b) l := by
  by_cases h : b' = b <;> simp [trace, Ev.kind, h]

theorem trace_written (b : Block) (ph : Octets) (size : Int) (ip : Option (List UInt8)) (port : Int)
    (l : List Ev) : trace (Ev.kind b) (.written ph size ip port :: l) = trace (Ev.kind b) l := rfl

theorem acked_type (d : Done) : (acked d).ackType = PKT_TYPE_CMDACK ∨ (acked d).ackType = PKT_TYPE_CMDNACK := by
  rw [acked]
  dsimp only
  split_ifs
  · exact .inr rfl
  · exact .inl rfl

theorem trace_freePacket_some (h : cmd.ph.isSome) (b : Block) :
    trace (Ev.kind b) (freePacket cmd) = if .packet = b then [closes] else [] := by
  rw [freePacket, if_pos h, trace_freed]
  rfl

theorem sent_freePacket (cmd : Cmdinfo) : sent (freePacket cmd) = [] := by
  unfold freePacket
  split_ifs <;> rfl

theorem processed_spec (c : Call) (h : ∀ n, .refused n ∉ (c.processed host abi).events) :
    ((c.isCommand = true ∧ ∃ s, sent (c.processed host abi).events = [s] ∧ c.Answered host abi s) ∨
      (c.isCommand = false ∧ sent (c.processed host abi).events = [])) ∧
    Balanced (Ev.kind .packet) (c.processed host abi).events ∧
    Balanced (Ev.kind .result) (c.processed host abi).events := by
  obtain ⟨ctl, a, packet⟩ := c
  cases packet with
  | none => exact ⟨.inr ⟨rfl, rfl⟩, balanced_of_trace _ (.inl rfl), balanced_of_trace _ (.inl rfl)⟩
  | some p =>
      by_cases htype : TYPE_IS_CMD (pkthdrGetType p.ph)
      swap
      · have hplain : ¬PlainCommand p.ph := fun hp => htype hp.1
        rw [Call.processed, pktcmdProcess, received_eq_none htype] at *
        exact ⟨.inr ⟨decide_eq_false hplain, rfl⟩, balanced_of_trace _ (.inr rfl),
          balanced_of_trace _ (.inl rfl)⟩
      obtain ⟨cmd, hcmd, hph, hip, hport, hresult, hid, hplain⟩ := received_spec ctl htype
      rw [Call.processed, pktcmdProcess] at *
      simp only [hcmd] at h ⊢
      by_cases hcommand : cmd.type = PKT_TYPE_CMD
      · have hd : ∀ n, .refused n ∉ (pktcmdHandle host abi a cmd p.ph).events := by
          intro n hn
          apply h n
          split
          · exact .tail _ (List.mem_append_left _ hn)
          · exact .tail _ (List.mem_append_left _ (List.mem_append_left _ hn))
        obtain ⟨hip', hport', hid', hsent, hpacket, hresults⟩ := handle_command host abi hph hcommand hd
        set d := pktcmdHandle host abi a cmd p.ph with hdone
        obtain ⟨r, hr⟩ : ∃ r, d.cmd.result = some r :=
          hresults.elim (fun h => h.2.2.imp fun _ => And.left) fun h => h.2.2.imp fun _ => And.left
        have hacked : (acked d).result = some r := hr
        simp only [hacked]
        refine ⟨.inl ⟨decide_eq_true (hplain.mp hcommand), ⟨pktcmdReply host a (acked d) r.octets,
          (acked d).size, some (acked d).ip, (acked d).port⟩, ?_, p, cmd, rfl, hcmd,
          congrArg some (hip'.trans hip), hport'.trans hport, ?_⟩, ?_, ?_⟩
        · rw [sent_append, sent_made, sent_append, hsent, sent_freePacket]
          rfl
        · have hjoined : (acked d).id = _ := hid'.trans hid
          obtain ⟨hkeep, hbits⟩ := reply_type host (a := a) hjoined (acked_type d) r.octets
          refine ⟨hkeep, hbits.trans ?_⟩
          rw [← hdone, acked]
          split_ifs with hneg hpos
          · omega
          · rfl
          · rfl
          · omega
        all_goals
          apply balanced_of_trace
          rw [trace_append, trace_made, trace_append, trace_written, trace_freed]
        · right
          rw [if_pos rfl, hpacket]
          rcases hresults with ⟨hph', -, r', hr', hblock⟩ | ⟨hph', -, r', hr', hblock⟩
          · obtain rfl := Option.some.inj (hr.symm.trans hr')
            rw [trace_freePacket_some hph', hblock]
            rfl
          · obtain rfl := Option.some.inj (hr.symm.trans hr')
            rw [freePacket, hph', hblock]
            rfl
        · rw [if_neg (by decide)]
          rcases hresults with ⟨hph', htrace, r', hr', hblock⟩ | ⟨hph', htrace, r', hr', hblock⟩
          · obtain rfl := Option.some.inj (hr.symm.trans hr')
            right
            rw [htrace, trace_freePacket_some hph', hblock]
            rfl
          · obtain rfl := Option.some.inj (hr.symm.trans hr')
            left
            rw [htrace, freePacket, hph', hblock]
            rfl
      · obtain ⟨hsame, hquiet⟩ := handle_ack host abi (a := a) (p := p) hcommand
        have hnone : (acked (pktcmdHandle host abi a cmd p.ph)).result = none := by
          rw [acked, hsame]
          exact hresult
        have hsome : cmd.ph.isSome := by rw [hph]; rfl
        simp only [hnone, hsame]
        refine ⟨.inr ⟨decide_eq_false (mt hplain.mpr hcommand), ?_⟩, balanced_of_trace _ (.inr ?_),
          balanced_of_trace _ (.inl ?_)⟩
        · rw [sent_made, sent_append, hquiet.sent_eq, sent_freePacket]
          rfl
        · rw [trace_made, if_pos rfl, trace_append, hquiet.trace_packet, trace_freePacket_some hsome]
          rfl
        · rw [trace_made, if_neg (by decide), trace_append, hquiet.trace_result,
            trace_freePacket_some hsome]
          rfl

theorem log_spec (cs : List Call) (h : ∀ n, .refused n ∉ log host abi cs) :
    List.Forall₂ (Call.Answered host abi) (cs.filter Call.isCommand) (sent (log host abi cs)) ∧
      Balanced (Ev.kind .packet) (log host abi cs) ∧ Balanced (Ev.kind .result) (log host abi cs) := by
  induction cs with
  | nil => exact ⟨.nil, balanced_of_trace _ (.inl rfl), balanced_of_trace _ (.inl rfl)⟩
  | cons c cs ih =>
      rw [log, List.flatMap_cons] at h ⊢
      change ∀ n, .refused n ∉ (c.processed host abi).events ++ log host abi cs at h
      obtain ⟨hsent, hpacket, hresult⟩ :=
        processed_spec host abi c fun n hn => h n (List.mem_append_left _ hn)
      obtain ⟨hsents, hpackets, hresults⟩ := ih fun n hn => h n (List.mem_append_right _ hn)
      refine ⟨?_, balanced_append _ hpacket hpackets, balanced_append _ hresult hresults⟩
      rw [sent_append]
      rcases hsent with ⟨hcommand, s, hone, hs⟩ | ⟨hcommand, hnone⟩
      · rw [List.filter_cons_of_pos hcommand, hone]
        exact .cons hs hsents
      · rw [List.filter_cons_of_neg (by rw [hcommand]; decide), hnone]
        exact hsents

theorem id_of_query {id : UInt16} {c : Cmd} (h : pktcmdHtQuery id = some c) : c.id = id := by
  have hfound := List.find?_some h
  exact of_decide_eq_true hfound

theorem id_high (c : Cmd) : (c.id >>> 8 &&& 0xff).toUInt8 ∈ ([0x20, 0x21, 0x23] : List UInt8) ∧
    c.id = (c.id >>> 8 &&& 0xff).toUInt8.toUInt16 <<< 8 ||| (c.id &&& 0xff).toUInt8.toUInt16 := by
  cases c <;> decide

theorem checkCmd_of_id {ph : Octets} {c : Cmd} {type : UInt8}
    (htype : type = PKT_TYPE_CMD ∨ type = PKT_TYPE_CMDACK ∨ type = PKT_TYPE_CMDNACK)
    (hhigh : pkthdrGetType ph = (c.id >>> 8 &&& 0xff).toUInt8 ||| type)
    (hlow : pkthdrGetSubtype ph = (c.id &&& 0xff).toUInt8) (cmd : Cmdinfo) :
    pktcmdProcessCheckCmd ph cmd = some { cmd with
      id := c.id
      type := type } := by
  obtain ⟨hmem, hid⟩ := id_high c
  rw [pktcmdProcessCheckCmd, hhigh, hlow]
  generalize (c.id >>> 8 &&& 0xff).toUInt8 = t at *
  have hbits : t ||| type ≠ PKT_TYPE_KEEPALIVE ∧ TYPE_IS_CMD (t ||| type) ∧
      (t ||| type) &&& ~~~(PKT_TYPE_CMDACK ||| PKT_TYPE_CMDNACK) = t ∧
      (if (t ||| type) &&& PKT_TYPE_CMDACK ≠ 0 then PKT_TYPE_CMDACK
        else if (t ||| type) &&& PKT_TYPE_CMDNACK ≠ 0 then PKT_TYPE_CMDNACK
        else PKT_TYPE_CMD) = type := by
    simp only [List.mem_cons, List.not_mem_nil, or_false] at hmem
    rcases hmem with rfl | rfl | rfl <;> rcases htype with rfl | rfl | rfl <;> decide
  obtain ⟨halive, hcmd, hstrip, hclass⟩ := hbits
  rw [if_neg halive, if_neg (not_not.mpr hcmd), hstrip, hclass, ← hid]

theorem sendto_checked {id : UInt16} {type : UInt8} {arg : Option (Value Field)} {len : Int}
    {ip : Option (List UInt8)} {port : Int} {s : Sent}
    (hs : s ∈ sent (pktcmdSendto host a id type arg len ip port).2) (cmd : Cmdinfo) :
    pktcmdProcessCheckCmd s.ph cmd = some { cmd with
      id := id
      type := type } := by
  unfold pktcmdSendto at hs
  cases arg with
  | none => cases hs
  | some v =>
      by_cases harg : len < 1 ∨ type ≠ PKT_TYPE_CMD ∧ type ≠ PKT_TYPE_CMDACK ∧ type ≠ PKT_TYPE_CMDNACK
      · simp only [if_pos harg] at hs
        cases hs
      simp only [if_neg harg] at hs
      cases hquery : pktcmdHtQuery id with
      | none =>
          rw [hquery] at hs
          cases hs
      | some c =>
          obtain rfl := id_of_query hquery
          simp only [hquery] at hs
          generalize (if type = PKT_TYPE_CMD then _ else _ : List UInt8) = octets at hs
          split_ifs at hs
          · cases hs
          · obtain rfl := List.mem_singleton.mp hs
            apply checkCmd_of_id (by tauto)
            · exact stamped_of_lt host _ _ _ _ _ (i := 4) (by decide)
            · exact stamped_of_lt host _ _ _ _ _ (i := 5) (by decide)
          · cases hs

/-- Structures without padding. -/
def packed : Abi where
  sizeof c := (c.output.map members).getD 0
  members_le := by
    intro c m hm
    rw [Option.mem_def.mp hm]
    exact le_refl _
  sizeof_le := by
    intro c
    cases c <;> decide

/-- A device of the model 0x41, and memory for everything. -/
def deviceAnswers : Answers where
  room n := decide (0 ≤ n)
  room_nonneg _ h := of_decide_eq_true h
  alloc n := decide (0 ≤ n)
  alloc_nonneg _ h := of_decide_eq_true h
  sec := 0
  nsec := 0
  devcmdcb _ := some fun _ _ => (0, (Value.cleared Field.type).setNum .deviceModel 0x41)
  devackcb _ := none

/-- CMD_GET_HW_MODEL, and its answer. -/
def modelPackets : List (Answers × Option Packet) :=
  [(deviceAnswers, some ⟨fun i => [0x7e, 0x5a, 0, 6, 0x20, 1, 0, 3].getD i 0, [], 0⟩),
    (deviceAnswers, some ⟨fun i => [0x7e, 0x5a, 0, 6, 0x28, 1, 0, 3].getD i 0, [], 0⟩)]

def idle : Cmdinfo := ⟨none, [], 0, 0, 0, none, 0, 0⟩

def Ev.isRefused : Ev → Bool
  | .refused _ => true
  | .made _ | .freed _ | .written .. => false

theorem model_not_refused (n : Int) : .refused n ∉ log .little packed (calls .little packed idle modelPackets) := by
  have hall : (log .little packed (calls .little packed idle modelPackets)).any Ev.isRefused = false := by
    decide
  intro h
  have hrefused := List.any_eq_false.mp hall _ h
  exact hrefused rfl

end Process

end OiAmc.Pktcmd

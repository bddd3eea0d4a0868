import OiAmc.PktcmdReplies
import OiAmc.PktcmdRoundTrip

namespace OiAmc.Pktcmd

open MessageLayout Pkt OiAmc.Bracket

/-- The blocks of both arguments are freed, each of them once. -/
def Owned (events : List Ev) : Prop :=
  Balanced (Ev.kind .inData) events ∧ Balanced (Ev.kind .outData) events

/-- What OutEncode wrote has room behind the header of the result, and a handler that did
not fail leaves the size of both. -/
structure Fits (d : Done) : Prop where
  room : ∀ e ∈ d.encoded, (e.1.length : Int) ≤ e.2
  size : 0 ≤ d.rc → d.cmd.size = hdrSize + ((d.encoded.map fun e => e.1.length).getD 0 : Nat)

def EmptyBlock (v : Value Field) : Prop := v.data.isSome ∧ v.int .size = 0

def BlockLast (m : Message Field) : Prop :=
  (∀ g ∈ m.decode.dropLast, g.block? = none) ∧ ∀ t ∈ m.blocks, t.1 = .size

instance (m : Message Field) : Decidable (BlockLast m) := inferInstanceAs (Decidable (_ ∧ _))

theorem input_blockLast (c : Cmd) : BlockLast c.input := by
  cases c <;> decide

theorem outArg_blockLast (c : Cmd) : BlockLast c.outArg := by
  cases c <;> decide

section Pieces

variable {a : Answers} {cmd : Cmdinfo} {arg : Octets} {len : Int} {m : Message Field}

theorem decodeArg_isSome (hm : BlockLast m) (b : Block) (h : (decodeArg a arg len m b).value.data.isSome) :
    (decodeArg a arg len m b).ok = true ∧ 0 ≤ (decodeArg a arg len m b).value.int .size := by
  obtain ⟨hok, t, ht, hroom⟩ := read_block_last hm.1 arg a.room len h
  rw [hm.2 t ht] at hroom
  exact ⟨hok, a.room_nonneg _ hroom⟩

theorem decodeArg_none (hm : BlockLast m) (hblocks : m.blocks = []) (b : Block) :
    (decodeArg a arg len m b).value.data = none := by
  by_contra h
  obtain ⟨-, t, ht, -⟩ := read_block_last hm.1 arg a.room len (Option.isSome_iff_ne_none.mpr h)
  rw [hblocks] at ht
  cases ht

theorem trace_if_made (P : Prop) [Decidable P] (b b' : Block) :
    trace (Ev.kind b') (if P then [.made b] else []) = if b = b' ∧ P then [opens] else [] := by
  by_cases hP : P <;> by_cases hb : b = b' <;> simp [trace, Ev.kind, hP, hb]

theorem trace_if_freed (P : Prop) [Decidable P] (b b' : Block) :
    trace (Ev.kind b') (if P then [.freed b] else []) = if b = b' ∧ P then [closes] else [] := by
  by_cases hP : P <;> by_cases hb : b = b' <;> simp [trace, Ev.kind, hP, hb]

theorem trace_decodeArg (m : Message Field) (b b' : Block) :
    trace (Ev.kind b') (decodeArg a arg len m b).events =
      if b = b' ∧ (decodeArg a arg len m b).value.data.isSome then [opens] else [] :=
  trace_if_made _ b b'

theorem trace_handed (m : Message Field) (v : Value Field) (b : Block) :
    trace (Ev.kind b) (handed m v) =
      if .outData = b ∧ .data ∈ m.fields ∧ v.data.isSome then [opens] else [] := trace_if_made _ _ b

theorem trace_release (v : Value Field) (b b' : Block) :
    trace (Ev.kind b') (release v b) =
      if b = b' ∧ v.int .size > 0 ∧ v.data.isSome then [closes] else [] := trace_if_freed _ b b'

theorem trace_allocate (n : Int) {b : Block} (hb : b = .inData ∨ b = .outData) :
    trace (Ev.kind b) (pktcmdAllocateResult a cmd n).2 = [] := by
  unfold pktcmdAllocateResult
  dsimp only
  split_ifs
  · rcases hb with rfl | rfl <;> rfl
  · rfl

/-- A block that is freed whenever its size is positive stays when it is empty. -/
theorem balanced_iff_of_traces {b : Block} {events : List Ev} {P Q : Prop} [Decidable P] [Decidable Q]
    (hQ : Q → P)
    (h : trace (Ev.kind b) events = (if P then [opens] else []) ++ if Q then [closes] else []) :
    Balanced (Ev.kind b) events ↔ (P → Q) := by
  rw [balanced_iff_trace, h]
  by_cases hP : P
  · by_cases hq : Q
    · simp [hP, hq, watch]
    · simp [hP, hq, watch]
  · simp [hP, mt hQ hP]

end Pieces

section Templates

variable {a : Answers} {cmd : Cmdinfo} (arg : Octets) (len : Int) (i o : Message Field) (n : Nat)
  (cb : Option (Cmdinfo → Value Field → Int × Value Field))

theorem owned_nil : Owned [] := ⟨balanced_of_trace _ (.inl rfl), balanced_of_trace _ (.inl rfl)⟩

theorem hdlIn_owned (hi : (decodeArg a arg len i .inData).value.data = none) :
    Owned (hdlIn a cmd arg len i cb).events := by
  unfold hdlIn
  dsimp only
  split_ifs
  · exact owned_nil
  all_goals
    refine ⟨balanced_of_trace _ (.inl ?_), balanced_of_trace _ (.inl ?_)⟩
    · simp [trace_append, trace_decodeArg, trace_allocate, hi]
    · simp [trace_append, trace_decodeArg, trace_allocate]

theorem hdlInOut_owned (hi : (decodeArg a arg len i .inData).value.data = none)
    (ho : Field.data ∉ o.fields) : Owned (hdlInOut a cmd arg len i o n cb).events := by
  unfold hdlInOut
  dsimp only
  split_ifs
  · exact owned_nil
  all_goals
    refine ⟨balanced_of_trace _ (.inl ?_), balanced_of_trace _ (.inl ?_)⟩
    · simp [trace_append, trace_decodeArg, trace_allocate, trace_handed, hi]
    · simp [trace_append, trace_decodeArg, trace_allocate, trace_handed, ho]

/-- What a handler does with the block of its argument and the one of its answer. -/
theorem owned_iff {events : List Ev} {I O : Prop} [Decidable I] [Decidable O] {v w : Value Field}
    (hv : v.data.isSome → 0 ≤ v.int .size) (hw : w.data.isSome → 0 ≤ w.int .size)
    (hin : trace (Ev.kind .inData) events = (if I ∧ v.data.isSome then [opens] else []) ++
      if I ∧ v.int .size > 0 ∧ v.data.isSome then [closes] else [])
    (hout : trace (Ev.kind .outData) events = (if O ∧ w.data.isSome then [opens] else []) ++
      if O ∧ w.int .size > 0 ∧ w.data.isSome then [closes] else []) :
    Owned events ↔ ¬(I ∧ EmptyBlock v) ∧ ¬(O ∧ EmptyBlock w) := by
  have hone {b : Block} {P : Prop} [Decidable P] {v : Value Field} (hv : v.data.isSome → 0 ≤ v.int .size)
      (h : trace (Ev.kind b) events = (if P ∧ v.data.isSome then [opens] else []) ++
        if P ∧ v.int .size > 0 ∧ v.data.isSome then [closes] else []) :
      Balanced (Ev.kind b) events ↔ ¬(P ∧ EmptyBlock v) := by
    rw [balanced_iff_of_traces (fun h => ⟨h.1, h.2.2⟩) h, EmptyBlock]
    constructor
    · rintro himp ⟨hP, hsome, hzero⟩
      have hpos := (himp ⟨hP, hsome⟩).2.1
      omega
    · rintro hnot ⟨hP, hsome⟩
      have hnonneg := hv hsome
      have hne : v.int .size ≠ 0 := fun hzero => hnot ⟨hP, hsome, hzero⟩
      exact ⟨hP, by omega, hsome⟩
  exact and_congr (hone hv hin) (hone hw hout)

theorem allocate_zero : (pktcmdAllocateResult a cmd 0).1.result.isNone ↔ a.alloc 20 = false := by
  change (if a.alloc 20 = true then _ else _ : Cmdinfo × List Ev).1.result.isNone ↔ _
  cases a.alloc 20 <;> simp

theorem hdlInVarsize_owned (hcmd : cmd.type = PKT_TYPE_CMD) (hi : BlockLast i) :
    Owned (hdlInVarsize a cmd arg len i cb).events ↔
      ¬(a.alloc 20 = true ∧ EmptyBlock (decodeArg a arg len i .inData).value) := by
  have hdecode : (decodeArg a arg len i .inData).value.data.isSome → _ := decodeArg_isSome hi .inData
  rw [hdlInVarsize, if_neg (not_not.mpr hcmd)]
  dsimp only
  by_cases halloc : (pktcmdAllocateResult a cmd 0).1.result.isNone
  · rw [if_pos halloc]
    refine iff_of_true ⟨balanced_of_trace _ (.inl ?_), balanced_of_trace _ (.inl ?_)⟩ ?_
    · exact trace_allocate _ (.inl rfl)
    · exact trace_allocate _ (.inr rfl)
    · rw [allocate_zero.mp halloc]
      rintro ⟨h, -⟩
      cases h
  rw [if_neg halloc]
  have hgot : a.alloc 20 = true := by simpa using mt allocate_zero.mpr halloc
  rw [hgot, and_iff_right rfl]
  by_cases hok : (decodeArg a arg len i .inData).ok = false
  · have hnone : ¬(decodeArg a arg len i .inData).value.data.isSome = true := fun h =>
      absurd (hok.symm.trans (hdecode h).1) (by decide)
    rw [if_pos hok]
    refine iff_of_true ⟨balanced_of_trace _ (.inl ?_), balanced_of_trace _ (.inl ?_)⟩ fun h => hnone h.1
    · simp [trace_append, trace_decodeArg, trace_allocate, hnone]
    · simp [trace_append, trace_decodeArg, trace_allocate]
  · rw [if_neg hok]
    have hpath : Owned ((pktcmdAllocateResult a cmd 0).2 ++ (decodeArg a arg len i .inData).events ++
          release (decodeArg a arg len i .inData).value .inData) ↔
        ¬(True ∧ EmptyBlock (decodeArg a arg len i .inData).value) ∧
          ¬(False ∧ EmptyBlock (.cleared Field.type)) := owned_iff
      (fun h => (hdecode h).2) (fun h => by cases h)
      (by simp [trace_append, trace_decodeArg, trace_allocate, trace_release])
      (by simp [trace_append, trace_decodeArg, trace_allocate, trace_release])
    rw [true_and, false_and, not_false_iff, and_true] at hpath
    split_ifs <;> exact hpath

theorem hdlInOutVarsize_owned (hcmd : cmd.type = PKT_TYPE_CMD)
    (hi : (decodeArg a arg len i .inData).value.data = none) (ho : Field.data ∈ o.fields)
    (hout : 0 ≤ (callCmdcb cmd cb (decodeArg a arg len i .inData).value).1 →
      0 ≤ (callCmdcb cmd cb (decodeArg a arg len i .inData).value).2.int .size) :
    Owned (hdlInOutVarsize a cmd arg len i o n cb).events ↔
      ¬((decodeArg a arg len i .inData).ok = true ∧
        0 ≤ (callCmdcb cmd cb (decodeArg a arg len i .inData).value).1 ∧
        EmptyBlock (callCmdcb cmd cb (decodeArg a arg len i .inData).value).2) := by
  rw [hdlInOutVarsize, if_neg (not_not.mpr hcmd)]
  dsimp only
  by_cases hok : (decodeArg a arg len i .inData).ok = false
  · rw [if_pos hok, hok]
    refine iff_of_true ⟨balanced_of_trace _ (.inl ?_), balanced_of_trace _ (.inl ?_)⟩ fun h => by cases h.1
    · simp [trace_append, trace_decodeArg, trace_allocate, hi]
    · simp [trace_append, trace_decodeArg, trace_allocate]
  rw [if_neg hok, and_iff_right (Bool.eq_true_of_not_eq_false hok)]
  set w := callCmdcb cmd cb (decodeArg a arg len i .inData).value
  by_cases hfail : w.1 < 0
  · rw [if_pos hfail]
    refine iff_of_true ⟨balanced_of_trace _ (.inl ?_), balanced_of_trace _ (.inl ?_)⟩ fun h => by omega
    · simp [trace_append, trace_decodeArg, trace_allocate, hi]
    · simp [trace_append, trace_decodeArg, trace_allocate]
  rw [if_neg hfail, and_iff_right (not_lt.mp hfail)]
  have hpath : Owned ((decodeArg a arg len i .inData).events ++ handed o w.2 ++
        (pktcmdAllocateResult a cmd (n + 64 + w.2.int .size)).2 ++ release w.2 .outData) ↔
      ¬(False ∧ EmptyBlock (.cleared Field.type)) ∧ ¬(True ∧ EmptyBlock w.2) := owned_iff
    (fun h => by cases h) (fun _ => hout (by omega))
    (by simp [trace_append, trace_decodeArg, trace_allocate, trace_handed, trace_release, hi])
    (by simp [trace_append, trace_decodeArg, trace_allocate, trace_handed, trace_release, ho])
  rw [true_and, false_and, not_false_iff, true_and] at hpath
  split_ifs <;> exact hpath

theorem hdlInVarsizeOutVarsize_owned (hcmd : cmd.type = PKT_TYPE_CMD) (hi : BlockLast i)
    (ho : Field.data ∈ o.fields)
    (hout : 0 ≤ (callCmdcb cmd cb (decodeArg a arg len i .inData).value).1 →
      0 ≤ (callCmdcb cmd cb (decodeArg a arg len i .inData).value).2.int .size) :
    Owned (hdlInVarsizeOutVarsize a cmd arg len i o n cb).events ↔
      ¬EmptyBlock (decodeArg a arg len i .inData).value ∧
      ¬((decodeArg a arg len i .inData).ok = true ∧
        0 ≤ (callCmdcb cmd cb (decodeArg a arg len i .inData).value).1 ∧
        EmptyBlock (callCmdcb cmd cb (decodeArg a arg len i .inData).value).2) := by
  have hdecode : (decodeArg a arg len i .inData).value.data.isSome → _ := decodeArg_isSome hi .inData
  rw [hdlInVarsizeOutVarsize, if_neg (not_not.mpr hcmd)]
  dsimp only
  set v := decodeArg a arg len i .inData
  by_cases hok : v.ok = false
  · have hnone : ¬v.value.data.isSome = true := fun h =>
      absurd (hok.symm.trans (hdecode h).1) (by decide)
    rw [if_pos hok, hok]
    refine iff_of_true ⟨balanced_of_trace _ (.inl ?_), balanced_of_trace _ (.inl ?_)⟩
      ⟨fun h => hnone h.1, fun h => by cases h.1⟩
    · simp [v, trace_append, trace_decodeArg, trace_allocate, hnone]
    · simp [v, trace_append, trace_decodeArg, trace_allocate]
  rw [if_neg hok, and_iff_right (Bool.eq_true_of_not_eq_false hok)]
  set w := callCmdcb cmd cb v.value
  by_cases hfail : w.1 < 0
  · rw [if_pos hfail]
    have hpath : Owned (v.events ++ (pktcmdAllocateResult a cmd 0).2 ++ release v.value .inData) ↔
        ¬(True ∧ EmptyBlock v.value) ∧ ¬(False ∧ EmptyBlock (.cleared Field.type)) := owned_iff
      (fun h => (hdecode h).2) (fun h => by cases h)
      (by simp [v, trace_append, trace_decodeArg, trace_allocate, trace_release])
      (by simp [v, trace_append, trace_decodeArg, trace_allocate, trace_release])
    rw [true_and, false_and, not_false_iff, and_true] at hpath
    refine hpath.trans (and_iff_left ?_).symm
    rintro ⟨hpos, -⟩
    omega
  rw [if_neg hfail, and_iff_right (not_lt.mp hfail)]
  have hpath : Owned (v.events ++ handed o w.2 ++ (pktcmdAllocateResult a cmd (n + 64 + w.2.int .size)).2 ++
        (release v.value .inData ++ release w.2 .outData)) ↔
      ¬(True ∧ EmptyBlock v.value) ∧ ¬(True ∧ EmptyBlock w.2) := owned_iff
    (fun h => (hdecode h).2) (fun _ => hout (by omega))
    (by simp [v, trace_append, trace_decodeArg, trace_allocate, trace_handed, trace_release])
    (by simp [v, trace_append, trace_decodeArg, trace_allocate, trace_handed, trace_release, ho])
  rw [true_and, true_and] at hpath
  split_ifs <;> exact hpath

theorem fits_failed {d : Done} (hrc : d.rc = -1) (hnone : d.encoded = none) : Fits d where
  room := by
    rw [hnone]
    intro e he
    cases he
  size := fun h => absurd h (by omega)

theorem allocate_size {k : Int} (hk : 0 ≤ k) (hlt : k < 0xf0000000)
    (h : ¬(pktcmdAllocateResult a cmd k).1.result.isNone = true) :
    (pktcmdAllocateResult a cmd k).1.size = hdrSize + k ∧ hdrSize + k ≤ 0x7fffffff := by
  unfold pktcmdAllocateResult at *
  dsimp only at *
  split_ifs at * with halloc
  · have hnonneg := a.alloc_nonneg _ halloc
    have hhdr : hdrSize = 20 := rfl
    by_cases hint : hdrSize + k ≤ 0x7fffffff
    · exact ⟨Int.bmod_eq_of_le (by omega) (by omega), hint⟩
    · have hmod : (hdrSize + k).bmod 0x100000000 = hdrSize + k - 0x100000000 :=
        (Int.bmod_eq_iff (by decide)).mpr ⟨by omega, by omega, -1, by omega⟩
      omega
  · exact absurd rfl h

theorem fits_made {k : Int} (hk : k = 0) (h : ¬(pktcmdAllocateResult a cmd k).1.result.isNone = true)
    (rc : Int) (events : List Ev) : Fits ⟨rc, (pktcmdAllocateResult a cmd k).1, events, none⟩ where
  room := by
    intro e he
    cases he
  size := by
    intro _
    obtain ⟨hsize, -⟩ := allocate_size (by omega) (by omega) h
    exact hsize.trans (by rw [hk]; rfl)

/-- An answer that is not longer than the room asked for. -/
theorem fits_encoded {k : Int} (hk : 0 ≤ k) (hlt : k < 0xf0000000)
    (h : ¬(pktcmdAllocateResult a cmd k).1.result.isNone = true) (octets : List UInt8)
    (hle : (octets.length : Int) ≤ k) (events : List Ev) :
    Fits ⟨-1, encodeResult (pktcmdAllocateResult a cmd k).1 octets, events,
        some (octets, (pktcmdAllocateResult a cmd k).1.size - hdrSize)⟩ ∧
      Fits ⟨0, setSize (encodeResult (pktcmdAllocateResult a cmd k).1 octets) (returned octets.length),
        events, some (octets, (pktcmdAllocateResult a cmd k).1.size - hdrSize)⟩ := by
  obtain ⟨hsize, hint⟩ := allocate_size hk hlt h
  have hroom : (octets.length : Int) ≤ (pktcmdAllocateResult a cmd k).1.size - hdrSize := by
    rw [hsize]
    omega
  have hhdr : hdrSize = 20 := rfl
  have hrc : ¬(0 : Int) ≤ -1 := by decide
  refine ⟨⟨?_, fun h => absurd h hrc⟩, ?_, fun _ => ?_⟩
  · rintro e ⟨rfl⟩
    exact hroom
  · rintro e ⟨rfl⟩
    exact hroom
  · have hmod : (hdrSize + (octets.length : Int)).bmod 0x100000000 = hdrSize + octets.length :=
      Int.bmod_eq_of_le (by omega) (by omega)
    dsimp only [setSize, Option.map_some, Option.getD_some]
    rw [returned_of_le (by omega), hmod]

theorem hdlIn_fits : Fits (hdlIn a cmd arg len i cb) := by
  unfold hdlIn
  dsimp only
  split_ifs with htype hnone
  · exact fits_failed rfl rfl
  · exact fits_failed rfl rfl
  all_goals exact fits_made rfl hnone _ _

theorem hdlInVarsize_fits : Fits (hdlInVarsize a cmd arg len i cb) := by
  unfold hdlInVarsize
  dsimp only
  split_ifs with htype hnone
  · exact fits_failed rfl rfl
  · exact fits_failed rfl rfl
  all_goals exact fits_made rfl hnone _ _

theorem hdlInOut_fits (hn : n ≤ 0x10000)
    (ho : ∀ cmd v, 0 ≤ (callCmdcb cmd cb v).1 → (write o.encode (callCmdcb cmd cb v).2).length ≤ n) :
    Fits (hdlInOut a cmd arg len i o n cb) := by
  unfold hdlInOut
  dsimp only
  by_cases htype : cmd.type ≠ PKT_TYPE_CMD
  · rw [if_pos htype]
    exact fits_failed rfl rfl
  rw [if_neg htype]
  by_cases hnone : (pktcmdAllocateResult a cmd (n + 64)).1.result.isNone
  · rw [if_pos hnone]
    exact fits_failed rfl rfl
  rw [if_neg hnone]
  by_cases hok : (decodeArg a arg len i .inData).ok = false
  · rw [if_pos hok]
    exact fits_failed rfl rfl
  rw [if_neg hok]
  by_cases hfail : (callCmdcb (pktcmdAllocateResult a cmd (n + 64)).1 cb
      (decodeArg a arg len i .inData).value).1 < 0
  · rw [if_pos hfail]
    exact fits_failed rfl rfl
  rw [if_neg hfail]
  have hle := ho _ _ (not_lt.mp hfail)
  obtain ⟨hbad, hgood⟩ := fits_encoded (by omega) (by omega) hnone _ (Int.ofNat_le.mpr hle |>.trans (by omega)) _
  split_ifs
  · exact hbad
  · exact hgood

/-- The room for an answer with a block. -/
def RoomFor (o : Message Field) (n : Nat) (w : Value Field) : Prop :=
  0 ≤ w.int .size ∧ ((write o.encode w).length : Int) ≤ n + w.int .size

theorem fits_varsize (hn : n ≤ 0x10000) {w : Value Field} (hw : RoomFor o n w)
    (hnone : ¬(pktcmdAllocateResult a cmd (n + 64 + w.int .size)).1.result.isNone = true)
    (events : List Ev) :
    Fits ⟨-1, encodeResult (pktcmdAllocateResult a cmd (n + 64 + w.int .size)).1 (write o.encode w),
        events, some (write o.encode w,
          (pktcmdAllocateResult a cmd (n + 64 + w.int .size)).1.size - hdrSize)⟩ ∧
      Fits ⟨0, setSize (encodeResult (pktcmdAllocateResult a cmd (n + 64 + w.int .size)).1
          (write o.encode w)) (returned (write o.encode w).length), events, some (write o.encode w,
          (pktcmdAllocateResult a cmd (n + 64 + w.int .size)).1.size - hdrSize)⟩ := by
  have hint : w.int .size < 2 ^ 31 := BitVec.toInt_lt
  obtain ⟨hnonneg, hle⟩ := hw
  exact fits_encoded (by omega) (by omega) hnone _ (by omega) events

theorem hdlInOutVarsize_fits (hn : n ≤ 0x10000)
    (ho : ∀ cmd v, 0 ≤ (callCmdcb cmd cb v).1 → RoomFor o n (callCmdcb cmd cb v).2) :
    Fits (hdlInOutVarsize a cmd arg len i o n cb) := by
  unfold hdlInOutVarsize
  dsimp only
  split_ifs with htype hok hfail hnone hneg
  · exact fits_failed rfl rfl
  · exact fits_failed rfl rfl
  · exact fits_failed rfl rfl
  · exact fits_failed rfl rfl
  · exact (fits_varsize o n hn (ho _ _ (not_lt.mp hfail)) hnone _).1
  · exact (fits_varsize o n hn (ho _ _ (not_lt.mp hfail)) hnone _).2

theorem hdlInVarsizeOutVarsize_fits (hn : n ≤ 0x10000)
    (ho : ∀ cmd v, 0 ≤ (callCmdcb cmd cb v).1 → RoomFor o n (callCmdcb cmd cb v).2) :
    Fits (hdlInVarsizeOutVarsize a cmd arg len i o n cb) := by
  unfold hdlInVarsizeOutVarsize
  dsimp only
  split_ifs with htype hok hfail hnone hneg
  · exact fits_failed rfl rfl
  · exact fits_failed rfl rfl
  · exact fits_failed rfl rfl
  · exact fits_failed rfl rfl
  · exact (fits_varsize o n hn (ho _ _ (not_lt.mp hfail)) hnone _).1
  · exact (fits_varsize o n hn (ho _ _ (not_lt.mp hfail)) hnone _).2

end Templates

section Acks

variable {a : Answers} {cmd : Cmdinfo} (arg : Octets) (len : Int) (o : Message Field)
  (cb : Option (Cmdinfo → Option (Value Field) → Int))

theorem decodeAck_owned (ho : BlockLast o) (hblocks : o.blocks = []) :
    Owned (decodeAck a cmd arg len o).events := by
  unfold decodeAck
  split_ifs
  · refine ⟨balanced_of_trace _ (.inl ?_), balanced_of_trace _ (.inl ?_)⟩
    · simp [trace_decodeArg]
    · simp [trace_decodeArg, decodeArg_none ho hblocks]
  · exact owned_nil

theorem ackhdl_owned : Owned (ackhdl cmd cb).events := by
  unfold ackhdl
  split_ifs <;> exact owned_nil

theorem ackhdlOut_owned (ho : BlockLast o) (hblocks : o.blocks = []) :
    Owned (ackhdlOut a cmd arg len o cb).events := by
  have hdecode : Owned (decodeAck a cmd arg len o).events := decodeAck_owned arg len o ho hblocks
  unfold ackhdlOut
  dsimp only
  split_ifs
  · exact owned_nil
  all_goals exact hdecode

theorem ackhdlOutVarsize_owned (ho : BlockLast o) :
    Owned (ackhdlOutVarsize a cmd arg len o cb).events ↔
      (cmd.type = PKT_TYPE_CMDACK → ¬EmptyBlock (decodeArg a arg len o .outData).value) := by
  have hdecode : (decodeArg a arg len o .outData).value.data.isSome → _ := decodeArg_isSome ho .outData
  unfold ackhdlOutVarsize
  dsimp only
  by_cases hack : cmd.type = PKT_TYPE_CMDACK
  · have hcmd : cmd.type ≠ PKT_TYPE_CMD := by
      rw [hack]
      decide
    rw [if_neg hcmd, decodeAck, if_pos hack, forall_prop_of_true hack]
    set v := decodeArg a arg len o .outData
    by_cases hok : v.ok = false
    · have hnone : ¬v.value.data.isSome = true := fun h =>
        absurd (hok.symm.trans (hdecode h).1) (by decide)
      rw [if_pos hok]
      refine iff_of_true ⟨balanced_of_trace _ (.inl ?_), balanced_of_trace _ (.inl ?_)⟩ fun h => hnone h.1
      · simp [v, trace_decodeArg]
      · simp [v, trace_decodeArg, hnone]
    rw [if_neg hok]
    have hpath : Owned (v.events ++ release v.value .outData) ↔
        ¬(False ∧ EmptyBlock (.cleared Field.type)) ∧ ¬(True ∧ EmptyBlock v.value) := owned_iff
      (fun h => by cases h) (fun h => (hdecode h).2)
      (by simp [v, trace_append, trace_decodeArg, trace_release])
      (by simp [v, trace_append, trace_decodeArg, trace_release])
    rw [true_and, false_and, not_false_iff, true_and] at hpath
    split_ifs <;> exact hpath
  · refine iff_of_true ?_ fun h => absurd h hack
    rw [decodeAck, if_neg hack]
    split_ifs
    · exact owned_nil
    · exact owned_nil
    all_goals
      rw [release, if_neg (by simp [Value.cleared])]
      exact owned_nil

end Acks

/-- What a row needs of the structures for its macros. -/
theorem hdl_shape (c : Cmd) :
    match c.hdl with
    | .inHdl => c.input.blocks = []
    | .inOut => c.input.blocks = [] ∧ Field.data ∉ c.outArg.fields ∧
        ∀ p ∈ c.outArg.encode, p.Plain Field.type c.outArg.fields
    | .inVarsize => True
    | .inOutVarsize => c.input.blocks = [] ∧ Field.data ∈ c.outArg.fields
    | .inVarsizeOutVarsize => Field.data ∈ c.outArg.fields := by
  cases c
  all_goals dsimp only [Cmd.hdl]
  all_goals decide

theorem ackHdl_shape (c : Cmd) :
    match c.ackHdl with
    | .out => c.outArg.blocks = []
    | .ackHdl | .outVarsize => True := by
  cases c
  all_goals dsimp only [Cmd.ackHdl]
  all_goals decide

theorem outArg_encode (c : Cmd) :
    (∀ p ∈ c.outArg.encode.dropLast, p.Plain Field.type c.outArg.fields) ∧
    (∀ p ∈ c.outArg.encode.getLast?, p.Plain Field.type c.outArg.fields ∨ p = .block .size) ∧
    (c.outArg.encode.map (Put.most Field.type)).sum ≤ members c.outArg := by
  cases c <;> decide

theorem outArg_members_le (c : Cmd) (abi : Abi) : members c.outArg ≤ abi.sizeof c := by
  unfold Cmd.outArg
  cases h : c.output with
  | none => exact Nat.zero_le _
  | some m => exact abi.members_le c m h

section

variable {c : Cmd} {w : Value Field} (hw : ∀ f ∈ c.outArg.fields, InRange Field.type w f)

include hw

theorem length_write_outArg (abi : Abi) :
    (write c.outArg.encode w).length ≤ abi.sizeof c + w.octets.length := by
  obtain ⟨hinit, hlast, hsum⟩ := outArg_encode c
  have hle := length_encode_le hw hinit fun p hp => (hlast p hp).imp_right fun h => ⟨_, h⟩
  have hmembers := outArg_members_le c abi
  omega

theorem length_write_plain (abi : Abi)
    (hplain : ∀ p ∈ c.outArg.encode, p.Plain Field.type c.outArg.fields) :
    (write c.outArg.encode w).length ≤ abi.sizeof c :=
  (length_write_le_sum hplain hw).trans ((outArg_encode c).2.2.trans (outArg_members_le c abi))

theorem roomFor_outArg (abi : Abi) (hdata : Field.data ∈ c.outArg.fields) :
    RoomFor c.outArg (abi.sizeof c) w := by
  have hle := length_write_outArg hw abi
  have hoctets : (w.octets.length : Int) = w.int .size := hw .data hdata
  exact ⟨by omega, by omega⟩

end

/-- Neither the decoder nor the callback comes with a block of no octets. -/
def Cmd.NoEmptyBlock (c : Cmd) (a : Answers) (cmd : Cmdinfo) (arg : Octets) (len : Int) : Prop :=
  let i := decodeArg a arg len c.input .inData
  let o := callCmdcb cmd (a.devcmdcb c) i.value
  cmd.type = PKT_TYPE_CMD → ¬((c.hdl = .inVarsize → a.alloc 20 = true) ∧ EmptyBlock i.value) ∧
    (c.hdl = .inOutVarsize ∨ c.hdl = .inVarsizeOutVarsize → ¬(i.ok = true ∧ 0 ≤ o.1 ∧ EmptyBlock o.2))

/-- The same of an acknowledgement. -/
def Cmd.NoEmptyAck (c : Cmd) (a : Answers) (cmd : Cmdinfo) (arg : Octets) (len : Int) : Prop :=
  c.ackHdl = .outVarsize → cmd.type = PKT_TYPE_CMDACK →
    ¬EmptyBlock (decodeArg a arg len c.outArg .outData).value

/-- What a callback hands over with success has its fields in range. -/
def Cmd.Answering (c : Cmd) (a : Answers) : Prop :=
  ∀ f ∈ a.devcmdcb c, ∀ cmd i, 0 ≤ (f cmd i).1 → ∀ x ∈ c.outArg.fields, InRange Field.type (f cmd i).2 x

section Rows

variable {c : Cmd} (abi : Abi) {a : Answers} {cmd : Cmdinfo} (arg : Octets) (len : Int)

theorem answering_call (h : c.Answering a) (cmd : Cmdinfo) (v : Value Field)
    (hv : 0 ≤ (callCmdcb cmd (a.devcmdcb c) v).1) :
    ∀ x ∈ c.outArg.fields, InRange Field.type (callCmdcb cmd (a.devcmdcb c) v).2 x := by
  unfold callCmdcb at *
  cases hcb : a.devcmdcb c with
  | none =>
      rw [hcb] at hv
      have hneg : ¬(0 : Int) ≤ -1 := by decide
      exact absurd hv hneg
  | some f =>
      rw [hcb] at hv
      exact h f hcb cmd v hv

theorem cmdcb_fits (h : c.Answering a) : Fits (c.cmdcb abi a cmd arg len) := by
  have hshape := hdl_shape c
  have hsizeof := abi.sizeof_le c
  have hroom (hdata : Field.data ∈ c.outArg.fields) (cmd : Cmdinfo) (v : Value Field)
      (hv : 0 ≤ (callCmdcb cmd (a.devcmdcb c) v).1) :
      RoomFor c.outArg (abi.sizeof c) (callCmdcb cmd (a.devcmdcb c) v).2 :=
    roomFor_outArg (answering_call h cmd v hv) abi hdata
  unfold Cmd.cmdcb
  split
  all_goals simp only [*] at hshape
  · exact hdlIn_fits ..
  · exact hdlInOut_fits _ _ _ _ _ _ hsizeof fun cmd v hv =>
      length_write_plain (answering_call h cmd v hv) abi hshape.2.2
  · exact hdlInOutVarsize_fits _ _ _ _ _ _ hsizeof (hroom hshape.2)
  · exact hdlInVarsize_fits ..
  · exact hdlInVarsizeOutVarsize_fits _ _ _ _ _ _ hsizeof (hroom hshape)

theorem cmdcb_owned (h : c.Answering a) : Owned (c.cmdcb abi a cmd arg len).events ↔
    c.NoEmptyBlock a cmd arg len := by
  have hshape := hdl_shape c
  have hsize (hdata : Field.data ∈ c.outArg.fields) (v : Value Field)
      (hv : 0 ≤ (callCmdcb cmd (a.devcmdcb c) v).1) :
      0 ≤ (callCmdcb cmd (a.devcmdcb c) v).2.int .size :=
    (roomFor_outArg (answering_call h cmd v hv) abi hdata).1
  have hempty (hblocks : c.input.blocks = []) :
      ¬EmptyBlock (decodeArg a arg len c.input .inData).value := by
    rintro ⟨hsome, -⟩
    rw [decodeArg_none (input_blockLast c) hblocks] at hsome
    cases hsome
  by_cases hcmd : cmd.type = PKT_TYPE_CMD
  swap
  · refine iff_of_true ?_ fun h => absurd h hcmd
    have hnothing : (c.cmdcb abi a cmd arg len).events = [] := by
      unfold Cmd.cmdcb
      split
      · rw [hdlIn, if_pos hcmd]
      · rw [hdlInOut, if_pos hcmd]
      · rw [hdlInOutVarsize, if_pos hcmd]
      · rw [hdlInVarsize, if_pos hcmd]
      · rw [hdlInVarsizeOutVarsize, if_pos hcmd]
    rw [hnothing]
    exact owned_nil
  unfold Cmd.NoEmptyBlock Cmd.cmdcb
  dsimp only
  rw [forall_prop_of_true hcmd]
  cases hhdl : c.hdl with
  | inHdl =>
      rw [hhdl] at hshape
      refine iff_of_true (hdlIn_owned _ _ _ _ (decodeArg_none (input_blockLast c) hshape _)) ⟨?_, ?_⟩
      · exact fun h => hempty hshape h.2
      · rintro (h | h) <;> cases h
  | inOut =>
      rw [hhdl] at hshape
      refine iff_of_true (hdlInOut_owned _ _ _ _ _ _ (decodeArg_none (input_blockLast c) hshape.1 _)
        hshape.2.1) ⟨?_, ?_⟩
      · exact fun h => hempty hshape.1 h.2
      · rintro (h | h) <;> cases h
  | inOutVarsize =>
      rw [hhdl] at hshape
      have hpath := hdlInOutVarsize_owned (a := a) arg len c.input c.outArg (abi.sizeof c) (a.devcmdcb c) hcmd
        (decodeArg_none (input_blockLast c) hshape.1 _) hshape.2 (hsize hshape.2 _)
      refine hpath.trans ⟨fun h => ⟨fun h' => hempty hshape.1 h'.2, fun _ => h⟩, fun h => h.2 (.inl rfl)⟩
  | inVarsize =>
      have hpath := hdlInVarsize_owned (a := a) arg len c.input (a.devcmdcb c) hcmd (input_blockLast c)
      rw [forall_prop_of_true rfl]
      refine hpath.trans (and_iff_left ?_).symm
      rintro (h | h) <;> cases h
  | inVarsizeOutVarsize =>
      rw [hhdl] at hshape
      have hpath := hdlInVarsizeOutVarsize_owned (a := a) arg len c.input c.outArg (abi.sizeof c) (a.devcmdcb c)
        hcmd (input_blockLast c) hshape (hsize hshape _)
      refine hpath.trans (and_congr ?_ ?_)
      · exact not_congr (and_iff_right fun h => by cases h).symm
      · exact ⟨fun h _ => h, fun h => h (.inr rfl)⟩

theorem ackcb_owned : Owned (c.ackcb a cmd arg len).events ↔ c.NoEmptyAck a cmd arg len := by
  have hshape := ackHdl_shape c
  unfold Cmd.NoEmptyAck Cmd.ackcb
  cases hack : c.ackHdl with
  | ackHdl => exact iff_of_true (ackhdl_owned _) fun h => by cases h
  | out =>
      rw [hack] at hshape
      exact iff_of_true (ackhdlOut_owned _ _ _ _ (outArg_blockLast c) hshape) fun h => by cases h
  | outVarsize =>
      rw [forall_prop_of_true rfl]
      exact ackhdlOutVarsize_owned _ _ _ _ (outArg_blockLast c)

end Rows

/-- The handlers of a row write inside of the result and set its size, and they free what
the decoder and the callback came with just when no block of them is empty. -/
theorem handlers_own_iff (c : Cmd) (abi : Abi) (a : Answers) (h : c.Answering a) (cmd : Cmdinfo)
    (arg : Octets) (len : Int) :
    Fits (c.cmdcb abi a cmd arg len) ∧ Owned (c.cmdcb abi a cmd arg len).events ∧
        Owned (c.ackcb a cmd arg len).events ↔
      c.NoEmptyBlock a cmd arg len ∧ c.NoEmptyAck a cmd arg len := by
  rw [and_iff_right (cmdcb_fits abi arg len h), cmdcb_owned abi arg len h, ackcb_owned]

theorem deviceAnswers_answering : Cmd.getHwModel.Answering deviceAnswers := by
  rintro f ⟨⟩ cmd i - x hx
  obtain rfl := List.mem_singleton.mp hx
  have hmodel : (0x41 : UInt32).toNat < 256 ^ 1 := by decide
  exact hmodel

def commanded : Cmdinfo := { idle with type := PKT_TYPE_CMD }

theorem handlers_own_iff_model :
    Fits (Cmd.getHwModel.cmdcb packed deviceAnswers commanded (fun _ => 3) 1) ∧
        Owned (Cmd.getHwModel.cmdcb packed deviceAnswers commanded (fun _ => 3) 1).events ∧
        Owned (Cmd.getHwModel.ackcb deviceAnswers commanded (fun _ => 3) 1).events ↔
      Cmd.getHwModel.NoEmptyBlock deviceAnswers commanded (fun _ => 3) 1 ∧
        Cmd.getHwModel.NoEmptyAck deviceAnswers commanded (fun _ => 3) 1 :=
  handlers_own_iff .getHwModel packed deviceAnswers deviceAnswers_answering commanded _ 1

/-- An upload of no octets: the decoder allocates a block that the handler keeps. -/
theorem empty_upload_kept : ¬∀ (c : Cmd) (abi : Abi) (a : Answers), c.Answering a →
    ∀ (cmd : Cmdinfo) (arg : Octets) (len : Int), Fits (c.cmdcb abi a cmd arg len) ∧
      Owned (c.cmdcb abi a cmd arg len).events ∧ Owned (c.ackcb a cmd arg len).events := by
  intro h
  have hanswering : Cmd.uploadPortCfgFile.Answering deviceAnswers := by
    rintro f - cmd i - x hx
    cases hx
  obtain ⟨-, howned, -⟩ :=
    h .uploadPortCfgFile packed deviceAnswers hanswering commanded (fun _ => 0) 13
  obtain ⟨hnot, -⟩ := (cmdcb_owned packed (fun _ => 0) 13 hanswering).mp howned rfl
  refine hnot ⟨fun _ => rfl, ?_, ?_⟩
  · decide
  · decide

end OiAmc.Pktcmd

import OiAmc.FifoTrace
import OiAmc.Pkt
import OiAmc.RbufAccount

namespace OiAmc.RbufPackets

open ByteBuffer ByteOrder FifoTrace PartialMachine Pkt Rbuf

def verifyPkt (host : Endian) : Verify := fun p r dlen => pktVerify host (some fun i => p (r + i)) dlen

/-- The octet at a place. One outside the payload area has no outcome. -/
def fetch (ps : Nat) (p : Octets) (a : Nat) : Option UInt8 := if a < ps then some (p a) else none

def fetch16 (host : Endian) (ps : Nat) (p : Octets) (a : Nat) : Option UInt16 :=
  if a + 2 ≤ ps then some (load16 host p a) else none

/-- pkt_verify once more, each octet fetched where it looks at it. -/
def verifyInside (host : Endian) (ps : Nat) (p : Octets) (r dlen : Nat) : Option Int :=
  if dlen < hdrSize then some 0
  else do
    let sync ← fetch16 host ps p r
    if swap16 host sync ≠ PKT_SYNC_FLAG then return -1
    let len ← fetch16 host ps p (r + 2)
    let sc ← fetch ps p (r + 7)
    let plen : Int := (swap16 host len).toNat * 4 - (sc &&& 0x03).toNat
    if plen < hdrSize then return -1
    if dlen > 0 ∧ plen > dlen then return 0
    return plen

inductive Op
  | push (pkt : List UInt8)
  | pop (bufsize : Int)

/-- A push of a packet, or a pop into a buffer. It is undefined when the callback would look
outside the payload area. -/
def step (host : Endian) (rb : Handle) : Op → Option (Handle × Event (List UInt8))
  | .push pkt =>
      (rbufPush rb (some fun i => pkt.getD i 0) pkt.length).map fun r =>
        (r.1, if 0 < r.2 then .put pkt else .idle)
  | .pop bufsize => do
      if rbufDataLen rb ≠ 0 then let _ ← verifyInside host rb.ps rb.p rb.r (rbufDataLen rb)
      let r ← rbufPop rb true bufsize (verifyPkt host)
      return (r.1, if 0 < r.2.1 then .got r.2.2 else .idle)

structure WellFormed (host : Endian) (pkt : List UInt8) : Prop where
  sync : pkthdrValidSync host (fun i => pkt.getD i 0) = true
  plen : pkthdrGetPlen host (fun i => pkt.getD i 0) = pkt.length
  hdr : hdrSize ≤ pkt.length

/-- Packets are well-formed, and buffers large enough. -/
def Admitted (host : Endian) (rb : Handle) : Op → Prop
  | .push pkt => WellFormed host pkt
  | .pop bufsize => rbufDataLen rb ≠ 0 → verifyPkt host rb.p rb.r (rbufDataLen rb) ≤ bufsize

def Fits (rb : Handle) : Op → Prop
  | .push pkt => pkt.length ≤ rbufFreeLen rb → rb.w + roundUp pkt.length ≤ intMax
  | .pop _ => True

def stored (q : List (List UInt8)) : Nat := (q.map fun pkt => roundUp pkt.length).sum

inductive Does (ps : Nat) : List (List UInt8) → Op → Event (List UInt8) → List (List UInt8) → Prop
  | push (q : List (List UInt8)) (pkt : List UInt8) (h : stored q + pkt.length ≤ ps - rbufAlignment) :
      Does ps q (.push pkt) (.put pkt) (q ++ [pkt])
  | full (q : List (List UInt8)) (pkt : List UInt8) (h : ps - rbufAlignment < stored q + pkt.length) :
      Does ps q (.push pkt) .idle q
  | pop (pkt : List UInt8) (q : List (List UInt8)) (bufsize : Int) :
      Does ps (pkt :: q) (.pop bufsize) (.got pkt) q
  | empty (bufsize : Int) : Does ps [] (.pop bufsize) .idle []

/-- The ring buffer is a queue of packets over a run. -/
def Queues (host : Endian) (rb : Handle) (ops : List Op) : Prop :=
  ∃ t es q, run (step host) rb ops = some (t, es) ∧ Runs (Does rb.ps) [] ops es q ∧
    puts es = gets es ++ q

end OiAmc.RbufPackets

namespace OiAmc.RbufQueue

open ByteBuffer ByteOrder FifoTrace PartialMachine Pkt RbufPackets RingIndex
open Rbuf hiding Op step
open RbufAccount hiding Fits

variable {host : Endian} {rb rb' : Handle} {p p' data : Octets} {len ps r w : Nat} {pkt : List UInt8}
  {q : List (List UInt8)}

theorem freeLens_of_wrap (h : Aligned rb) (hlen : len ≤ rbufFreeLen rb)
    (hle : ¬ len ≤ (rbufFreeLens rb).1) :
    (rbufFreeLens rb).1 = rb.ps - rb.w ∧ (rbufFreeLens rb).2 < rb.r ∧ rb.r ≤ rb.w := by
  have hr := h.r_lt
  rw [rbufFreeLen] at hlen
  by_cases hwr : rb.w < rb.r
  · have hlens : rbufFreeLens rb = (rb.r - rb.w - rbufAlignment, 0) := if_pos hwr
    rw [hlens] at hlen hle
    exact absurd hlen hle
  by_cases hr0 : rb.r = 0
  · have hlens : rbufFreeLens rb = (rb.ps - rb.w - rbufAlignment, 0) := by
      rw [rbufFreeLens, if_neg hwr, if_pos hr0]
    rw [hlens] at hlen hle
    exact absurd hlen hle
  · have hlens : rbufFreeLens rb = (rb.ps - rb.w, rb.r - rbufAlignment) := by
      rw [rbufFreeLens, if_neg hwr, if_neg hr0]
    have hpos : 0 < rbufAlignment := by decide
    rw [hlens]
    exact ⟨rfl, by omega, by omega⟩

theorem dataLens_of_wrap (hlen : len ≤ rbufDataLen rb) (hle : ¬ len ≤ (rbufDataLens rb).1) :
    (rbufDataLens rb).1 = rb.ps - rb.r ∧ (rbufDataLens rb).2 < rb.r := by
  rw [rbufDataLen] at hlen
  by_cases heq : rb.r = rb.w
  · have hlens : rbufDataLens rb = (0, 0) := if_pos heq
    rw [hlens] at hlen hle
    exact absurd hlen hle
  by_cases hlt : rb.r < rb.w
  · have hlens : rbufDataLens rb = (rb.w - rb.r, 0) := by rw [rbufDataLens, if_neg heq, if_pos hlt]
    rw [hlens] at hlen hle
    exact absurd hlen hle
  · have hlens : rbufDataLens rb = (rb.ps - rb.r, rb.w) := by
      rw [rbufDataLens, if_neg heq, if_neg hlt]
    rw [hlens]
    exact ⟨rfl, by omega⟩

theorem stored_around (h : Aligned rb) (hlen : len ≤ rbufFreeLen rb)
    (hp : rbufStored rb data len (rbufFreeLens rb).1 = some p) :
    (∀ i < len, p (next rb.ps rb.w i) = data i) ∧
      ∀ i, len ≤ i → i < rb.ps → p (next rb.ps rb.w i) = rb.p (next rb.ps rb.w i) := by
  have hw := h.w_lt
  have hr := h.r_lt
  obtain ⟨h1, _⟩ := freeLens_inside h
  rw [rbufStored] at hp
  by_cases hle : len ≤ (rbufFreeLens rb).1
  · rw [if_pos hle] at hp
    obtain ⟨_, rfl⟩ := store_eq_some.mp hp
    constructor
    · intro i hi
      rw [next_eq hw (by omega), overlay]
      by_cases hwrap : rb.w + i < rb.ps
      · rw [if_pos hwrap, if_pos (by omega), Nat.add_sub_cancel_left]
      · omega
    · intro i hi hips
      rw [next_eq hw (by omega), overlay]
      split <;> rw [if_neg (by omega)]
  · -- the first part ends where the payload area does, and the second one before r
    obtain ⟨hfront, hback⟩ := freeLens_of_wrap h hlen hle
    have hparts : len ≤ (rbufFreeLens rb).1 + (rbufFreeLens rb).2 := hlen
    rw [if_neg hle] at hp
    obtain ⟨p1, hp1, hp2⟩ := Option.bind_eq_some_iff.mp hp
    obtain ⟨_, rfl⟩ := store_eq_some.mp hp1
    obtain ⟨_, rfl⟩ := store_eq_some.mp hp2
    constructor
    · intro i hi
      rw [next_eq hw (by omega)]
      by_cases hwrap : rb.w + i < rb.ps
      · rw [if_pos hwrap, overlay, if_neg (by omega), overlay, if_pos (by omega), Nat.add_sub_cancel_left]
      · rw [if_neg hwrap, overlay, if_pos (by omega)]
        exact congrArg data (by omega)
    · intro i hi hips
      rw [next_eq hw (by omega), if_neg (by omega), overlay, if_neg (by omega), overlay,
        if_neg (by omega)]

theorem copied_around (h : Aligned rb) (hlen : len ≤ rbufDataLen rb) :
    rbufCopied rb len (rbufDataLens rb).1 =
      some ((List.range len).map fun i => rb.p (next rb.ps rb.r i)) := by
  have hr := h.r_lt
  have hw := h.w_lt
  obtain ⟨h1, h2⟩ := dataLens_inside h
  rw [rbufCopied]
  by_cases hle : len ≤ (rbufDataLens rb).1
  · rw [if_pos hle, view_of_le (by omega), Option.map_some]
    apply congrArg
    apply List.map_congr_left
    intro i hi
    have hlt := List.mem_range.mp hi
    rw [next_eq hr (by omega), if_pos (by omega)]
  · obtain ⟨hfront, hback⟩ := dataLens_of_wrap hlen hle
    have hparts : len ≤ (rbufDataLens rb).1 + (rbufDataLens rb).2 := hlen
    rw [if_neg hle, view_of_le h1, Option.bind_eq_bind, Option.bind_some, view_of_le (by omega),
      Option.bind_some]
    have hsplit : List.range len = List.range (rbufDataLens rb).1 ++
        (List.range (len - (rbufDataLens rb).1)).map ((rbufDataLens rb).1 + ·) := by
      rw [← List.range_add]
      exact congrArg List.range (by omega)
    rw [hsplit, List.map_append, List.map_map]
    refine congrArg some (congrArg₂ (· ++ ·) ?_ ?_)
    · apply List.map_congr_left
      intro i hi
      have hlt := List.mem_range.mp hi
      rw [next_eq hr (by omega), if_pos (by omega)]
    · apply List.map_congr_left
      intro i hi
      have hlt := List.mem_range.mp hi
      simp only [Function.comp_apply]
      rw [next_eq hr (by omega), if_neg (by omega), Nat.zero_add]
      exact congrArg rb.p (by omega)

/-- Packets that lie one behind the other on the ring, from a place up to another one. -/
def Lies (host : Endian) (ps : Nat) (p : Octets) (w : Nat) : Nat → List (List UInt8) → Prop
  | r, [] => r = w
  | r, pkt :: q => WellFormed host pkt ∧ r + roundUp pkt.length ≤ intMax ∧
      (∀ i < pkt.length, p (next ps r i) = pkt.getD i 0) ∧
      Lies host ps p w (next ps r (roundUp pkt.length)) q

/-- The buffer holds the packets of a queue and nothing else. -/
structure Holds (host : Endian) (rb : Handle) (q : List (List UInt8)) : Prop where
  aligned : Aligned rb
  lies : Lies host rb.ps rb.p rb.w rb.r q
  len : rbufDataLen rb = stored q

theorem le_roundUp (len : Nat) : len ≤ roundUp len := by
  unfold roundUp rbufAlignment
  omega

theorem stored_cons (pkt : List UInt8) (q : List (List UInt8)) :
    stored (pkt :: q) = roundUp pkt.length + stored q := by
  rw [stored, List.map_cons, List.sum_cons, stored]

theorem stored_concat (q : List (List UInt8)) (pkt : List UInt8) :
    stored (q ++ [pkt]) = stored q + roundUp pkt.length := by
  rw [stored, List.map_append, List.sum_append, stored, List.map_singleton, List.sum_singleton]

theorem Lies.concat (h : Lies host ps p w r q)
    (hkeep : ∀ i < stored q, p' (next ps r i) = p (next ps r i)) (hwf : WellFormed host pkt)
    (hint : w + roundUp pkt.length ≤ intMax)
    (hdata : ∀ i < pkt.length, p' (next ps w i) = pkt.getD i 0) :
    Lies host ps p' (next ps w (roundUp pkt.length)) r (q ++ [pkt]) := by
  induction q generalizing r with
  | nil =>
      obtain rfl : r = w := h
      exact ⟨hwf, hint, hdata, rfl⟩
  | cons x q ih =>
      obtain ⟨hx, hfits, hoctets, hrest⟩ := h
      have hlen := le_roundUp x.length
      rw [stored_cons] at hkeep
      refine ⟨hx, hfits, fun i hi => ?_, ih hrest fun i hi => ?_⟩
      · rw [hkeep i (by omega), hoctets i hi]
      · rw [next_next]
        exact hkeep _ (by omega)

theorem Holds.accept (h : Holds host rb q) (hwf : WellFormed host pkt)
    (hle : pkt.length ≤ rbufFreeLen rb) (hint : rb.w + roundUp pkt.length ≤ intMax) :
    ∃ p, step host rb (.push pkt) =
        some ({ rb with w := next rb.ps rb.w (roundUp pkt.length), p := p }, .put pkt) ∧
      Holds host { rb with w := next rb.ps rb.w (roundUp pkt.length), p := p } (q ++ [pkt]) := by
  have ha := h.aligned
  have hput : (0 : Int) < pkt.length := by
    have hhdr := hwf.hdr
    simp only [hdrSize] at hhdr
    omega
  have hsum := dataLen_add_freeLen ha
  have hr8 := lt_of_dvd ha.r ha.ps ha.r_lt
  obtain ⟨p, hp⟩ := stored_of_le (fun i => pkt.getD i 0) ha hle
  obtain ⟨hnew, hkeep⟩ := stored_around ha hle hp
  have hfree : rbufAlignment ∣ rbufFreeLen rb := by
    have hdvd := dataLen_dvd ha
    have hps := ha.ps
    unfold rbufAlignment at *
    omega
  obtain ⟨ha', _, hlen'⟩ := aligned_put (p := p) ha (roundUp_dvd pkt.length) (roundUp_le hfree hle) rfl
  refine ⟨p, ?_, ha', ?_, by rw [hlen', stored_concat, h.len]⟩
  · rw [step, rbufPush, if_neg (by omega), if_neg (by omega), Int.toNat_natCast, rbufCopyFromUser, hp,
      Option.bind_eq_bind, Option.bind_some, bump_eq hint]
    simp only [Option.bind_eq_bind, Option.bind_some, Option.pure_def, Option.map_some, hput, if_true]
  · refine h.lies.concat (fun i hi => ?_) hwf hint hnew
    have hdata := dataLen_eq ha
    rw [h.len] at hsum hdata
    rw [← next_around ha.r_lt ha.w_lt]
    exact hkeep _ (by unfold rbufAlignment at *; omega) (by omega)

theorem Holds.push (h : Holds host rb q) (hwf : WellFormed host pkt) (hfits : Fits rb (.push pkt)) :
    ∃ rb' e q', step host rb (.push pkt) = some (rb', e) ∧ Does rb.ps q (.push pkt) e q' ∧
      rb'.ps = rb.ps ∧ Holds host rb' q' := by
  have hsum := dataLen_add_freeLen h.aligned
  rw [h.len] at hsum
  by_cases hfull : (rbufFreeLen rb : Int) < pkt.length
  · have hpos : ¬ ((pkt.length : Int) ≤ 0) := by omega
    refine ⟨rb, .idle, q, ?_, .full q pkt (by omega), rfl, h⟩
    rw [step, rbufPush, if_neg hpos, if_pos hfull]
    rfl
  · have hle : pkt.length ≤ rbufFreeLen rb := by omega
    obtain ⟨p, hstep, hholds⟩ := h.accept hwf hle (hfits hle)
    exact ⟨_, .put pkt, q ++ [pkt], hstep, .push q pkt (by omega), rfl, hholds⟩

/-- The header octets that pkt_verify looks at do not go around the end, as all places are multiples
of eight. -/
theorem verifyInside_eq (host : Endian) (p : Octets) (dlen : Nat) (h : r + 8 ≤ ps) :
    verifyInside host ps p r dlen = some (verifyPkt host p r dlen) := by
  have hsync : swap16 host (load16 host p r) = pkthdrGetSync host fun i => p (r + i) := by
    cases host <;> rfl
  have hplen : ((swap16 host (load16 host p (r + 2))).toNat : Int) * 4 - (p (r + 7) &&& 0x03).toNat =
      pkthdrGetPlen host fun i => p (r + i) := by
    cases host <;> rfl
  simp only [verifyInside, verifyPkt, pktVerify, fetch16, fetch, if_pos (show r + 2 ≤ ps by omega),
    if_pos (show r + 2 + 2 ≤ ps by omega), if_pos (show r + 7 < ps by omega), Option.bind_eq_bind,
    Option.bind_some, hsync, hplen, Option.pure_def, pkthdrValidSync, Bool.not_eq_true',
    beq_eq_false_iff_ne]
  split_ifs <;> first | rfl | omega

theorem Holds.inside (h : Holds host rb q) : rb.r + 8 ≤ rb.ps :=
  lt_of_dvd h.aligned.r h.aligned.ps h.aligned.r_lt

theorem Holds.verify (h : Holds host rb (pkt :: q)) :
    verifyPkt host rb.p rb.r (rbufDataLen rb) = pkt.length := by
  obtain ⟨hwf, _, hoctets, _⟩ := h.lies
  have hhdr := hwf.hdr
  have hlen := le_roundUp pkt.length
  have hdata := h.len
  rw [stored_cons] at hdata
  have h8 : ∀ i < 8, rb.p (rb.r + i) = pkt.getD i 0 := by
    intro i hi
    have hin := h.inside
    simp only [hdrSize] at hhdr
    rw [← hoctets i (by omega), next_eq h.aligned.r_lt (by omega), if_pos (by omega)]
  have hsync := (@validSync_congr host _ _ h8).trans hwf.sync
  have hplen := (@getPlen_congr host _ _ h8).trans hwf.plen
  rw [verifyPkt, verify_of_valid hsync (by omega) (by omega), hplen]

theorem Holds.nil_iff (h : Holds host rb q) : rbufDataLen rb = 0 ↔ q = [] := by
  rw [h.len]
  cases q with
  | nil => exact iff_of_true rfl rfl
  | cons pkt q =>
      have hhdr := h.lies.1.hdr
      have hlen := le_roundUp pkt.length
      rw [stored_cons]
      simp only [hdrSize] at hhdr
      exact iff_of_false (by omega) (List.cons_ne_nil _ _)

theorem Holds.take (h : Holds host rb (pkt :: q)) {bufsize : Int} (hbuf : pkt.length ≤ bufsize) :
    step host rb (.pop bufsize) =
        some ({ rb with r := next rb.ps rb.r (roundUp pkt.length), err := 0 }, .got pkt) ∧
      Holds host { rb with r := next rb.ps rb.r (roundUp pkt.length), err := 0 } q := by
  have ha := h.aligned
  have hne : rbufDataLen rb ≠ 0 := fun h0 => List.cons_ne_nil _ _ (h.nil_iff.mp h0)
  have hverify := h.verify
  have hinside := verifyInside_eq host rb.p (rbufDataLen rb) h.inside
  obtain ⟨hwf, hint, hoctets, hrest⟩ := h.lies
  have hput : (0 : Int) < pkt.length := by
    have hhdr := hwf.hdr
    simp only [hdrSize] at hhdr
    omega
  have hdata := h.len
  rw [stored_cons] at hdata
  have hle : pkt.length ≤ rbufDataLen rb := by
    have hlen := le_roundUp pkt.length
    omega
  have hcopy : rbufCopyToUser { rb with err := 0 } pkt.length (rbufDataLens rb).1 =
      some ({ rb with r := next rb.ps rb.r (roundUp pkt.length), err := 0 }, pkt) := by
    have hlens : rbufDataLens { rb with err := 0 } = rbufDataLens rb := rfl
    have herr : Aligned { rb with err := 0 } := ⟨ha.ps, ha.r, ha.w, ha.r_lt, ha.w_lt⟩
    have hcopied := copied_around herr hle
    rw [hlens, List.map_congr_left fun i hi => hoctets i (List.mem_range.mp hi),
      map_getD_range pkt 0] at hcopied
    rw [rbufCopyToUser, hcopied, Option.bind_eq_bind, Option.bind_some, bump_eq hint]
    rfl
  have hpop : rbufPop rb true bufsize (verifyPkt host) =
      some ({ rb with r := next rb.ps rb.r (roundUp pkt.length), err := 0 }, (pkt.length : Int), pkt) := by
    have hnot : ¬ (bufsize < (pkt.length : Int) ∨ true = false) := by
      rintro (hlt | hfalse)
      · omega
      · exact Bool.noConfusion hfalse
    simp only [rbufPop, if_neg hne, hverify, if_pos hput, if_neg hnot, Int.toNat_natCast, hcopy,
      Option.map_some]
  obtain ⟨ha', _, hlen'⟩ := aligned_taken 0 ha (roundUp_dvd pkt.length) (by omega) rfl
  refine ⟨?_, ha', hrest, by omega⟩
  simp only [step, if_pos hne, hinside, hpop, Option.bind_eq_bind, Option.bind_some, if_pos hput]
  rfl

theorem Holds.pop (h : Holds host rb q) {bufsize : Int} (hadm : Admitted host rb (.pop bufsize)) :
    ∃ rb' e q', step host rb (.pop bufsize) = some (rb', e) ∧ Does rb.ps q (.pop bufsize) e q' ∧
      rb'.ps = rb.ps ∧ Holds host rb' q' := by
  cases q with
  | nil =>
      have hempty := h.nil_iff.mpr rfl
      refine ⟨rb, .idle, [], ?_, .empty bufsize, rfl, h⟩
      simp [step, rbufPop, hempty]
  | cons pkt q =>
      have hbuf := hadm fun h0 => List.cons_ne_nil _ _ (h.nil_iff.mp h0)
      rw [h.verify] at hbuf
      obtain ⟨hstep, hholds⟩ := h.take hbuf
      exact ⟨_, .got pkt, q, hstep, .pop pkt q bufsize, rfl, hholds⟩

theorem Holds.step (h : Holds host rb q) (op : Op) (hadm : Admitted host rb op) (hfits : Fits rb op) :
    ∃ rb' e q', step host rb op = some (rb', e) ∧ Does rb.ps q op e q' ∧ rb'.ps = rb.ps ∧
      Holds host rb' q' := by
  cases op with
  | push pkt => exact h.push hadm hfits
  | pop bufsize => exact h.pop hadm

theorem fits_of_step (host : Endian) (rb : Handle) (op : Op) (r : Handle × Event (List UInt8))
    (h : step host rb op = some r) : Admitted host rb op → Fits rb op := by
  cases op with
  | pop bufsize => exact fun _ => trivial
  | push pkt =>
      intro hwf hle
      have hhdr := hwf.hdr
      simp only [hdrSize] at hhdr
      rw [step, rbufPush, if_neg (by omega), if_neg (by omega), Int.toNat_natCast] at h
      obtain ⟨r', hr', _⟩ := Option.map_eq_some_iff.mp h
      obtain ⟨rb', hcopy, _⟩ := Option.map_eq_some_iff.mp hr'
      obtain ⟨p, _, hbump⟩ := Option.bind_eq_some_iff.mp hcopy
      obtain ⟨w, hw, _⟩ := Option.bind_eq_some_iff.mp hbump
      rw [bump] at hw
      split at hw
      · exact (‹_ ∧ _›).2
      · cases hw

theorem moves_of_does {op : Op} {e : Event (List UInt8)} {q' : List (List UInt8)} (h : Does ps q op e q') :
    Moves q e q' := by
  cases h with
  | push q pkt => exact .put _ _
  | full q pkt => exact .idle _
  | pop pkt q => exact .got _ _
  | empty => exact .idle _

theorem init_holds (host : Endian) {size : Int} {err : UInt32} (h : rbufInit size err p = some rb) :
    Holds host rb [] := by
  have ha := init_aligned h
  rw [rbufInit] at h
  simp only [Option.ite_none_left_eq_some] at h
  obtain ⟨_, _, he⟩ := h
  cases he
  exact ⟨ha, rfl, rfl⟩

/-- A ring buffer with pkt_verify is a queue of packets exactly as long as the place behind every
accepted packet is an int. -/
theorem queues_iff_fits (host : Endian) (size : Int) (err : UInt32) (p : Octets)
    (hinit : rbufInit size err p = some rb) (ops : List Op)
    (hadm : Guarded (step host) (Admitted host) rb ops) :
    Queues host rb ops ↔ Guarded (step host) Fits rb ops := by
  constructor
  · rintro ⟨t, es, q, hrun, _⟩
    have hfits := guarded_and hadm (guarded_of_run (fits_of_step host) hrun)
    exact guarded_mono (fun s op h => h.2 h.1) hfits
  · intro hfits
    obtain ⟨t, es, q, hrun, hruns, _⟩ := guarded_meets (R := fun s q => s.ps = rb.ps ∧ Holds host s q)
      (fun s q op ⟨hps, h⟩ hok => by
        obtain ⟨s', e, q', hs, hdoes, hps', h'⟩ := h.step op hok.1 hok.2
        exact ⟨s', e, q', hs, hps ▸ hdoes, hps'.trans hps, h'⟩)
      ⟨rfl, init_holds host hinit⟩ (guarded_and hadm hfits)
    exact ⟨t, es, q, hrun, hruns, runs_conserves (fun _ _ _ _ h => moves_of_does h) hruns⟩

def shortPkt : List UInt8 := [0x7e, 0x5a, 0, 5] ++ List.replicate 16 0

theorem queues_iff_fits_short : Queues .little smallBuffer [.push shortPkt, .pop 20] ↔
    Guarded (step .little) Fits smallBuffer [.push shortPkt, .pop 20] := by
  apply queues_iff_fits .little 64 0 (fun _ => 0) rfl
  refine ⟨⟨by decide, by decide, by decide⟩, fun p hp => ⟨?_, fun _ _ => trivial⟩⟩
  cases Option.some.inj hp
  intro _
  decide

def longPkt : List UInt8 := [0x7e, 0x5a, 0xff, 0xff, 0, 0, 0, 0] ++ List.replicate 262132 0

theorem length_longPkt : longPkt.length = 262140 := by
  rw [longPkt, List.length_append, List.length_replicate]
  rfl

theorem wellFormed_longPkt : WellFormed .little longPkt := by
  have h8 : ∀ i < 8, longPkt.getD i 0 = [0x7e, 0x5a, 0xff, 0xff, 0, 0, 0, 0].getD i 0 := by
    intro i hi
    rw [longPkt, List.getD_eq_getElem?_getD, List.getElem?_append_left hi, List.getD_eq_getElem?_getD]
  refine ⟨(validSync_congr h8).trans (by decide), ?_, ?_⟩
  · rw [getPlen_congr h8, length_longPkt]
    decide
  · rw [length_longPkt]
    decide

def rounds : Nat → List Op
  | 0 => []
  | k + 1 => rounds k ++ [.push longPkt, .pop 262140]

/-- A buffer of almost 2 GiB. -/
def largest : Handle := ⟨0, 0, 2147483608, 0, fun _ => 0⟩

theorem init_largest : rbufInit 2147483640 0 (fun _ => 0) = some largest := rfl

theorem rounds_run {k : Nat} (hk : k ≤ 8191) : ∃ rb es, run (step .little) largest (rounds k) =
    some (rb, es) ∧ Holds .little rb [] ∧ rb.ps = 2147483608 ∧ rb.w = k * 262144 := by
  induction k with
  | zero => exact ⟨largest, [], rfl, init_holds .little init_largest, rfl, rfl⟩
  | succ k ih =>
      obtain ⟨rb, es, hrun, h, hps, hw⟩ := ih (by omega)
      have hlen := length_longPkt
      have hround : roundUp longPkt.length = 262144 := by rw [hlen]; rfl
      have hsum := dataLen_add_freeLen h.aligned
      rw [h.nil_iff.mpr rfl, hps] at hsum
      simp only [rbufAlignment] at hsum
      obtain ⟨p, hpush, h1⟩ := h.accept wellFormed_longPkt (by omega) (by rw [hround]; unfold intMax; omega)
      obtain ⟨hpop, h2⟩ := @Holds.take _ _ _ _ h1 262140 (by rw [hlen]; decide)
      refine ⟨_, _, run_append hrun (run_cons.mpr ⟨_, _, _, hpush, run_cons.mpr ⟨_, _, _, hpop, rfl, rfl⟩,
        rfl⟩), h2, hps, ?_⟩
      have hw' : next rb.ps rb.w (roundUp longPkt.length) = (k + 1) * 262144 := by
        rw [hround, hps, hw, next, Nat.mod_eq_of_lt (by omega), Nat.succ_mul]
      exact hw'

theorem admitted_rounds (k : Nat) (rb : Handle) :
    Guarded (step .little) (Admitted .little) rb (rounds k ++ [.push longPkt]) := by
  apply guarded_of_forall
  have hrounds : ∀ rb, ∀ op ∈ rounds k, Admitted .little rb op := by
    induction k with
    | zero => exact fun _ => nofun
    | succ k ih =>
        intro rb op hop
        rcases List.mem_append.mp hop with hop | hop
        · exact ih rb op hop
        · rcases List.mem_pair.mp hop with rfl | rfl
          · exact wellFormed_longPkt
          · exact fun _ => verify_le _ _ _
  intro rb op hop
  rcases List.mem_append.mp hop with hop | hop
  · exact hrounds rb op hop
  · rw [List.mem_singleton.mp hop]
    exact wellFormed_longPkt

/-- The place behind a packet near the end of the largest buffer is not an int. -/
theorem last_place_overflows : ¬ ∀ rb, rbufInit 2147483640 0 (fun _ => 0) = some rb →
    ∀ ops, Guarded (step .little) (Admitted .little) rb ops → Queues .little rb ops := by
  intro h
  obtain ⟨k, hk⟩ : ∃ k, k = 8191 := ⟨8191, rfl⟩
  obtain ⟨t, es, q, hrun, _⟩ := h largest init_largest _ (admitted_rounds k largest)
  obtain ⟨rb, es', hrounds, hholds, hps, hw⟩ := rounds_run (k := k) (by omega)
  have hlast := (guarded_drop (guarded_of_run (fits_of_step .little) hrun) hrounds).1 wellFormed_longPkt
  have hsum := dataLen_add_freeLen hholds.aligned
  rw [hholds.nil_iff.mpr rfl, hps] at hsum
  have hfits := hlast (by rw [length_longPkt]; simp only [rbufAlignment] at hsum; omega)
  rw [length_longPkt, hw] at hfits
  simp only [roundUp, rbufAlignment, intMax] at hfits
  omega

end OiAmc.RbufQueue

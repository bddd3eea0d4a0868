import OiAmc.PartialMachine
import OiAmc.Rbuf
import OiAmc.RingIndex

namespace OiAmc.RbufAccount

open ByteBuffer GotoLoop PartialMachine Rbuf RingIndex

variable {rb rb' : Handle} {len l1 n : Nat} {verify : Verify} {op : Op}

/-- The indices are aligned and in the payload area. -/
structure Aligned (rb : Handle) : Prop where
  ps : rbufAlignment ∣ rb.ps
  r : rbufAlignment ∣ rb.r
  w : rbufAlignment ∣ rb.w
  r_lt : rb.r < rb.ps
  w_lt : rb.w < rb.ps

theorem dataLen_eq (h : Aligned rb) : rbufDataLen rb = span rb.ps rb.r rb.w := by
  have hr := h.r_lt
  unfold rbufDataLen rbufDataLens span
  split
  · simp only [*, le_refl, ↓reduceIte, Nat.sub_self]
  · split <;> split <;> simp only <;> omega

theorem dataLen_dvd (h : Aligned rb) : rbufAlignment ∣ rbufDataLen rb :=
  dataLen_eq h ▸ span_dvd h.ps h.r h.w

theorem lt_of_dvd {a m n : Nat} (hm : a ∣ m) (hn : a ∣ n) (h : m < n) : m + a ≤ n := by
  obtain ⟨i, rfl⟩ := hm
  obtain ⟨j, rfl⟩ := hn
  have hij : i + 1 ≤ j := Nat.lt_of_mul_lt_mul_left h
  calc a * i + a = a * (i + 1) := (Nat.mul_succ a i).symm
    _ ≤ a * j := Nat.mul_le_mul_left a hij

theorem dataLen_add_freeLen (h : Aligned rb) :
    rbufDataLen rb + rbufFreeLen rb = rb.ps - rbufAlignment := by
  have hr := h.r_lt
  have hwp := lt_of_dvd h.w h.ps h.w_lt
  rw [dataLen_eq h]
  unfold rbufFreeLen rbufFreeLens span
  by_cases hwr : rb.w < rb.r
  · have hgap := lt_of_dvd h.w h.r hwr
    rw [if_neg (by omega), if_pos hwr]
    omega
  · rw [if_pos (by omega), if_neg hwr]
    by_cases hr0 : rb.r = 0
    · rw [if_pos hr0]
      omega
    · have hr8 := Nat.le_of_dvd (by omega) h.r
      rw [if_neg hr0]
      omega

theorem roundUp_dvd (len : Nat) : rbufAlignment ∣ roundUp len := Nat.dvd_mul_left _ _

theorem roundUp_le (h : rbufAlignment ∣ n) (hlen : len ≤ n) : roundUp len ≤ n := by
  unfold roundUp rbufAlignment at *
  omega

theorem bump_eq {i ps : Nat} (h : i + roundUp len ≤ intMax) :
    bump ps i len = some (next ps i (roundUp len)) := by
  have hle : len + rbufAlignment - 1 ≤ intMax := by
    unfold roundUp rbufAlignment intMax at *
    omega
  exact if_pos ⟨hle, h⟩

theorem aligned_taken (err : UInt32) {d : Nat} (h : Aligned rb) (hd : rbufAlignment ∣ d)
    (hle : d ≤ rbufDataLen rb) (he : rb' = { rb with r := next rb.ps rb.r d, err := err }) :
    Aligned rb' ∧ rb'.ps = rb.ps ∧ rbufDataLen rb' = rbufDataLen rb - d := by
  subst he
  have hps : 0 < rb.ps := Nat.zero_lt_of_lt h.r_lt
  have ha : Aligned { rb with r := next rb.ps rb.r d, err := err } :=
    ⟨h.ps, next_dvd h.ps h.r hd, h.w, next_lt hps, h.w_lt⟩
  refine ⟨ha, rfl, ?_⟩
  rw [dataLen_eq h] at hle ⊢
  rw [dataLen_eq ha]
  exact span_next_start h.r_lt h.w_lt hle

theorem aligned_put {p : Nat → UInt8} {d : Nat} (h : Aligned rb) (hd : rbufAlignment ∣ d)
    (hle : d ≤ rbufFreeLen rb) (he : rb' = { rb with w := next rb.ps rb.w d, p := p }) :
    Aligned rb' ∧ rb'.ps = rb.ps ∧ rbufDataLen rb' = rbufDataLen rb + d := by
  subst he
  have hps : 0 < rb.ps := Nat.zero_lt_of_lt h.r_lt
  have ha : Aligned { rb with w := next rb.ps rb.w d, p := p } :=
    ⟨h.ps, h.r, next_dvd h.ps h.w hd, h.r_lt, next_lt hps⟩
  refine ⟨ha, rfl, ?_⟩
  have hsum := dataLen_add_freeLen h
  have h8 := lt_of_dvd h.r h.ps h.r_lt
  rw [dataLen_eq h] at hsum ⊢
  rw [dataLen_eq ha]
  apply span_next_end h.r_lt h.w_lt
  unfold rbufAlignment at *
  omega

theorem dataLens_inside (h : Aligned rb) :
    rb.r + (rbufDataLens rb).1 ≤ rb.ps ∧ (rbufDataLens rb).2 ≤ rb.ps := by
  have hr := h.r_lt
  have hw := h.w_lt
  unfold rbufDataLens
  split
  · exact ⟨hr.le, Nat.zero_le _⟩
  · split <;> simp only <;> omega

theorem freeLens_inside (h : Aligned rb) :
    rb.w + (rbufFreeLens rb).1 ≤ rb.ps ∧ (rbufFreeLens rb).2 ≤ rb.ps := by
  have hr := h.r_lt
  have hw := h.w_lt
  unfold rbufFreeLens
  split
  · simp only
    omega
  · split <;> simp only <;> omega

theorem copied_of_le (h : Aligned rb) (hlen : len ≤ rbufDataLen rb) :
    ∃ buf, rbufCopied rb len (rbufDataLens rb).1 = some buf := by
  obtain ⟨h1, h2⟩ := dataLens_inside h
  have hle : len ≤ (rbufDataLens rb).1 + (rbufDataLens rb).2 := hlen
  unfold rbufCopied
  split
  · exact ⟨_, by rw [view_of_le (by omega)]; rfl⟩
  · exact ⟨_, by rw [view_of_le h1, Option.bind_eq_bind, Option.bind_some, view_of_le (by omega)]; rfl⟩

theorem stored_of_le (data : Nat → UInt8) (h : Aligned rb) (hlen : len ≤ rbufFreeLen rb) :
    ∃ p, rbufStored rb data len (rbufFreeLens rb).1 = some p := by
  obtain ⟨h1, h2⟩ := freeLens_inside h
  have hle : len ≤ (rbufFreeLens rb).1 + (rbufFreeLens rb).2 := hlen
  unfold rbufStored
  split
  · exact ⟨_, store_of_le (by omega)⟩
  · exact ⟨_, by rw [store_of_le h1, Option.bind_eq_bind, Option.bind_some, store_of_le (by omega)]⟩

theorem copyFromUser_of_le (data : Nat → UInt8) (h : Aligned rb) (hlen : len ≤ rbufFreeLen rb)
    (hint : rb.w + roundUp len ≤ intMax) :
    ∃ p, rbufCopyFromUser rb data len (rbufFreeLens rb).1 =
      some { rb with w := next rb.ps rb.w (roundUp len), p := p } := by
  obtain ⟨p, hp⟩ := stored_of_le data h hlen
  refine ⟨p, ?_⟩
  rw [rbufCopyFromUser, hp, Option.bind_eq_bind, Option.bind_some, bump_eq hint]
  rfl

theorem copyToUser_of_le (h : Aligned rb) (hlen : len ≤ rbufDataLen rb)
    (hint : rb.r + roundUp len ≤ intMax) :
    ∃ buf, rbufCopyToUser rb len (rbufDataLens rb).1 =
      some ({ rb with r := next rb.ps rb.r (roundUp len) }, buf) := by
  obtain ⟨buf, hbuf⟩ := copied_of_le h hlen
  refine ⟨buf, ?_⟩
  rw [rbufCopyToUser, hbuf, Option.bind_eq_bind, Option.bind_some, bump_eq hint]
  rfl

/-- What a call keeps that puts nothing in. -/
structure Drained (rb rb' : Handle) : Prop where
  aligned : Aligned rb'
  ps : rb'.ps = rb.ps
  le : rbufDataLen rb' ≤ rbufDataLen rb

theorem Drained.refl (h : Aligned rb) : Drained rb rb := ⟨h, rfl, le_refl _⟩

theorem popStreamByCount_drained (count : Nat) (h : Aligned rb)
    (hint : count ≤ rbufDataLen rb → rb.r + count ≤ intMax) :
    ∃ rb', rbufPopStreamByCount rb count = some rb' ∧ Drained rb rb' := by
  by_cases hmod : count % rbufAlignment ≠ 0
  · exact ⟨rb, if_pos hmod, Drained.refl h⟩
  by_cases hle : rbufDataLen rb < count
  · exact ⟨rb, by rw [rbufPopStreamByCount, if_neg hmod, if_pos hle], Drained.refl h⟩
  have hfits := hint (not_lt.mp hle)
  obtain ⟨ha, hps, hlen⟩ := aligned_taken rb.err h
    (Nat.dvd_of_mod_eq_zero (not_not.mp hmod)) (not_lt.mp hle) rfl
  refine ⟨_, ?_, ha, hps, by omega⟩
  rw [rbufPopStreamByCount, if_neg hmod, if_neg hle, if_neg (by omega)]
  rfl

theorem skip_drained (h : Aligned rb) (hfits : rbufDataLen rb = 0 → rb.ps = rbufAlignment) :
    Drained rb { rb with r := (rb.r + rbufAlignment) % rb.ps } ∧
      (rbufDataLen { rb with r := (rb.r + rbufAlignment) % rb.ps } < rbufDataLen rb ∨
        rbufDataLen { rb with r := (rb.r + rbufAlignment) % rb.ps } = 0) := by
  by_cases hempty : rbufDataLen rb = 0
  · have hps := hfits hempty
    have hr : rb.r = 0 := Nat.eq_zero_of_dvd_of_lt h.r (hps ▸ h.r_lt)
    have hsame : (rb.r + rbufAlignment) % rb.ps = rb.r := by rw [hr, hps]; rfl
    rw [hsame]
    exact ⟨Drained.refl h, Or.inr hempty⟩
  · have h8 := Nat.le_of_dvd (Nat.pos_of_ne_zero hempty) (dataLen_dvd h)
    obtain ⟨ha, hps, hlen⟩ := aligned_taken rb.err h (dvd_refl rbufAlignment) h8 rfl
    have hpos : 0 < rbufAlignment := by decide
    rw [next] at ha hlen
    exact ⟨⟨ha, rfl, by omega⟩, Or.inl (by omega)⟩

theorem pktAhead_neg (h : rbufPktAhead verify rb < 0) : rbufDataLen rb ≠ 0 := by
  intro hzero
  rw [rbufPktAhead, if_pos hzero] at h
  exact lt_irrefl 0 h

theorem recover_drained (verify : Verify) (h : Aligned rb) (hfits : rbufDataLen rb = 0 → rb.ps = rbufAlignment) :
    ∃ rb', rbufRecover verify rb = some rb' ∧ Drained rb rb' := by
  apply loop_total (I := fun rb' => Drained rb rb' ∧ (rbufDataLen rb' = 0 → rb'.ps = rbufAlignment))
    (μ := rbufDataLen)
  · rintro rb' ⟨hd, hfits'⟩
    obtain ⟨hskip, hless⟩ := skip_drained hd.aligned hfits'
    have hdr : Drained rb { rb' with r := (rb'.r + rbufAlignment) % rb'.ps } :=
      ⟨hskip.aligned, hskip.ps.trans hd.ps, hskip.le.trans hd.le⟩
    by_cases hneg : rbufPktAhead verify { rb' with r := (rb'.r + rbufAlignment) % rb'.ps } < 0
    · have hne := pktAhead_neg hneg
      exact Or.inl ⟨_, if_pos hneg, ⟨hdr, fun h0 => absurd h0 hne⟩, hless.resolve_right hne⟩
    · exact Or.inr ⟨_, if_neg hneg, hdr⟩
  · exact ⟨Drained.refl h, hfits⟩
  · have hsum := dataLen_add_freeLen h
    omega

theorem prefetchStream_of_aligned (h : Aligned rb) (bufsize : Int) :
    ∃ rc buf, rbufPrefetchStream rb bufsize = some (rc, buf) ∧
      rc.toNat ≤ min (rbufDataLen rb) (alignDown bufsize).toNat := by
  unfold rbufPrefetchStream
  simp only
  by_cases hsize : alignDown bufsize ≤ 0
  · exact ⟨0, [], if_pos hsize, Nat.zero_le _⟩
  by_cases hempty : rbufDataLen rb = 0
  · exact ⟨0, [], by rw [if_neg hsize, if_pos hempty], Nat.zero_le _⟩
  obtain ⟨buf, hbuf⟩ := copied_of_le h (min_le_left (rbufDataLen rb) (alignDown bufsize).toNat)
  exact ⟨_, buf, by rw [if_neg hsize, if_neg hempty, hbuf]; rfl, le_refl _⟩

/-- What is asked of a call in the state it is made in: a recovery is not started on an empty
buffer, a packet is not longer than the data, and no sum of an index and a length overflows. -/
def Fits (rb : Handle) : Op → Prop
  | .push _ len => len ≤ rbufFreeLen rb → rb.w + roundUp len.toNat ≤ intMax
  | .pop buf bufsize verify =>
      let len := verify rb.p rb.r (rbufDataLen rb)
      rbufDataLen rb ≠ 0 → 0 < len →
        if bufsize < len ∨ buf = false then
          len + rbufAlignment - 1 ≤ intMax ∧
            (roundUp len.toNat ≤ rbufDataLen rb → rb.r + roundUp len.toNat ≤ intMax)
        else len ≤ rbufDataLen rb ∧ rb.r + roundUp len.toNat ≤ intMax
  | .popStream bufsize => rb.r + min (rbufDataLen rb) (alignDown bufsize).toNat ≤ intMax
  | .prefetchStream _ => True
  | .popStreamByCount count => count ≤ rbufDataLen rb → rb.r + count ≤ intMax
  | .recover _ => rbufDataLen rb = 0 → rb.ps = rbufAlignment
  | .reset => True

theorem pop_drained {buf : Bool} {bufsize : Int} (h : Aligned rb) (hfits : Fits rb (.pop buf bufsize verify)) :
    ∃ rb' res, rbufPop rb buf bufsize verify = some (rb', res) ∧ Drained rb rb' := by
  by_cases hempty : rbufDataLen rb = 0
  · exact ⟨rb, _, if_pos hempty, Drained.refl h⟩
  have hfits := hfits hempty
  have herr (e : UInt32) : Aligned { rb with err := e } := ⟨h.ps, h.r, h.w, h.r_lt, h.w_lt⟩
  have hrecover (e : UInt32) : ∃ rb', rbufRecover verify { rb with err := e } = some rb' ∧
      Drained rb rb' := by
    obtain ⟨rb', hrb', hd⟩ := recover_drained verify (herr e) fun h0 => absurd h0 hempty
    exact ⟨rb', hrb', hd.aligned, hd.ps, hd.le⟩
  rw [rbufPop, if_neg hempty]
  simp only
  by_cases hpos : 0 < verify rb.p rb.r (rbufDataLen rb)
  · have hfits := hfits hpos
    rw [if_pos hpos]
    by_cases hdrop : bufsize < verify rb.p rb.r (rbufDataLen rb) ∨ buf = false
    · rw [if_pos hdrop] at hfits ⊢
      obtain ⟨rb', hrb', hd⟩ := popStreamByCount_drained _ h hfits.2
      exact ⟨rb', _, by rw [if_neg (by omega), hrb']; rfl, hd⟩
    · rw [if_neg hdrop] at hfits ⊢
      have hle : (verify rb.p rb.r (rbufDataLen rb)).toNat ≤ rbufDataLen rb := by omega
      obtain ⟨bytes, hbytes⟩ := copyToUser_of_le (herr 0) hle hfits.2
      obtain ⟨ha, hps, hlen⟩ := aligned_taken 0 h
        (roundUp_dvd (verify rb.p rb.r (rbufDataLen rb)).toNat) (roundUp_le (dataLen_dvd h) hle) rfl
      refine ⟨_, _, by rw [show rbufDataLens rb = rbufDataLens { rb with err := 0 } from rfl, hbytes]; rfl, ha, hps, by omega⟩
  · rw [if_neg hpos]
    by_cases hzero : verify rb.p rb.r (rbufDataLen rb) = 0
    · rw [if_pos hzero]
      by_cases hlimit : rb.err + 1 = 2000
      · obtain ⟨rb', hrb', hd⟩ := hrecover 0
        exact ⟨rb', _, by rw [if_pos hlimit, hrb']; rfl, hd⟩
      · exact ⟨_, _, if_neg hlimit, herr _, rfl, le_refl _⟩
    · obtain ⟨rb', hrb', hd⟩ := hrecover rb.err
      exact ⟨rb', _, by rw [if_neg hzero, hrb']; rfl, hd⟩

theorem popStream_drained {bufsize : Int} (h : Aligned rb) (hfits : Fits rb (.popStream bufsize)) :
    ∃ rb' res, rbufPopStream rb bufsize = some (rb', res) ∧ Drained rb rb' := by
  obtain ⟨rc, buf, hpre, hrc⟩ := prefetchStream_of_aligned h bufsize
  have hint : rb.r + min (rbufDataLen rb) (alignDown bufsize).toNat ≤ intMax := hfits
  obtain ⟨rb', hrb', hd⟩ := popStreamByCount_drained rc.toNat h fun _ => by omega
  simp only [rbufPopStream, hpre, Option.bind_eq_bind, Option.bind_some, hrb', Option.pure_def]
  by_cases hpos : 0 < rc
  · exact ⟨rb', (rc, buf), if_pos hpos, hd⟩
  · exact ⟨rb, (rc, buf), if_neg hpos, Drained.refl h⟩

/-- The number of octets that a call put in. -/
def pushed : Op → Result → Nat
  | .push _ _, res => res.1.toNat
  | _, _ => 0

structure Sound (rb : Handle) : Prop where
  aligned : Aligned rb
  sum : rbufDataLen rb + rbufFreeLen rb = rb.ps - rbufAlignment

/-- A call stays inside the payload area, leaves the buffer sound and makes the data longer
only by what it puts in. -/
def Accounts (rb : Handle) (op : Op) : Prop :=
  ∃ rb' res, step rb op = some (rb', res) ∧ Sound rb' ∧ rb'.ps = rb.ps ∧
    (pushed op res = 0 → rbufDataLen rb' ≤ rbufDataLen rb) ∧
    (0 < pushed op res → rbufDataLen rb' = rbufDataLen rb + roundUp (pushed op res))

theorem accounts_of_drained (res : Result) (hstep : step rb op = some (rb', res))
    (hzero : pushed op res = 0) (hd : Drained rb rb') : Accounts rb op :=
  ⟨rb', res, hstep, ⟨hd.aligned, dataLen_add_freeLen hd.aligned⟩, hd.ps, fun _ => hd.le,
    fun hpos => absurd hzero hpos.ne'⟩

theorem push_accounts {data : Option (Nat → UInt8)} {len : Int} (h : Aligned rb)
    (hfits : Fits rb (.push data len)) : Accounts rb (.push data len) := by
  cases data with
  | none => exact accounts_of_drained _ rfl rfl (Drained.refl h)
  | some data =>
      by_cases hpos : len ≤ 0
      · refine accounts_of_drained (-1, []) ?_ rfl (Drained.refl h)
        rw [step, rbufPush, if_pos hpos]
        rfl
      by_cases hfull : (rbufFreeLen rb : Int) < len
      · refine accounts_of_drained (0, []) ?_ rfl (Drained.refl h)
        rw [step, rbufPush, if_neg hpos, if_pos hfull]
        rfl
      have hle : len.toNat ≤ rbufFreeLen rb := by omega
      have hfree : rbufAlignment ∣ rbufFreeLen rb := by
        have hsum := dataLen_add_freeLen h
        have hdata := dataLen_dvd h
        have hps := h.ps
        have hlt := h.r_lt
        unfold rbufAlignment at *
        omega
      obtain ⟨p, hp⟩ := copyFromUser_of_le data h hle (hfits (not_lt.mp hfull))
      obtain ⟨ha, hps, hlen⟩ := aligned_put (p := p) h (roundUp_dvd len.toNat) (roundUp_le hfree hle) rfl
      refine ⟨_, (len, []), ?_, ⟨ha, dataLen_add_freeLen ha⟩, hps, fun hzero => ?_, fun _ => hlen⟩
      · rw [step, rbufPush, if_neg hpos, if_neg hfull, hp]
        rfl
      · have hnone : len.toNat = 0 := hzero
        omega

theorem reset_drained (h : Aligned rb) : Drained rb (rbufReset rb) := by
  have hps : 0 < rb.ps := Nat.zero_lt_of_lt h.r_lt
  refine ⟨⟨h.ps, dvd_zero _, dvd_zero _, hps, hps⟩, rfl, ?_⟩
  have hzero : rbufDataLen (rbufReset rb) = 0 := rfl
  omega

theorem step_accounts (h : Aligned rb) (hfits : Fits rb op) : Accounts rb op := by
  cases op with
  | push data len => exact push_accounts h hfits
  | pop buf bufsize verify =>
      obtain ⟨rb', res, hstep, hd⟩ := pop_drained h hfits
      exact accounts_of_drained _ hstep rfl hd
  | popStream bufsize =>
      obtain ⟨rb', res, hstep, hd⟩ := popStream_drained h hfits
      exact accounts_of_drained _ hstep rfl hd
  | prefetchStream bufsize =>
      obtain ⟨rc, buf, hpre, -⟩ := prefetchStream_of_aligned h bufsize
      exact accounts_of_drained _ (by rw [step, hpre]; rfl) rfl (Drained.refl h)
  | popStreamByCount count =>
      obtain ⟨rb', hrb', hd⟩ := popStreamByCount_drained _ h hfits
      exact accounts_of_drained _ (by rw [step, hrb']; rfl) rfl hd
  | recover verify =>
      obtain ⟨rb', hrb', hd⟩ := recover_drained verify h hfits
      exact accounts_of_drained _ (by rw [step, hrb']; rfl) rfl hd
  | reset => exact accounts_of_drained _ rfl rfl (reset_drained h)

theorem init_aligned {size : Int} {err : UInt32} {p : Nat → UInt8} (h : rbufInit size err p = some rb) :
    Aligned rb := by
  rw [rbufInit] at h
  simp only [Option.ite_none_left_eq_some] at h
  obtain ⟨hsize, hps, he⟩ := h
  cases he
  refine ⟨?_, dvd_zero _, dvd_zero _, ?_, ?_⟩
  all_goals
    simp only
    unfold alignDown rbufAlignment rbufHdrSize at *
    omega

/-- In a run whose calls all meet what is asked of them, every call keeps the accounts. -/
theorem run_accounts (size : Int) (err : UInt32) (p : Nat → UInt8)
    (hinit : rbufInit size err p = some rb) (ops : List Op) (hfits : Guarded step Fits rb ops) :
    Sound rb ∧ Guarded step Accounts rb ops := by
  have ha := init_aligned hinit
  refine ⟨⟨ha, dataLen_add_freeLen ha⟩, ?_⟩
  apply guarded_imp (I := Aligned) _ ha hfits
  intro s op hs hop
  have hacc := step_accounts hs hop
  refine ⟨hacc, fun q hq => ?_⟩
  obtain ⟨rb', res, hstep, hsound, -⟩ := hacc
  cases hstep.symm.trans hq
  exact hsound.aligned

/-- A buffer of 32 octets of payload. -/
def smallBuffer : Handle := ⟨0, 0, 32, 0, fun _ => 0⟩

theorem run_accounts_small : Sound smallBuffer ∧ Guarded step Accounts smallBuffer
    [.push (some fun _ => 1) 5, .pop true 16 fun _ _ _ => 5] := by
  apply run_accounts 64 0 (fun _ => 0) rfl
  refine ⟨fun _ => by decide, fun q hq => ⟨?_, fun _ _ => trivial⟩⟩
  cases Option.some.inj hq
  intro _ _
  exact ⟨by decide, by decide⟩

/-- The recovery of an empty buffer fills it. -/
theorem recover_fills_empty : ¬ ∀ ops, Guarded step Accounts smallBuffer ops := by
  intro h
  obtain ⟨rb', res, hstep, -, -, hle, -⟩ := (h [.recover fun _ _ _ => 0]).1
  cases Option.some.inj hstep
  exact absurd (hle rfl) (by decide)

end OiAmc.RbufAccount

import OiAmc.Cssock
import OiAmc.PartialMachine
import OiAmc.StreamFrames

namespace OiAmc.CssockFraming

open ByteOrder Pkt ByteBuffer GotoLoop PartialMachine StreamFrames Cssock

/-- The loop, on the octets that it has not looked at: a packet is taken, an octet is lost, or
it waits for more. -/
inductive Delim : List UInt8 → List (List UInt8) → Nat → List UInt8 → Prop
  | wait {u : List UInt8} (h : verdict u = 0) (hlen : u.length ≤ 65536) : Delim u [] 0 u
  | take {u v : List UInt8} {cs : List (List UInt8)} {k : Nat} (h : 0 < verdict u)
      (ht : Delim (u.drop (verdict u).toNat) cs k v) : Delim u (u.take (verdict u).toNat :: cs) k v
  | lose {u v : List UInt8} {cs : List (List UInt8)} {k : Nat} (hne : u ≠ [])
      (h : verdict u < 0 ∨ verdict u = 0 ∧ 65536 < u.length) (ht : Delim (u.drop 1) cs k v) :
      Delim u cs (k + 1) v

structure Held (conn : Conn) (u : List UInt8) : Prop where
  len : conn.rxalignlen = u.length
  octets : entries conn.rxalignbuf 0 u.length = u
  waits : verdict u = 0
  short : u.length ≤ 65536

def forwarded (cs : List (List UInt8)) : List (List UInt8) := cs.filter fun p => !isHeartbeat p

structure At (len : Int) (s : Scan) : Prop where
  sum : s.i + s.dlen = len
  nonneg : 0 ≤ s.dlen
  inside : len ≤ CSSOCK_RXALIGN_BUFSZ

def unseen (conn : Conn) (s : Scan) : List UInt8 := entries conn.rxalignbuf s.i s.dlen.toNat

/-- What the loop leaves with, seen from one of its rounds. -/
def Leaves (conn : Conn) (s : Scan) (x : Conn × List (List UInt8)) : Prop :=
  ∃ cs k v, Delim (unseen conn s) cs k v ∧ Held x.1 v ∧ x.1.rlofbytes = s.rlofbytes + k ∧
    x.2 = s.pushed ++ forwarded cs

def took (conn : Conn) (s : Scan) : Scan :=
  { s with
    i := s.i + (verdict (unseen conn s)).toNat
    dlen := s.dlen - verdict (unseen conn s)
    pushed := s.pushed ++ forwarded [(unseen conn s).take (verdict (unseen conn s)).toNat] }

def lost (s : Scan) : Scan :=
  { s with i := s.i + 1, dlen := s.dlen - 1, rlofbytes := s.rlofbytes + 1 }

variable {conn : Conn} {len : Int} {s : Scan} {u v : List UInt8} {cs : List (List UInt8)} {k : Nat}
  {x : Conn × List (List UInt8)}

theorem getD_entries {b : Octets} {a n i : Nat} (h : i < n) : (entries b a n).getD i 0 = b (a + i) := by
  have hi : i < (entries b a n).length := by rw [length_entries]; exact h
  rw [List.getD_eq_getElem?_getD, List.getElem?_eq_getElem hi, Option.getD_some, getElem_entries]

theorem length_unseen (h : At len s) : ((unseen conn s).length : Int) = s.dlen := by
  rw [unseen, length_entries, Int.toNat_of_nonneg h.nonneg]

theorem verify_unseen (h : At len s) :
    pktVerifySlow (some fun k => conn.rxalignbuf (s.i + k)) s.dlen = verdict (unseen conn s) := by
  rw [verdict, length_unseen h]
  apply verifySlow_congr
  intro i _ hi
  rw [unseen, getD_entries (by omega)]

theorem verdict_le {u : List UInt8} (h : 0 < verdict u) : 20 ≤ verdict u ∧ verdict u ≤ u.length := by
  obtain ⟨hv, _, h20, hlen⟩ | ⟨hv, _⟩ | ⟨hv, _⟩ := verifySlow_cases (fun i => u.getD i 0) u.length
  · rw [verdict, hv]
    exact ⟨h20, hlen⟩
  · rw [verdict, hv] at h
    exact absurd h (by decide)
  · rw [verdict, hv] at h
    exact absurd h (by decide)

theorem forwarded_entries {b : Octets} {a n : Nat} (h : 20 ≤ n) : forwarded [entries b a n] =
    if pkthdrSlowGetType (fun k => b (a + k)) ≠ PKT_TYPE_HEARTBEAT then [entries b a n] else [] := by
  have htype : pkthdrSlowGetType (fun i => (entries b a n).getD i 0) = pkthdrSlowGetType fun k => b (a + k) :=
    getD_entries (by omega)
  rw [forwarded, List.filter_singleton, isHeartbeat, htype, ← bne, Bool.cond_eq_ite]
  simp only [bne_iff_ne]

theorem unseen_took (hpos : 0 < verdict (unseen conn s)) :
    unseen conn (took conn s) = (unseen conn s).drop (verdict (unseen conn s)).toNat := by
  rw [unseen, unseen, drop_entries, took]
  apply congrArg
  simp only [unseen] at hpos ⊢
  omega

theorem unseen_lost : unseen conn (lost s) = (unseen conn s).drop 1 := by
  rw [unseen, unseen, drop_entries, lost]
  apply congrArg
  simp only
  omega

theorem alignRound_take (h : At len s) (hpos : 0 < verdict (unseen conn s)) :
    alignRound conn len s = some (.inl (took conn s)) ∧ At len (took conn s) ∧
      (took conn s).dlen.toNat < s.dlen.toNat := by
  obtain ⟨h20, hle⟩ := verdict_le hpos
  rw [length_unseen h] at hle
  obtain ⟨hsum, hnonneg, hinside⟩ := h
  have hi : (s.i : Int) < len := by omega
  have hview : s.i + (verdict (unseen conn s)).toNat ≤ CSSOCK_RXALIGN_BUFSZ := by omega
  have hpkt : (unseen conn s).take (verdict (unseen conn s)).toNat =
      entries conn.rxalignbuf s.i (verdict (unseen conn s)).toNat :=
    take_entries _ _ (by simp only [unseen] at hle ⊢; omega)
  refine ⟨?_, ⟨?_, ?_, hinside⟩, ?_⟩
  · rw [alignRound, if_pos hi, took, hpkt, forwarded_entries (by omega)]
    simp only [verify_unseen ⟨hsum, hnonneg, hinside⟩, gt_iff_lt, if_pos hpos, view_of_le hview]
    split
    · rfl
    · rw [List.append_nil]
      rfl
  · rw [took]
    simp only
    omega
  · rw [took]
    simp only
    omega
  · rw [took]
    simp only
    omega

theorem alignRound_lose (h : At len s) (hi : s.i < len)
    (hlose : verdict (unseen conn s) < 0 ∨ verdict (unseen conn s) = 0 ∧ 65536 < s.dlen) :
    alignRound conn len s = some (.inl (lost s)) ∧ At len (lost s) ∧
      (lost s).dlen.toNat < s.dlen.toNat := by
  have hpos : ¬ 0 < verdict (unseen conn s) := by omega
  have hlong : verdict (unseen conn s) < 0 ∨ s.dlen > CSSOCK_RXALIGN_BUFSZ / 2 :=
    hlose.imp_right fun h0 => h0.2
  refine ⟨?_, ⟨?_, ?_, h.inside⟩, ?_⟩
  · rw [alignRound, if_pos hi]
    simp only [verify_unseen h, gt_iff_lt, if_neg hpos]
    rw [if_pos hlong]
    rfl
  · have := h.sum
    rw [lost]
    simp only
    omega
  · have := h.sum
    rw [lost]
    simp only
    omega
  · have := h.sum
    rw [lost]
    simp only
    omega

theorem alignRound_wait (h : At len s) (hi : s.i < len) (h0 : verdict (unseen conn s) = 0)
    (hshort : s.dlen ≤ 65536) :
    ∃ c, alignRound conn len s = some (.inr (c, s.pushed)) ∧ Held c (unseen conn s) ∧
      c.rlofbytes = s.rlofbytes := by
  have hpos : ¬ 0 < verdict (unseen conn s) := by omega
  have hlong : ¬ (verdict (unseen conn s) < 0 ∨ s.dlen > CSSOCK_RXALIGN_BUFSZ / 2) := by
    rintro (hneg | hlen)
    · omega
    · exact absurd hlen (not_lt.mpr hshort)
  have hlen := @length_unseen conn _ _ h
  obtain ⟨hsum, hnonneg, hinside⟩ := h
  have hview : s.i + s.dlen.toNat ≤ CSSOCK_RXALIGN_BUFSZ := by omega
  have hstore : 0 + s.dlen.toNat ≤ CSSOCK_RXALIGN_BUFSZ := by omega
  rw [alignRound, if_pos hi]
  simp only [verify_unseen ⟨hsum, hnonneg, hinside⟩, gt_iff_lt, if_neg hpos, if_neg hlong]
  by_cases hmove : 0 < s.i ∧ 0 < s.dlen
  · rw [if_pos hmove]
    simp only [view_of_le hview, store_of_le hstore]
    refine ⟨_, rfl, ⟨hlen.symm, ?_, h0, by omega⟩, rfl⟩
    rw [unseen, length_entries, entries_overlay]
    rfl
  · rw [if_neg hmove]
    have hzero : s.i = 0 := by omega
    refine ⟨_, rfl, ⟨hlen.symm, ?_, h0, by omega⟩, rfl⟩
    rw [unseen, length_entries, hzero]

theorem alignRound_end (h : At len s) (hi : ¬ s.i < len) :
    ∃ c, alignRound conn len s = some (.inr (c, s.pushed)) ∧ Held c [] ∧ unseen conn s = [] ∧
      c.rlofbytes = s.rlofbytes := by
  have h0 : s.dlen.toNat = 0 := by
    have := h.sum
    omega
  refine ⟨⟨conn.rxalignbuf, 0, s.rlofbytes⟩, ?_, ⟨rfl, rfl, rfl, Nat.zero_le _⟩, ?_, rfl⟩
  · rw [alignRound, if_neg hi]
  · rw [unseen, h0]
    rfl

theorem leaves_of_took (hpos : 0 < verdict (unseen conn s)) (h : Leaves conn (took conn s) x) :
    Leaves conn s x := by
  obtain ⟨cs, k, v, hd, hheld, hlof, hx⟩ := h
  rw [unseen_took hpos] at hd
  refine ⟨_, k, v, .take hpos hd, hheld, hlof, ?_⟩
  rw [hx, took, List.append_assoc, forwarded, forwarded, ← List.filter_append]
  rfl

theorem leaves_of_lost (hne : unseen conn s ≠ []) (hlose : verdict (unseen conn s) < 0 ∨
    verdict (unseen conn s) = 0 ∧ 65536 < (unseen conn s).length) (h : Leaves conn (lost s) x) :
    Leaves conn s x := by
  obtain ⟨cs, k, v, hd, hheld, hlof, hx⟩ := h
  rw [unseen_lost] at hd
  refine ⟨cs, k + 1, v, .lose hne hlose hd, hheld, ?_, hx⟩
  rw [hlof, lost]
  simp only
  omega

theorem align_delimits (h : At len s) {n : Nat} (hn : s.dlen.toNat < n) :
    ∃ x, loop (alignRound conn len) n s = some x ∧ Leaves conn s x := by
  apply loop_total_rel (I := At len) (μ := fun s => s.dlen.toNat) _ h hn
  intro s h
  have hlen := @length_unseen conn _ _ h
  by_cases hi : s.i < len
  · have hne : unseen conn s ≠ [] := by
      intro hnil
      have := h.sum
      rw [hnil, List.length_nil] at hlen
      omega
    by_cases hpos : 0 < verdict (unseen conn s)
    · obtain ⟨hround, hat, hless⟩ := alignRound_take h hpos
      exact .inl ⟨_, hround, hat, hless, fun x => leaves_of_took hpos⟩
    by_cases hlose : verdict (unseen conn s) < 0 ∨ verdict (unseen conn s) = 0 ∧ 65536 < s.dlen
    · obtain ⟨hround, hat, hless⟩ := alignRound_lose h hi hlose
      have hlose' : verdict (unseen conn s) < 0 ∨
          verdict (unseen conn s) = 0 ∧ 65536 < (unseen conn s).length := by omega
      exact .inl ⟨_, hround, hat, hless, fun x => leaves_of_lost hne hlose'⟩
    · have h0 : verdict (unseen conn s) = 0 := by omega
      obtain ⟨c, hround, hheld, hlof⟩ := alignRound_wait h hi h0 (by omega)
      refine .inr ⟨_, hround, [], 0, _, .wait h0 (by omega), hheld, hlof, ?_⟩
      exact (List.append_nil _).symm
  · obtain ⟨c, hround, hheld, hnil, hlof⟩ := @alignRound_end conn _ _ h hi
    refine .inr ⟨_, hround, [], 0, [], ?_, hheld, hlof, ?_⟩
    · rw [hnil]
      exact .wait rfl (Nat.zero_le _)
    · exact (List.append_nil _).symm

def received (sk : Sock) : Recv → List UInt8
  | .upTo n => recvOctets sk.pending (CSSOCK_RXALIGN_BUFSZ - sk.conn.rxalignlen).toNat n
  | .again => []
  | .failed => []

/-- What a call did to the octets held, u, with those that it received. -/
structure Fed (sk : Sock) (u data : List UInt8) (sk' : Sock) (pushed : List (List UInt8)) (k : Nat)
    (v : List UInt8) : Prop where
  pending : sk.pending = data ++ sk'.pending
  held : Held sk'.conn v
  lof : sk'.conn.rlofbytes = sk.conn.rlofbytes + k
  delim : ∃ cs, Delim (u ++ data) cs k v ∧ pushed = forwarded cs

theorem entries_received (h : Held conn u) (data : List UInt8) :
    entries (overlay conn.rxalignbuf conn.rxalignlen.toNat data.length fun i => data.getD i 0) 0
      (conn.rxalignlen + data.length).toNat = u ++ data := by
  have hlen : conn.rxalignlen.toNat = u.length := by rw [h.len, Int.toNat_natCast]
  have hsum : (conn.rxalignlen + data.length).toNat = u.length + data.length := by
    have := h.len
    omega
  rw [hsum, entries_append, hlen, entries_overlay_of_le _ _ _ (Nat.zero_add _).le, h.octets,
    Nat.zero_add, entries_overlay, map_getD_range data]

theorem sockRead_fed {sk : Sock} (h : Held sk.conn u) (r : Recv) :
    ∃ sk' rc pushed k v, sockReadFromSocket sk r = some (sk', rc, pushed) ∧
      Fed sk u (received sk r) sk' pushed k v := by
  have hsame : Fed sk u [] sk [] 0 u := by
    refine ⟨rfl, h, rfl, [], ?_, rfl⟩
    rw [List.append_nil]
    exact .wait h.waits h.short
  cases r with
  | again => exact ⟨sk, 0, [], 0, u, rfl, hsame⟩
  | failed => exact ⟨sk, -1, [], 0, u, rfl, hsame⟩
  | upTo n =>
      have hlen := h.len
      have hshort := h.short
      have hroom : ¬ (CSSOCK_RXALIGN_BUFSZ : Int) - sk.conn.rxalignlen < 0 := by
        simp only [CSSOCK_RXALIGN_BUFSZ]
        omega
      by_cases hdata : (received sk (.upTo n)).length = 0
      · refine ⟨sk, -1, [], 0, u, ?_, ?_⟩
        · simp only [sockReadFromSocket, if_neg hroom]
          exact if_pos hdata
        · rw [List.eq_nil_of_length_eq_zero hdata]
          exact hsame
      · have hfits : (received sk (.upTo n)).length ≤ CSSOCK_RXALIGN_BUFSZ - u.length := by
          have hmin := List.length_take_le (min n (CSSOCK_RXALIGN_BUFSZ - sk.conn.rxalignlen).toNat) sk.pending
          simp only [received, recvOctets]
          omega
        have hpending : sk.pending = received sk (.upTo n) ++
            sk.pending.drop (received sk (.upTo n)).length := by
          simp only [received, recvOctets, List.length_take]
          rw [List.take_eq_take_min]
          exact (List.take_append_drop _ _).symm
        obtain ⟨data, hd⟩ : ∃ data, received sk (.upTo n) = data := ⟨_, rfl⟩
        rw [hd] at hdata hfits hpending ⊢
        have hstore : sk.conn.rxalignlen.toNat + data.length ≤ CSSOCK_RXALIGN_BUFSZ := by
          simp only [CSSOCK_RXALIGN_BUFSZ] at hfits ⊢
          omega
        have hat : At (sk.conn.rxalignlen + data.length)
            ⟨0, sk.conn.rxalignlen + data.length, sk.conn.rlofbytes, []⟩ := by
          refine ⟨Int.zero_add _, ?_, ?_⟩
          · simp only
            omega
          · omega
        obtain ⟨buf, hbuf⟩ : ∃ buf, overlay sk.conn.rxalignbuf sk.conn.rxalignlen.toNat data.length
            (fun i => data.getD i 0) = buf := ⟨_, rfl⟩
        obtain ⟨x, hloop, cs, k, v, hdelim, hheld, hlof, hx⟩ :=
          @align_delimits { sk.conn with rxalignbuf := buf } _ _ hat _ (Nat.lt_succ_self _)
        rw [unseen, ← hbuf, entries_received h] at hdelim
        refine ⟨⟨x.1, sk.pending.drop data.length⟩, data.length, x.2, k, v, ?_,
          hpending, hheld, hlof, cs, hdelim, hx⟩
        have hrecv : recvOctets sk.pending (CSSOCK_RXALIGN_BUFSZ - sk.conn.rxalignlen).toNat n = data := hd
        simp only [sockReadFromSocket, if_neg hroom, hrecv]
        rw [if_neg hdata, store_of_le hstore, hbuf]
        simp only [Option.bind_eq_bind, Option.bind_some, hloop]
        rfl

theorem getD_take {u : List UInt8} {i n : Nat} (h : i < n) : (u.take n).getD i 0 = u.getD i 0 := by
  rw [List.getD_eq_getElem?_getD, List.getD_eq_getElem?_getD, List.getElem?_take_of_lt h]

theorem getD_append {p : List UInt8} (t : List UInt8) {i : Nat} (h : i < p.length) :
    (p ++ t).getD i 0 = p.getD i 0 := by
  rw [List.getD_eq_getElem?_getD, List.getD_eq_getElem?_getD, List.getElem?_append_left h]

theorem verdict_of_header {p : List UInt8} (hp : WellFormed p)
    (h : ∀ i < 20, i < u.length → u.getD i 0 = p.getD i 0) :
    verdict u = if p.length ≤ u.length then (p.length : Int) else 0 := by
  have h20 := hp.hdr
  rw [verdict, verifySlow_congr (q := fun i => p.getD i 0) fun i hi hlen => h i hi (by omega)]
  obtain ⟨hv, _, _, hle⟩ | ⟨hv, hlong⟩ | ⟨_, _, hbad⟩ :=
    verifySlow_cases (fun i => p.getD i 0) u.length
  · rw [hv, hp.plen]
    rw [hp.plen] at hle
    rw [if_pos (by omega)]
  · rw [hv]
    rw [hp.plen] at hlong
    rw [if_neg]
    intro hle
    have := hlong (by omega)
    omega
  · have hshort := hbad hp.sync
    rw [hp.plen] at hshort
    omega

theorem verdict_append {p : List UInt8} (hp : WellFormed p) (t : List UInt8) :
    verdict (p ++ t) = p.length := by
  have h20 := hp.hdr
  rw [verdict_of_header hp fun i hi _ => getD_append t (by omega), if_pos]
  rw [List.length_append]
  exact Nat.le_add_right _ _

theorem verdict_part {p : List UInt8} (hp : WellFormed p) {m : Nat} (hm : m < p.length) :
    verdict (p.take m) = 0 := by
  rw [verdict_of_header hp, if_neg]
  · rw [List.length_take]
    omega
  · intro i _ hi
    rw [List.length_take] at hi
    exact getD_take (by omega)

theorem wellFormed_take (h : 0 < verdict u) : WellFormed (u.take (verdict u).toNat) := by
  obtain ⟨h20, hle⟩ := verdict_le h
  have hlen : (u.take (verdict u).toNat).length = (verdict u).toNat := by
    rw [List.length_take]
    omega
  have hdr : ∀ i < 20, (u.take (verdict u).toNat).getD i 0 = u.getD i 0 :=
    fun i hi => getD_take (by omega)
  obtain ⟨hv, hsync, _, _⟩ | ⟨hv, _⟩ | ⟨hv, _⟩ := verifySlow_cases (fun i => u.getD i 0) u.length
  · refine ⟨?_, ?_, by omega⟩
    · rw [slowValidSync_congr hdr, hsync]
    · rw [slowGetPlen_congr hdr, hlen, ← hv]
      exact (Int.toNat_of_nonneg h.le).symm
  · rw [verdict, hv] at h
    exact absurd h (by decide)
  · rw [verdict, hv] at h
    exact absurd h (by decide)

/-- pkt_verify_slow takes these octets, and no others, for a packet. -/
def Accepted (c : List UInt8) : Prop := 0 < verdict c ∧ verdict c = c.length

theorem accepted_of_wellFormed {p : List UInt8} (hp : WellFormed p) : Accepted p := by
  have hv : verdict p = p.length := by
    have := verdict_append hp []
    rwa [List.append_nil] at this
  have h20 := hp.hdr
  exact ⟨by omega, hv⟩

theorem Delim.reads (h : Delim u cs k v) : Reads Accepted u cs v := by
  induction h with
  | wait h hlen => exact .stop _
  | take h _ ih =>
      have hle := verdict_le h
      exact .take _ (by omega) (accepted_of_wellFormed (wellFormed_take h)) ih
  | lose hne _ _ ih => exact .skip 1 (List.length_pos_iff.mpr hne) ih

theorem run_delimits {sk : Sock} (h : Held sk.conn u) (rs : List Recv) :
    ∃ sk' outs data cs v, run sockReadFromSocket sk rs = some (sk', outs) ∧
      sk.pending = data ++ sk'.pending ∧ Held sk'.conn v ∧ Reads Accepted (u ++ data) cs v ∧
      (outs.map Prod.snd).flatten = forwarded cs := by
  induction rs generalizing sk u with
  | nil =>
      refine ⟨sk, [], [], [], u, rfl, rfl, h, ?_, rfl⟩
      rw [List.append_nil]
      exact .stop u
  | cons r rs ih =>
      obtain ⟨sk1, rc, pushed, k, v1, hstep, hpend, hheld, _, cs1, hdelim, hpushed⟩ := sockRead_fed h r
      obtain ⟨sk2, outs, data, cs2, v2, hrun, hpend2, hheld2, hreads, hout⟩ := ih hheld
      refine ⟨sk2, (rc, pushed) :: outs, received sk r ++ data, cs1 ++ cs2, v2, ?_, ?_, hheld2, ?_, ?_⟩
      · exact run_cons.mpr ⟨_, _, _, hstep, hrun, rfl⟩
      · rw [hpend, hpend2, List.append_assoc]
      · rw [← List.append_assoc]
        exact (hdelim.reads.append data).trans hreads
      · rw [List.map_cons, List.flatten_cons, hout, hpushed]
        exact (List.filter_append ..).symm

theorem held_opened (rxalignbuf : Octets) (stream : List UInt8) :
    Held (opened rxalignbuf stream).conn [] := ⟨rfl, rfl, rfl, Nat.zero_le _⟩

theorem verdict_rest {pkts : List (List UInt8)} (hw : ∀ p ∈ pkts, WellFormed p) (n : Nat) :
    verdict (arrived pkts n).2 = 0 := by
  obtain h | ⟨p, hp, m, hm, h⟩ := arrived_rest pkts n
  · rw [h]
    rfl
  · rw [h]
    exact verdict_part (hw p hp) hm

theorem delim_packets {ws : List (List UInt8)} {q : List UInt8} (hw : ∀ w ∈ ws, WellFormed w)
    (hq : verdict q = 0) (hshort : q.length ≤ 65536) (h : Delim (ws.flatten ++ q) cs k v) :
    cs = ws ∧ k = 0 ∧ v = q := by
  induction ws generalizing cs k with
  | nil =>
      rw [List.flatten_nil, List.nil_append] at h
      cases h with
      | wait => exact ⟨rfl, rfl, rfl⟩
      | take hpos => omega
      | lose _ hlose => omega
  | cons w ws ih =>
      have hok := hw w List.mem_cons_self
      have h20 := hok.hdr
      rw [List.flatten_cons, List.append_assoc] at h
      have hv := verdict_append hok (ws.flatten ++ q)
      have hn : (verdict (w ++ (ws.flatten ++ q))).toNat = w.length := by rw [hv, Int.toNat_natCast]
      cases h with
      | wait h0 => omega
      | take _ ht =>
          rw [hn, List.drop_left] at ht
          obtain ⟨rfl, hk, hrest⟩ := ih (fun p hp => hw p (List.mem_cons_of_mem w hp)) ht
          rw [hn, List.take_left]
          exact ⟨rfl, hk, hrest⟩
      | lose _ hlose => omega

/-- The call leaves no more than half an align buffer of a packet that is not complete. -/
def RestFits (pkts : List (List UInt8)) (sk : Sock) (r : Recv) : Prop :=
  (arrived pkts (pkts.flatten.length - sk.pending.length + (received sk r).length)).2.length ≤
    CSSOCK_RXALIGN_BUFSZ / 2

/-- The connection has received some of the packets, and lost nothing. -/
structure InStep (pkts : List (List UInt8)) (sk : Sock) : Prop where
  pending : sk.pending = pkts.flatten.drop (pkts.flatten.length - sk.pending.length)
  held : Held sk.conn (arrived pkts (pkts.flatten.length - sk.pending.length)).2
  lof : sk.conn.rlofbytes = 0

theorem sockRead_inStep {pkts : List (List UInt8)} (hw : ∀ p ∈ pkts, WellFormed p) {sk : Sock} {r : Recv}
    (h : InStep pkts sk) (hr : RestFits pkts sk r) :
    ∃ sk' rc pushed, sockReadFromSocket sk r = some (sk', rc, pushed) ∧ InStep pkts sk' ∧
      forwarded (arrived pkts (pkts.flatten.length - sk'.pending.length)).1 =
        forwarded (arrived pkts (pkts.flatten.length - sk.pending.length)).1 ++ pushed := by
  obtain ⟨sk', rc, pushed, k, v, hstep, hpend, hheld, hlof, cs, hdelim, hpushed⟩ :=
    sockRead_fed h.held r
  refine ⟨sk', rc, pushed, hstep, ?_⟩
  obtain ⟨n, hn⟩ : ∃ n, pkts.flatten.length - sk.pending.length = n := ⟨_, rfl⟩
  obtain ⟨m, hm⟩ : ∃ m, (received sk r).length = m := ⟨_, rfl⟩
  have hp := h.pending
  rw [RestFits, hn, hm] at hr
  rw [hn] at hdelim hp
  have hnm : pkts.flatten.length - sk'.pending.length = n + m := by
    have hle : sk.pending.length ≤ pkts.flatten.length := by
      rw [hp, List.length_drop]
      omega
    have hlen := congrArg List.length hpend
    rw [List.length_append] at hlen
    omega
  have hdata : received sk r = (pkts.flatten.drop n).take m := by
    rw [← hp, hpend, ← hm, List.take_left]
  have hpend' : sk'.pending = pkts.flatten.drop (n + m) := by
    rw [← List.drop_drop, ← hp, hpend, ← hm, List.drop_left]
  obtain ⟨ws, hws, hrest⟩ := arrived_add pkts n m
  rw [hdata, hrest] at hdelim
  obtain ⟨rfl, rfl, rfl⟩ := delim_packets
    (fun w hwm => hw w (arrived_subset (hws ▸ List.mem_append_right _ hwm))) (verdict_rest hw (n + m)) hr hdelim
  rw [hn, hnm, hws]
  refine ⟨⟨?_, ?_, ?_⟩, ?_⟩
  · rw [hnm, hpend']
  · rw [hnm]
    exact hheld
  · rw [hlof, h.lof]
  · rw [hpushed]
    exact List.filter_append ..

theorem run_inStep {pkts : List (List UInt8)} (hw : ∀ p ∈ pkts, WellFormed p) {sk : Sock}
    {rs : List Recv} (h : InStep pkts sk) (hg : Guarded sockReadFromSocket (RestFits pkts) sk rs) :
    ∃ sk' outs, run sockReadFromSocket sk rs = some (sk', outs) ∧ InStep pkts sk' ∧
      forwarded (arrived pkts (pkts.flatten.length - sk'.pending.length)).1 =
        forwarded (arrived pkts (pkts.flatten.length - sk.pending.length)).1 ++
          (outs.map Prod.snd).flatten := by
  induction rs generalizing sk with
  | nil => exact ⟨sk, [], rfl, h, (List.append_nil _).symm⟩
  | cons r rs ih =>
      obtain ⟨sk1, rc, pushed, hstep, h1, hout1⟩ := sockRead_inStep hw h hg.1
      obtain ⟨sk2, outs, hrun, h2, hout2⟩ := ih h1 (hg.2 _ hstep)
      refine ⟨sk2, (rc, pushed) :: outs, run_cons.mpr ⟨_, _, _, hstep, hrun, rfl⟩, h2, ?_⟩
      rw [hout2, hout1, List.append_assoc]
      rfl

theorem arrived_zero {pkts : List (List UInt8)} (hw : ∀ p ∈ pkts, WellFormed p) :
    arrived pkts 0 = ([], []) := by
  cases pkts with
  | nil => rfl
  | cons p ps =>
      have h20 := (hw p List.mem_cons_self).hdr
      rw [arrived, if_neg (by omega), List.take_zero]

theorem inStep_opened {pkts : List (List UInt8)} (hw : ∀ p ∈ pkts, WellFormed p) (rxalignbuf : Octets) :
    InStep pkts (opened rxalignbuf pkts.flatten) := by
  refine ⟨?_, ?_, rfl⟩
  · rw [opened, Nat.sub_self, List.drop_zero]
  · rw [opened, Nat.sub_self, arrived_zero hw]
    exact held_opened rxalignbuf pkts.flatten

theorem restFits_of_short {pkts : List (List UInt8)} (h : ∀ p ∈ pkts, p.length ≤ 65537) (sk : Sock)
    (r : Recv) : RestFits pkts sk r := by
  rw [RestFits]
  obtain h0 | ⟨p, hp, m, hm, hrest⟩ := arrived_rest pkts
    (pkts.flatten.length - sk.pending.length + (received sk r).length)
  · rw [h0]
    exact Nat.zero_le _
  · have hlen := h p hp
    rw [hrest, List.length_take]
    exact (min_le_left _ _).trans (by simp only [CSSOCK_RXALIGN_BUFSZ]; omega)

theorem guarded_of_short {pkts : List (List UInt8)} (h : ∀ p ∈ pkts, p.length ≤ 65537) (sk : Sock)
    (rs : List Recv) : Guarded sockReadFromSocket (RestFits pkts) sk rs :=
  guarded_imp (I := fun _ => True) (fun sk r _ _ => ⟨restFits_of_short h sk r, fun _ _ => trivial⟩)
    trivial (guarded_true sk rs)

/-- A heartbeat packet and another one, of 20 and of 24 octets. -/
def shortPkts : List (List UInt8) :=
  [[0x7e, 0x5a, 0, 5, 1, 0, 0, 0, 0, 0, 0, 0, 0, 0, 0, 0, 0, 0, 0, 0],
    [0x7e, 0x5a, 0, 6, 2, 0, 0, 0, 0, 0, 0, 0, 0, 0, 0, 0, 0, 0, 0, 0, 1, 2, 3, 4]]

def longPkt : List UInt8 := [0x7e, 0x5a, 0x80, 0] ++ List.replicate 131068 0

theorem length_longPkt : longPkt.length = 131072 := by
  rw [longPkt, List.length_append, List.length_replicate]
  rfl

theorem wellFormed_longPkt : WellFormed longPkt := by
  refine ⟨by decide, ?_, ?_⟩
  · rw [length_longPkt]
    decide
  · rw [length_longPkt]
    decide

theorem delim_long (h : Delim u cs k v) (h0 : verdict u = 0) (hlong : 65536 < u.length) : 0 < k := by
  cases h with
  | wait _ hlen => omega
  | take hpos => omega
  | lose => exact Nat.succ_pos _

end OiAmc.CssockFraming

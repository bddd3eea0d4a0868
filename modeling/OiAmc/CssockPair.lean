import OiAmc.CssockCarry
import OiAmc.CssockFraming

/-! Both ends of a connection, and what is on the way between their sockets. -/

namespace OiAmc.CssockPair

open Arena ByteOrder ByteBuffer PartialMachine Pkt Relay StreamFrames
open Pfifo (Ctrl pfifoOpen)
open CssockTx (Buffer Side Pc skipOf pktOf sendTmp coalesce coalesceRound flushRound sendOctets)
open CssockCarry (Fifo Holds Sendable wire payload pending tmpOctets blank start)
open Cssock (Recv Sock WellFormed isHeartbeat verdict sockReadFromSocket CSSOCK_RXALIGN_BUFSZ)
open CssockFraming (Held Delim forwarded received)

/-- The end that sends, the octets that were sent and not received, and the end that receives. -/
structure Pair where
  tx : CssockTx.State
  flight : List UInt8
  rx : Cssock.Conn

/-- The end that sends does something, or the other end calls sock_read_from_socket. -/
inductive Act
  | tx (a : CssockTx.Act)
  | recv (r : Recv)

/-- What was written, taken and sent, and the packets that were handed to pkt_push. -/
structure Output where
  did : Did (List UInt8) UInt8
  pushed : List (List UInt8)

def step (host : Endian) (side : Side) (p : Pair) : Act → Option (Pair × Output)
  | .tx a => (CssockTx.step host side p.tx a).map fun r =>
      ({ p with tx := r.1, flight := p.flight ++ r.2.did.sent }, ⟨r.2.did, []⟩)
  | .recv r => (sockReadFromSocket ⟨p.rx, p.flight⟩ r).map fun q =>
      ({ p with flight := q.1.pending, rx := q.1.conn }, ⟨.none, q.2.2⟩)

/-- A connection that is up, with nothing on the way. -/
def joined (side : Side) (flag : UInt32) (tq : Ctrl Buffer) (rxalignbuf : Octets) : Pair :=
  ⟨⟨CssockTx.opened flag tq, start side⟩, [], ⟨rxalignbuf, 0, 0⟩⟩

/-- The packets that a FIFO has taken for sending. -/
def puts (os : List Output) : List (List UInt8) := os.flatMap fun o => o.did.put

def pushed (os : List Output) : List (List UInt8) := os.flatMap Output.pushed

def heldOctets (conn : Cssock.Conn) : List UInt8 := entries conn.rxalignbuf 0 conn.rxalignlen.toNat

/-- A packet is written with its sync and its length in its header. -/
def Proper (host : Endian) : Act → Prop
  | .tx (.write data len _) => Sendable host data len ∧ pkthdrSlowValidSync data = true
  | _ => True

variable {host : Endian} {side : Side} {flag : UInt32} {p p' : Pair} {q q' : Content (List UInt8) UInt8}
  {os : List Output} {o : Output} {n : Nat} {ps : List (List UInt8)} {data : Octets} {len : Int}

/-- Of the packets written, n octets were received; the others are in flight, wait to be sent or are in the FIFO. -/
structure Under (host : Endian) (flag : UInt32) (p : Pair) (q : Content (List UInt8) UInt8)
    (ps : List (List UInt8)) (n : Nat) : Prop where
  tx : Holds host flag p.tx q
  whole : ∀ w ∈ ps, WellFormed w ∧ w.length ≤ 65516
  le : n ≤ ps.flatten.length
  way : ps.flatten.drop n = p.flight ++ q.rest ++ q.queue.flatten
  rx : Held p.rx (arrived ps n).2
  lof : p.rx.rlofbytes = 0

/-- What was handed on are the packets that are whole in what was received, but for heartbeats. -/
def Meets (host : Endian) (flag : UInt32) (p : Pair) (os : List Output) : Prop :=
  ∃ q n, Under host flag p q (puts os) n ∧ pushed os = forwarded (arrived (puts os) n).1

theorem wellFormed_written (h : Sendable host data len) (hsync : pkthdrSlowValidSync data = true) :
    WellFormed (entries data 0 len.toNat) ∧ (entries data 0 len.toNat).length ≤ 65516 := by
  have hhdr := h.hdr
  have hle := h.le
  simp only [hdrSize] at hhdr
  have hdr : ∀ i < 20, (entries data 0 len.toNat).getD i 0 = data i := by
    intro i hi
    rw [CssockFraming.getD_entries (by omega), Nat.zero_add]
  have hlen := @length_entries _ data 0 len.toNat
  refine ⟨⟨?_, ?_, by omega⟩, by omega⟩
  · exact (Cssock.slowValidSync_congr hdr).trans hsync
  · apply (Cssock.slowGetPlen_congr hdr).trans
    rw [slowGetPlen_eq host, h.plen, hlen]
    omega

theorem arrived_snoc {w : List UInt8} (hw : 0 < w.length) (hn : n ≤ ps.flatten.length) :
    arrived (ps ++ [w]) n = arrived ps n := by
  induction ps generalizing n with
  | nil =>
      obtain rfl := Nat.le_zero.mp hn
      simp only [List.nil_append, arrived, if_neg (Nat.not_le_of_lt hw), List.take_zero]
  | cons p ps ih =>
      rw [List.cons_append, arrived, arrived]
      split
      · rw [ih]
        rw [List.flatten_cons, List.length_append] at hn
        omega
      · rfl

theorem arrived_all (hw : ∀ w ∈ ps, WellFormed w) : (arrived ps ps.flatten.length).1 = ps := by
  induction ps with
  | nil => rfl
  | cons p ps ih =>
      rw [arrived, List.flatten_cons, List.length_append, if_pos (Nat.le_add_right _ _), Nat.add_sub_cancel_left,
        ih fun w hm => hw w (List.mem_cons_of_mem p hm)]

theorem wire_plain (hskip : skipOf flag = 0) : wire flag = id := by
  funext pkt
  rw [wire, hskip, List.drop_zero]
  rfl

theorem puts_snoc : puts (os ++ [o]) = puts os ++ o.did.put := by
  rw [puts, puts, List.flatMap_append, List.flatMap_singleton]

theorem pushed_snoc : pushed (os ++ [o]) = pushed os ++ o.pushed := by
  rw [pushed, pushed, List.flatMap_append, List.flatMap_singleton]

/-- What a step of the sending end does to what is under way. -/
theorem moved (hskip : skipOf flag = 0) {d : Did (List UInt8) UInt8} (hmove : Moves (wire flag) q d q')
    (hway : ps.flatten.drop n = p.flight ++ q.rest ++ q.queue.flatten) (hn : n ≤ ps.flatten.length) :
    (ps ++ d.put).flatten.drop n = p.flight ++ d.sent ++ q'.rest ++ q'.queue.flatten := by
  have hrest := hmove.rest
  rw [wire_plain hskip, List.flatMap_id] at hrest
  have hqueue := congrArg List.flatten hmove.queue
  rw [List.flatten_append, List.flatten_append] at hqueue
  calc (ps ++ d.put).flatten.drop n
      = p.flight ++ q.rest ++ (q.queue.flatten ++ d.put.flatten) := by
        rw [List.flatten_append, List.drop_append_of_le_length hn, hway, List.append_assoc]
    _ = p.flight ++ (q.rest ++ d.took.flatten) ++ q'.queue.flatten := by
        rw [hqueue]
        simp only [List.append_assoc]
    _ = p.flight ++ d.sent ++ q'.rest ++ q'.queue.flatten := by
        rw [hrest]
        simp only [List.append_assoc]

theorem leave_pc (conn : CssockTx.Conn) (ret : Int) (did : Did (List UInt8) UInt8) :
    (CssockTx.leave side conn ret did).1.pc ≠ .loaded ∧ (CssockTx.leave side conn ret did).2.did = did := by
  cases side with
  | csock => exact ⟨Pc.noConfusion, rfl⟩
  | ssock => exact ⟨Pc.noConfusion, rfl⟩

variable {conn : CssockTx.Conn} {s s' : CssockTx.State} {r : CssockTx.Output} {ret : Int} {a : CssockTx.Act}

/-- A round sends of txtmpbuf, or takes packets out of the FIFO. -/
theorem flushRound_did (h : flushRound host side conn ret n = some (s', r)) : r.did.put = [] ∧
    (0 < conn.txtmpbuflen ∧ s'.pc ≠ .loaded ∧ (∃ c, sendTmp conn n = some (c, r.did.sent)) ∨
      conn.txtmpbuflen ≤ 0 ∧ ∃ c, coalesce host conn = some (c, r.did.took) ∧
        (s'.pc = .loaded → c.txbuflen ≠ hdrSize)) := by
  rw [flushRound] at h
  split at h
  · rename_i htmp
    obtain ⟨⟨c, sent⟩, hsend, he⟩ := Option.map_eq_some_iff.mp h
    obtain ⟨hpc, hdid⟩ := @leave_pc side c ret ⟨[], [], sent⟩
    rw [he] at hpc hdid
    rw [hdid]
    exact ⟨rfl, .inl ⟨htmp, hpc, c, hsend⟩⟩
  · rename_i htmp
    obtain ⟨⟨c, took⟩, hload, he⟩ := Option.map_eq_some_iff.mp h
    dsimp only at he
    split at he
    · obtain ⟨hpc, hdid⟩ := @leave_pc side c ret ⟨[], took, []⟩
      rw [he] at hpc hdid
      rw [hdid]
      exact ⟨rfl, .inr ⟨not_lt.mp htmp, c, hload, fun h => absurd h hpc⟩⟩
    · rename_i hlen
      cases he
      exact ⟨rfl, .inr ⟨not_lt.mp htmp, c, hload, fun _ => hlen⟩⟩

theorem round_put (h : CssockTx.step host side s (.round n) = some (s', r)) : r.did.put = [] := by
  rw [CssockTx.step] at h
  split at h
  · exact (flushRound_did h).1
  · cases h
    rfl

theorem send_put (h : CssockTx.step host side s (.send n) = some (s', r)) : r.did.put = [] := by
  rw [CssockTx.step] at h
  split at h
  · obtain ⟨x, _, he⟩ := Option.map_eq_some_iff.mp h
    cases he
    rfl
  · cases h
    rfl

theorem enter_did {up : Bool} (h : CssockTx.step host side s (.enter up) = some (s', r)) : r.did = .none := by
  rw [CssockTx.step] at h
  split at h
  · split at h <;> cases h <;> rfl
  · cases h
    rfl

theorem written_whole (ha : Proper host (.tx a)) (h : CssockTx.step host side s a = some (s', r)) :
    ∀ w ∈ r.did.put, WellFormed w ∧ w.length ≤ 65516 := by
  cases a with
  | write data len mem =>
      obtain ⟨x, _, he⟩ := Option.map_eq_some_iff.mp h
      obtain ⟨_, rfl⟩ := Prod.mk.inj he
      intro w hw
      dsimp only at hw
      split at hw
      · cases hw
      · obtain rfl := List.mem_singleton.mp hw
        exact wellFormed_written ha.1 ha.2
  | enter up =>
      rw [enter_did h]
      exact List.forall_mem_nil _
  | round k =>
      rw [round_put h]
      exact List.forall_mem_nil _
  | send k =>
      rw [send_put h]
      exact List.forall_mem_nil _

theorem writesPackets_of_proper (ha : Proper host (.tx a)) : CssockCarry.WritesPackets host a := by
  cases a with
  | write data len mem => exact ha.1
  | enter up => trivial
  | round k => trivial
  | send k => trivial

/-- What the writes add is not received yet. -/
theorem arrived_written {ws : List (List UInt8)} (hws : ∀ w ∈ ws, WellFormed w) (hn : n ≤ ps.flatten.length) :
    arrived (ps ++ ws) n = arrived ps n := by
  induction ws generalizing ps with
  | nil => rw [List.append_nil]
  | cons w ws ih =>
      have h20 := (hws w List.mem_cons_self).hdr
      rw [List.append_cons, ih (fun w' hw' => hws w' (List.mem_cons_of_mem w hw')), arrived_snoc (by omega) hn]
      rw [List.flatten_append, List.length_append]
      omega

theorem tx_under (side : Side) (hskip : skipOf flag = 0) (ha : Proper host (.tx a)) (h : Under host flag p q ps n) :
    ∃ s' r q', CssockTx.step host side p.tx a = some (s', r) ∧ Moves (wire flag) q r.did q' ∧
      Under host flag { p with tx := s', flight := p.flight ++ r.did.sent } q' (ps ++ r.did.put) n ∧
      arrived (ps ++ r.did.put) n = arrived ps n := by
  have hcarries : CssockCarry.Carries host side flag p.tx q a :=
    CssockCarry.step_carries h.tx (writesPackets_of_proper ha)
  obtain ⟨s', r, q', hstep, hmove, htx⟩ := hcarries
  have hnew := written_whole ha hstep
  have hsame := @arrived_written n ps r.did.put (fun w hw => (hnew w hw).1) h.le
  refine ⟨s', r, q', hstep, hmove, ⟨htx, ?_, ?_, moved hskip hmove h.way h.le, ?_, h.lof⟩, hsame⟩
  · intro w hw
    rcases List.mem_append.mp hw with hw | hw
    · exact h.whole w hw
    · exact hnew w hw
  · rw [List.flatten_append, List.length_append]
    exact Nat.le_add_right_of_le h.le
  · rw [hsame]
    exact h.rx

theorem rest_short (h : ∀ w ∈ ps, WellFormed w ∧ w.length ≤ 65516) (n : Nat) : (arrived ps n).2.length ≤ 65536 := by
  obtain h0 | ⟨w, hw, m, hm, hrest⟩ := arrived_rest ps n
  · rw [h0]
    exact Nat.zero_le _
  · have hlen := (h w hw).2
    rw [hrest, List.length_take]
    omega

/-- What is received are the next octets; the packets that are whole by then are handed on. -/
theorem recv_under (h : Under host flag p q ps n) (r : Recv) :
    ∃ sk rc out, sockReadFromSocket ⟨p.rx, p.flight⟩ r = some (sk, rc, out) ∧
      p.flight = received ⟨p.rx, p.flight⟩ r ++ sk.pending ∧
      Under host flag { p with flight := sk.pending, rx := sk.conn } q ps
        (n + (received ⟨p.rx, p.flight⟩ r).length) ∧
      forwarded (arrived ps (n + (received ⟨p.rx, p.flight⟩ r).length)).1 = forwarded (arrived ps n).1 ++ out := by
  obtain ⟨sk, rc, out, k, v, hstep, hpend, hheld, hlof, cs, hdelim, hout⟩ :=
    CssockFraming.sockRead_fed (show Held (Sock.mk p.rx p.flight).conn _ from h.rx) r
  refine ⟨sk, rc, out, hstep, hpend, ?_⟩
  generalize received ⟨p.rx, p.flight⟩ r = data at hpend hdelim ⊢
  dsimp only at hpend hlof
  have hway := h.way
  rw [hpend, List.append_assoc, List.append_assoc] at hway
  have hle : n + data.length ≤ ps.flatten.length := by
    have hlen := congrArg List.length hway
    have := h.le
    rw [List.length_drop, List.length_append] at hlen
    omega
  have hdata : (ps.flatten.drop n).take data.length = data := by
    rw [hway, List.take_left]
  have hnext : ps.flatten.drop (n + data.length) = sk.pending ++ (q.rest ++ q.queue.flatten) := by
    rw [← List.drop_drop, hway, List.drop_left]
  obtain ⟨ws, hws, hrest⟩ := arrived_add ps n data.length
  rw [hdata] at hrest
  rw [hrest] at hdelim
  have hall : ∀ w ∈ ps, WellFormed w := fun w hw => (h.whole w hw).1
  obtain ⟨rfl, rfl, rfl⟩ := CssockFraming.delim_packets
    (fun w hw => hall w (arrived_subset (hws ▸ List.mem_append_right _ hw)))
    (CssockFraming.verdict_rest hall _) (rest_short h.whole _) hdelim
  refine ⟨⟨h.tx, h.whole, hle, ?_, hheld, ?_⟩, ?_⟩
  · rw [hnext, List.append_assoc]
  · exact hlof.trans h.lof
  · rw [hws, hout]
    exact List.filter_append ..

theorem step_meets (side : Side) (hskip : skipOf flag = 0) {a : Act} (h : Meets host flag p os) (ha : Proper host a) :
    ∃ p' o, step host side p a = some (p', o) ∧ Meets host flag p' (os ++ [o]) := by
  obtain ⟨q, n, hu, hout⟩ := h
  cases a with
  | tx a =>
      obtain ⟨s', r, q', hstep, _, hu', hsame⟩ := tx_under side hskip ha hu
      refine ⟨_, ⟨r.did, []⟩, by rw [step, hstep, Option.map_some], q', n, ?_, ?_⟩
      · rw [puts_snoc]
        exact hu'
      · rw [puts_snoc, pushed_snoc, hsame, List.append_nil]
        exact hout
  | recv r =>
      obtain ⟨sk, rc, out, hstep, _, hu', hnext⟩ := recv_under hu r
      refine ⟨_, ⟨.none, out⟩, by rw [step, hstep, Option.map_some], q,
        n + (received ⟨p.rx, p.flight⟩ r).length, ?_, ?_⟩
      · rw [puts_snoc]
        exact (List.append_nil (puts os)).symm ▸ hu'
      · rw [puts_snoc, pushed_snoc, hout]
        exact (List.append_nil (puts os)).symm ▸ hnext.symm

theorem meets_joined {size : Nat} {tq : Ctrl Buffer}
    (hopen : pfifoOpen Pool.empty size CssockTx.CSSOCK_TX_ENTRYSZ blank = some tq) (rxalignbuf : Octets) : Meets host flag (joined side flag tq rxalignbuf) [] :=
  ⟨⟨[], []⟩, 0, ⟨CssockCarry.open_holds_empty side flag hopen, List.forall_mem_nil _, Nat.le_refl 0, rfl,
    ⟨rfl, rfl, rfl, Nat.zero_le _⟩, rfl⟩, rfl⟩

/-- What is whole of the packets is in front of what is received of the next one and of all that is on the way. -/
theorem Under.all (h : Under host flag p q ps n) : (arrived ps n).1 <+: ps ∧
    ps.flatten = (arrived ps n).1.flatten ++ heldOctets p.rx ++ p.flight ++ q.rest ++ q.queue.flatten := by
  have hheld : heldOctets p.rx = (arrived ps n).2 := by
    rw [heldOctets, h.rx.len, Int.toNat_natCast, h.rx.octets]
  refine ⟨?_, ?_⟩
  · have hfull := arrived_mono ps h.le
    rwa [arrived_all fun w hw => (h.whole w hw).1] at hfull
  · calc ps.flatten = ps.flatten.take n ++ ps.flatten.drop n := (List.take_append_drop n _).symm
      _ = _ := by rw [← arrived_flatten, h.way, hheld]; simp only [List.append_assoc]

theorem coalesce_takes {buf : Buffer} {bufs : List Buffer} (h : Fifo host conn.tq (buf :: bufs))
    {c : CssockTx.Conn} {took : List (List UInt8)} (hload : coalesce host conn = some (c, took)) : took ≠ [] := by
  obtain ⟨x, hx⟩ : ∃ x : CssockTx.Conn, x =
    { conn with txbuf := overlay conn.txbuf 0 20 fun _ => 0, txbuflen := hdrSize } := ⟨_, rfl⟩
  have hfifo : Fifo host x.tq (buf :: bufs) := hx ▸ h
  have hok : CssockCarry.TxbufOk x := by
    have hle : (hdrSize : Int) ≤ CssockTx.CSSOCK_TXBUF_SIZE := by decide
    rw [hx]
    exact ⟨Int.le_refl _, hle⟩
  rw [coalesce, ← hx, GotoLoop.loop] at hload
  rcases CssockCarry.coalesceRound_cons hfifo hok [] with ⟨hlong, _⟩ | ⟨c1, htakes, htq, hround | hround⟩
  · rw [hx] at hlong
    exact absurd hlong (lt_irrefl _)
  · rw [hround] at hload
    have hn : bufs.length < conn.tq.size := by
      have hlt := RingIndex.span_lt h.slots.r_lt h.slots.w_lt
      rw [h.slots.count, List.length_cons] at hlt
      omega
    obtain ⟨c2, more, bufs2, hloop, _⟩ := CssockCarry.coalesceLoop_spec (htq ▸ hfifo.readCommit) htakes.ok
      ([] ++ [pktOf host buf]) hn
    obtain ⟨_, rfl⟩ := Prod.mk.inj (Option.some.inj (hload.symm.trans hloop))
    exact List.cons_ne_nil _ _
  · rw [hround] at hload
    obtain ⟨_, rfl⟩ := Prod.mk.inj (Option.some.inj hload)
    exact List.cons_ne_nil _ _

theorem sendTmp_sent {c : CssockTx.Conn} {sent : List UInt8} (h : sendTmp conn n = some (c, sent)) :
    sent.length = min n conn.txtmpbuflen.toNat := by
  obtain ⟨data, _, h⟩ := Option.bind_eq_some_iff.mp h
  have hsent : sent = sendOctets data conn.txtmpbuflen.toNat n := by
    dsimp only at h
    split at h
    · exact (Prod.mk.inj (Option.some.inj h)).2.symm
    · split at h
      · obtain ⟨_, _, h⟩ := Option.bind_eq_some_iff.mp h
        obtain ⟨_, _, h⟩ := Option.bind_eq_some_iff.mp h
        exact (Prod.mk.inj (Option.some.inj h)).2.symm
      · exact (Prod.mk.inj (Option.some.inj h)).2.symm
  rw [hsent, CssockCarry.sendOctets_length]

/-- 1 while there are packets in txbuf. -/
def stage (s : CssockTx.State) : Nat := if s.pc = .loaded then 1 else 0

/-- What is still to be done: an octet of the FIFO is taken, sent and received. -/
def work (p : Pair) (q : Content (List UInt8) UInt8) : Nat :=
  p.flight.length + 2 * q.rest.length + 4 * q.queue.flatten.length + stage p.tx

def after (p : Pair) (s : CssockTx.State) (r : CssockTx.Output) : Pair :=
  { p with tx := s, flight := p.flight ++ r.did.sent }

theorem work_after (hskip : skipOf flag = 0) (hmove : Moves (wire flag) q r.did q') (hput : r.did.put = []) :
    work (after p s' r) q' + r.did.sent.length + 2 * r.did.took.flatten.length + stage p.tx =
      work p q + stage s' := by
  have hrest := congrArg List.length hmove.rest
  have hqueue := congrArg (fun l => l.flatten.length) hmove.queue
  rw [wire_plain hskip, List.flatMap_id, List.length_append, List.length_append] at hrest
  simp only [hput, List.append_nil, List.flatten_append, List.length_append] at hqueue
  simp only [work, after, List.length_append]
  omega

theorem flatten_pos (h : Holds host flag s q) {ws ws' : List (List UInt8)} (hq : q.queue = ws ++ ws')
    (hne : ws ≠ []) : 0 < ws.flatten.length := by
  obtain ⟨w, ws, rfl⟩ := List.exists_cons_of_ne_nil hne
  obtain ⟨bufs, hfifo, hqueue⟩ := h.fifo
  obtain ⟨b, hb, rfl⟩ : ∃ b ∈ bufs, pktOf host b = w := by
    apply List.mem_map.mp
    rw [← hqueue, hq]
    exact List.mem_cons_self
  have hhdr := (hfifo.packets b hb).hdr
  simp only [hdrSize] at hhdr
  rw [List.flatten_cons, List.length_append, pktOf, length_entries]
  omega

/-- A step of the sending end that is no write. -/
theorem tx_stage (side : Side) (hskip : skipOf flag = 0) (ha : Proper host (.tx a)) (h : Under host flag p q ps n)
    (hput : ∀ s' r, CssockTx.step host side p.tx a = some (s', r) → r.did.put = []) :
    ∃ s' r q', CssockTx.step host side p.tx a = some (s', r) ∧ Moves (wire flag) q r.did q' ∧
      Under host flag (after p s' r) q' ps n ∧
      work (after p s' r) q' + r.did.sent.length + 2 * r.did.took.flatten.length + stage p.tx =
        work p q + stage s' := by
  obtain ⟨s', r, q', hstep, hmove, hu, _⟩ := tx_under side hskip ha h
  have h0 := hput s' r hstep
  rw [h0, List.append_nil] at hu
  exact ⟨s', r, q', hstep, hmove, hu, work_after hskip hmove h0⟩

theorem enter_stage (side : Side) (hskip : skipOf flag = 0) (h : Under host flag p q ps n) :
    ∃ s' r q', CssockTx.step host side p.tx (.enter true) = some (s', r) ∧ Under host flag (after p s' r) q' ps n ∧
      work (after p s' r) q' ≤ work p q ∧ r.did = .none ∧ s'.pc ≠ .out := by
  obtain ⟨s', r, q', hstep, hmove, hu, hwork⟩ := tx_stage side (a := .enter true) hskip trivial h
    fun s' r hs => by rw [enter_did hs]; rfl
  refine ⟨s', r, q', hstep, hu, ?_, enter_did hstep, ?_⟩
  all_goals
    simp only [CssockTx.step] at hstep
    split at hstep
    all_goals
      rename_i hpc
      cases hstep
  · simp only [stage, hpc] at hwork
    exact Nat.le_of_add_right_le (Nat.le_of_add_right_le hwork.le)
  · omega
  · exact Pc.noConfusion
  · exact hpc

theorem round_stage (side : Side) (hskip : skipOf flag = 0) (h : Under host flag p q ps n) {k : Nat} (hk : 0 < k)
    (hpc : p.tx.pc ≠ .out) : ∃ s' r q', CssockTx.step host side p.tx (.round k) = some (s', r) ∧
      Under host flag (after p s' r) q' ps n ∧ work (after p s' r) q' ≤ work p q ∧
      (p.tx.pc = .loaded → s'.pc = .loaded) ∧
      (p.tx.pc ≠ .loaded → q.rest ≠ [] ∨ q.queue ≠ [] → work (after p s' r) q' < work p q) := by
  obtain ⟨s', r, q', hstep, hmove, hu, hwork⟩ := tx_stage side (a := .round k) hskip trivial h
    fun s' r hs => round_put hs
  refine ⟨s', r, q', hstep, hu, ?_⟩
  simp only [CssockTx.step] at hstep
  split at hstep
  · rename_i ret hhead
    have hnot : p.tx.pc ≠ .loaded := by
      rw [hhead]
      exact Pc.noConfusion
    have hstage : stage p.tx = 0 := if_neg hnot
    have hrest : q.rest = tmpOctets p.tx.conn := by rw [h.tx.rest, CssockCarry.pending_of_not_loaded hnot]
    obtain ⟨hput, ⟨htmp, hpc', c, hsend⟩ | ⟨htmp, c, hload, hlen⟩⟩ := flushRound_did hstep
    · have hsent := sendTmp_sent hsend
      have hstage' : stage s' = 0 := if_neg hpc'
      have hpos : 0 < r.did.sent.length := by
        rw [hsent]
        omega
      exact ⟨by omega, fun hl => absurd hl hnot, fun _ _ => by omega⟩
    · obtain ⟨bufs, hfifo, hqueue⟩ := h.tx.fifo
      have hmoved := hmove.queue
      rw [hput, List.append_nil] at hmoved
      have htook : r.did.took ≠ [] → 0 < r.did.took.flatten.length := flatten_pos h.tx hmoved
      have hstage' : stage s' ≤ 2 * r.did.took.flatten.length := by
        by_cases hl : s'.pc = .loaded
        · have hne : r.did.took ≠ [] := by
            intro hnil
            obtain ⟨c', more, bufs', hload', _, _, _, hok, hpayload, _⟩ := CssockCarry.coalesce_spec hfifo
            obtain ⟨rfl, rfl⟩ := Prod.mk.inj (Option.some.inj (hload'.symm.trans hload))
            have h0 := congrArg List.length hpayload
            have hhdr := hok.hdr
            rw [hnil, payload, length_entries] at h0
            apply hlen hl
            simp only [List.flatMap_nil, List.length_nil] at h0
            omega
          have := htook hne
          rw [stage, if_pos hl]
          omega
        · rw [stage, if_neg hl]
          exact Nat.zero_le _
      refine ⟨by omega, fun hl => absurd hl hnot, fun _ hbusy => ?_⟩
      have hnil : q.rest = [] := by
        rw [hrest, tmpOctets, Int.toNat_eq_zero.mpr htmp]
        rfl
      have hne : r.did.took ≠ [] := by
        cases bufs with
        | nil => exact absurd hqueue (hbusy.resolve_left (absurd hnil))
        | cons b bufs => exact coalesce_takes hfifo hload
      have := htook hne
      by_cases hl : s'.pc = .loaded
      · have hs : stage s' = 1 := if_pos hl
        omega
      · have hs : stage s' = 0 := if_neg hl
        omega
  · cases hstep
    rename_i hnot
    refine ⟨by omega, id, fun hl => ?_⟩
    cases hp : p.tx.pc with
    | out => exact absurd hp hpc
    | head ret => exact absurd hp (hnot ret)
    | loaded => exact absurd hp hl

theorem send_stage (side : Side) (hskip : skipOf flag = 0) (h : Under host flag p q ps n) (k : Nat) :
    ∃ s' r q', CssockTx.step host side p.tx (.send k) = some (s', r) ∧ Under host flag (after p s' r) q' ps n ∧
      work (after p s' r) q' ≤ work p q ∧ (p.tx.pc = .loaded → work (after p s' r) q' < work p q) := by
  obtain ⟨s', r, q', hstep, hmove, hu, hwork⟩ := tx_stage side (a := .send k) hskip trivial h
    fun s' r hs => send_put hs
  refine ⟨s', r, q', hstep, hu, ?_⟩
  simp only [CssockTx.step] at hstep
  split at hstep
  · rename_i hl
    obtain ⟨x, _, he⟩ := Option.map_eq_some_iff.mp hstep
    obtain ⟨rfl, _⟩ := Prod.mk.inj he
    have hs : stage p.tx = 1 := if_pos hl
    have hs' : stage ⟨x.1, .head 1⟩ = 0 := rfl
    exact ⟨by omega, fun _ => by omega⟩
  · rename_i hl
    cases hstep
    exact ⟨by omega, fun h => absurd h hl⟩

theorem recv_stage (h : Under host flag p q ps n) {k : Nat} (hk : 0 < k) :
    ∃ sk rc out m, sockReadFromSocket ⟨p.rx, p.flight⟩ (.upTo k) = some (sk, rc, out) ∧
      Under host flag { p with flight := sk.pending, rx := sk.conn } q ps m ∧
      forwarded (arrived ps m).1 = forwarded (arrived ps n).1 ++ out ∧
      work { p with flight := sk.pending, rx := sk.conn } q ≤ work p q ∧
      (p.flight ≠ [] → work { p with flight := sk.pending, rx := sk.conn } q < work p q) := by
  obtain ⟨sk, rc, out, hstep, hpend, hu, hout⟩ := recv_under h (.upTo k)
  refine ⟨sk, rc, out, _, hstep, hu, hout, ?_⟩
  have hlen := congrArg List.length hpend
  rw [List.length_append] at hlen
  have hwork : work { p with flight := sk.pending, rx := sk.conn } q +
      (received ⟨p.rx, p.flight⟩ (.upTo k)).length = work p q := by
    simp only [work]
    omega
  refine ⟨by omega, fun hne => ?_⟩
  have hshort := h.rx.short
  have hroom := h.rx.len
  have hflight := List.length_pos_iff.mpr hne
  have hpos : 0 < (received ⟨p.rx, p.flight⟩ (.upTo k)).length := by
    simp only [received, Cssock.recvOctets, List.length_take, CSSOCK_RXALIGN_BUFSZ]
    omega
  omega

/-- The one that flushes makes a round, and the other end receives. -/
def flushed (k : Nat) : List Act := [.tx (.enter true), .tx (.round k), .tx (.send k), .recv (.upTo k)]

theorem step_tx {s' : CssockTx.State} {r : CssockTx.Output} (h : CssockTx.step host side p.tx a = some (s', r)) :
    step host side p (.tx a) = some (after p s' r, ⟨r.did, []⟩) := by
  rw [step, h]
  rfl

theorem step_recv {k : Recv} {sk : Sock} {rc : Int} {out : List (List UInt8)}
    (h : sockReadFromSocket ⟨p.rx, p.flight⟩ k = some (sk, rc, out)) :
    step host side p (.recv k) = some ({ p with flight := sk.pending, rx := sk.conn }, ⟨.none, out⟩) := by
  rw [step, h]
  rfl

/-- Something is done as long as anything is left. -/
theorem flushed_works (side : Side) (hskip : skipOf flag = 0) (h : Under host flag p q ps n) {k : Nat} (hk : 0 < k) :
    ∃ p' os q' m, run (step host side) p (flushed k) = some (p', os) ∧ puts os = [] ∧
      Under host flag p' q' ps m ∧ forwarded (arrived ps m).1 = forwarded (arrived ps n).1 ++ pushed os ∧
      work p' q' ≤ work p q - 1 := by
  obtain ⟨s1, r1, q1, hstep1, h1, hwork1, hdid, hpc1⟩ := enter_stage side hskip h
  obtain ⟨s2, r2, q2, hstep2, h2, hwork2, hloaded, hround⟩ := round_stage side hskip h1 hk hpc1
  obtain ⟨s3, r3, q3, hstep3, h3, hwork3, hsend⟩ := send_stage side hskip h2 k
  obtain ⟨sk, rc, out, m, hrecv, h4, hout, hwork4, htake⟩ := recv_stage h3 hk
  have hput2 := round_put hstep2
  have hput3 := send_put hstep3
  refine ⟨_, [⟨r1.did, []⟩, ⟨r2.did, []⟩, ⟨r3.did, []⟩, ⟨.none, out⟩], q3, m, ?_, ?_, h4, ?_, ?_⟩
  · exact run_cons.mpr ⟨_, _, _, step_tx hstep1, run_cons.mpr ⟨_, _, _, step_tx hstep2,
      run_cons.mpr ⟨_, _, _, step_tx hstep3, run_cons.mpr ⟨_, _, _, step_recv hrecv, rfl, rfl⟩, rfl⟩, rfl⟩, rfl⟩
  · simp only [puts, List.flatMap_cons, List.flatMap_nil, hdid, hput2, hput3]
    rfl
  · simp only [pushed, List.flatMap_cons, List.flatMap_nil, List.nil_append, List.append_nil]
    exact hout
  · by_cases hl : s1.pc = .loaded
    · have := hsend (hloaded hl)
      omega
    by_cases hbusy : q1.rest ≠ [] ∨ q1.queue ≠ []
    · have := hround hl hbusy
      omega
    obtain ⟨hrest, hqueue⟩ := not_or.mp hbusy
    by_cases hflight : (after (after (after p s1 r1) s2 r2) s3 r3).flight = []
    · have hnone : (after p s1 r1).flight = [] := by
        simp only [after, List.append_eq_nil_iff] at hflight ⊢
        exact hflight.1.1
      have hzero : work (after p s1 r1) q1 = 0 := by
        have hstage : stage (after p s1 r1).tx = 0 := if_neg hl
        rw [work, hnone, not_not.mp hrest, not_not.mp hqueue, hstage]
        rfl
      omega
    · have := htake hflight
      omega

theorem flushes_work (side : Side) (hskip : skipOf flag = 0) (h : Under host flag p q ps n) {k : Nat} (hk : 0 < k) (times : Nat) :
    ∃ p' os q' m, run (step host side) p (List.replicate times (flushed k)).flatten = some (p', os) ∧
      puts os = [] ∧ Under host flag p' q' ps m ∧
      forwarded (arrived ps m).1 = forwarded (arrived ps n).1 ++ pushed os ∧ work p' q' ≤ work p q - times := by
  induction times generalizing p q n with
  | zero => exact ⟨p, [], q, n, rfl, rfl, h, (List.append_nil _).symm, le_refl _⟩
  | succ times ih =>
      obtain ⟨p1, os1, q1, m1, hrun1, hput1, h1, hout1, hwork1⟩ := flushed_works side hskip h hk
      obtain ⟨p2, os2, q2, m2, hrun2, hput2, h2, hout2, hwork2⟩ := ih h1
      refine ⟨p2, os1 ++ os2, q2, m2, ?_, ?_, h2, ?_, by omega⟩
      · rw [List.replicate_succ, List.flatten_cons]
        exact run_append hrun1 hrun2
      · rw [puts, List.flatMap_append, ← puts, ← puts, hput1, hput2]
        rfl
      · rw [hout2, hout1, pushed, pushed, pushed, List.flatMap_append, List.append_assoc]

theorem nothing_left (h : Under host flag p q ps n) (hwork : work p q = 0) :
    (arrived ps n).1 = ps ∧ p.rx.rxalignlen = 0 ∧ p.flight = [] ∧ pending p.tx = [] ∧ Fifo host p.tx.conn.tq [] := by
  simp only [work] at hwork
  have hflight : p.flight = [] := List.eq_nil_of_length_eq_zero (by omega)
  have hrest : q.rest = [] := List.eq_nil_of_length_eq_zero (by omega)
  have hqueue : q.queue = [] := by
    by_contra hne
    have := flatten_pos h.tx (List.append_nil _).symm hne
    omega
  have hn : n = ps.flatten.length := by
    have hway := congrArg List.length h.way
    have := h.le
    rw [hflight, hrest, hqueue, List.length_drop] at hway
    simp only [List.append_nil, List.flatten_nil, List.length_nil] at hway
    omega
  have hall : (arrived ps n).1 = ps := by
    rw [hn]
    exact arrived_all fun w hw => (h.whole w hw).1
  have hheld : (arrived ps n).2 = [] := by
    have hsplit := arrived_flatten ps n
    rw [hall, hn, List.take_length] at hsplit
    rw [hn]
    exact List.append_right_eq_self.mp hsplit
  obtain ⟨bufs, hfifo, hbufs⟩ := h.tx.fifo
  rw [hqueue] at hbufs
  obtain rfl := List.map_eq_nil_iff.mp hbufs.symm
  refine ⟨hall, ?_, hflight, h.tx.rest.symm.trans hrest, hfifo⟩
  rw [h.rx.len, hheld]
  rfl

/-- A packet of 24 octets that is written and sent in two parts. -/
def oneWay : List Act :=
  [.tx (.write (pkthdrSetPlen .little (pkthdrSetSync .little fun _ => 0) 24) 24 true), .tx (.enter true), .tx (.round 0),
    .tx (.send 5), .recv (.upTo 9), .tx (.round 9)]

theorem oneWay_proper : ∀ a ∈ oneWay, Proper .little a := by
  simp only [oneWay, List.forall_mem_cons, Proper, List.not_mem_nil, false_implies, implies_true, and_true]
  exact ⟨⟨(getPlen_setPlen_iff (by decide)).mpr (by decide), by decide, by decide⟩, by decide⟩

theorem smallTq_open : pfifoOpen Pool.empty 2 CssockTx.CSSOCK_TX_ENTRYSZ blank = some CssockCarry.smallTq := rfl

end OiAmc.CssockPair

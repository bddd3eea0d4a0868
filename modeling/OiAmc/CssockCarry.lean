import OiAmc.CssockTx
import OiAmc.PfifoQueue

namespace OiAmc.CssockCarry

open Arena ByteOrder ByteBuffer GotoLoop PartialMachine Pkt Relay CssockTx Function
open Pfifo (Ctrl pfifoOpen pfifoWriteCommit pfifoReadCommit)
open PfifoQueue (Slots pfifoWrite_slots pfifoRead_nil pfifoRead_cons open_holds)

variable {host : Endian} {side : Side} {flag : UInt32} {c c' : Ctrl Buffer} {buf : Buffer} {bufs : List Buffer}
  {conn conn' : Conn} {data : Octets} {len : Int}

/-- A buffer with a packet that txbuf has room for. -/
structure IsPacket (host : Endian) (buf : Buffer) : Prop where
  hdr : hdrSize ≤ pkthdrGetPlen host buf.octets
  le : pkthdrGetPlen host buf.octets ≤ 65516
  fits : pkthdrGetPlen host buf.octets ≤ buf.size

structure Fifo (host : Endian) (c : Ctrl Buffer) (bufs : List Buffer) : Prop where
  slots : Slots c bufs false
  avpsize : c.avpsize = CSSOCK_TX_ENTRYSZ
  room : ∀ a buf, c.heap.get a = some buf → CSSOCK_TX_ENTRYSZ ≤ buf.size
  packets : ∀ buf ∈ bufs, IsPacket host buf

/-- What sock_write_to_buffer is called with: a packet of 20 to 65516 octets. -/
structure Sendable (host : Endian) (data : Octets) (len : Int) : Prop where
  plen : pkthdrGetPlen host data = len
  hdr : hdrSize ≤ len
  le : len ≤ 65516

theorem memcpyTo_spec {heap : Pool Buffer} {p : Nat} (hbuf : heap.get p = some buf) (h0 : 0 ≤ len)
    (hlen : len ≤ buf.size) : ∃ heap', memcpyTo heap p data len = some heap' ∧
      heap.write p ⟨buf.size, overlay buf.octets 0 len.toNat data⟩ = some heap' := by
  obtain ⟨heap', hwrite, _⟩ := @write_some _ heap p ⟨buf.size, overlay buf.octets 0 len.toNat data⟩
    (by rw [hbuf]; nofun)
  refine ⟨heap', ?_, hwrite⟩
  simp only [memcpyTo, hbuf, Option.bind_eq_bind, Option.bind_some]
  rw [if_neg (by omega), store_of_le (by omega)]
  exact hwrite

theorem copied_packet (h : Sendable host data len) (old : Octets) (size : Nat) :
    pkthdrGetPlen host (overlay old 0 len.toNat data) = len ∧
      pktOf host ⟨size, overlay old 0 len.toNat data⟩ = entries data 0 len.toNat := by
  have hhdr := h.hdr
  simp only [hdrSize] at hhdr
  have hplen : pkthdrGetPlen host (overlay old 0 len.toNat data) = len := by
    refine (getPlen_congr fun i hi => ?_).trans h.plen
    rw [overlay, if_pos ⟨Nat.zero_le i, by omega⟩, Nat.sub_zero]
  refine ⟨hplen, ?_⟩
  rw [pktOf, hplen]
  apply entries_congr
  intro i hi
  simp only [overlay]
  rw [if_pos ⟨Nat.zero_le _, by omega⟩, Nat.sub_zero]

theorem write_spec (h : Fifo host conn.tq bufs) (hs : Sendable host data len) (mem : Bool) :
    sockWriteToBuffer conn data len mem = some (conn, 0) ∨
      ∃ tq buf, sockWriteToBuffer conn data len mem = some ({ conn with tq := tq }, len) ∧
        Fifo host tq (bufs ++ [buf]) ∧ pktOf host buf = entries data 0 len.toNat := by
  have hhdr := hs.hdr
  simp only [hdrSize] at hhdr
  rcases pfifoWrite_slots h.slots len (defaultMallocp len mem) with hfull |
    ⟨c', hw, hslots, hroom, hsize, hav, hheap, hslot⟩
  · refine .inl ?_
    simp only [sockWriteToBuffer, hfull, Option.bind_eq_bind, Option.bind_some]
    rfl
  have hmem (buf : Buffer) (he : defaultMallocp len mem = some buf) : buf.size = len.toNat := by
    rw [defaultMallocp] at he
    split at he <;> cases he
    rfl
  -- the buffer of the slot has room for the packet
  obtain ⟨old, hold, hfit⟩ : ∃ old, c'.heap.get (c'.elements c'.w) = some old ∧ len ≤ old.size := by
    rcases hslot with ⟨rfl, hsmall⟩ | ⟨_, old, he, hold⟩
    · obtain ⟨old, hold⟩ := Option.ne_none_iff_exists'.mp (hslots.buffer hslots.w_lt)
      have := h.room _ _ hold
      rw [h.avpsize] at hsmall
      exact ⟨old, hold, by omega⟩
    · have := hmem _ he
      exact ⟨old, hold, by omega⟩
  have hroom' (a : Nat) (buf : Buffer) (hbuf : c'.heap.get a = some buf) : CSSOCK_TX_ENTRYSZ ≤ buf.size := by
    rcases hslot with ⟨rfl, _⟩ | ⟨hbig, _⟩
    · exact h.room a buf hbuf
    · rcases hheap a buf hbuf with hbuf | he
      · exact h.room a buf hbuf
      · have := hmem _ he
        rw [h.avpsize] at hbig
        omega
  obtain ⟨heap, hcopy, hwrite⟩ := @memcpyTo_spec _ data len c'.heap _ hold (by omega) hfit
  obtain ⟨heap', hwrite', hget, hfill⟩ := Slots.fill hslots ⟨old.size, overlay old.octets 0 len.toNat data⟩
  obtain rfl : heap' = heap := Option.some.inj (hwrite'.symm.trans hwrite)
  obtain ⟨hplen, hpkt⟩ := copied_packet hs old.octets old.size
  refine .inr ⟨pfifoWriteCommit { c' with heap := heap' }, ⟨old.size, overlay old.octets 0 len.toNat data⟩, ?_,
    ⟨hfill.writeCommit hroom ?_, hav.trans h.avpsize, ?_, ?_⟩, hpkt⟩
  · simp only [sockWriteToBuffer, hw, hcopy, Option.bind_eq_bind, Option.bind_some]
    rfl
  · simp only [hget, update_self]
  · intro a buf hbuf
    simp only [pfifoWriteCommit, hget] at hbuf
    by_cases ha : a = c'.elements c'.w
    · rw [ha, update_self] at hbuf
      obtain rfl := Option.some.inj hbuf
      exact hroom' _ old hold
    · rw [update_of_ne ha] at hbuf
      exact hroom' a buf hbuf
  · intro buf hbuf
    rcases List.mem_append.mp hbuf with hbuf | hbuf
    · exact h.packets buf hbuf
    · obtain rfl := List.mem_singleton.mp hbuf
      exact ⟨hplen.symm ▸ hs.hdr, hplen.symm ▸ hs.le, hplen.symm ▸ hfit⟩

def wire (flag : UInt32) (pkt : List UInt8) : List UInt8 := pkt.drop (skipOf flag)

def payload (conn : Conn) : List UInt8 := entries conn.txbuf 20 (conn.txbuflen - hdrSize).toNat

/-- txbuf has a header and no more than it has room for. -/
structure TxbufOk (conn : Conn) : Prop where
  hdr : hdrSize ≤ conn.txbuflen
  le : conn.txbuflen ≤ CSSOCK_TXBUF_SIZE

/-- Packets were taken over to txbuf; nothing but txbuf and the FIFO has changed. -/
structure Takes (conn : Conn) (pkts : List (List UInt8)) (conn' : Conn) : Prop where
  flag : conn'.flag = conn.flag
  txtmpbuf : conn'.txtmpbuf = conn.txtmpbuf
  txtmpbuflen : conn'.txtmpbuflen = conn.txtmpbuflen
  ok : TxbufOk conn'
  payload : payload conn' = payload conn ++ pkts.flatMap (wire conn.flag)

theorem takes_none (h : TxbufOk conn) : Takes conn [] conn := ⟨rfl, rfl, rfl, h, (List.append_nil _).symm⟩

theorem Takes.trans {conn'' : Conn} {ps qs : List (List UInt8)} (h : Takes conn ps conn')
    (h' : Takes conn' qs conn'') : Takes conn (ps ++ qs) conn'' := by
  refine ⟨h'.flag.trans h.flag, h'.txtmpbuf.trans h.txtmpbuf, h'.txtmpbuflen.trans h.txtmpbuflen, h'.ok, ?_⟩
  rw [h'.payload, h.payload, h.flag, List.flatMap_append, List.append_assoc]

theorem skipOf_le (flag : UInt32) : skipOf flag ≤ 20 := by
  rw [skipOf]
  split <;> omega

theorem wire_pktOf (host : Endian) (flag : UInt32) (buf : Buffer) : wire flag (pktOf host buf) =
    entries buf.octets (skipOf flag) (pkthdrGetPlen host buf.octets - skipOf flag).toNat := by
  have hlen : (pkthdrGetPlen host buf.octets).toNat - skipOf flag =
      (pkthdrGetPlen host buf.octets - skipOf flag).toNat := by omega
  rw [wire, pktOf, drop_entries, Nat.zero_add, hlen]

theorem payload_overlay (h : TxbufOk conn) (src : Octets) {rc : Int} (hrc : 0 ≤ rc) :
    payload { conn with
      txbuf := overlay conn.txbuf conn.txbuflen.toNat rc.toNat src
      txbuflen := conn.txbuflen + rc } = payload conn ++ entries src 0 rc.toNat := by
  have hhdr := h.hdr
  simp only [hdrSize] at hhdr
  have hlen : (conn.txbuflen + rc - hdrSize).toNat = (conn.txbuflen - hdrSize).toNat + rc.toNat := by
    simp only [hdrSize]
    omega
  have hend : 20 + (conn.txbuflen - hdrSize).toNat = conn.txbuflen.toNat := by
    simp only [hdrSize]
    omega
  simp only [payload]
  rw [hlen, entries_append, entries_overlay_of_le _ _ _ hend.le, hend, entries_overlay]
  refine congrArg _ (List.map_congr_left fun i _ => ?_)
  rw [Nat.zero_add]

theorem Fifo.readCommit (h : Fifo host c (buf :: bufs)) : Fifo host (pfifoReadCommit c) bufs :=
  ⟨h.slots.readCommit, h.avpsize, h.room, fun b hb => h.packets b (List.mem_cons_of_mem buf hb)⟩

theorem coalesceRound_cons (h : Fifo host conn.tq (buf :: bufs)) (hok : TxbufOk conn)
    (took : List (List UInt8)) :
    hdrSize < conn.txbuflen ∧ coalesceRound host (conn, took) = some (.inr (conn, took)) ∨
      ∃ conn', Takes conn [pktOf host buf] conn' ∧ conn'.tq = pfifoReadCommit conn.tq ∧
        (coalesceRound host (conn, took) = some (.inl (conn', took ++ [pktOf host buf])) ∨
          coalesceRound host (conn, took) = some (.inr (conn', took ++ [pktOf host buf]))) := by
  have hpkt := h.packets buf List.mem_cons_self
  have hhdr := hpkt.hdr
  have hle := hpkt.le
  have hfits := hpkt.fits
  have hstart := hok.hdr
  have hskip := skipOf_le conn.flag
  have hwire := wire_pktOf host conn.flag buf
  simp only [hdrSize] at hhdr hstart
  obtain ⟨hread, hget⟩ := pfifoRead_cons h.slots
  by_cases hmore : conn.txbuflen < hdrSize + CSSOCK_TX_ENTRYSZ
  · have hview : view buf.size buf.octets 0 20 = some fun i => buf.octets (0 + i) := view_of_le (by omega)
    generalize hrc : pkthdrGetPlen host buf.octets - (skipOf conn.flag : Int) = rc at hwire
    have hdrop : ¬ (rc < 0 ∨ (CSSOCK_TXBUF_SIZE : Int) - hdrSize < rc) := by
      simp only [CSSOCK_TXBUF_SIZE, hdrSize]
      omega
    by_cases hzero : rc = 0
    · refine .inr ⟨{ conn with tq := pfifoReadCommit conn.tq }, ⟨rfl, rfl, rfl, ⟨hok.hdr, hok.le⟩, ?_⟩, rfl, .inl ?_⟩
      · rw [List.flatMap_singleton, hwire, hzero]
        exact (List.append_nil _).symm
      · simp only [coalesceRound, if_pos hmore, hread, hget, hview, hrc, Option.bind_eq_bind,
          Option.bind_some, if_pos hzero]
        rfl
    by_cases hroom : conn.txbuflen + rc ≤ CSSOCK_TXBUF_SIZE
    · have hsrc : view buf.size buf.octets (skipOf conn.flag) rc.toNat =
          some fun i => buf.octets (skipOf conn.flag + i) := view_of_le (by omega)
      have hstore : store CSSOCK_TXBUF_SIZE conn.txbuf conn.txbuflen.toNat rc.toNat
          (fun i => buf.octets (skipOf conn.flag + i)) =
            some (overlay conn.txbuf conn.txbuflen.toNat rc.toNat fun i => buf.octets (skipOf conn.flag + i)) :=
        store_of_le (by omega)
      refine .inr ⟨{ conn with
        tq := pfifoReadCommit conn.tq
        txbuf := overlay conn.txbuf conn.txbuflen.toNat rc.toNat fun i => buf.octets (skipOf conn.flag + i)
        txbuflen := conn.txbuflen + rc }, ⟨rfl, rfl, rfl, ⟨?_, hroom⟩, ?_⟩, rfl, ?_⟩
      · simp only [hdrSize]
        omega
      · rw [List.flatMap_singleton, hwire]
        refine (payload_overlay hok _ (by omega)).trans (congrArg _ ?_)
        exact entries_congr fun i _ => by rw [Nat.zero_add]
      · simp only [coalesceRound, if_pos hmore, hread, hget, hview, hrc, Option.bind_eq_bind,
          Option.bind_some, if_neg hzero, if_neg hdrop, if_pos hroom, hsrc, hstore]
        by_cases hlast : CSSOCK_TX_ENTRYSZ ≤ rc
        · exact .inr (by rw [if_pos hlast]; rfl)
        · exact .inl (by rw [if_neg hlast]; rfl)
    · have hlast : CSSOCK_TX_ENTRYSZ ≤ rc := by
        simp only [CSSOCK_TXBUF_SIZE, CSSOCK_TX_ENTRYSZ, hdrSize] at hroom hmore ⊢
        omega
      refine .inl ⟨?_, ?_⟩
      · simp only [CSSOCK_TXBUF_SIZE, hdrSize] at hroom ⊢
        omega
      · simp only [coalesceRound, if_pos hmore, hread, hget, hview, hrc, Option.bind_eq_bind,
          Option.bind_some, if_neg hzero, if_neg hdrop, if_neg hroom, if_pos hlast]
        rfl
  · refine .inl ⟨?_, ?_⟩
    · simp only [CSSOCK_TX_ENTRYSZ] at hmore
      omega
    · simp only [coalesceRound, if_neg hmore]

theorem coalesceLoop_spec (h : Fifo host conn.tq bufs) (hok : TxbufOk conn) (took : List (List UInt8)) {n : Nat}
    (hn : bufs.length < n) : ∃ conn' more bufs',
      loop (coalesceRound host) n (conn, took) = some (conn', took ++ more) ∧ Takes conn more conn' ∧
        Fifo host conn'.tq bufs' ∧ bufs.map (pktOf host) = more ++ bufs'.map (pktOf host) := by
  induction bufs generalizing conn took n with
  | nil =>
      obtain ⟨n, rfl⟩ := Nat.exists_eq_succ_of_ne_zero (Nat.pos_iff_ne_zero.mp hn)
      refine ⟨conn, [], [], ?_, takes_none hok, h, rfl⟩
      have hround : coalesceRound host (conn, took) = some (.inr (conn, took)) := by
        simp only [coalesceRound, pfifoRead_nil h.slots, ite_self]
      rw [loop, hround, List.append_nil]
      rfl
  | cons buf bufs ih =>
      obtain ⟨n, rfl⟩ := Nat.exists_eq_succ_of_ne_zero (Nat.ne_of_gt (Nat.lt_of_le_of_lt (Nat.zero_le _) hn))
      rcases coalesceRound_cons h hok took with ⟨-, hround⟩ | ⟨conn', htakes, htq, hround | hround⟩
      · refine ⟨conn, [], buf :: bufs, ?_, takes_none hok, h, rfl⟩
        rw [loop, hround, List.append_nil]
        rfl
      · have hfifo : Fifo host conn'.tq bufs := htq ▸ h.readCommit
        obtain ⟨conn'', more, bufs', hloop, htakes', hfifo', hmap⟩ :=
          ih hfifo htakes.ok (took ++ [pktOf host buf]) (Nat.lt_of_succ_lt_succ hn)
        refine ⟨conn'', pktOf host buf :: more, bufs', ?_, htakes.trans htakes', hfifo', ?_⟩
        · rw [loop, hround]
          rw [List.append_assoc] at hloop
          exact hloop
        · rw [List.map_cons, hmap, List.cons_append]
      · refine ⟨conn', [pktOf host buf], bufs, ?_, htakes, htq ▸ h.readCommit, rfl⟩
        rw [loop, hround]
        rfl

theorem coalesce_spec (h : Fifo host conn.tq bufs) : ∃ conn' more bufs', coalesce host conn = some (conn', more) ∧
    conn'.flag = conn.flag ∧ conn'.txtmpbuf = conn.txtmpbuf ∧ conn'.txtmpbuflen = conn.txtmpbuflen ∧
    TxbufOk conn' ∧ payload conn' = more.flatMap (wire conn.flag) ∧ Fifo host conn'.tq bufs' ∧
    bufs.map (pktOf host) = more ++ bufs'.map (pktOf host) := by
  have hn : bufs.length < conn.tq.size + 1 := by
    have hlt := RingIndex.span_lt h.slots.r_lt h.slots.w_lt
    rw [h.slots.count] at hlt
    omega
  have hle : hdrSize ≤ (CSSOCK_TXBUF_SIZE : Int) := by decide
  obtain ⟨conn', more, bufs', hloop, htakes, hfifo, hmap⟩ := @coalesceLoop_spec host bufs
    { conn with txbuf := overlay conn.txbuf 0 20 fun _ => 0, txbuflen := hdrSize } h
    ⟨Int.le_refl _, hle⟩ [] _ hn
  exact ⟨conn', more, bufs', hloop, htakes.flag, htakes.txtmpbuf, htakes.txtmpbuflen, htakes.ok,
    htakes.payload, hfifo, hmap⟩

def tmpOctets (conn : Conn) : List UInt8 := entries conn.txtmpbuf 0 conn.txtmpbuflen.toNat

structure TmpOk (conn : Conn) : Prop where
  nonneg : 0 ≤ conn.txtmpbuflen
  lt : conn.txtmpbuflen < CSSOCK_TXTMPBUF_SIZE

theorem sendOctets_append (data : Octets) (len n : Nat) :
    sendOctets data len n ++ entries data (min n len) (len - min n len) = entries data 0 len := by
  have happ := entries_append data 0 (min n len) (len - min n len)
  rw [Nat.add_sub_cancel' (Nat.min_le_right n len), Nat.zero_add] at happ
  exact happ.symm

theorem sendOctets_length (data : Octets) (len n : Nat) : (sendOctets data len n).length = min n len :=
  length_entries _ _ _

theorem entries_copied (b src : Octets) (a n : Nat) :
    entries (overlay b 0 n fun i => src (a + i)) 0 n = entries src a n := entries_overlay b 0 n _

theorem sendTmp_spec (h : TmpOk conn) (n : Nat) : ∃ txtmpbuf txtmpbuflen sent,
    sendTmp conn n = some ({ conn with txtmpbuf := txtmpbuf, txtmpbuflen := txtmpbuflen }, sent) ∧
      TmpOk { conn with txtmpbuf := txtmpbuf, txtmpbuflen := txtmpbuflen } ∧
      tmpOctets conn = sent ++ tmpOctets { conn with txtmpbuf := txtmpbuf, txtmpbuflen := txtmpbuflen } := by
  have h0 := h.nonneg
  have hlt := h.lt
  generalize hl : conn.txtmpbuflen.toNat = len
  have hbound : len < CSSOCK_TXTMPBUF_SIZE := by omega
  have hview : view CSSOCK_TXTMPBUF_SIZE conn.txtmpbuf 0 len = some conn.txtmpbuf := view_zero hbound.le
  have hsplit := sendOctets_append conn.txtmpbuf len n
  have hlen := sendOctets_length conn.txtmpbuf len n
  generalize hs : sendOctets conn.txtmpbuf len n = sent at hsplit hlen
  rw [tmpOctets, hl, ← hsplit, ← hlen]
  by_cases hzero : sent.length = 0
  · refine ⟨conn.txtmpbuf, conn.txtmpbuflen, sent, ?_, h, ?_⟩
    · simp only [sendTmp, hl, hview, hs, Option.bind_eq_bind, Option.bind_some, if_pos hzero]
      rfl
    · rw [tmpOctets, hl, hzero, Nat.sub_zero]
  by_cases hrest : sent.length < len
  · refine ⟨overlay conn.txtmpbuf 0 (len - sent.length) fun i => conn.txtmpbuf (sent.length + i),
      (len - sent.length : Nat), sent, ?_, ⟨Int.natCast_nonneg _, ?_⟩, ?_⟩
    · have hview' := @view_of_le _ CSSOCK_TXTMPBUF_SIZE sent.length (len - sent.length) conn.txtmpbuf (by omega)
      have hstore := @store_of_le _ CSSOCK_TXTMPBUF_SIZE 0 (len - sent.length) conn.txtmpbuf
        (fun i => conn.txtmpbuf (sent.length + i)) (by omega)
      simp only [sendTmp, hl, hview, hs, hview', hstore, Option.bind_eq_bind, Option.bind_some, if_neg hzero,
        if_pos hrest]
      rfl
    · simp only
      omega
    · simp only [tmpOctets, Int.toNat_natCast, entries_copied]
  · refine ⟨conn.txtmpbuf, 0, sent, ?_, ⟨Int.le_refl _, by simp only [CSSOCK_TXTMPBUF_SIZE]; omega⟩, ?_⟩
    · simp only [sendTmp, hl, hview, hs, Option.bind_eq_bind, Option.bind_some, if_neg hzero, if_neg hrest]
      rfl
    · have hall : len - sent.length = 0 := by omega
      rw [tmpOctets, hall]
      rfl

theorem sendPkt_spec (hok : TxbufOk conn) (hplen : pkthdrGetPlen host conn.txbuf = conn.txbuflen)
    (hempty : conn.txtmpbuflen = 0) (n : Nat) : ∃ txtmpbuf txtmpbuflen sent,
      sockWritePktSocket host conn n = some ({ conn with txtmpbuf := txtmpbuf, txtmpbuflen := txtmpbuflen }, sent) ∧
        TmpOk { conn with txtmpbuf := txtmpbuf, txtmpbuflen := txtmpbuflen } ∧
        payload conn = sent ++ tmpOctets { conn with txtmpbuf := txtmpbuf, txtmpbuflen := txtmpbuflen } := by
  have hhdr := hok.hdr
  have hle := hok.le
  obtain ⟨len, hlen⟩ := Int.eq_ofNat_of_zero_le (Int.sub_nonneg_of_le hhdr)
  have hdlen : pkthdrGetDlen host conn.txbuf = len := by rw [pkthdrGetDlen, hplen, hlen]
  simp only [CSSOCK_TXBUF_SIZE, hdrSize] at hle hlen
  have hbound : 20 + len ≤ CSSOCK_TXBUF_SIZE := by
    simp only [CSSOCK_TXBUF_SIZE]
    omega
  have hview : view CSSOCK_TXBUF_SIZE conn.txbuf 20 len = some fun i => conn.txbuf (20 + i) := view_of_le hbound
  have hsplit := sendOctets_append (fun i => conn.txbuf (20 + i)) len n
  have hslen := sendOctets_length (fun i => conn.txbuf (20 + i)) len n
  generalize hs : sendOctets (fun i => conn.txbuf (20 + i)) len n = sent at hsplit hslen
  have hpayload : payload conn = sent ++ entries conn.txbuf (20 + sent.length) (len - sent.length) := by
    have hrest : entries (fun i => conn.txbuf (20 + i)) (min n len) (len - min n len) =
        entries conn.txbuf (20 + min n len) (len - min n len) :=
      entries_congr fun i _ => by rw [Nat.add_assoc]
    have hall : entries (fun i => conn.txbuf (20 + i)) 0 len = entries conn.txbuf 20 len :=
      entries_congr fun i _ => by rw [Nat.zero_add]
    rw [payload, show (conn.txbuflen - hdrSize).toNat = len by simp only [hdrSize]; omega, ← hall, ← hsplit,
      hrest, hslen]
  rw [hpayload]
  by_cases hrest : sent.length < len
  · refine ⟨overlay conn.txtmpbuf 0 (len - sent.length) fun i => conn.txbuf (20 + sent.length + i),
      (len - sent.length : Nat), sent, ?_, ⟨Int.natCast_nonneg _, ?_⟩, ?_⟩
    · have hview' := @view_of_le _ CSSOCK_TXBUF_SIZE (20 + sent.length) (len - sent.length) conn.txbuf (by omega)
      have hstore := @store_of_le _ CSSOCK_TXTMPBUF_SIZE 0 (len - sent.length) conn.txtmpbuf
        (fun i => conn.txbuf (20 + sent.length + i)) (by simp only [CSSOCK_TXTMPBUF_SIZE]; omega)
      have hneg : ¬ (len : Int) < 0 := by omega
      have hfit : len - sent.length < CSSOCK_TXTMPBUF_SIZE := by simp only [CSSOCK_TXTMPBUF_SIZE]; omega
      simp only [sockWritePktSocket, hdlen, if_neg hneg, Int.toNat_natCast, hview, hs, hview', hstore,
        Option.bind_eq_bind, Option.bind_some, Nat.cast_lt, if_pos hrest, if_pos hfit]
      rfl
    · simp only [CSSOCK_TXTMPBUF_SIZE]
      omega
    · simp only [tmpOctets, Int.toNat_natCast, entries_copied]
  · refine ⟨conn.txtmpbuf, conn.txtmpbuflen, sent, ?_, ⟨hempty.ge, ?_⟩, ?_⟩
    · have hneg : ¬ (len : Int) < 0 := by omega
      simp only [sockWritePktSocket, hdlen, if_neg hneg, Int.toNat_natCast, hview, hs,
        Option.bind_eq_bind, Option.bind_some, Nat.cast_lt, if_neg hrest]
      rfl
    · rw [hempty]
      decide
    · have hall : len - sent.length = 0 := by omega
      rw [tmpOctets, hempty, hall]
      rfl

theorem setHeader_behind (ph : Octets) (plen : Int) {i : Nat} (hi : 8 ≤ i) :
    pkthdrSetPlen host (pkthdrSetSync host ph) plen i = ph i := by
  have hsync : pkthdrSetSync host ph i = ph i := by
    rw [pkthdrSetSync, store16_swap16, putBe16_of_outside _ _ _ (by omega)]
  rw [pkthdrSetPlen]
  split
  · rw [rawSetLen_of_outside _ (by omega), pkthdrScSetFlen, update_of_ne (by omega), pkthdrScClrFlen,
      update_of_ne (by omega), hsync]
  · exact hsync

/-- What was taken out of the FIFO and is not sent yet. -/
def pending (s : State) : List UInt8 := tmpOctets s.conn ++ if s.pc = .loaded then payload s.conn else []

/-- A state stands for a queue of packets and the octets that are to be sent before them. -/
structure Holds (host : Endian) (flag : UInt32) (s : State) (c : Content (List UInt8) UInt8) : Prop where
  flag : s.conn.flag = flag
  fifo : ∃ bufs, Fifo host s.conn.tq bufs ∧ c.queue = bufs.map (pktOf host)
  txbuf : s.conn.txbuflen ≤ CSSOCK_TXBUF_SIZE
  tmp : TmpOk s.conn
  loaded : s.pc = .loaded → s.conn.txtmpbuflen = 0 ∧ TxbufOk s.conn ∧
    pkthdrGetPlen host s.conn.txbuf = s.conn.txbuflen
  rest : c.rest = pending s

variable {s : State} {q : Content (List UInt8) UInt8}

theorem pending_of_not_loaded (h : s.pc ≠ .loaded) : pending s = tmpOctets s.conn := by
  rw [pending, if_neg h, List.append_nil]

/-- An action moves packets and octets on their way, and nothing else. -/
def Carries (host : Endian) (side : Side) (flag : UInt32) (s : State) (q : Content (List UInt8) UInt8)
    (a : Act) : Prop :=
  ∃ s' o q', step host side s a = some (s', o) ∧ Moves (wire flag) q o.did q' ∧ Holds host flag s' q'

theorem carries_stay (h : Holds host flag s q) {a : Act} {rc : Option Int}
    (ha : step host side s a = some (s, ⟨rc, .none⟩)) : Carries host side flag s q a :=
  ⟨s, _, q, ha, moves_none _ q, h⟩

theorem write_carries (h : Holds host flag s q) (hs : Sendable host data len) (mem : Bool) :
    Carries host side flag s q (.write data len mem) := by
  obtain ⟨bufs, hfifo, hqueue⟩ := h.fifo
  rcases write_spec hfifo hs mem with hw | ⟨tq, buf, hw, hfifo', hpkt⟩
  · exact carries_stay h (by simp only [step, hw, Option.map_some, if_true]; rfl)
  · have hhdr := hs.hdr
    simp only [hdrSize] at hhdr
    have hne : len ≠ 0 := by omega
    refine ⟨⟨{ s.conn with tq := tq }, s.pc⟩, ⟨some len, [entries data 0 len.toNat], [], []⟩,
      ⟨q.queue ++ [entries data 0 len.toNat], q.rest⟩, ?_, ⟨rfl, List.append_nil _⟩,
      h.flag, ⟨bufs ++ [buf], hfifo', ?_⟩, h.txbuf, ⟨h.tmp.nonneg, h.tmp.lt⟩, ?_, h.rest⟩
    · simp only [step, hw, Option.map_some, if_neg hne]
    · rw [List.map_append, hqueue, List.map_singleton, hpkt]
    · intro hpc
      obtain ⟨hempty, hok, hplen⟩ := h.loaded hpc
      exact ⟨hempty, ⟨hok.hdr, hok.le⟩, hplen⟩

theorem enter_carries (h : Holds host flag s q) (up : Bool) : Carries host side flag s q (.enter up) := by
  by_cases hout : s.pc = .out
  · cases up with
    | false => exact carries_stay h (by simp only [step, if_pos hout]; rfl)
    | true =>
        refine ⟨⟨s.conn, .head 0⟩, ⟨none, .none⟩, q, ?_, moves_none _ q, h.flag, h.fifo, h.txbuf, h.tmp, nofun, ?_⟩
        · simp only [step, if_pos hout]
          rfl
        · have hpc : s.pc ≠ .loaded := by
            rw [hout]
            decide
          rw [h.rest, pending_of_not_loaded hpc]
          exact (List.append_nil _).symm
  · exact carries_stay h (by simp only [step, if_neg hout]; rfl)

theorem leave_carries {a : Act} {ret : Int} {did : Did (List UInt8) UInt8}
    (ha : step host side s a = some (leave side conn ret did)) (hflag : conn.flag = flag)
    (hfifo : Fifo host conn.tq bufs) (htxbuf : conn.txbuflen ≤ CSSOCK_TXBUF_SIZE) (htmp : TmpOk conn)
    (hmove : Moves (wire flag) q did ⟨bufs.map (pktOf host), tmpOctets conn⟩) :
    Carries host side flag s q a := by
  have hrest : tmpOctets conn = tmpOctets conn ++ [] := (List.append_nil _).symm
  cases side with
  | csock => exact ⟨_, _, _, ha, hmove, hflag, ⟨bufs, hfifo, rfl⟩, htxbuf, htmp, nofun, hrest⟩
  | ssock => exact ⟨_, _, _, ha, hmove, hflag, ⟨bufs, hfifo, rfl⟩, htxbuf, htmp, nofun, hrest⟩

theorem tmpRound_carries (h : Holds host flag s q) {ret : Int} (hpc : s.pc = .head ret)
    (htmp : 0 < s.conn.txtmpbuflen) (n : Nat) : Carries host side flag s q (.round n) := by
  obtain ⟨bufs, hfifo, hqueue⟩ := h.fifo
  obtain ⟨txtmpbuf, txtmpbuflen, sent, hsend, hok, hsplit⟩ := sendTmp_spec h.tmp n
  have hrest : q.rest = tmpOctets s.conn := by
    rw [h.rest, pending_of_not_loaded]
    rw [hpc]
    nofun
  have hround : step host side s (.round n) =
      some (leave side { s.conn with txtmpbuf := txtmpbuf, txtmpbuflen := txtmpbuflen } ret ⟨[], [], sent⟩) := by
    simp only [step, hpc, flushRound, if_pos htmp, hsend, Option.map_some]
  refine leave_carries hround h.flag hfifo h.txbuf hok ⟨?_, ?_⟩
  · rw [hqueue]
    exact List.append_nil _
  · rw [hrest, hsplit]
    exact List.append_nil _

theorem loadRound_carries (h : Holds host flag s q) {ret : Int} (hpc : s.pc = .head ret)
    (htmp : ¬ 0 < s.conn.txtmpbuflen) (n : Nat) : Carries host side flag s q (.round n) := by
  obtain ⟨bufs, hfifo, hqueue⟩ := h.fifo
  obtain ⟨conn', more, bufs', hload, hflag, -, hlen, hok, hpayload, hfifo', hmap⟩ := coalesce_spec hfifo
  have hempty : s.conn.txtmpbuflen = 0 := by have := h.tmp.nonneg; omega
  have htmp' : TmpOk conn' := ⟨hlen ▸ h.tmp.nonneg, hlen ▸ h.tmp.lt⟩
  have hnone : tmpOctets conn' = [] := by rw [tmpOctets, hlen, hempty]; rfl
  have hrest : q.rest = [] := by
    rw [h.rest, pending_of_not_loaded, tmpOctets, hempty]
    · rfl
    · rw [hpc]
      nofun
  rw [h.flag] at hpayload hflag
  by_cases hstart : conn'.txbuflen = hdrSize
  · have hround : step host side s (.round n) = some (leave side conn' ret ⟨[], more, []⟩) := by
      simp only [step, hpc, flushRound, if_neg htmp, hload, Option.map_some, if_pos hstart]
    refine leave_carries hround hflag hfifo' hok.le htmp' ⟨?_, ?_⟩
    · rw [hqueue, hmap]
      exact List.append_nil _
    · rw [hrest, hnone, ← hpayload, payload, hstart]
      rfl
  · have hbehind : payload { conn' with
        txbuf := pkthdrSetPlen host (pkthdrSetSync host conn'.txbuf) conn'.txbuflen } = payload conn' :=
      entries_congr fun i _ => setHeader_behind _ _ (by omega)
    have hplen := (@getPlen_setPlen_iff host (pkthdrSetSync host conn'.txbuf) conn'.txbuflen hok.hdr).mpr
      (by have := hok.le; simp only [CSSOCK_TXBUF_SIZE] at this; omega)
    refine ⟨⟨{ conn' with
      txbuf := pkthdrSetPlen host (pkthdrSetSync host conn'.txbuf) conn'.txbuflen }, .loaded⟩,
      ⟨none, [], more, []⟩, ⟨bufs'.map (pktOf host), more.flatMap (wire flag)⟩, ?_, ⟨?_, ?_⟩,
      hflag, ⟨bufs', hfifo', rfl⟩, hok.le, ⟨htmp'.nonneg, htmp'.lt⟩,
      fun _ => ⟨hlen.trans hempty, ⟨hok.hdr, hok.le⟩, hplen⟩, ?_⟩
    · simp only [step, hpc, flushRound, if_neg htmp, hload, Option.map_some, if_neg hstart]
    · rw [hqueue, hmap]
      exact List.append_nil _
    · rw [hrest]
    · rw [pending, if_pos rfl, hbehind, hpayload]
      exact (congrArg (· ++ _) hnone).symm

theorem round_carries (h : Holds host flag s q) (n : Nat) : Carries host side flag s q (.round n) := by
  cases hpc : s.pc with
  | out => exact carries_stay h (by simp only [step, hpc]; rfl)
  | loaded => exact carries_stay h (by simp only [step, hpc]; rfl)
  | head ret =>
      by_cases htmp : 0 < s.conn.txtmpbuflen
      · exact tmpRound_carries h hpc htmp n
      · exact loadRound_carries h hpc htmp n

theorem send_carries (h : Holds host flag s q) (n : Nat) : Carries host side flag s q (.send n) := by
  by_cases hpc : s.pc = .loaded
  · obtain ⟨hempty, hok, hplen⟩ := h.loaded hpc
    obtain ⟨txtmpbuf, txtmpbuflen, sent, hsend, htmp, hsplit⟩ := sendPkt_spec hok hplen hempty n
    have hnone : tmpOctets s.conn = [] := by rw [tmpOctets, hempty]; rfl
    refine ⟨⟨{ s.conn with txtmpbuf := txtmpbuf, txtmpbuflen := txtmpbuflen }, .head 1⟩, ⟨none, [], [], sent⟩,
      ⟨q.queue, tmpOctets { s.conn with txtmpbuf := txtmpbuf, txtmpbuflen := txtmpbuflen }⟩, ?_, ⟨?_, ?_⟩,
      h.flag, h.fifo, h.txbuf, htmp, nofun, ?_⟩
    · simp only [step, if_pos hpc, hsend, Option.map_some]
    · exact List.append_nil _
    · rw [h.rest, pending, if_pos hpc, hnone, hsplit]
      exact List.append_nil _
    · exact (List.append_nil _).symm
  · exact carries_stay h (by simp only [step, if_neg hpc]; rfl)

def WritesPackets (host : Endian) : Act → Prop
  | .write data len _ => Sendable host data len
  | _ => True

theorem step_carries (h : Holds host flag s q) {a : Act} (ha : WritesPackets host a) :
    Carries host side flag s q a := by
  cases a with
  | write data len mem => exact write_carries h ha mem
  | enter up => exact enter_carries h up
  | round n => exact round_carries h n
  | send n => exact send_carries h n

/-- What pfifo_open has for a buffer. -/
def blank : Buffer := ⟨1500, fun _ => 0⟩

def start : Side → Pc
  | .csock => .out
  | .ssock => .head 0

theorem open_holds_empty (side : Side) (flag : UInt32) {size : Nat} {tq : Ctrl Buffer}
    (hopen : pfifoOpen Pool.empty size CSSOCK_TX_ENTRYSZ blank = some tq) :
    Holds host flag ⟨opened flag tq, start side⟩ ⟨[], []⟩ := by
  obtain ⟨hqueue, _, hav⟩ := open_holds hopen
  have hroom : ∀ n a buf, (Pfifo.allocated Pool.empty blank n).1.get a = some buf →
      CSSOCK_TX_ENTRYSZ ≤ buf.size := by
    intro n
    induction n with
    | zero =>
        intro a buf hbuf
        cases hbuf
    | succ n ih =>
        intro a buf hbuf
        simp only [Pfifo.allocated, alloc_get] at hbuf
        by_cases ha : a = (Pfifo.allocated Pool.empty blank n).1.next
        · rw [ha, update_self] at hbuf
          obtain rfl := Option.some.inj hbuf
          decide
        · rw [update_of_ne ha] at hbuf
          exact ih a buf hbuf
  obtain ⟨_, hc⟩ := Option.ite_none_right_eq_some.mp hopen
  have hheap : tq.heap = (Pfifo.allocated Pool.empty blank size).1 := by
    obtain rfl := Option.some.inj hc
    rfl
  refine ⟨rfl, ⟨[], ⟨hqueue.slots, hav, ?_, List.forall_mem_nil _⟩, rfl⟩, (by decide : (0 : Int) ≤ CSSOCK_TXBUF_SIZE),
    ⟨Int.le_refl 0, (by decide : (0 : Int) < CSSOCK_TXTMPBUF_SIZE)⟩, ?_, ?_⟩
  · intro a buf hbuf
    rw [show (opened flag tq).tq.heap = _ from hheap] at hbuf
    exact hroom size a buf hbuf
  · intro hpc
    cases side <;> cases hpc
  · cases side <;> rfl

/-- The FIFO of a connection with room for one packet. -/
def smallTq : Ctrl Buffer :=
  ⟨2, CSSOCK_TX_ENTRYSZ, (Pfifo.allocated Pool.empty blank 2).2, 0, 0, (Pfifo.allocated Pool.empty blank 2).1⟩

end OiAmc.CssockCarry

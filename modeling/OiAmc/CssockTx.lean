import OiAmc.ByteBuffer
import OiAmc.GotoLoop
import OiAmc.Pfifo
import OiAmc.Pkt
import OiAmc.FifoTrace

namespace OiAmc.CssockTx

open Arena ByteOrder ByteBuffer GotoLoop Pfifo Pkt Relay

def CSSOCK_TXTMPBUF_SIZE : Nat := 131072

def CSSOCK_TXBUF_SIZE : Nat := 65536

def CSSOCK_TX_ENTRYSZ : Int := 1500

def CSSOCK_PAYLOAD_ONLY : UInt32 := 0x00000001

def CSSOCK_CUSTOMIZED_PKTSYNC : UInt32 := 0x00000002

structure Buffer where
  size : Nat
  octets : Octets

/-- mem is whether malloc finds memory. -/
def defaultMallocp (psize : Int) (mem : Bool) : Option Buffer :=
  if mem then some ⟨psize.toNat, fun _ => 0⟩ else none

structure Conn where
  flag : UInt32
  tq : Ctrl Buffer
  txbuf : Octets
  txbuflen : Int
  txtmpbuf : Octets
  txtmpbuflen : Int

/-- A copy to a buffer of the FIFO. A negative length is a huge one for memcpy. -/
def memcpyTo (heap : Pool Buffer) (p : Nat) (data : Octets) (len : Int) : Option (Pool Buffer) := do
  let buf ← heap.get p
  if len < 0 then none
  let octets ← store buf.size buf.octets 0 len.toNat data
  heap.write p ⟨buf.size, octets⟩

/-- 0 is for a packet that is discarded. -/
def sockWriteToBuffer (conn : Conn) (data : Octets) (len : Int) (mem : Bool) : Option (Conn × Int) := do
  let (tq, slot) ← pfifoWrite conn.tq len (defaultMallocp len mem)
  match slot with
  | none => return ({ conn with tq := tq }, 0)
  | some p => do
      let heap ← memcpyTo tq.heap p data len
      return ({ conn with tq := pfifoWriteCommit { tq with heap := heap } }, len)

def skipOf (flag : UInt32) : Nat :=
  if flag &&& (CSSOCK_CUSTOMIZED_PKTSYNC ||| CSSOCK_PAYLOAD_ONLY) ≠ 0 then 20 else 0

def pktOf (host : Endian) (buf : Buffer) : List UInt8 :=
  entries buf.octets 0 (pkthdrGetPlen host buf.octets).toNat

variable (host : Endian)

/-- One round of the loop that fills txbuf, with the packets that were taken out of the FIFO. -/
def coalesceRound (s : Conn × List (List UInt8)) :
    Option ((Conn × List (List UInt8)) ⊕ (Conn × List (List UInt8))) :=
  let (conn, took) := s
  if conn.txbuflen < hdrSize + CSSOCK_TX_ENTRYSZ then
    match pfifoRead conn.tq with
    | none => some (.inr s)
    | some ph => do
        let buf ← conn.tq.heap.get ph
        let _ ← view buf.size buf.octets 0 20
        let skip := skipOf conn.flag
        let rc := pkthdrGetPlen host buf.octets - skip
        let taken := took ++ [pktOf host buf]
        if rc = 0 then return .inl ({ conn with tq := pfifoReadCommit conn.tq }, taken)
        -- the comparison is one of size_t
        if rc < 0 ∨ CSSOCK_TXBUF_SIZE - hdrSize < rc then
          return .inl ({ conn with tq := pfifoReadCommit conn.tq }, taken)
        if conn.txbuflen + rc ≤ CSSOCK_TXBUF_SIZE then
          let src ← view buf.size buf.octets skip rc.toNat
          let txbuf ← store CSSOCK_TXBUF_SIZE conn.txbuf conn.txbuflen.toNat rc.toNat src
          let next := ({ conn with
            tq := pfifoReadCommit conn.tq
            txbuf := txbuf
            txbuflen := conn.txbuflen + rc }, taken)
          return if CSSOCK_TX_ENTRYSZ ≤ rc then .inr next else .inl next
        return if CSSOCK_TX_ENTRYSZ ≤ rc then .inr s else .inl s
  else some (.inr s)

/-- The loop takes packets from the FIFO as long as there are any. -/
def coalesce (conn : Conn) : Option (Conn × List (List UInt8)) :=
  loop (coalesceRound host) (conn.tq.size + 1)
    ({ conn with txbuf := overlay conn.txbuf 0 20 fun _ => 0, txbuflen := hdrSize }, [])

/-- Of some octets send takes n, if there are as many. None are taken when it would block. -/
def sendOctets (data : Octets) (len n : Nat) : List UInt8 := entries data 0 (min n len)

def sendTmp (conn : Conn) (n : Nat) : Option (Conn × List UInt8) := do
  let len := conn.txtmpbuflen.toNat
  let data ← view CSSOCK_TXTMPBUF_SIZE conn.txtmpbuf 0 len
  let sent := sendOctets data len n
  let rc := sent.length
  if rc = 0 then return (conn, sent)
  if rc < len then
    let remain := len - rc
    let rest ← view CSSOCK_TXTMPBUF_SIZE conn.txtmpbuf rc remain
    let txtmpbuf ← store CSSOCK_TXTMPBUF_SIZE conn.txtmpbuf 0 remain rest
    return ({ conn with txtmpbuf := txtmpbuf, txtmpbuflen := remain }, sent)
  return ({ conn with txtmpbuflen := 0 }, sent)

/-- txbuf is sent behind its header; what send does not take goes to txtmpbuf. -/
def sockWritePktSocket (conn : Conn) (n : Nat) : Option (Conn × List UInt8) := do
  let rlen := pkthdrGetDlen host conn.txbuf
  if rlen < 0 then none
  let data ← view CSSOCK_TXBUF_SIZE conn.txbuf 20 rlen.toNat
  let sent := sendOctets data rlen.toNat n
  if sent.length < rlen then
    let remain := rlen.toNat - sent.length
    if remain < CSSOCK_TXTMPBUF_SIZE then
      let rest ← view CSSOCK_TXBUF_SIZE conn.txbuf (20 + sent.length) remain
      let txtmpbuf ← store CSSOCK_TXTMPBUF_SIZE conn.txtmpbuf 0 remain rest
      return ({ conn with txtmpbuf := txtmpbuf, txtmpbuflen := remain }, sent)
    return (conn, sent)
  return (conn, sent)

/-- Who flushes: a call of csock_flush_tx, or the thread of ssock, which goes on for ever. -/
inductive Side
  | csock
  | ssock
  deriving DecidableEq

/-- Where the one that flushes is: outside of csock_flush_tx, at the head of the loop, with what
the call is to return, or behind the unlock of wlock, with packets in txbuf. -/
inductive Pc
  | out
  | head (ret : Int)
  | loaded
  deriving DecidableEq

structure State where
  conn : Conn
  pc : Pc

/-- A writer calls sock_write_to_buffer; the one that flushes enters csock_flush_tx, on a socket
that is up or not, comes to the unlock of wlock or to the end of the round, or sends txbuf. -/
inductive Act
  | write (data : Octets) (len : Int) (mem : Bool)
  | enter (up : Bool)
  | round (n : Nat)
  | send (n : Nat)

/-- What an action returns, if it ends a call, and what it did. -/
structure Output where
  rc : Option Int
  did : Did (List UInt8) UInt8

def leave (side : Side) (conn : Conn) (ret : Int) (did : Did (List UInt8) UInt8) : State × Output :=
  match side with
  | .csock => (⟨conn, .out⟩, ⟨some ret, did⟩)
  | .ssock => (⟨conn, .head ret⟩, ⟨none, did⟩)

/-- A round up to the unlock of wlock, or to its end. -/
def flushRound (side : Side) (conn : Conn) (ret : Int) (n : Nat) : Option (State × Output) :=
  if 0 < conn.txtmpbuflen then
    (sendTmp conn n).map fun r => leave side r.1 ret ⟨[], [], r.2⟩
  else
    (coalesce host conn).map fun r =>
      if r.1.txbuflen = hdrSize then leave side r.1 ret ⟨[], r.2, []⟩
      else
        let txbuf := pkthdrSetPlen host (pkthdrSetSync host r.1.txbuf) r.1.txbuflen
        (⟨{ r.1 with txbuf := txbuf }, .loaded⟩, ⟨none, [], r.2, []⟩)

/-- An action that does not come next where its party is leaves everything as it is. -/
def step (side : Side) (s : State) : Act → Option (State × Output)
  | .write data len mem => (sockWriteToBuffer s.conn data len mem).map fun r =>
      (⟨r.1, s.pc⟩, ⟨some r.2, if r.2 = 0 then [] else [entries data 0 len.toNat], [], []⟩)
  | .enter up =>
      if s.pc = .out then
        if up then some (⟨s.conn, .head 0⟩, ⟨none, .none⟩) else some (s, ⟨some 0, .none⟩)
      else some (s, ⟨none, .none⟩)
  | .round n =>
      match s.pc with
      | .head ret => flushRound host side s.conn ret n
      | _ => some (s, ⟨none, .none⟩)
  | .send n =>
      if s.pc = .loaded then
        (sockWritePktSocket host s.conn n).map fun r => (⟨r.1, .head 1⟩, ⟨none, [], [], r.2⟩)
      else some (s, ⟨none, .none⟩)

def opened (flag : UInt32) (tq : Ctrl Buffer) : Conn := ⟨flag, tq, fun _ => 0, 0, fun _ => 0, 0⟩

end OiAmc.CssockTx

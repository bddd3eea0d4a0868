import OiAmc.ByteBuffer
import OiAmc.GotoLoop
import OiAmc.Pkt

namespace OiAmc.Cssock

open ByteOrder Pkt ByteBuffer GotoLoop

def CSSOCK_RXALIGN_BUFSZ : Nat := 131072

def PKT_TYPE_HEARTBEAT : UInt8 := 0x01

structure Conn where
  rxalignbuf : Octets
  rxalignlen : Int
  rlofbytes : Nat

/-- A connection and the octets that its socket has not yet handed over. -/
structure Sock where
  conn : Conn
  pending : List UInt8

/-- What the kernel does at a recv: it hands over some octets, at most the given number, it has
none (EAGAIN), or it fails. -/
inductive Recv
  | upTo (n : Nat)
  | again
  | failed

/-- The octets that recv hands over when it is asked for size octets. -/
def recvOctets (pending : List UInt8) (size n : Nat) : List UInt8 := pending.take (min n size)

/-- The variables of the loop that looks for packets; p is rxalignbuf + i. -/
structure Scan where
  i : Nat
  dlen : Int
  rlofbytes : Nat
  pushed : List (List UInt8)

/-- One round of the loop: it goes on, or it leaves with the connection as it is then and the
packets that were handed to pkt_push. -/
def alignRound (conn : Conn) (len : Int) (s : Scan) : Option (Scan ⊕ Conn × List (List UInt8)) :=
  if s.i < len then
    let p : Octets := fun k => conn.rxalignbuf (s.i + k)
    let plen := pktVerifySlow (some p) s.dlen
    if plen > 0 then do
      let pkt ← view CSSOCK_RXALIGN_BUFSZ conn.rxalignbuf s.i plen.toNat
      let pushed :=
        if pkthdrSlowGetType p ≠ PKT_TYPE_HEARTBEAT then
          s.pushed ++ [(List.range plen.toNat).map pkt]
        else s.pushed
      return .inl { s with i := s.i + plen.toNat, dlen := s.dlen - plen, pushed := pushed }
    else if plen < 0 ∨ s.dlen > CSSOCK_RXALIGN_BUFSZ / 2 then
      some (.inl { s with i := s.i + 1, dlen := s.dlen - 1, rlofbytes := s.rlofbytes + 1 })
    else do
      -- wait for more data
      let buf ←
        if s.i > 0 ∧ s.dlen > 0 then do
          let rest ← view CSSOCK_RXALIGN_BUFSZ conn.rxalignbuf s.i s.dlen.toNat
          store CSSOCK_RXALIGN_BUFSZ conn.rxalignbuf 0 s.dlen.toNat rest
        else some conn.rxalignbuf
      return .inr (⟨buf, s.dlen, s.rlofbytes⟩, s.pushed)
  else some (.inr (⟨conn.rxalignbuf, 0, s.rlofbytes⟩, s.pushed))

/-- The return code and the packets handed to pkt_push. -/
abbrev Received := Int × List (List UInt8)

/-- On a connection without CSSOCK_CUSTOMIZED_PKTSYNC and CSSOCK_PAYLOAD_ONLY. -/
def sockReadFromSocket (sk : Sock) (r : Recv) : Option (Sock × Received) :=
  match r with
  | .again => some (sk, 0, [])
  | .failed => some (sk, -1, [])
  | .upTo n =>
      let room := CSSOCK_RXALIGN_BUFSZ - sk.conn.rxalignlen
      -- a negative size is a huge one for recv
      if room < 0 then none
      else
        let data := recvOctets sk.pending room.toNat n
        if data.length = 0 then some (sk, -1, [])
        else do
          let buf ← store CSSOCK_RXALIGN_BUFSZ sk.conn.rxalignbuf sk.conn.rxalignlen.toNat
            data.length fun i => data.getD i 0
          let len := sk.conn.rxalignlen + data.length
          let left ← loop (alignRound { sk.conn with rxalignbuf := buf } len) (len.toNat + 1)
            ⟨0, len, sk.conn.rlofbytes, []⟩
          return (⟨left.1, sk.pending.drop data.length⟩, data.length, left.2)

/-- A connection with an empty align buffer, in front of a stream. -/
def opened (rxalignbuf : Octets) (stream : List UInt8) : Sock := ⟨⟨rxalignbuf, 0, 0⟩, stream⟩

/-- What pkt_verify_slow says of a list of octets. -/
def verdict (u : List UInt8) : Int := pktVerifySlow (some fun i => u.getD i 0) u.length

structure WellFormed (p : List UInt8) : Prop where
  sync : pkthdrSlowValidSync (fun i => p.getD i 0) = true
  plen : pkthdrSlowGetPlen (fun i => p.getD i 0) = p.length
  hdr : 20 ≤ p.length

def isHeartbeat (p : List UInt8) : Bool := pkthdrSlowGetType (fun i => p.getD i 0) == PKT_TYPE_HEARTBEAT

theorem slowValidSync_congr {p q : Octets} (h : ∀ i < 20, p i = q i) :
    pkthdrSlowValidSync p = pkthdrSlowValidSync q := by
  rw [slowValidSync_eq .big, slowValidSync_eq .big, validSync_congr fun i hi => h i (by omega)]

theorem slowGetPlen_congr {p q : Octets} (h : ∀ i < 20, p i = q i) :
    pkthdrSlowGetPlen p = pkthdrSlowGetPlen q := by
  rw [slowGetPlen_eq .big, slowGetPlen_eq .big, getPlen_congr fun i hi => h i (by omega)]

theorem verifySlow_congr {p q : Octets} {size : Int} (h : ∀ i : Nat, i < 20 → i < size → p i = q i) :
    pktVerifySlow (some p) size = pktVerifySlow (some q) size := by
  simp only [pktVerifySlow]
  by_cases hsize : size < hdrSize
  · rw [if_pos hsize, if_pos hsize]
  · have h20 : ∀ i < 20, p i = q i := by
      intro i hi
      apply h i hi
      simp only [hdrSize] at hsize
      omega
    rw [slowValidSync_congr h20, slowGetPlen_congr h20]

theorem verifySlow_cases (p : Octets) (size : Int) :
    (pktVerifySlow (some p) size = pkthdrSlowGetPlen p ∧ pkthdrSlowValidSync p = true ∧
      20 ≤ pkthdrSlowGetPlen p ∧ pkthdrSlowGetPlen p ≤ size) ∨
    (pktVerifySlow (some p) size = 0 ∧ (20 ≤ size → pkthdrSlowValidSync p = true ∧
      20 ≤ pkthdrSlowGetPlen p ∧ size < pkthdrSlowGetPlen p)) ∨
    (pktVerifySlow (some p) size = -1 ∧ 20 ≤ size ∧
      (pkthdrSlowValidSync p = true → pkthdrSlowGetPlen p < 20)) := by
  have hhdr : hdrSize = 20 := rfl
  simp only [pktVerifySlow]
  by_cases hsize : size < hdrSize
  · rw [if_pos hsize]
    exact .inr (.inl ⟨rfl, by omega⟩)
  rw [if_neg hsize]
  cases hsync : pkthdrSlowValidSync p with
  | false => exact .inr (.inr ⟨rfl, by omega, fun h => absurd h Bool.false_ne_true⟩)
  | true =>
      simp only [Bool.not_true, Bool.false_eq_true, if_false]
      by_cases h20 : pkthdrSlowGetPlen p < hdrSize
      · rw [if_pos h20]
        exact .inr (.inr ⟨rfl, by omega, fun _ => h20⟩)
      rw [if_neg h20]
      by_cases hlong : size > 0 ∧ pkthdrSlowGetPlen p > size
      · rw [if_pos hlong]
        exact .inr (.inl ⟨rfl, fun _ => ⟨trivial, by omega, hlong.2⟩⟩)
      · rw [if_neg hlong]
        exact .inl ⟨rfl, trivial, by omega, by omega⟩

end OiAmc.Cssock

import OiAmc.Hashtbl

namespace OiAmc.Pstack

open Hashtbl

/-- What decoding reads of a fld_value: data.ui, or the octets from data.ustr on. -/
structure FldValue where
  length : Int
  ui : UInt32
  ustr : List UInt8
  deriving DecidableEq, Repr

structure Stored where
  addr : Nat
  value : FldValue
  deriving DecidableEq, Repr

/-- The table of a ps_decoding_result. Its values get their addresses with their entries. -/
abbrev PsDecodingResult := Table UInt64 Stored

def hashLong (val : UInt64) (bits : Nat) : Nat :=
  let n := val <<< 18
  let hash := val - n
  let n := n <<< 33
  let hash := hash - n
  let n := n <<< 3
  let hash := hash + n
  let n := n <<< 3
  let hash := hash - n
  let n := n <<< 4
  let hash := hash + n
  let n := n <<< 2
  let hash := hash + n
  hash.toNat >>> (64 - bits)

def hashPtr (ptr : UInt64) (bits : Nat) : Nat := hashLong ptr bits

def hashtblDefCmpFunc (a b : UInt64) : Int := if a = b then 0 else if a < b then -1 else 1

def psResultInit : Option PsDecodingResult :=
  (hashtblOpen hashPtr hashtblDefCmpFunc true 128).map fun ht => ⟨ht, 0⟩

def psResultClear (result : PsDecodingResult) : PsDecodingResult :=
  ⟨(hashtblClear result.ht).1, result.entries⟩

def psResultGetValue (result : PsDecodingResult) (valueid : UInt64) (seq : Nat) : Option Stored :=
  if valueid = 0 then none else hashtblFindSeq result.ht valueid none seq

def psResultPushValue (result : PsDecodingResult) (vid : UInt64) (value : FldValue) :
    PsDecodingResult :=
  if vid = 0 then result
  else
    ⟨(hashtblInsert result.ht vid ⟨result.entries, value⟩ (some result.entries)).1,
      result.entries + 1⟩

/-- What a self_decode returns, and the values that it pushed in turn. -/
structure SelfDecoded where
  rc : Int
  trailerlen : Int
  pushes : List (UInt64 × FldValue)

/-- A self_decode may look up values. -/
abbrev SelfDecode := (UInt64 → Nat → Option Stored) → List UInt8 → Int → SelfDecoded

/-- A protocol. Handles are at their numbers in the order of their registration. -/
structure PsProtocolHandle where
  pvid : UInt64
  protocol : UInt32
  spVid : UInt64
  svVid : UInt64
  selfDecode : SelfDecode
  child : List Nat

abbrev Handles := List PsProtocolHandle

def psInitRoot (hs : Handles) (pvid spVid svVid : UInt64) (selfDecode : SelfDecode) : Handles :=
  hs ++ [⟨pvid, 0, spVid, svVid, selfDecode, []⟩]

def addChild (parent : PsProtocolHandle) (child : Nat) : PsProtocolHandle :=
  { parent with child := parent.child ++ [child] }

def psRegister (hs : Handles) (parent : Nat) (protocol : UInt32) (pvid spVid svVid : UInt64)
    (selfDecode : SelfDecode) : Option Handles :=
  (hs[parent]?).map fun p =>
    hs.set parent (addChild p hs.length) ++ [⟨pvid, protocol, spVid, svVid, selfDecode, []⟩]

/-- Trees that ps_init_root and ps_register build. -/
inductive Built : Handles → Prop
  | empty : Built []
  | root {hs pvid spVid svVid selfDecode} (h : Built hs) :
      Built (psInitRoot hs pvid spVid svVid selfDecode)
  | register {hs hs' parent protocol pvid spVid svVid selfDecode} (h : Built hs)
      (hreg : psRegister hs parent protocol pvid spVid svVid selfDecode = some hs') : Built hs'

/-- Why a protocol is decoded: the packet itself, a payload with the values that gave its
protocol and its data, or the next level with the value that gave its protocol. -/
inductive Source
  | packet
  | payload (sp sv : Nat)
  | next (pv : Nat)
  deriving DecidableEq, Repr

/-- A call of ps_decode with the calls that it makes. -/
inductive Invocation
  | mk (source : Source) (handle : Nat) (data : List UInt8) (len : Int) (payloads : List Invocation)
      (next : Option Invocation)

abbrev Decode :=
  Source → Nat → PsDecodingResult → List UInt8 → Int → Option (Int × PsDecodingResult × Invocation)

def Matches (hs : Handles) (fv : Stored) (next : Nat) : Bool :=
  hs[next]?.any fun h => fv.value.ui = h.protocol

/-- The loop over the children for one value. The data is looked up when a child first matches. -/
def psDecodeChildren (decode : Decode) (hs : Handles) (svVid : UInt64) (fvp : Stored) (seq : Nat) :
    List Nat → Option Stored → PsDecodingResult → Option (PsDecodingResult × List Invocation)
  | [], _, result => some (result, [])
  | next :: rest, fvd, result =>
      if !Matches hs fvp next then psDecodeChildren decode hs svVid fvp seq rest fvd result
      else match fvd.or (psResultGetValue result svVid seq) with
        | none => some (result, [])
        | some fvd => do
            let (_, result, call) ←
              decode (.payload fvp.addr fvd.addr) next result fvd.value.ustr fvd.value.length
            let (result, calls) ←
              psDecodeChildren decode hs svVid fvp seq rest (some fvd) result
            some (result, call :: calls)

def psDecodeNextList (decode : Decode) (hs : Handles) (p : PsProtocolHandle) :
    Nat → PsDecodingResult → Nat → Option (PsDecodingResult × List Invocation)
  | 0, _, _ => none
  | fuel + 1, result, seq =>
      match psResultGetValue result p.spVid seq with
      | none => some (result, [])
      | some fvp => do
          let (result, calls) ← psDecodeChildren decode hs p.svVid fvp seq p.child none result
          let (result, calls') ← psDecodeNextList decode hs p fuel result (seq + 1)
          some (result, calls ++ calls')

/-- The part of ps_decode for the payloads. -/
def decodePayloads (decode : Decode) (hs : Handles) (p : PsProtocolHandle) (fuel : Nat)
    (result : PsDecodingResult) : Option (PsDecodingResult × List Invocation) :=
  if p.spVid ≠ 0 ∧ p.svVid ≠ 0 then psDecodeNextList decode hs p fuel result 0
  else some (result, [])

/-- The first child that a value names, with the value. -/
def nextLevel (hs : Handles) (p : PsProtocolHandle) (fv : Option Stored) : Option (Stored × Nat) :=
  fv.bind fun fv => (p.child.find? (Matches hs fv)).map fun next => (fv, next)

/-- The fuel bounds the rounds of the loops, and the levels. -/
def psDecode (hs : Handles) : Nat → Decode
  | 0, _, _, _, _, _ => none
  | fuel + 1, source, handle, result, data, len =>
      if len ≤ 0 then some (0, result, .mk source handle data len [] none)
      else (hs[handle]?).bind fun p =>
        let decoded := p.selfDecode (psResultGetValue result) data len
        let result := decoded.pushes.foldl (fun result v => psResultPushValue result v.1 v.2) result
        if decoded.rc < 0 then some (-1, result, .mk source handle data len [] none)
        else do
          let rest := data.drop decoded.rc.toNat
          let left := len - (decoded.rc + decoded.trailerlen)
          let (result, calls) ← decodePayloads (psDecode hs fuel) hs p fuel result
          match nextLevel hs p (if p.pvid ≠ 0 then psResultGetValue result p.pvid 0 else none) with
          | some (fv, next) => do
              let (rc, result, call) ← psDecode hs fuel (.next fv.addr) next result rest left
              some (rc, result, .mk source handle data len calls (some call))
          | none => some (if left ≤ 0 then 0 else left, result, .mk source handle data len calls none)

end OiAmc.Pstack

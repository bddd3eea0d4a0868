import OiAmc.PspSafety

/-! The result file of a scan as block data of the agent. -/

namespace OiAmc.LinkmapUpload

open ByteBuffer MessageLayout Pkt Psp
open ByteOrder (Endian)
open Psp.Field

/-- DATA_SIZE. -/
def dataSize : Nat := 1024

/-- sizeof(buf). -/
def bufSize : Nat := 64 + dataSize

def put (buf : Octets) (p : Nat) (l : List UInt8) : Option Octets :=
  store bufSize buf p l.length fun i => l.getD i 0

variable (host : Endian)

def header (len : Int) : Octets :=
  let ph := pkthdrSetPlen host (pkthdrSetSync host fun _ => 0) len
  pkthdrSetSubtype (pkthdrSetType ph ((PSP_MSG_BLOCK_DATA >>> 8) &&& 0xff).toUInt8)
    ((PSP_MSG_BLOCK_DATA >>> 0) &&& 0xff).toUInt8

/-- The message that is built for the first block and in the loop, with its length. -/
def blockMsg (flag : Nat) (data : List UInt8) : Option (Octets × Int) := do
  let len := hdrSize + 8 + data.length
  let buf ← put (header host len) 20 (be 2 flag)
  let buf ← put buf 22 (be 2 1)
  let buf ← put buf 24 (be 4 data.length)
  let buf ← put buf 28 data
  return (buf, len)

def lastMsg (data : List UInt8) : Option (Octets × Int) := do
  let len := hdrSize + 8 + data.length
  let buf ← put (header host len) 20 (be 2 3)
  let buf ← put buf 22 (be 2 1)
  let buf ←
    if 0 < data.length then do
      let buf ← put buf 24 (be 4 data.length)
      put buf 28 data
    else put buf 24 (be 4 0)
  return (buf, len)

def uploadRest (rest : List UInt8) : Option (List (Octets × Int)) :=
  if (rest.take dataSize).length = dataSize then do
    let m ← blockMsg host 2 (rest.take dataSize)
    let ms ← uploadRest (rest.drop dataSize)
    return m :: ms
  else do
    let m ← lastMsg host (rest.take dataSize)
    return [m]
  termination_by rest.length
  decreasing_by
    simp only [List.length_take, List.length_drop, dataSize] at *
    omega

/-- The messages for the adapter. access: whether both files are there at a try; fp: the file as it
is opened. -/
def psagentUploadLinkmapData (access : Nat → Bool) (fp : Option (List UInt8)) :
    Option (List (Octets × Int)) :=
  if (List.range 5).any access then
    match fp with
    | none => some []
    | some file => do
        let m ← blockMsg host 1 (file.take dataSize)
        let ms ← uploadRest host (file.drop dataSize)
        return m :: ms
  else some []

/-- A message is decoded as the block, from within the message. -/
structure Decodes (msg : Msg) (m : Octets × Int) (flag : Nat) (data : List UInt8) : Prop where
  plen : pkthdrGetPlen host m.1 = m.2
  inside : ((pspDecodeMsg cases host m.1 msg).seen : Int) ≤ m.2
  rc : (pspDecodeMsg cases host m.1 msg).rc = 0
  id : (pspDecodeMsg cases host m.1 msg).msg.id = PSP_MSG_BLOCK_DATA
  flag : (pspDecodeMsg cases host m.1 msg).msg.num blockFlag = .ofNat flag
  type : (pspDecodeMsg cases host m.1 msg).msg.num blockType = 1
  size : (pspDecodeMsg cases host m.1 msg).msg.num blockSize = .ofNat data.length
  buf : ∃ a, (pspDecodeMsg cases host m.1 msg).msg.blockBuf = some a ∧ entries m.1 a data.length = data ∧
    (a + data.length : Int) = m.2

/-- The messages are the blocks of a file, in their order: one with flag 1, any number with flag 2,
and one with flag 3. -/
def Uploads (file : List UInt8) (msgs : List (Octets × Int)) : Prop :=
  ∃ first mids last, first ++ List.flatten mids ++ last = file ∧
    (∀ data ∈ first :: mids ++ [last], data.length ≤ dataSize) ∧
    ∀ msg, List.Forall₂ (fun m block => Decodes host msg m block.1 block.2) msgs
      ((1, first) :: mids.map (fun data => (2, data)) ++ [(3, last)])

variable {host} {data l : List UInt8} {buf : Octets} {flag p n : Nat} {msg : Msg}

theorem put_some (h : p + l.length ≤ bufSize) (buf : Octets) :
    put buf p l = some (overlay buf p l.length fun i => l.getD i 0) := store_of_le h

theorem entries_put (buf : Octets) (p : Nat) (l : List UInt8) :
    entries (overlay buf p l.length fun i => l.getD i 0) p l.length = l := by
  rw [entries_overlay]
  exact map_getD_range l 0

theorem header_plen {len : Int} (hmin : hdrSize ≤ len) (hmax : len ≤ 262140) :
    pkthdrGetPlen host (header host len) = len := by
  refine Eq.trans (getPlen_of_fields ?_ ?_ ?_)
    ((@getPlen_setPlen_iff host (pkthdrSetSync host fun _ => 0) _ hmin).mpr hmax)
  · rfl
  · rfl
  · rfl

theorem header_id (len : Int) : msgId (header host len) = PSP_MSG_BLOCK_DATA := by
  have htype : header host len 4 = 0x23 := rfl
  have hsubtype : header host len 5 = 0x76 := rfl
  rw [msgId, pkthdrGetType, pkthdrGetSubtype, htype, hsubtype]
  rfl

structure Holds (host : Endian) (buf : Octets) (flag : Nat) (data : List UInt8) : Prop where
  plen : pkthdrGetPlen host buf = 28 + data.length
  id : msgId buf = PSP_MSG_BLOCK_DATA
  flag : entries buf 20 2 = be 2 flag
  type : entries buf 22 2 = be 2 1
  size : entries buf 24 4 = be 4 data.length
  data : entries buf 28 data.length = data

theorem holds_written (host : Endian) (flag : Nat) (hdata : data.length ≤ dataSize) :
    ∃ b1 b2 b3 b4, put (header host (hdrSize + 8 + data.length)) 20 (be 2 flag) = some b1 ∧
      put b1 22 (be 2 1) = some b2 ∧ put b2 24 (be 4 data.length) = some b3 ∧ put b3 28 data = some b4 ∧
      Holds host b4 flag data := by
  have hsize : bufSize = 1088 := rfl
  have hhdr : hdrSize = 20 := rfl
  have hlen (k v : Nat) : (be k v).length = k := length_be k v
  have hmax : data.length ≤ 1024 := hdata
  let b0 := header host (hdrSize + 8 + data.length)
  let b1 := overlay b0 20 (be 2 flag).length fun i => (be 2 flag).getD i 0
  let b2 := overlay b1 22 (be 2 1).length fun i => (be 2 1).getD i 0
  let b3 := overlay b2 24 (be 4 data.length).length fun i => (be 4 data.length).getD i 0
  let b4 := overlay b3 28 data.length fun i => data.getD i 0
  have hheader (i : Nat) (hi : i < 20) : b4 i = b0 i := by
    simp only [b4, b3, b2, b1, overlay, hlen]
    rw [if_neg (by omega), if_neg (by omega), if_neg (by omega), if_neg (by omega)]
  refine ⟨b1, b2, b3, b4, put_some (by rw [hlen]; omega) b0, put_some (by rw [hlen]; omega) b1,
    put_some (by rw [hlen]; omega) b2, put_some (by omega) b3, ?_⟩
  constructor
  · rw [getPlen_of_fields (hheader 2 (by omega)) (hheader 3 (by omega)) (hheader 7 (by omega)),
      header_plen (by omega) (by omega)]
    omega
  · rw [← @header_id host (hdrSize + 8 + data.length), msgId, pkthdrGetType, pkthdrGetSubtype,
      hheader 4 (by omega), hheader 5 (by omega)]
    rfl
  · rw [entries_overlay_of_le _ _ _ (by omega), entries_overlay_of_le _ _ _ (by omega),
      entries_overlay_of_le _ _ _ (by omega)]
    exact (hlen 2 flag) ▸ entries_put b0 20 (be 2 flag)
  · rw [entries_overlay_of_le _ _ _ (by omega), entries_overlay_of_le _ _ _ (by omega)]
    exact entries_put b1 22 (be 2 1)
  · rw [entries_overlay_of_le _ _ _ (by omega)]
    exact (hlen 4 data.length) ▸ entries_put b2 24 (be 4 data.length)
  · exact entries_put b3 28 data

theorem blockMsg_some (host : Endian) (flag : Nat) (hdata : data.length ≤ dataSize) :
    ∃ buf, blockMsg host flag data = some (buf, 28 + (data.length : Int)) ∧ Holds host buf flag data := by
  obtain ⟨b1, b2, b3, b4, h1, h2, h3, h4, hholds⟩ := holds_written host flag hdata
  refine ⟨b4, ?_, hholds⟩
  simp only [blockMsg, h1, h2, h3, h4, Option.bind_eq_bind, Option.bind_some]
  rfl

theorem lastMsg_some (host : Endian) (hdata : data.length ≤ dataSize) :
    ∃ buf, lastMsg host data = some (buf, 28 + (data.length : Int)) ∧ Holds host buf 3 data := by
  obtain ⟨b1, b2, b3, b4, h1, h2, h3, h4, hholds⟩ := holds_written host 3 hdata
  by_cases hpos : 0 < data.length
  · refine ⟨b4, ?_, hholds⟩
    simp only [lastMsg, h1, h2, if_pos hpos, h3, h4, Option.bind_eq_bind, Option.bind_some]
    rfl
  · obtain rfl := List.length_eq_zero_iff.mp (Nat.eq_zero_of_not_pos hpos)
    -- an empty block writes nothing
    have hsame : b3 = b4 := by
      rw [put_some (by decide) b3, Option.some.injEq] at h4
      rw [← h4]
      funext i
      rw [overlay, if_neg (by simp only [List.length_nil]; omega)]
    refine ⟨b3, ?_, hsame ▸ hholds⟩
    rw [List.length_nil] at h1 h3
    simp only [lastMsg, List.length_nil, h1, h2, if_neg (Nat.lt_irrefl 0), h3, Option.bind_eq_bind,
      Option.bind_some]
    rfl

theorem caseOf_block : ∃ c, caseOf cases PSP_MSG_BLOCK_DATA = some c ∧ c.tail = .block ∧
    c.fields = [(blockFlag, 2), (blockType, 2), (blockSize, 4)] := by
  obtain ⟨hlaid, c, hc, ht⟩ := cases_laid
  exact ⟨c, hc, ht, ((hlaid c (List.mem_of_find?_eq_some hc)).1 ht).2⟩

theorem behind_fields {c : Case} (hf : c.fields = [(blockFlag, 2), (blockType, 2), (blockSize, 4)])
    (hw : 8 ≤ pkthdrGetDlen host buf) :
    (behind c host buf msg).2.value.num blockFlag = .ofNat (fromBe (entries (payload buf) 0 2)) ∧
      (behind c host buf msg).2.value.num blockType = .ofNat (fromBe (entries (payload buf) 2 2)) := by
  have hflag : ¬pkthdrGetDlen host buf < 2 := by omega
  have htype : ¬pkthdrGetDlen host buf - 2 < 2 := by omega
  have hsize : ¬pkthdrGetDlen host buf - 2 - 2 < 4 := by omega
  simp [behind, start, Case.gets, hf, MessageLayout.read, Get.read, Reader.skip, Reader.look, hflag, htype, hsize,
    Value.setNum]

theorem entries_payload (buf : Octets) (a n : Nat) : entries (payload buf) a n = entries buf (20 + a) n := by
  apply entries_congr
  intro i _
  rw [payload, Nat.add_comm, Nat.add_assoc]

theorem decodes_of_holds (h : Holds host buf flag data) (hflag : flag < 65536) (hdata : data.length ≤ dataSize)
    (msg : Msg) : Decodes host msg (buf, 28 + (data.length : Int)) flag data := by
  have hmax : data.length ≤ 1024 := hdata
  have hplen := h.plen
  have h20 : 20 ≤ pkthdrGetPlen host buf := by omega
  have hdlen : pkthdrGetDlen host buf = pkthdrGetPlen host buf - 20 := rfl
  have hw : 8 ≤ pkthdrGetDlen host buf := by omega
  obtain ⟨c, hc, ht, hf⟩ := caseOf_block
  rw [← h.id] at hc
  obtain ⟨hdone, hstored⟩ := block_stored h20 msg hc ht hf
  obtain ⟨hbuf, hsize⟩ := hstored hw
  have hwidth : c.width = 8 := by
    rw [Case.width, hf]
    rfl
  obtain ⟨hread, -, -⟩ := @behind_full c host buf msg h20 (by omega)
  obtain ⟨hflag', htype'⟩ := @behind_fields host buf msg c hf hw
  have hfin := @pspDecodeMsg_eq _ c host buf msg hc
  rw [if_pos hread, ht, Tail.finish] at hfin
  have hnum (k v : Nat) (hv : v < 256 ^ k) : fromBe (be k v) = v := by
    rw [fromBe_be, Nat.mod_eq_of_lt hv]
  constructor
  · exact hplen
  · rw [← hplen]
    exact inside h20
  · exact hdone.mpr hw
  · rw [hfin]
    exact h.id
  · rw [hfin]
    show (behind c host buf msg).2.value.num blockFlag = _
    rw [hflag', entries_payload, h.flag, hnum 2 flag hflag]
  · rw [hfin]
    show (behind c host buf msg).2.value.num blockType = _
    rw [htype', entries_payload, h.type, hnum 2 1 (by decide)]
    rfl
  · rw [hsize, Psp.sizeOf, entries_payload, h.size, hnum 4 data.length (by omega)]
  · exact ⟨28, hbuf, h.data, by omega⟩

theorem uploadRest_some (host : Endian) (rest : List UInt8) : ∃ ms mids last, uploadRest host rest = some ms ∧
    List.flatten mids ++ last = rest ∧ (∀ data ∈ mids ++ [last], data.length ≤ dataSize) ∧
    ∀ msg, List.Forall₂ (fun m block => Decodes host msg m block.1 block.2) ms
      (mids.map (fun data => (2, data)) ++ [(3, last)]) := by
  induction rest using uploadRest.induct with
  | case1 rest hfull ih =>
      obtain ⟨ms, mids, last, hms, hrest, hlen, hdec⟩ := ih
      obtain ⟨buf, hbuf, hholds⟩ := blockMsg_some host 2 (Nat.le_of_eq hfull)
      refine ⟨(buf, 28 + ((rest.take dataSize).length : Int)) :: ms, rest.take dataSize :: mids, last, ?_, ?_, ?_,
        fun msg => ?_⟩
      · rw [uploadRest, if_pos hfull, hbuf, hms]
        rfl
      · rw [List.flatten_cons, List.append_assoc, hrest, List.take_append_drop]
      · exact List.forall_mem_cons.mpr ⟨Nat.le_of_eq hfull, hlen⟩
      · exact .cons (decodes_of_holds hholds (by decide) (Nat.le_of_eq hfull) msg) (hdec msg)
  | case2 rest hshort =>
      have hle : (rest.take dataSize).length ≤ dataSize := List.length_take_le _ _
      obtain ⟨buf, hbuf, hholds⟩ := lastMsg_some host hle
      refine ⟨[(buf, 28 + ((rest.take dataSize).length : Int))], [], rest.take dataSize, ?_, ?_, ?_,
        fun msg => ?_⟩
      · rw [uploadRest, if_neg hshort, hbuf]
        rfl
      · rw [List.length_take] at hshort
        exact List.take_of_length_le (by omega)
      · exact List.forall_mem_cons.mpr ⟨hle, fun data h => absurd h List.not_mem_nil⟩
      · exact .cons (decodes_of_holds hholds (by decide) hle msg) .nil

/-- The messages of an upload are decoded as the file. -/
theorem upload_linkmap (host : Endian) (access : Nat → Bool) (haccess : (List.range 5).any access = true)
    (file : List UInt8) :
    ∃ msgs, psagentUploadLinkmapData host access (some file) = some msgs ∧ Uploads host file msgs := by
  have hle : (file.take dataSize).length ≤ dataSize := List.length_take_le _ _
  obtain ⟨buf, hbuf, hholds⟩ := blockMsg_some host 1 hle
  obtain ⟨ms, mids, last, hms, hrest, hlen, hdec⟩ := uploadRest_some host (file.drop dataSize)
  refine ⟨(buf, 28 + ((file.take dataSize).length : Int)) :: ms, ?_, file.take dataSize, mids, last, ?_, ?_,
    fun msg => ?_⟩
  · rw [psagentUploadLinkmapData, if_pos haccess]
    simp only [hbuf, hms, Option.bind_eq_bind, Option.bind_some]
    rfl
  · rw [List.append_assoc, hrest, List.take_append_drop]
  · exact List.forall_mem_cons.mpr ⟨hle, hlen⟩
  · exact .cons (decodes_of_holds hholds (by decide) hle msg) (hdec msg)

/-- The empty file, found at the fifth try. -/
theorem upload_empty : ∃ msgs, psagentUploadLinkmapData .big (fun i => i == 4) (some []) = some msgs ∧
    Uploads .big [] msgs :=
  upload_linkmap .big (fun i => i == 4) (by decide) []

end OiAmc.LinkmapUpload

import OiAmc.ByteBuffer
import OiAmc.NmGlb
import OiAmc.Pkt

/-! Commands for the switch of a board, which are passed on to it. -/

namespace OiAmc.NmSwitchCmd

open Function ByteBuffer ByteOrder KeyedList NmGlb Pkt

inductive Block
  | request
  | packet
  deriving DecidableEq, Repr

structure Access where
  block : Block
  offset : Nat
  len : Nat
  deriving DecidableEq, Repr

structure Memory where
  octets : Block → Octets
  reads : List Access
  writes : List Access

/-- PKT_LEN, NMPKT_LEN and the octets of a command. -/
def pktLen : Nat := 20
def nmpktLen : Nat := 8
def argsLen : Nat := 4

def packetSize : Nat := pktLen + nmpktLen + argsLen

def nmModuleSwitch : UInt8 := 0x05
def nmCmdSetSwPortAutoneg : UInt8 := 0x05
def nmCmdSetSwPortPwrdn : UInt8 := 0x06

-- The fields of the header behind pkt_hdr.
def moduleOf (ph : Octets) : UInt8 := ph 22
def cmdOf (ph : Octets) : UInt8 := ph 23
def nmpkthdrGetSeq (host : Endian) (ph : Octets) : UInt16 := swap16 host (load16 host ph 24)
def nmpkthdrGetDlen (host : Endian) (ph : Octets) : UInt16 := swap16 host (load16 host ph 26)

def nmpkthdrSetDlen (host : Endian) (ph : Octets) (len : UInt16) : Octets := store16 host ph 26 (swap16 host len)

/-- A request to set something of a port, of some size. Behind the headers it has the address of a
board and four octets. -/
structure Request where
  ph : Octets
  size : Nat
  switch : moduleOf ph = nmModuleSwitch
  sets : cmdOf ph = nmCmdSetSwPortAutoneg ∨ cmdOf ph = nmCmdSetSwPortPwrdn
  fits : pktLen + nmpktLen + 4 + argsLen ≤ size

def Request.memory (req : Request) (heap : Octets) : Memory where
  octets
    | .request => req.ph
    | .packet => heap
  reads := []
  writes := []

def Memory.memcpy (memory : Memory) (p : Nat) (block : Block) (q n : Nat) : Memory where
  octets := update memory.octets .packet (overlay (memory.octets .packet) p n fun i => memory.octets block (q + i))
  reads := memory.reads ++ [⟨block, q, n⟩]
  writes := memory.writes ++ [⟨.packet, p, n⟩]

def Memory.set (memory : Memory) (f : Octets → Octets) (fields : List (Nat × Nat)) : Memory where
  octets := update memory.octets .packet (f (memory.octets .packet))
  reads := memory.reads
  writes := memory.writes ++ fields.map fun field => ⟨.packet, field.1, field.2⟩

section Commands

variable (host : Endian) (alloc : Bool)

/-- The packet in memory, unless there was none left for it. p stands in the packet already where
the arguments are looked for behind it. -/
def setSw (memory : Memory) : Memory × Bool :=
  if alloc = false then (memory, false)
  else
    let memory := memory.set (fun ph => overlay ph 0 packetSize fun _ => 0) [(0, packetSize)]
    let p := pktLen
    let memory := memory.memcpy p .request pktLen nmpktLen
    let p := p + nmpktLen
    let q := p + 5
    let memory := memory.memcpy p .packet q argsLen
    let memory := memory.set (fun ph => nmpkthdrSetDlen host ph (.ofNat argsLen)) [(26, 2)]
    let memory := memory.set (pkthdrSetSync host) [(0, 2)]
    (memory.set (fun ph => pkthdrSetPlen host ph packetSize) [(2, 2), (7, 1)], true)

def nmmsgCmdSetSwAn (memory : Memory) : Memory × Bool := setSw host alloc memory

def nmmsgCmdSetSwPwrdn (memory : Memory) : Memory × Bool := setSw host alloc memory

end Commands

structure NmclientCmd where
  peer : Peer
  ph : Octets
  id : Int

/-- The boards, the commands for them, and what the buffers for ip and port hold before they are
filled. -/
structure Server where
  glb : Option NmsGlbCtl
  cmdHead : Option (List NmclientCmd)
  buffers : Peer

/-- None without a packet, or memory. -/
def nmclientCmdCreate (alloc : Bool) (peer : Peer) (ph : Option Octets) (id : Int) : Option NmclientCmd :=
  if alloc then ph.map fun ph => ⟨peer, ph, id⟩ else none

/-- The commands, and the packet when nothing refers to it any more but it is not released. -/
structure Sent where
  cmdHead : Option (List NmclientCmd)
  lost : Option Octets

/-- The result of nmclient_cmd_add is not looked at. -/
def nmclientCmdAdd (cmdHead : Option (List NmclientCmd)) (cmd : NmclientCmd) : Sent :=
  match cmdHead with
  | none => ⟨none, some cmd.ph⟩
  | some cmds => ⟨some (cmds ++ [cmd]), none⟩

def nmclientRprocSetCmd (alloc : Bool) (server : Server) (data : Octets) (oph : Option Octets) : Int × Sent :=
  match nmGlbDecodeLkaddrInfo (entries data (pktLen + nmpktLen) 4), server.glb with
  | none, _ => (-1, ⟨server.cmdHead, oph⟩)
  | some _, none => (-1, ⟨server.cmdHead, oph⟩)
  | some lki, some glb =>
      match nmclientCmdCreate alloc (nmsGlbGetIpPort glb server.buffers lki) oph 0 with
      | none => (0, ⟨server.cmdHead, oph⟩)
      | some cmd => (0, nmclientCmdAdd server.cmdHead cmd)

/-- Which of the two allocations there is memory for. -/
structure Allocs where
  packet : Bool
  cmd : Bool

/-- The commands that set something; they have no answer. -/
def nmclientRprocSwitch (host : Endian) (allocs : Allocs) (heap : Octets) (server : Server) (req : Request) :
    Memory × Sent :=
  let forward (built : Memory × Bool) : Memory × Sent :=
    let oph := if built.2 then some (built.1.octets .packet) else none
    let memory := { built.1 with reads := built.1.reads ++ [⟨.request, pktLen + nmpktLen, 4⟩] }
    (memory, (nmclientRprocSetCmd allocs.cmd server req.ph oph).2)
  if cmdOf req.ph = nmCmdSetSwPortAutoneg then forward (nmmsgCmdSetSwAn host allocs.packet (req.memory heap))
  else if cmdOf req.ph = nmCmdSetSwPortPwrdn then forward (nmmsgCmdSetSwPwrdn host allocs.packet (req.memory heap))
  else (req.memory heap, ⟨server.cmdHead, none⟩)

def Request.lki (req : Request) : NmLkaddrInfo := ⟨req.ph 28, req.ph 29, req.ph 30, req.ph 31⟩

structure Carries (host : Endian) (req : Request) (ph : Octets) : Prop where
  module : moduleOf ph = moduleOf req.ph
  cmd : cmdOf ph = cmdOf req.ph
  seq : nmpkthdrGetSeq host ph = nmpkthdrGetSeq host req.ph
  dlen : nmpkthdrGetDlen host ph = 4
  plen : pkthdrGetPlen host ph = packetSize
  data : entries ph (pktLen + nmpktLen) argsLen = entries req.ph (pktLen + nmpktLen + 4) argsLen

/-- A command was put behind the others for a board that is connected. -/
def Queued (host : Endian) (server : Server) (req : Request) (cmds cmds' : List NmclientCmd) : Prop :=
  ∃ cmd, cmds' = cmds ++ [cmd] ∧ Carries host req cmd.ph ∧
    ∃ glb, server.glb = some glb ∧ ∃ board ∈ glb.lsthd, board.bdi.lki = req.lki ∧ cmd.peer = board.peer

structure Forwards (host : Endian) (server : Server) (req : Request) (memory : Memory) (sent : Sent) : Prop where
  reads : ∀ access ∈ memory.reads, access.block = .request ∧ access.offset + access.len ≤ req.size
  writes : ∀ access ∈ memory.writes, access.block = .packet ∧ access.offset + access.len ≤ packetSize
  queued : ∀ cmds', sent.cmdHead = some cmds' →
    ∃ cmds, server.cmdHead = some cmds ∧ (cmds' = cmds ∨ Queued host server req cmds cmds')
  released : sent.lost = none

variable {host : Endian} {memory : Memory} {server : Server} {req : Request} {heap : Octets} {allocs : Allocs}

theorem rprocSwitch_eq (host : Endian) (allocs : Allocs) (heap : Octets) (server : Server) (req : Request) :
    nmclientRprocSwitch host allocs heap server req =
      let built := setSw host allocs.packet (req.memory heap)
      ({ built.1 with reads := built.1.reads ++ [⟨.request, pktLen + nmpktLen, 4⟩] },
        (nmclientRprocSetCmd allocs.cmd server req.ph
          (if built.2 then some (built.1.octets .packet) else none)).2) := by
  rw [nmclientRprocSwitch]
  rcases req.sets with h | h
  · rw [if_pos h]
    rfl
  · rw [if_neg (by rw [h]; decide), if_pos h]
    rfl

def built (host : Endian) (req : Request) (heap : Octets) : Octets :=
  let ph := overlay heap 0 packetSize fun _ => 0
  let ph := overlay ph pktLen nmpktLen fun i => req.ph (pktLen + i)
  let ph := overlay ph (pktLen + nmpktLen) argsLen fun i => heap (33 + i)
  pkthdrSetPlen host (pkthdrSetSync host (nmpkthdrSetDlen host ph 4)) packetSize

theorem setSw_alloc (host : Endian) (req : Request) (heap : Octets) :
    setSw host true (req.memory heap) = (⟨update (req.memory heap).octets .packet (built host req heap),
      [⟨.request, 20, 8⟩, ⟨.packet, 33, 4⟩],
      [⟨.packet, 0, 32⟩, ⟨.packet, 20, 8⟩, ⟨.packet, 28, 4⟩, ⟨.packet, 26, 2⟩, ⟨.packet, 0, 2⟩, ⟨.packet, 2, 2⟩,
        ⟨.packet, 7, 1⟩]⟩, true) := by
  have hbehind : (fun i => overlay (overlay heap 0 packetSize fun _ => 0) pktLen nmpktLen
      (fun i => req.ph (pktLen + i)) (33 + i)) = fun i => heap (33 + i) := by
    funext i
    have hpkt : pktLen + nmpktLen = 28 := rfl
    have hsize : packetSize = 32 := rfl
    rw [overlay, if_neg (by omega), overlay, if_neg (by omega)]
  rw [setSw, if_neg (by decide)]
  simp only [Memory.set, Memory.memcpy, update_self, update_idem,
    update_of_ne (show Block.request ≠ .packet by decide)]
  congr 3
  rw [built, ← hbehind]
  rfl

section Header

-- The setters of pkt_hdr change its first eight octets only.
theorem setHeader_of_le (host : Endian) (ph : Octets) {i : Nat} (hi : 8 ≤ i) :
    pkthdrSetPlen host (pkthdrSetSync host ph) packetSize i = ph i := by
  rw [pkthdrSetPlen, if_pos (by decide), rawSetLen_of_outside _ (by omega), pkthdrScSetFlen,
    update_of_ne (by omega), pkthdrScClrFlen, update_of_ne (by omega), pkthdrSetSync, store16_swap16, putBe16_of_outside _ _ _ (by omega)]

theorem setDlen_of_outside (host : Endian) (ph : Octets) (len : UInt16) {i : Nat} (hi : i < 26 ∨ 28 ≤ i) :
    nmpkthdrSetDlen host ph len i = ph i := by
  rw [nmpkthdrSetDlen, store16_swap16, putBe16_of_outside _ _ _ (by omega)]

theorem built_header (host : Endian) (req : Request) (heap : Octets) {i : Nat} (hi : 20 ≤ i) (hdlen : i < 26) :
    built host req heap i = req.ph i := by
  have hpkt : pktLen = 20 := rfl
  have hnmpkt : nmpktLen = 8 := rfl
  rw [built, setHeader_of_le _ _ (by omega), setDlen_of_outside _ _ _ (by omega), overlay, if_neg (by omega),
    overlay, if_pos (by omega), Nat.add_sub_cancel' (by omega)]

theorem built_args (host : Endian) (req : Request) (heap : Octets) :
    entries (built host req heap) (pktLen + nmpktLen) argsLen = entries heap 33 argsLen := by
  apply entries_congr
  intro i hi
  have hpkt : pktLen + nmpktLen = 28 := rfl
  rw [built, setHeader_of_le _ _ (by omega), setDlen_of_outside _ _ _ (by omega), overlay, if_pos (by omega),
    Nat.add_sub_cancel_left]

theorem built_dlen (host : Endian) (req : Request) (heap : Octets) :
    nmpkthdrGetDlen host (built host req heap) = 4 := by
  rw [nmpkthdrGetDlen, swap16_load16, built, be16_congr _ (setHeader_of_le host _ (by omega))
    (setHeader_of_le host _ (by omega)), nmpkthdrSetDlen, store16_swap16, be16_putBe16]

theorem built_plen (host : Endian) (req : Request) (heap : Octets) :
    pkthdrGetPlen host (built host req heap) = packetSize :=
  (getPlen_setPlen_iff (by decide)).mpr (by decide)

theorem carries_iff (host : Endian) (req : Request) (heap : Octets) :
    Carries host req (built host req heap) ↔ entries heap 33 argsLen = entries req.ph 32 argsLen := by
  constructor
  · intro h
    rw [← built_args host req]
    exact h.data
  · intro h
    refine ⟨built_header _ _ _ (by omega) (by omega), built_header _ _ _ (by omega) (by omega), ?_,
      built_dlen _ _ _, built_plen _ _ _, (built_args _ _ _).trans h⟩
    rw [nmpkthdrGetSeq, nmpkthdrGetSeq, load16_congr (built_header _ _ _ (by omega) (by omega))
      (built_header _ _ _ (by omega) (by omega))]

end Header

theorem setCmd_none (alloc : Bool) (server : Server) (data : Octets) :
    (nmclientRprocSetCmd alloc server data none).2 = ⟨server.cmdHead, none⟩ := by
  rw [nmclientRprocSetCmd]
  split
  · rfl
  · rfl
  · rw [nmclientCmdCreate, Option.map_none, ite_self]

/-- Requests are passed on as they should be when there is no memory for the packet, and in no
other case: the arguments are looked for behind it. -/
theorem forwards_iff (host : Endian) (allocs : Allocs) (heap : Octets) (server : Server) (req : Request) :
    Forwards host server req (nmclientRprocSwitch host allocs heap server req).1
      (nmclientRprocSwitch host allocs heap server req).2 ↔ allocs.packet = false := by
  rw [rprocSwitch_eq]
  cases hpacket : allocs.packet with
  | true =>
      apply iff_of_false _ (by decide)
      intro h
      have haccess := h.reads ⟨.packet, 33, 4⟩
      rw [setSw_alloc] at haccess
      cases (haccess (by simp)).1
  | false =>
      apply iff_of_true _ rfl
      have hfits := req.fits
      have hpkt : pktLen + nmpktLen + 4 + argsLen = 36 := rfl
      rw [setSw, if_pos rfl]
      dsimp only
      rw [if_neg (by decide), setCmd_none]
      refine ⟨fun access haccess => ?_, fun access haccess => ?_, fun cmds' h => ?_, rfl⟩
      · obtain rfl := List.mem_singleton.mp haccess
        exact ⟨rfl, by show pktLen + nmpktLen + 4 ≤ req.size; omega⟩
      · cases haccess
      · exact ⟨cmds', h, Or.inl rfl⟩

/-- The arguments of a command are not those of the request. -/
theorem args_lost : ¬ ∀ host allocs heap server req, Forwards host server req
    (nmclientRprocSwitch host allocs heap server req).1 (nmclientRprocSwitch host allocs heap server req).2 := by
  intro h
  let bdi : NmboardInfo := ⟨1, 1, 3, 0, 0, 0, 0⟩
  let server : Server := ⟨some ⟨1, [⟨⟨"10.0.0.3", 4000⟩, bdi⟩]⟩, some [], ⟨"", 0⟩⟩
  let octets : List UInt8 := [0xaa, 0x55, 0x05, 0x06, 0, 7, 0, 8, 1, 1, 3, 0, 1, 2, 3, 1]
  let req : Request := ⟨fun i => octets.getD (i - 20) 0, 36, by decide, by decide, by decide⟩
  have hforwards := h .big ⟨true, true⟩ (fun _ => 0) server req
  rw [rprocSwitch_eq, setSw_alloc] at hforwards
  obtain ⟨cmds, hcmds, hqueued⟩ := hforwards.queued _ rfl
  obtain rfl := Option.some.inj hcmds
  rcases hqueued with hsame | ⟨cmd, hcmd, hcarries, -⟩
  · cases hsame
  · obtain rfl := List.singleton_inj.mp hcmd
    exact absurd ((carries_iff ..).mp hcarries) (by decide)

end OiAmc.NmSwitchCmd

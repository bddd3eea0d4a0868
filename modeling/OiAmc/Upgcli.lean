import Mathlib.Data.List.ReduceOption
import Mathlib.Data.List.TakeWhile
import OiAmc.Cgiparse
import OiAmc.LkmpDevice
import OiAmc.PartialMachine

/-! The client that upgrades a board: one thread receives the commands, another one carries them
out, and a flag says whose turn it is. -/

namespace OiAmc.Upgcli

open ByteOrder LkmpDevice Numerals PartialMachine Pkt
open Cgiparse (cString)
open MessageLayout (be fromBe length_be fromBe_be)

def ugUpgradeCommand : UInt16 := 0x2381
def ugUpgradeAccept : UInt16 := 0x2382
def ugUpgradeResult : UInt16 := 0x2383
def ugRebootCommand : UInt16 := 0x2384
def ugRebootAccept : UInt16 := 0x2385
def ugDngradeCommand : UInt16 := 0x2386
def ugDngradeAccept : UInt16 := 0x2387
def ugDngradeResult : UInt16 := 0x2388

def text (s : String) : List UInt8 := s.toList.map Char.toUInt8

def number (n : Nat) : List UInt8 := (decimal n).map Char.toUInt8

/-- `%d.%d` of the two octets. -/
def version (v : Nat) : List UInt8 := number ((v >>> 8) &&& 0xff) ++ text "." ++ number (v &&& 0xff)

/-- `%d.%d.%d.%d` of the four octets. -/
def dotted (v : UInt32) : List UInt8 :=
  number (v.toNat / 2 ^ 24 % 256) ++ text "." ++ number (v.toNat / 2 ^ 16 % 256) ++ text "." ++
    number (v.toNat / 2 ^ 8 % 256) ++ text "." ++ number (v.toNat % 256)

theorem length_number {n : Nat} (hn : n < 256) : (number n).length ≤ 3 := by
  rw [number, List.length_map]
  exact length_decimal_le (by decide) (by omega)

theorem length_dotted (v : UInt32) : (dotted v).length < 32 := by
  have hdot : (text ".").length = 1 := rfl
  have h (n : Nat) : (number (n % 256)).length ≤ 3 := length_number (Nat.mod_lt _ (by decide))
  have h3 := h (v.toNat / 2 ^ 24)
  have h2 := h (v.toNat / 2 ^ 16)
  have h1 := h (v.toNat / 2 ^ 8)
  have h0 := h v.toNat
  simp only [dotted, List.length_append, hdot]
  omega

/-- An array of 32 characters. -/
structure Field where
  octets : List UInt8
  size : octets.length = 32

/-- A string that fits is written to the start of an array, with the NUL behind it. -/
def Field.put (f : Field) (s : List UInt8) (h : s.length < 32) : Field where
  octets := s ++ 0 :: f.octets.drop (s.length + 1)
  size := by
    have hsize := f.size
    rw [List.length_append, List.length_cons, List.length_drop]
    omega

def Field.cleared : Field := ⟨List.replicate 32 0, rfl⟩

/-- What is in front of the first NUL. -/
def Field.name (f : Field) : List UInt8 := f.octets.takeWhile (· ≠ 0)

structure UpgInfo where
  cmd : UInt16
  tftpserver : Field
  basever : UInt8
  basefile : Field
  basechks : Field
  appver : UInt8
  appfile : Field
  appchks : Field

/-- The structure from a member to its end, where two octets of padding stand. -/
def UpgInfo.fromAppchks (info : UpgInfo) : List UInt8 := info.appchks.octets ++ [0, 0]
def UpgInfo.fromAppfile (info : UpgInfo) : List UInt8 := info.appfile.octets ++ info.fromAppchks
def UpgInfo.fromBasechks (info : UpgInfo) : List UInt8 := info.basechks.octets ++ info.appver :: info.fromAppfile
def UpgInfo.fromBasefile (info : UpgInfo) : List UInt8 := info.basefile.octets ++ info.fromBasechks
def UpgInfo.fromTftpserver (info : UpgInfo) : List UInt8 :=
  info.tftpserver.octets ++ info.basever :: info.fromBasefile

def UpgInfo.cleared (cmd : UInt16) : UpgInfo :=
  ⟨cmd, .cleared, 0, .cleared, .cleared, 0, .cleared, .cleared⟩

/-- A packet that came, without the fields of its header that are not looked at. -/
structure Packet where
  type : UInt8
  subtype : UInt8
  data : List UInt8

def Packet.cmd (ph : Packet) : UInt16 := ph.type.toUInt16 <<< 8 ||| ph.subtype.toUInt16

def take (n : Nat) (data : List UInt8) : Option (List UInt8 × List UInt8) :=
  if data.length < n then none else some (data.take n, data.drop n)

def decode16 (data : List UInt8) : Option (UInt16 × List UInt8) :=
  (take 2 data).map fun r => (.ofNat (fromBe r.1), r.2)

def decode32 (data : List UInt8) : Option (UInt32 × List UInt8) :=
  (take 4 data).map fun r => (.ofNat (fromBe r.1), r.2)

def decodeField (data : List UInt8) : Option (Field × List UInt8) :=
  if h : data.length < 32 then none
  else some (⟨data.take 32, by rw [List.length_take]; omega⟩, data.drop 32)

/-- None for -1. The versions are octets in the structure. -/
def upgcliDecodeMsg (ph : Packet) : Option UpgInfo :=
  let info := UpgInfo.cleared ph.cmd
  if ph.cmd = ugUpgradeCommand then do
    let (ntmp, data) ← decode32 ph.data
    let info := { info with tftpserver := info.tftpserver.put (dotted ntmp) (length_dotted ntmp) }
    let (basever, data) ← decode16 data
    let info := { info with basever := basever.toUInt8 }
    let (basefile, data) ← decodeField data
    let (basechks, data) ← decodeField data
    let info := { info with basefile, basechks }
    let (appver, data) ← decode16 data
    let info := { info with appver := appver.toUInt8 }
    let (appfile, data) ← decodeField data
    let (appchks, _) ← decodeField data
    return { info with appfile, appchks }
  else if ph.cmd = ugRebootCommand then some info
  else if ph.cmd = ugDngradeCommand then do
    let (appver, _) ← decode16 ph.data
    return { info with appver := appver.toUInt8 }
  else none

section Messages

variable (host : Endian)

def codeMsg (cmd : UInt16) (payload : List UInt8) : Octets × Int :=
  let len := hdrSize + payload.length
  let data := payloadAt (fun _ => 0) payload
  (pkthdrSetPlen host (setId (pkthdrSetSync host data) cmd) len, len)

/-- Versions as they are sent, of whatever width they are. -/
def payloadOf (cmd : UInt16) (basever appver : Nat) (result : Int) : List UInt8 :=
  if cmd = ugUpgradeAccept then be 2 basever ++ be 2 appver
  else if cmd = ugRebootAccept then []
  else if cmd = ugDngradeAccept then be 2 appver
  else if cmd = ugUpgradeResult then be 2 basever ++ be 2 appver ++ [.ofInt result]
  else if cmd = ugDngradeResult then be 2 appver ++ [.ofInt result]
  else []

def upgcliCodingMsg (info : UpgInfo) (cmd : UInt16) (result : Int) : Octets × Int :=
  codeMsg host cmd (payloadOf cmd info.basever.toNat info.appver.toNat result)

end Messages

def dummy : List UInt8 := text "dummy"

/-- The names of what has the version 0 become dummies. -/
def UpgInfo.fill (info : UpgInfo) : UpgInfo :=
  let info := if info.basever = 0 then
      { info with
        basefile := info.basefile.put dummy (by decide)
        basechks := info.basechks.put dummy (by decide) }
    else info
  if info.appver = 0 then
    { info with
      appfile := info.appfile.put dummy (by decide)
      appchks := info.appchks.put dummy (by decide) }
  else info

def spaced (args : List (List UInt8)) : List UInt8 := args.flatMap fun arg => text " " ++ arg

/-- `sprintf` to the buffer of 1024 octets. -/
def sprintf (line : List UInt8) : Option (List UInt8) := if line.length < 1024 then some line else none

/-- None where a string has no end in the structure, or leaves the buffer. -/
def cmdstr (info : UpgInfo) : Option (UpgInfo × List UInt8) :=
  if info.cmd = ugUpgradeCommand then do
    let info := info.fill
    let tftpserver ← cString info.fromTftpserver
    let basefile ← cString info.fromBasefile
    let basechks ← cString info.fromBasechks
    let appfile ← cString info.fromAppfile
    let appchks ← cString info.fromAppchks
    let line ← sprintf (text "upg.sh upgrade" ++ spaced [tftpserver, version info.basever.toNat, basefile, basechks,
      version info.appver.toNat, appfile, appchks])
    return (info, line)
  else if info.cmd = ugRebootCommand then (sprintf (text "reboot")).map fun line => (info, line)
  else
    (sprintf (text "upg.sh downgrade" ++ spaced [version info.appver.toNat])).map fun line => (info, line)

/-- WIFEXITED and WEXITSTATUS of what system returned. -/
def resultOf (rc : Int) : Int :=
  if rc = -1 then 255
  else if rc % 128 = 0 then rc / 256 % 256
  else 254

structure Peer where
  ip : String
  port : Int
  deriving DecidableEq, Repr

inductive Receiver
  | reading
  | decoded (ph : Packet) (peer : Peer) (info : UpgInfo)
  | copied (ph : Packet) (peer : Peer)
  | named (ph : Packet) (peer : Peer)
  | addressed (ph : Packet) (peer : Peer)

inductive Sys
  | waiting
  | accepting
  | executing
  | reporting
  | finishing
  deriving DecidableEq, Repr

structure State where
  upgrading : Bool
  upginfo : UpgInfo
  svr : Peer
  receiver : Receiver
  sys : Sys
  result : Int

def start : State := ⟨false, .cleared 0, ⟨"", 0⟩, .reading, .waiting, 0⟩

inductive Event
  | accepted (ph : Packet) (peer : Peer)
  | sent (peer : Peer) (msg : Octets × Int)
  | system (line : List UInt8)

/-- A packet that came, a step of the receiver, and one of the other thread, with what system
returns when it is called. -/
inductive Input
  | packet (ph : Packet) (peer : Peer)
  | receiver
  | sys (rc : Int)

/-- The flag is looked at before anything is decoded. -/
def upgcliProcess (s : State) (ph : Packet) (peer : Peer) : State :=
  match s.receiver with
  | .reading =>
      if s.upgrading then s
      else
        match upgcliDecodeMsg ph with
        | none => s
        | some info => { s with receiver := .decoded ph peer info }
  | _ => s

def receiverStep (s : State) : State × Option Event :=
  match s.receiver with
  | .reading => (s, none)
  | .decoded ph peer info => ({ s with upginfo := info, receiver := .copied ph peer }, none)
  | .copied ph peer => ({ s with svr := ⟨peer.ip, s.svr.port⟩, receiver := .named ph peer }, none)
  | .named ph peer => ({ s with svr := ⟨s.svr.ip, peer.port⟩, receiver := .addressed ph peer }, none)
  | .addressed ph peer => ({ s with upgrading := true, receiver := .reading }, some (.accepted ph peer))

def acceptOf (cmd : UInt16) : UInt16 :=
  if cmd = ugUpgradeCommand then ugUpgradeAccept
  else if cmd = ugRebootCommand then ugRebootAccept
  else ugDngradeAccept

def resultCmdOf (cmd : UInt16) : UInt16 := if cmd = ugUpgradeCommand then ugUpgradeResult else ugDngradeResult

def upgcliDosys (host : Endian) (s : State) (rc : Int) : Option (State × Option Event) :=
  match s.sys with
  | .waiting => some (if s.upgrading then { s with sys := .accepting } else s, none)
  | .accepting =>
      some ({ s with sys := .executing },
        some (.sent s.svr (upgcliCodingMsg host s.upginfo (acceptOf s.upginfo.cmd) s.result)))
  | .executing => do
      let (info, line) ← cmdstr s.upginfo
      return ({ s with upginfo := info, result := resultOf rc, sys := .reporting }, some (.system line))
  | .reporting =>
      some ({ s with sys := .finishing },
        if s.upginfo.cmd = ugRebootCommand then none
        else some (.sent s.svr (upgcliCodingMsg host s.upginfo (resultCmdOf s.upginfo.cmd) s.result)))
  | .finishing => some ({ s with upgrading := false, sys := .waiting }, none)

def step (host : Endian) (s : State) : Input → Option (State × Option Event)
  | .packet ph peer => some (upgcliProcess s ph peer, none)
  | .receiver => some (receiverStep s)
  | .sys rc => upgcliDosys host s rc

/-- A command as it was sent, with versions of 16 bits. -/
structure Command where
  cmd : UInt16
  server : UInt32
  base : UInt16
  basefile : Field
  basechks : Field
  app : UInt16
  appfile : Field
  appchks : Field

def Command.ofPacket (ph : Packet) : Option Command :=
  if ph.cmd = ugUpgradeCommand then do
    let (server, data) ← decode32 ph.data
    let (base, data) ← decode16 data
    let (basefile, data) ← decodeField data
    let (basechks, data) ← decodeField data
    let (app, data) ← decode16 data
    let (appfile, data) ← decodeField data
    let (appchks, _) ← decodeField data
    return ⟨ph.cmd, server, base, basefile, basechks, app, appfile, appchks⟩
  else if ph.cmd = ugRebootCommand then some ⟨ph.cmd, 0, 0, .cleared, .cleared, 0, .cleared, .cleared⟩
  else if ph.cmd = ugDngradeCommand then do
    let (app, _) ← decode16 ph.data
    return ⟨ph.cmd, 0, 0, .cleared, .cleared, app, .cleared, .cleared⟩
  else none

def nameOf (version : UInt16) (f : Field) : List UInt8 := if version = 0 then dummy else f.name

def Command.line (c : Command) : List UInt8 :=
  if c.cmd = ugUpgradeCommand then
    text "upg.sh upgrade" ++ spaced [dotted c.server, version c.base.toNat, nameOf c.base c.basefile,
      nameOf c.base c.basechks, version c.app.toNat, nameOf c.app c.appfile, nameOf c.app c.appchks]
  else if c.cmd = ugRebootCommand then text "reboot"
  else text "upg.sh downgrade" ++ spaced [version c.app.toNat]

structure Job where
  ph : Packet
  peer : Peer
  command : Command
  decodes : Command.ofPacket ph = some command
  rc : Int

section Episodes

variable (host : Endian)

def acceptMsg (c : Command) : Octets × Int :=
  codeMsg host (acceptOf c.cmd) (payloadOf (acceptOf c.cmd) c.base.toNat c.app.toNat 0)

def resultMsg (c : Command) (rc : Int) : Octets × Int :=
  codeMsg host (resultCmdOf c.cmd) (payloadOf (resultCmdOf c.cmd) c.base.toNat c.app.toNat (resultOf rc))

def resultEvents (job : Job) : List Event :=
  if job.command.cmd = ugRebootCommand then [] else [.sent job.peer (resultMsg host job.command job.rc)]

def episode (job : Job) : List Event :=
  [.accepted job.ph job.peer, .sent job.peer (acceptMsg host job.command), .system job.command.line] ++
    resultEvents host job

/-- One command after the other was carried out to its end, and the last one as far as it is. Packets
that come meanwhile, or do not decode, change nothing. The last command comes to its end when the
thread goes on. -/
structure CarriedOut (s : State) (events : List Event) : Prop where
  episodes : ∃ (jobs : List Job) (part : List Event) (job : Job),
    events = jobs.flatMap (episode host) ++ part ∧ part <+: episode host job
  ignored : ∀ ph peer, s.upgrading = true ∨ upgcliDecodeMsg ph = none →
    step host s (.packet ph peer) = some (s, none)
  finishes : ∀ rc, ∃ n t os, run (step host) s (List.replicate n (.sys rc)) = some (t, os) ∧ t.upgrading = false

end Episodes

/-- A name has an end in its array, or right behind it. -/
def Ends (f : Field) (behind : UInt8) : Prop := 0 ∈ f.octets ∨ behind = 0

instance (f : Field) (behind : UInt8) : Decidable (Ends f behind) := inferInstanceAs (Decidable (_ ∨ _))

/-- The versions are octets, and the names that are given end. -/
def Command.Fits (c : Command) : Prop :=
  c.base.toNat < 256 ∧ c.app.toNat < 256 ∧
    (c.base ≠ 0 → Ends c.basefile (c.basechks.octets.headD 0) ∧ Ends c.basechks c.app.toUInt8) ∧
    (c.app ≠ 0 → Ends c.appfile (c.appchks.octets.headD 0))

instance (c : Command) : Decidable c.Fits := inferInstanceAs (Decidable (_ ∧ _ ∧ _ ∧ _))

def Fits (s : State) : Input → Prop
  | .packet ph _ => s.upgrading = false → ∀ c ∈ Command.ofPacket ph, c.Fits
  | _ => True

instance (s : State) : ∀ input, Decidable (Fits s input)
  | .packet _ _ => inferInstanceAs (Decidable (_ → _))
  | .receiver => isTrue trivial
  | .sys _ => isTrue trivial

def Command.narrow (c : Command) : UpgInfo where
  cmd := c.cmd
  tftpserver := if c.cmd = ugUpgradeCommand then Field.cleared.put (dotted c.server) (length_dotted c.server)
    else .cleared
  basever := c.base.toUInt8
  basefile := c.basefile
  basechks := c.basechks
  appver := c.app.toUInt8
  appfile := c.appfile
  appchks := c.appchks

variable {host : Endian} {s : State} {ph : Packet} {peer : Peer} {c : Command} {events part : List Event}

section Packets

theorem take_append {n : Nat} {u : List UInt8} (h : u.length = n) (rest : List UInt8) :
    take n (u ++ rest) = some (u, rest) := by
  subst h
  rw [take, if_neg (by rw [List.length_append]; omega), List.take_left, List.drop_left]

theorem decode16_be (v : UInt16) (rest : List UInt8) : decode16 (be 2 v.toNat ++ rest) = some (v, rest) := by
  have hv : v.toNat < 256 ^ 2 := v.toNat_lt
  rw [decode16, take_append (length_be 2 _), Option.map_some]
  dsimp only
  rw [fromBe_be, Nat.mod_eq_of_lt hv, UInt16.ofNat_toNat]

theorem decode32_be (v : UInt32) (rest : List UInt8) : decode32 (be 4 v.toNat ++ rest) = some (v, rest) := by
  have hv : v.toNat < 256 ^ 4 := v.toNat_lt
  rw [decode32, take_append (length_be 4 _), Option.map_some]
  dsimp only
  rw [fromBe_be, Nat.mod_eq_of_lt hv, UInt32.ofNat_toNat]

theorem decodeField_append (f : Field) (rest : List UInt8) : decodeField (f.octets ++ rest) = some (f, rest) := by
  have hsize := f.size
  rw [decodeField, dif_neg (by rw [List.length_append]; omega)]
  congr 3
  · exact List.take_left' hsize
  · exact List.drop_left' hsize

def upgradePacket (server : UInt32) (base : UInt16) (basefile basechks : Field) (app : UInt16)
    (appfile appchks : Field) : Packet :=
  ⟨0x23, 0x81, be 4 server.toNat ++ (be 2 base.toNat ++ (basefile.octets ++ (basechks.octets ++ (be 2 app.toNat ++
    (appfile.octets ++ (appchks.octets ++ []))))))⟩

theorem ofPacket_upgrade (server : UInt32) (base : UInt16) (basefile basechks : Field) (app : UInt16)
    (appfile appchks : Field) :
    Command.ofPacket (upgradePacket server base basefile basechks app appfile appchks) =
      some ⟨ugUpgradeCommand, server, base, basefile, basechks, app, appfile, appchks⟩ := by
  have hcmd : (upgradePacket server base basefile basechks app appfile appchks).cmd = ugUpgradeCommand := by
    change (0x23 : UInt8).toUInt16 <<< 8 ||| (0x81 : UInt8).toUInt16 = ugUpgradeCommand
    decide
  rw [Command.ofPacket, if_pos hcmd, hcmd]
  simp only [upgradePacket, decode32_be, decode16_be, decodeField_append, Option.bind_eq_bind, Option.bind_some]
  rfl

end Packets

theorem map_bind_congr {α β γ : Type} {f : β → γ} {x : Option α} {g : α → Option γ} {g' : α → Option β}
    (h : ∀ a, g a = (g' a).map f) : (x >>= g) = (x >>= g').map f := by
  cases x with
  | none => rfl
  | some a => exact h a

theorem decodeMsg_eq (ph : Packet) : upgcliDecodeMsg ph = (Command.ofPacket ph).map Command.narrow := by
  rw [upgcliDecodeMsg, Command.ofPacket]
  by_cases hupg : ph.cmd = ugUpgradeCommand
  · rw [if_pos hupg, if_pos hupg]
    apply map_bind_congr
    rintro ⟨server, data⟩
    apply map_bind_congr
    rintro ⟨base, data⟩
    apply map_bind_congr
    rintro ⟨basefile, data⟩
    apply map_bind_congr
    rintro ⟨basechks, data⟩
    apply map_bind_congr
    rintro ⟨app, data⟩
    apply map_bind_congr
    rintro ⟨appfile, data⟩
    apply map_bind_congr
    rintro ⟨appchks, data⟩
    apply congrArg some
    rw [Command.narrow, if_pos hupg]
    rfl
  · rw [if_neg hupg, if_neg hupg]
    by_cases hreboot : ph.cmd = ugRebootCommand
    · rw [if_pos hreboot, if_pos hreboot, Option.map_some, Command.narrow, if_neg hupg]
      rfl
    · rw [if_neg hreboot, if_neg hreboot]
      by_cases hdn : ph.cmd = ugDngradeCommand
      · rw [if_pos hdn, if_pos hdn]
        apply map_bind_congr
        rintro ⟨app, data⟩
        apply congrArg some
        rw [Command.narrow, if_neg hupg]
        rfl
      · rw [if_neg hdn, if_neg hdn, Option.map_none]

section Strings

variable {f : Field} {name rest : List UInt8} {o : UInt8}

theorem takeWhile_append_of_mem (h : 0 ∈ name) :
    (name ++ rest).takeWhile (· ≠ 0) = name.takeWhile (· ≠ 0) := by
  induction name with
  | nil => cases h
  | cons a name ih =>
      by_cases ha : a = 0
      · subst ha
        rfl
      · have hmem : 0 ∈ name := (List.mem_cons.mp h).resolve_left (Ne.symm ha)
        have hpos : decide (a ≠ 0) = true := decide_eq_true ha
        rw [List.cons_append, List.takeWhile_cons, List.takeWhile_cons, if_pos hpos, if_pos hpos, ih hmem]

theorem ne_of_not_mem (h : 0 ∉ name) : ∀ a ∈ name, decide (a ≠ 0) = true := by
  intro a ha
  apply decide_eq_true
  rintro rfl
  exact h ha

theorem takeWhile_of_not_mem (h : 0 ∉ name) : (name ++ 0 :: rest).takeWhile (· ≠ 0) = name := by
  rw [List.takeWhile_append_of_pos (ne_of_not_mem h), List.takeWhile_cons_of_neg (by simp), List.append_nil]

theorem cString_ends (h : Ends f (rest.headD 0)) (hmem : 0 ∈ rest) : cString (f.octets ++ rest) = some f.name := by
  rw [cString, if_pos (List.mem_append_right _ hmem), Field.name]
  congr 1
  by_cases hzero : 0 ∈ f.octets
  · exact takeWhile_append_of_mem hzero
  · rw [List.takeWhile_eq_self_iff.mpr (ne_of_not_mem hzero)]
    rcases rest with - | ⟨o, rest⟩
    · cases hmem
    · have ho : o = 0 := h.resolve_left hzero
      rw [ho, takeWhile_of_not_mem hzero]

theorem cString_put (hname : 0 ∉ name) (h : name.length < 32) :
    cString ((f.put name h).octets ++ rest) = some name := by
  have hoctets : (f.put name h).octets ++ rest = name ++ 0 :: (f.octets.drop (name.length + 1) ++ rest) := by
    rw [Field.put, List.append_assoc, List.cons_append]
  rw [hoctets, cString, if_pos (by simp), takeWhile_of_not_mem hname]

theorem zero_not_mem_number (n : Nat) : 0 ∉ number n := by
  intro h
  obtain ⟨d, hd, h0⟩ := List.mem_map.mp h
  have hdigit := Char.isDigit_iff_toNat.mp (isDigit_decimal hd)
  have hval := congrArg UInt8.toNat h0
  have hlow : '0'.toNat = 48 := rfl
  have hhigh : '9'.toNat = 57 := rfl
  change d.toNat % 256 = 0 at hval
  omega

theorem zero_not_mem_dotted (v : UInt32) : 0 ∉ dotted v := by
  have hdot : 0 ∉ text "." := by decide
  simp only [dotted, List.mem_append, not_or]
  exact ⟨⟨⟨⟨⟨⟨zero_not_mem_number _, hdot⟩, zero_not_mem_number _⟩, hdot⟩, zero_not_mem_number _⟩, hdot⟩,
    zero_not_mem_number _⟩

theorem Field.octets_eq (f : Field) : f.octets = f.octets.headD 0 :: f.octets.tail := by
  rcases h : f.octets with - | ⟨o, os⟩
  · have hsize := f.size
    rw [h] at hsize
    cases hsize
  · rfl

theorem length_name (f : Field) : f.name.length ≤ 32 := by
  have h := (List.takeWhile_prefix (l := f.octets) fun a => decide (a ≠ 0)).length_le
  rwa [f.size] at h

theorem length_nameOf (v : UInt16) (f : Field) : (nameOf v f).length ≤ 32 := by
  rw [nameOf]
  split
  · decide
  · exact length_name f

theorem length_version {v : Nat} : (version v).length ≤ 7 := by
  have hdot : (text ".").length = 1 := rfl
  have h (n : Nat) : (number (n &&& 0xff)).length ≤ 3 :=
    length_number (Nat.lt_of_le_of_lt Nat.and_le_right (by decide))
  have h1 := h (v >>> 8)
  have h0 := h v
  rw [version, List.length_append, List.length_append, hdot]
  omega

end Strings

section Lines

@[simp] theorem fill_cmd (info : UpgInfo) : info.fill.cmd = info.cmd := by
  rw [UpgInfo.fill]
  split_ifs <;> rfl

@[simp] theorem fill_tftpserver (info : UpgInfo) : info.fill.tftpserver = info.tftpserver := by
  rw [UpgInfo.fill]
  split_ifs <;> rfl

@[simp] theorem fill_basever (info : UpgInfo) : info.fill.basever = info.basever := by
  rw [UpgInfo.fill]
  split_ifs <;> rfl

@[simp] theorem fill_appver (info : UpgInfo) : info.fill.appver = info.appver := by
  rw [UpgInfo.fill]
  split_ifs <;> rfl

theorem fill_base (info : UpgInfo) (h : info.basever ≠ 0) :
    info.fill.basefile = info.basefile ∧ info.fill.basechks = info.basechks := by
  rw [UpgInfo.fill, if_neg h]
  split_ifs <;> exact ⟨rfl, rfl⟩

theorem fill_base_zero (info : UpgInfo) (h : info.basever = 0) :
    info.fill.basefile = info.basefile.put dummy (by decide) ∧
      info.fill.basechks = info.basechks.put dummy (by decide) := by
  rw [UpgInfo.fill, if_pos h]
  split_ifs <;> exact ⟨rfl, rfl⟩

theorem fill_app (info : UpgInfo) (h : info.appver ≠ 0) :
    info.fill.appfile = info.appfile ∧ info.fill.appchks = info.appchks := by
  rw [UpgInfo.fill]
  split_ifs <;> exact ⟨rfl, rfl⟩

theorem fill_app_zero (info : UpgInfo) (h : info.appver = 0) :
    info.fill.appfile = info.appfile.put dummy (by decide) ∧
      info.fill.appchks = info.appchks.put dummy (by decide) := by
  rw [UpgInfo.fill]
  split_ifs <;> exact ⟨rfl, rfl⟩

theorem dummy_ends : 0 ∉ dummy := by decide

theorem toUInt8_eq_zero {v : UInt16} (hv : v.toNat < 256) : v.toUInt8 = 0 ↔ v = 0 := by
  rw [← UInt8.toNat_inj, ← UInt16.toNat_inj, UInt16.toNat_toUInt8, Nat.mod_eq_of_lt hv]
  rfl

theorem toNat_toUInt8 {v : UInt16} (hv : v.toNat < 256) : v.toUInt8.toNat = v.toNat := by
  rw [UInt16.toNat_toUInt8, Nat.mod_eq_of_lt hv]

theorem zero_mem_fromAppchks (info : UpgInfo) : 0 ∈ info.fromAppchks := by
  simp [UpgInfo.fromAppchks]

theorem zero_mem_fromAppfile (info : UpgInfo) : 0 ∈ info.fromAppfile :=
  List.mem_append_right _ (zero_mem_fromAppchks info)

theorem zero_mem_fromBasechks (info : UpgInfo) : 0 ∈ info.fromBasechks :=
  List.mem_append_right _ (List.mem_cons_of_mem _ (zero_mem_fromAppfile info))

theorem headD_append (f : Field) (rest : List UInt8) : (f.octets ++ rest).headD 0 = f.octets.headD 0 := by
  rw [f.octets_eq]
  rfl

theorem cString_name {v : UInt16} {f g : Field} {rest : List UInt8}
    (hzero : v = 0 → g = f.put dummy (by decide)) (hne : v ≠ 0 → g = f ∧ Ends f (rest.headD 0)) (hmem : 0 ∈ rest) :
    cString (g.octets ++ rest) = some (nameOf v f) := by
  rw [nameOf]
  by_cases hv : v = 0
  · rw [hzero hv, if_pos hv]
    exact cString_put dummy_ends _
  · obtain ⟨rfl, hends⟩ := hne hv
    rw [if_neg hv]
    exact cString_ends hends hmem

theorem basefile_eq (hfits : c.Fits) : cString c.narrow.fill.fromBasefile = some (nameOf c.base c.basefile) := by
  obtain ⟨hbase, -, hnames, -⟩ := hfits
  have hver := toUInt8_eq_zero hbase
  apply cString_name (fun h => (fill_base_zero c.narrow (hver.mpr h)).1) (fun h => ?_) (zero_mem_fromBasechks _)
  obtain ⟨hfile, hchks⟩ := fill_base c.narrow (mt hver.mp h)
  refine ⟨hfile, ?_⟩
  rw [UpgInfo.fromBasechks, headD_append, hchks]
  exact (hnames h).1

theorem basechks_eq (hfits : c.Fits) : cString c.narrow.fill.fromBasechks = some (nameOf c.base c.basechks) := by
  obtain ⟨hbase, -, hnames, -⟩ := hfits
  have hver := toUInt8_eq_zero hbase
  apply cString_name (fun h => (fill_base_zero c.narrow (hver.mpr h)).2) (fun h => ?_)
    (List.mem_cons_of_mem _ (zero_mem_fromAppfile _))
  refine ⟨(fill_base c.narrow (mt hver.mp h)).2, ?_⟩
  rw [fill_appver]
  exact (hnames h).2

theorem appfile_eq (hfits : c.Fits) : cString c.narrow.fill.fromAppfile = some (nameOf c.app c.appfile) := by
  obtain ⟨-, happ, -, hnames⟩ := hfits
  have hver := toUInt8_eq_zero happ
  apply cString_name (fun h => (fill_app_zero c.narrow (hver.mpr h)).1) (fun h => ?_) (zero_mem_fromAppchks _)
  obtain ⟨hfile, hchks⟩ := fill_app c.narrow (mt hver.mp h)
  refine ⟨hfile, ?_⟩
  rw [UpgInfo.fromAppchks, headD_append, hchks]
  exact hnames h

theorem appchks_eq (hfits : c.Fits) : cString c.narrow.fill.fromAppchks = some (nameOf c.app c.appchks) := by
  have hver := toUInt8_eq_zero hfits.2.1
  apply cString_name (fun h => (fill_app_zero c.narrow (hver.mpr h)).2) (fun h => ?_) List.mem_cons_self
  exact ⟨(fill_app c.narrow (mt hver.mp h)).2, Or.inr rfl⟩

theorem length_line (c : Command) : c.line.length < 1024 := by
  have hupgrade : (text "upg.sh upgrade").length = 14 := rfl
  have hdowngrade : (text "upg.sh downgrade").length = 16 := rfl
  have hblank : (text " ").length = 1 := rfl
  have hserver := length_dotted c.server
  have hbase := @length_version c.base.toNat
  have happ := @length_version c.app.toNat
  have hname := length_nameOf
  rw [Command.line]
  split_ifs
  · have hbasefile := hname c.base c.basefile
    have hbasechks := hname c.base c.basechks
    have happfile := hname c.app c.appfile
    have happchks := hname c.app c.appchks
    simp only [spaced, List.flatMap_cons, List.flatMap_nil, List.length_append, List.length_nil, hupgrade, hblank]
    omega
  · decide
  · simp only [spaced, List.flatMap_cons, List.flatMap_nil, List.length_append, List.length_nil, hdowngrade, hblank]
    omega

theorem cmdstr_eq (hfits : c.Fits) : ∃ info, cmdstr c.narrow = some (info, c.line) ∧ info.cmd = c.cmd ∧
    info.basever = c.base.toUInt8 ∧ info.appver = c.app.toUInt8 := by
  have hbase : c.narrow.basever.toNat = c.base.toNat := toNat_toUInt8 hfits.1
  have happ : c.narrow.appver.toNat = c.app.toNat := toNat_toUInt8 hfits.2.1
  have hline : sprintf c.line = some c.line := if_pos (length_line c)
  rw [Command.line] at hline
  rw [cmdstr, Command.line]
  by_cases hupg : c.cmd = ugUpgradeCommand
  · have htftp : cString c.narrow.fill.fromTftpserver = some (dotted c.server) := by
      rw [UpgInfo.fromTftpserver, fill_tftpserver, Command.narrow, if_pos hupg]
      exact cString_put (zero_not_mem_dotted _) (length_dotted c.server)
    refine ⟨c.narrow.fill, ?_, fill_cmd _, fill_basever _, fill_appver _⟩
    have hcmd : c.narrow.cmd = ugUpgradeCommand := hupg
    rw [if_pos hupg] at hline
    rw [if_pos hcmd, if_pos hupg]
    simp only [htftp, basefile_eq hfits, basechks_eq hfits, appfile_eq hfits, appchks_eq hfits, fill_basever,
      fill_appver, Option.bind_eq_bind, Option.bind_some]
    rw [hbase, happ, hline]
    rfl
  · refine ⟨c.narrow, ?_, rfl, rfl, rfl⟩
    have hcmd : ¬ c.narrow.cmd = ugUpgradeCommand := hupg
    rw [if_neg hupg] at hline
    rw [if_neg hcmd, if_neg hupg]
    by_cases hreboot : c.cmd = ugRebootCommand
    · have hcmd : c.narrow.cmd = ugRebootCommand := hreboot
      rw [if_pos hcmd, if_pos hreboot]
      rfl
    · have hcmd : ¬ c.narrow.cmd = ugRebootCommand := hreboot
      rw [if_neg hreboot] at hline
      rw [if_neg hcmd, if_neg hreboot, happ, hline]
      rfl

end Lines

section Runs

def Hands (s : State) : Prop :=
  match s.receiver with
  | .reading => True
  | .decoded ph _ info => ∃ c, Command.ofPacket ph = some c ∧ c.Fits ∧ info = c.narrow
  | .copied ph _ => ∃ c, Command.ofPacket ph = some c ∧ c.Fits ∧ s.upginfo = c.narrow
  | .named ph peer => ∃ c, Command.ofPacket ph = some c ∧ c.Fits ∧ s.upginfo = c.narrow ∧ s.svr.ip = peer.ip
  | .addressed ph peer => ∃ c, Command.ofPacket ph = some c ∧ c.Fits ∧ s.upginfo = c.narrow ∧ s.svr = peer

structure Holds (s : State) (job : Job) : Prop where
  upgrading : s.upgrading = true
  reading : s.receiver = .reading
  svr : s.svr = job.peer
  fits : job.command.Fits
  cmd : s.upginfo.cmd = job.command.cmd
  basever : s.upginfo.basever = job.command.base.toUInt8
  appver : s.upginfo.appver = job.command.app.toUInt8

inductive UpTo (host : Endian) : State → List Event → Prop
  | idle {s : State} (hidle : s.upgrading = false) (hsys : s.sys = .waiting) (hands : Hands s) : UpTo host s []
  | accepted {s : State} (job : Job) (h : Holds s job) (hinfo : s.upginfo = job.command.narrow)
      (hsys : s.sys = .waiting ∨ s.sys = .accepting) : UpTo host s [.accepted job.ph job.peer]
  | told {s : State} (job : Job) (h : Holds s job) (hinfo : s.upginfo = job.command.narrow)
      (hsys : s.sys = .executing) :
      UpTo host s [.accepted job.ph job.peer, .sent job.peer (acceptMsg host job.command)]
  | executed {s : State} (job : Job) (h : Holds s job) (hresult : s.result = resultOf job.rc)
      (hsys : s.sys = .reporting) :
      UpTo host s [.accepted job.ph job.peer, .sent job.peer (acceptMsg host job.command), .system job.command.line]
  | reported {s : State} (job : Job) (h : Holds s job) (hsys : s.sys = .finishing) : UpTo host s (episode host job)

theorem part_prefix (h : UpTo host s part) : ∃ job, part <+: episode host job := by
  cases h with
  | idle => exact ⟨⟨⟨0x23, 0x84, []⟩, ⟨"", 0⟩, _, rfl, 0⟩, List.nil_prefix⟩
  | accepted job => exact ⟨job, _, rfl⟩
  | told job => exact ⟨job, _, rfl⟩
  | executed job => exact ⟨job, List.prefix_append _ _⟩
  | reported job => exact ⟨job, List.prefix_rfl⟩

theorem process_busy (h : s.upgrading = true) (ph : Packet) (peer : Peer) : upgcliProcess s ph peer = s := by
  rw [upgcliProcess]
  split
  · rw [if_pos h]
  · rfl

theorem process_undecoded (h : upgcliDecodeMsg ph = none) (peer : Peer) : upgcliProcess s ph peer = s := by
  rw [upgcliProcess]
  split
  · rw [h]
    exact ite_self s
  · rfl

theorem part_packet (h : UpTo host s part) (hfits : Fits s (.packet ph peer)) :
    UpTo host (upgcliProcess s ph peer) part := by
  by_cases hup : s.upgrading = true
  · rwa [process_busy hup]
  · cases h with
    | idle hidle hsys hands =>
        rw [upgcliProcess]
        split
        · rw [if_neg hup, decodeMsg_eq]
          cases hcmd : Command.ofPacket ph with
          | none => exact .idle hidle hsys hands
          | some c => exact .idle hidle hsys ⟨c, hcmd, hfits hidle c hcmd, rfl⟩
        · exact .idle hidle hsys hands
    | accepted job h => exact absurd h.upgrading hup
    | told job h => exact absurd h.upgrading hup
    | executed job h => exact absurd h.upgrading hup
    | reported job h => exact absurd h.upgrading hup

theorem receiverStep_reading (h : s.receiver = .reading) : receiverStep s = (s, none) := by
  rw [receiverStep, h]

theorem part_receiver (h : UpTo host s part) :
    UpTo host (receiverStep s).1 (part ++ (receiverStep s).2.toList) := by
  have hsame (hreading : s.receiver = .reading) (h : UpTo host s part) :
      UpTo host (receiverStep s).1 (part ++ (receiverStep s).2.toList) := by
    rw [receiverStep_reading hreading]
    rwa [Option.toList_none, List.append_nil]
  cases h with
  | idle hidle hsys hands =>
      rw [Hands] at hands
      rw [receiverStep]
      cases hreceiver : s.receiver with
      | reading =>
          refine .idle hidle hsys ?_
          rw [Hands, hreceiver]
          trivial
      | decoded ph peer info =>
          rw [hreceiver] at hands
          obtain ⟨c, hcmd, hfits, rfl⟩ := hands
          exact .idle hidle hsys ⟨c, hcmd, hfits, rfl⟩
      | copied ph peer =>
          rw [hreceiver] at hands
          obtain ⟨c, hcmd, hfits, hinfo⟩ := hands
          exact .idle hidle hsys ⟨c, hcmd, hfits, hinfo, rfl⟩
      | named ph peer =>
          rw [hreceiver] at hands
          obtain ⟨c, hcmd, hfits, hinfo, hip⟩ := hands
          refine .idle hidle hsys ⟨c, hcmd, hfits, hinfo, ?_⟩
          show Peer.mk s.svr.ip peer.port = peer
          rw [hip]
      | addressed ph peer =>
          rw [hreceiver] at hands
          obtain ⟨c, hcmd, hfits, hinfo, hsvr⟩ := hands
          refine .accepted ⟨ph, peer, c, hcmd, 0⟩ ⟨rfl, rfl, hsvr, hfits, ?_, ?_, ?_⟩ hinfo (Or.inl hsys)
          · exact congrArg UpgInfo.cmd hinfo
          · exact congrArg UpgInfo.basever hinfo
          · exact congrArg UpgInfo.appver hinfo
  | accepted job h hinfo hsys => exact hsame h.reading (.accepted job h hinfo hsys)
  | told job h hinfo hsys => exact hsame h.reading (.told job h hinfo hsys)
  | executed job h hresult hsys => exact hsame h.reading (.executed job h hresult hsys)
  | reported job h hsys => exact hsame h.reading (.reported job h hsys)

theorem payloadOf_accept (cmd : UInt16) (basever appver : Nat) (result : Int) :
    payloadOf (acceptOf cmd) basever appver result = payloadOf (acceptOf cmd) basever appver 0 := by
  rw [acceptOf]
  split_ifs <;> rfl

theorem coding_accept {job : Job} (h : Holds s job) :
    upgcliCodingMsg host s.upginfo (acceptOf s.upginfo.cmd) s.result = acceptMsg host job.command := by
  rw [upgcliCodingMsg, acceptMsg, h.cmd, h.basever, h.appver, toNat_toUInt8 h.fits.1, toNat_toUInt8 h.fits.2.1,
    payloadOf_accept]

theorem coding_result {job : Job} (h : Holds s job) (hresult : s.result = resultOf job.rc) :
    upgcliCodingMsg host s.upginfo (resultCmdOf s.upginfo.cmd) s.result = resultMsg host job.command job.rc := by
  rw [upgcliCodingMsg, resultMsg, h.cmd, h.basever, h.appver, toNat_toUInt8 h.fits.1, toNat_toUInt8 h.fits.2.1,
    hresult]

theorem part_sys (h : UpTo host s part) (rc : Int) : ∃ s' o, upgcliDosys host s rc = some (s', o) ∧
    (UpTo host s' (part ++ o.toList) ∨ o = none ∧ (∃ job, part = episode host job) ∧ UpTo host s' []) := by
  cases h with
  | idle hidle hsys hands =>
      refine ⟨s, none, ?_, Or.inl (.idle hidle hsys hands)⟩
      rw [upgcliDosys, hsys]
      simp only [hidle, Bool.false_eq_true, if_false]
  | accepted job h hinfo hsys =>
      rcases hsys with hsys | hsys
      · refine ⟨{ s with sys := .accepting }, none, ?_, Or.inl ?_⟩
        · rw [upgcliDosys, hsys]
          simp only [h.upgrading, if_true]
        · exact .accepted job ⟨h.upgrading, h.reading, h.svr, h.fits, h.cmd, h.basever, h.appver⟩ hinfo (Or.inr rfl)
      · refine ⟨{ s with sys := .executing }, some (.sent job.peer (acceptMsg host job.command)), ?_, Or.inl ?_⟩
        · rw [upgcliDosys, hsys, ← coding_accept h, ← h.svr]
        · exact .told job ⟨h.upgrading, h.reading, h.svr, h.fits, h.cmd, h.basever, h.appver⟩ hinfo rfl
  | told job h hinfo hsys =>
      obtain ⟨info, hline, hcmd, hbase, happ⟩ := cmdstr_eq h.fits
      refine ⟨{ s with upginfo := info, result := resultOf rc, sys := .reporting },
        some (.system job.command.line), ?_, Or.inl ?_⟩
      · rw [upgcliDosys, hsys, hinfo]
        simp only [hline]
        rfl
      · exact .executed ⟨job.ph, job.peer, job.command, job.decodes, rc⟩
          ⟨h.upgrading, h.reading, h.svr, h.fits, hcmd, hbase, happ⟩ rfl rfl
  | executed job h hresult hsys =>
      have hholds : Holds { s with sys := .finishing } job :=
        ⟨h.upgrading, h.reading, h.svr, h.fits, h.cmd, h.basever, h.appver⟩
      have hpart := @UpTo.reported host _ job hholds rfl
      rw [episode, resultEvents] at hpart
      refine ⟨{ s with sys := .finishing }, if job.command.cmd = ugRebootCommand then none
        else some (.sent job.peer (resultMsg host job.command job.rc)), ?_, Or.inl ?_⟩
      · rw [upgcliDosys, hsys, ← coding_result h hresult, ← h.svr, ← h.cmd]
      · split
        · rename_i hreboot
          rwa [if_pos hreboot] at hpart
        · rename_i hreboot
          rwa [if_neg hreboot] at hpart
  | reported job h hsys =>
      refine ⟨{ s with upgrading := false, sys := .waiting }, none, by rw [upgcliDosys, hsys],
        Or.inr ⟨rfl, ⟨job, rfl⟩, .idle rfl rfl ?_⟩⟩
      rw [Hands, h.reading]
      trivial

def Sys.left : Sys → Nat
  | waiting => 5
  | accepting => 4
  | executing => 3
  | reporting => 2
  | finishing => 1

theorem left_step {s' : State} {o : Option Event} {rc : Int} (hup : s.upgrading = true)
    (h : upgcliDosys host s rc = some (s', o)) :
    s'.upgrading = false ∨ s'.upgrading = true ∧ s'.sys.left < s.sys.left := by
  rw [upgcliDosys] at h
  cases hsys : s.sys with
  | waiting =>
      rw [hsys] at h
      simp only [hup, if_true] at h
      obtain ⟨rfl, -⟩ := Prod.mk.inj (Option.some.inj h)
      exact Or.inr ⟨rfl, Nat.lt_succ_self 4⟩
  | accepting =>
      rw [hsys] at h
      obtain ⟨rfl, -⟩ := Prod.mk.inj (Option.some.inj h)
      exact Or.inr ⟨hup, Nat.lt_succ_self 3⟩
  | executing =>
      rw [hsys] at h
      obtain ⟨⟨info, line⟩, -, h⟩ := Option.bind_eq_some_iff.mp h
      obtain ⟨rfl, -⟩ := Prod.mk.inj (Option.some.inj h)
      exact Or.inr ⟨hup, Nat.lt_succ_self 2⟩
  | reporting =>
      rw [hsys] at h
      obtain ⟨rfl, -⟩ := Prod.mk.inj (Option.some.inj h)
      exact Or.inr ⟨hup, Nat.lt_succ_self 1⟩
  | finishing =>
      rw [hsys] at h
      obtain ⟨rfl, -⟩ := Prod.mk.inj (Option.some.inj h)
      exact Or.inl rfl

theorem part_finishes (h : UpTo host s part) (rc : Int) :
    ∃ n t os, run (step host) s (List.replicate n (.sys rc)) = some (t, os) ∧ t.upgrading = false := by
  induction hleft : s.sys.left using Nat.strong_induction_on generalizing s part with
  | h left ih =>
      cases hup : s.upgrading with
      | false => exact ⟨0, s, [], rfl, hup⟩
      | true =>
          obtain ⟨s', o, hstep, hpart⟩ := part_sys h rc
          rcases left_step hup hstep with hdone | ⟨hup', hless⟩
          · exact ⟨1, s', [o], run_cons.mpr ⟨s', o, [], hstep, rfl, rfl⟩, hdone⟩
          · obtain ⟨part', hpart'⟩ : ∃ part', UpTo host s' part' := by
              rcases hpart with hpart | ⟨-, -, hpart⟩
              · exact ⟨_, hpart⟩
              · exact ⟨_, hpart⟩
            obtain ⟨n, t, os, hrun, ht⟩ := ih _ (hleft ▸ hless) hpart' rfl
            exact ⟨n + 1, t, o :: os, run_cons.mpr ⟨s', o, os, hstep, hrun, rfl⟩, ht⟩

/-- What happened to a state is what happened to commands that were carried out, and to one that is. -/
def Known (host : Endian) (s : State) (events : List Event) : Prop :=
  ∃ (jobs : List Job) (part : List Event), events = jobs.flatMap (episode host) ++ part ∧ UpTo host s part

theorem known_step {input : Input} (h : Known host s events) (hfits : Fits s input) :
    ∃ s' o, step host s input = some (s', o) ∧ Known host s' (events ++ o.toList) := by
  obtain ⟨jobs, part, rfl, hpart⟩ := h
  cases input with
  | packet ph peer =>
      refine ⟨_, _, rfl, jobs, part, ?_, part_packet hpart hfits⟩
      rw [Option.toList_none, List.append_nil]
  | receiver =>
      exact ⟨_, _, rfl, jobs, _, List.append_assoc .., part_receiver hpart⟩
  | sys rc =>
      obtain ⟨s', o, hstep, hpart' | ⟨rfl, ⟨job, rfl⟩, hpart'⟩⟩ := part_sys hpart rc
      · exact ⟨s', o, hstep, jobs, _, List.append_assoc .., hpart'⟩
      · refine ⟨s', none, hstep, jobs ++ [job], [], ?_, hpart'⟩
        rw [List.flatMap_append, List.flatMap_singleton, Option.toList_none]

end Runs

/-- Commands that fit are carried out as they were sent, whatever the order of the steps. -/
theorem upgrades_carried_out (host : Endian) (inputs : List Input)
    (hfits : Guarded (step host) Fits start inputs) : ∃ s os, run (step host) start inputs = some (s, os) ∧
      CarriedOut host s os.reduceOption := by
  have hstart : Known host start ([] : List (Option Event)).reduceOption :=
    ⟨[], [], rfl, .idle rfl rfl trivial⟩
  have hlog := guarded_log (R := fun s os => Known host s os.reduceOption) ?_ hstart hfits
  · obtain ⟨s, os, hrun, jobs, part, hevents, hpart⟩ := hlog
    obtain ⟨job, hprefix⟩ := part_prefix hpart
    refine ⟨s, os, hrun, ⟨jobs, part, job, hevents, hprefix⟩, fun ph peer h => ?_, part_finishes hpart⟩
    rw [step]
    rcases h with h | h
    · rw [process_busy h]
    · rw [process_undecoded h]
  · intro s os input hknown hfits
    obtain ⟨s', o, hstep, hnext⟩ := known_step hknown hfits
    refine ⟨s', o, hstep, ?_⟩
    rw [List.reduceOption_append, List.reduceOption_singleton]
    exact hnext

theorem base_upgraded : ∃ s os, run (step .big) start
      [.packet (upgradePacket 0x0a000001 2 ⟨98 :: List.replicate 31 0, rfl⟩ ⟨99 :: List.replicate 31 0, rfl⟩ 0
        .cleared .cleared) ⟨"10.0.0.9", 5000⟩, .receiver, .receiver, .receiver, .receiver, .sys 0, .sys 0, .sys 0,
        .sys 0, .sys 0] = some (s, os) ∧ CarriedOut .big s os.reduceOption := by
  refine upgrades_carried_out .big _ (guarded_of_forall fun s input hinput => ?_)
  rcases List.mem_cons.mp hinput with rfl | hinput
  · intro _ c hc
    rw [ofPacket_upgrade] at hc
    obtain rfl := Option.some.inj hc
    decide
  · cases input with
    | packet ph peer => simp at hinput
    | receiver => trivial
    | sys rc => trivial

/-- A downgrade to version 1.2. -/
def downgrade : Packet := ⟨0x23, 0x86, [1, 2]⟩

def server : Peer := ⟨"10.0.0.9", 5000⟩

/-- It is accepted as one to version 0.2. -/
theorem major_lost : ¬ ∀ host inputs, ∃ s os, run (step host) start inputs = some (s, os) ∧
    CarriedOut host s os.reduceOption := by
  intro h
  obtain ⟨s, os, hrun, ⟨jobs, part, job, hevents, hprefix⟩, -, -⟩ := h .big
    [.packet downgrade server, .receiver, .receiver, .receiver, .receiver, .sys 0, .sys 0]
  have hdo : run (step .big) start
      [.packet downgrade server, .receiver, .receiver, .receiver, .receiver, .sys 0, .sys 0] =
        some (⟨true, { UpgInfo.cleared 0x2386 with appver := 2 }, server, .reading, .executing, 0⟩,
          [none, none, none, none, some (.accepted downgrade server), none,
            some (.sent server (codeMsg .big ugDngradeAccept [0, 2]))]) := rfl
  obtain ⟨-, rfl⟩ := Prod.mk.inj (Option.some.inj (hdo.symm.trans hrun))
  have hsent : [Event.accepted downgrade server, .sent server (codeMsg .big ugDngradeAccept [0, 2])] =
      jobs.flatMap (episode .big) ++ part := hevents
  cases jobs with
  | cons job' jobs =>
      have hlen := congrArg List.length hsent
      simp only [List.flatMap_cons, episode, List.length_append, List.length_cons, List.length_nil] at hlen
      omega
  | nil =>
      rw [List.flatMap_nil, List.nil_append] at hsent
      subst hsent
      obtain ⟨rest, hrest⟩ := hprefix
      simp only [episode, List.cons_append, List.cons.injEq, Event.accepted.injEq, Event.sent.injEq] at hrest
      obtain ⟨⟨hph, -⟩, ⟨-, hmsg⟩, -⟩ := hrest
      have hcommand := job.decodes
      rw [← hph] at hcommand
      rw [← Option.some.inj hcommand] at hmsg
      exact absurd (congrFun (congrArg Prod.fst hmsg) 20) (by decide)

end OiAmc.Upgcli

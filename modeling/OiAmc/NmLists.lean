import OiAmc.NmServer
import OiAmc.PartialMachine

namespace OiAmc.NmLists

open KeyedList NmGlb NmComponent NmServer PartialMachine

/-- What happens to the server, with what there is memory for and the clock then. -/
inductive Act
  | connect (alloc : Bool) (memory : Option NmboardInfo) (tvSec : Int) (peer : Peer)
  | disconnect (peer : Peer)
  | report (allocs : Allocs) (memory : Option NmboardInfo) (tvSec : Int) (peer : Peer)
      (module cmd : UInt8) (data : List UInt8)
  | timerQuery (alloc : Nat → Bool)
  | timeOut (tvSec : Nat → Int)
  | sendCmd
  | getBoards

inductive Event
  | quiet
  | left (peers : List Peer)
  | reported (peer : Peer) (bdi : NmboardInfo)
  | boards (listed : List Peer) (nmbdiCnt : Nat) (reply : NmData)

def peers (ss : NmserverSvr) : List Peer := ss.schd.head.map Nmclient.peer

def said (ss : NmserverSvr) (peer : Peer) (module cmd : UInt8) (data : List UInt8) : Event :=
  if peer ∈ peers ss ∧ module = nmModuleGlbInfo ∧ cmd = nmCmdGetBoardInfo then
    ((nmGlbDecodeBdinfo data).map (Event.reported peer)).getD .quiet
  else .quiet

def step (ss : NmserverSvr) : Act → Option (NmserverSvr × Event)
  | .connect alloc memory tvSec peer => some (nmserverConncb alloc memory tvSec ss peer, .quiet)
  | .disconnect peer => some (nmserverDisccb ss peer, .left [peer])
  | .report allocs memory tvSec peer module cmd data =>
      (nmclientLprocess allocs memory tvSec ss peer module cmd data).map fun ss' =>
        (ss', said ss peer module cmd data)
  | .timerQuery alloc => some ({ ss with schd := nmclientCmdTimerQuery alloc ss.schd }, .quiet)
  | .timeOut tvSec =>
      let ss' := nmclientTimeoutRelease tvSec ss
      some (ss', .left ((peers ss).filter fun peer => decide (peer ∉ peers ss')))
  | .sendCmd => some ({ ss with schd := nmclientCmdGet ss.schd }, .quiet)
  | .getBoards =>
      (nmsGlbGetAllBdinfoPkt ss.glb).map fun reply =>
        (ss, .boards (peers ss) ss.glb.nmbdiCnt reply)

/-- What boards said of themselves since they were listed, after one more event. -/
def Event.tell (told : Peer → Option NmboardInfo) : Event → Peer → Option NmboardInfo
  | .reported peer bdi => Function.update told peer (some bdi)
  | .left peers => fun peer => if peer ∈ peers then none else told peer
  | .quiet | .boards .. => told

def told (es : List Event) : Peer → Option NmboardInfo := es.foldl Event.tell fun _ => none

/-- A packet of records, each of which is what one of the listed boards said last. -/
def Shows (told : Peer → Option NmboardInfo) (listed : List Peer) (nmbdiCnt : Nat)
    (reply : NmData) : Prop :=
  reply.dlen = 1 + nmbdiCnt * nmboardInfoSize ∧ reply.octets.length = reply.dlen ∧
    ∃ boards : List Peer, boards.Perm listed ∧ boards.length = nmbdiCnt ∧
      ∀ i peer, boards[i]? = some peer → ∃ bdi, told peer = some bdi ∧
        nmGlbDecodeBdinfo (reply.octets.drop (1 + i * nmboardInfoSize)) = some bdi

/-- The lists are in step: the same connections in both, each once, commands for these alone,
and all component data that was opened is held by one client or was closed once. -/
structure InStep (ss : NmserverSvr) (es : List Event) : Prop where
  apart : (peers ss).Nodup
  boards : (ss.glb.lsthd.map NmsBdinfo.peer).Perm (peers ss)
  cnt : ss.glb.nmbdiCnt = ss.glb.lsthd.length
  cmds : ∀ cmd ∈ ss.schd.cmdHead, cmd.peer ∈ peers ss
  closed : (ss.closed ++ ss.schd.head.filterMap Nmclient.name?).Perm (List.range ss.opened)
  packets : ∀ as listed nmbdiCnt reply bs, es = as ++ .boards listed nmbdiCnt reply :: bs →
    Shows (told as) listed nmbdiCnt reply

def Proper (ss : NmserverSvr) : Act → Prop
  | .report allocs _ _ peer module cmd data =>
      if module = nmModuleGlbInfo then nmboardInfoSize ≤ data.length
      else ∀ client ∈ ss.schd.head, client.peer = peer →
        (nmComponentLprocess allocs (client.component.getD (nmComponentOpen ss.opened)) module cmd
          data).isSome
  | .connect .. | .disconnect _ | .timerQuery _ | .timeOut _ | .sendCmd | .getBoards => True

instance (ss : NmserverSvr) (act : Act) : Decidable (Proper ss act) :=
  match act with
  | .report allocs _ _ peer module cmd data => inferInstanceAs (Decidable
      (if module = nmModuleGlbInfo then nmboardInfoSize ≤ data.length
      else ∀ client ∈ ss.schd.head, client.peer = peer →
        (nmComponentLprocess allocs (client.component.getD (nmComponentOpen ss.opened)) module cmd
          data).isSome))
  | .connect .. | .disconnect _ | .timerQuery _ | .timeOut _ | .sendCmd | .getBoards =>
      isTrue trivial

/-- There is memory for a client and for its board or for neither, and for the component data of
a client that says what its board is. -/
def Allocated (ss : NmserverSvr) : Act → Prop
  | .connect alloc memory _ peer => peer ∈ peers ss ∨ alloc = memory.isSome
  | .report allocs _ _ peer module cmd _ =>
      module = nmModuleGlbInfo → cmd = nmCmdGetBoardInfo → ∀ client ∈ ss.schd.head,
        client.peer = peer → client.component = none → allocs.component = true
  | .disconnect _ | .timerQuery _ | .timeOut _ | .sendCmd | .getBoards => True

/-- Who leaves has no commands to be sent, and when the boards are asked for, all of them have
said what they are. -/
def Fits (p : NmserverSvr × List Event) (act : Act) : Prop :=
  Allocated p.1 act ∧ match act with
    | .disconnect peer => ∀ cmd ∈ p.1.schd.cmdHead, cmd.peer ≠ peer
    | .getBoards => ∀ peer ∈ peers p.1, (told p.2 peer).isSome
    | _ => True

variable {ss : NmserverSvr} {es : List Event} {peer : Peer} {client : Nmclient}
  {dir dir' : Peer → Option NmboardInfo}

structure Mirrors (ss : NmserverSvr) (told : Peer → Option NmboardInfo) : Prop where
  apart : (peers ss).Nodup
  boards : (ss.glb.lsthd.map NmsBdinfo.peer).Perm (peers ss)
  cnt : ss.glb.nmbdiCnt = ss.glb.lsthd.length
  closed : (ss.closed ++ ss.schd.head.filterMap Nmclient.name?).Perm (List.range ss.opened)
  told : ∀ peer ∈ peers ss, ∀ bdi, told peer = some bdi → ⟨peer, bdi⟩ ∈ ss.glb.lsthd

theorem Mirrors.boards_apart (h : Mirrors ss dir) :
    (ss.glb.lsthd.map NmsBdinfo.peer).Nodup := h.boards.nodup_iff.mpr h.apart

theorem Mirrors.mono (h : Mirrors ss dir) (hsub : ∀ peer ∈ peers ss, ∀ bdi,
    dir' peer = some bdi → dir peer = some bdi) : Mirrors ss dir' where
  __ := h
  told peer hp bdi hb := h.told peer hp bdi (hsub peer hp bdi hb)

theorem Mirrors.cmds (h : Mirrors ss dir) (cmds : List NmclientCmd) :
    Mirrors { ss with schd := { ss.schd with cmdHead := cmds } } dir :=
  ⟨h.apart, h.boards, h.cnt, h.closed, h.told⟩

theorem getNode_some (h : nmclientGetNode ss.schd peer = some client) :
    client ∈ ss.schd.head ∧ client.peer = peer := lookup_some h

theorem getNode_none_iff : nmclientGetNode ss.schd peer = none ↔ peer ∉ peers ss := lookup_none_iff

theorem Mirrors.findByip_none_iff (h : Mirrors ss dir) :
    nmsGlbFindEntryByip ss.glb peer = none ↔ peer ∉ peers ss := by
  rw [← h.boards.mem_iff]
  exact lookup_none_iff

theorem mirrors_open : Mirrors nmserverOpen fun _ => none where
  apart := List.nodup_nil
  boards := List.Perm.nil
  cnt := rfl
  closed := List.Perm.nil
  told peer _ bdi h := by cases h

theorem insert_listed {ctl : NmsGlbCtl} {entry : NmsBdinfo}
    (h : nmsGlbFindEntryByip ctl peer = some entry) (bdi memory : Option NmboardInfo) :
    nmsGlbInsertBdinfo ctl peer bdi memory = { ctl with
      lsthd := alter NmsBdinfo.peer peer (fun entry => ⟨peer, bdi.getD entry.bdi⟩) ctl.lsthd } := by
  simp only [nmsGlbInsertBdinfo, h]

theorem insert_new {ctl : NmsGlbCtl} (h : nmsGlbFindEntryByip ctl peer = none)
    (bdi memory : Option NmboardInfo) :
    nmsGlbInsertBdinfo ctl peer bdi memory = match memory with
      | none => ctl
      | some garbage => ⟨ctl.nmbdiCnt + 1, ⟨peer, bdi.getD garbage⟩ :: ctl.lsthd⟩ := by
  cases memory <;> simp only [nmsGlbInsertBdinfo, h]

theorem conncb_listed (h : Mirrors ss dir) (hp : peer ∈ peers ss) (alloc : Bool)
    (memory : Option NmboardInfo) (tvSec : Int) :
    nmserverConncb alloc memory tvSec ss peer = ss := by
  obtain ⟨client, hclient⟩ := Option.ne_none_iff_exists'.mp (mt getNode_none_iff.mp (not_not.mpr hp))
  obtain ⟨entry, hentry⟩ := Option.ne_none_iff_exists'.mp
    (mt h.findByip_none_iff.mp (not_not.mpr hp))
  have hsame : alter NmsBdinfo.peer peer
      (fun entry => ⟨peer, (none : Option NmboardInfo).getD entry.bdi⟩) ss.glb.lsthd =
        ss.glb.lsthd := by
    refine alter_same fun entry _ he => ?_
    obtain ⟨peer', bdi⟩ := entry
    exact congrArg (NmsBdinfo.mk · bdi) he.symm
  rw [nmserverConncb, nmclientAddNode, hclient, insert_listed hentry, hsame]

theorem conncb_mirrors (h : Mirrors ss dir) (hquiet : ∀ peer ∉ peers ss, dir peer = none)
    {alloc : Bool} {memory : Option NmboardInfo} (tvSec : Int)
    (hallocs : peer ∈ peers ss ∨ alloc = memory.isSome) :
    Mirrors (nmserverConncb alloc memory tvSec ss peer) dir := by
  by_cases hp : peer ∈ peers ss
  · rw [conncb_listed h hp]
    exact h
  · have halloc := hallocs.resolve_left hp
    rw [nmserverConncb, nmclientAddNode, getNode_none_iff.mpr hp,
      insert_new (h.findByip_none_iff.mpr hp)]
    cases memory with
    | none =>
        rw [halloc]
        exact h
    | some garbage =>
        have hpeers : List.map Nmclient.peer
            (ss.schd.head ++ [(⟨peer, seconds tvSec, none⟩ : Nmclient)]) = peers ss ++ [peer] :=
          List.map_append
        rw [halloc]
        dsimp only
        rw [Option.isSome_some, if_pos rfl]
        refine ⟨?_, ?_, congrArg (· + 1) h.cnt, ?_, ?_⟩
        · rw [peers, hpeers]
          refine List.nodup_append.mpr ⟨h.apart, List.nodup_singleton peer, fun q hq q' hq' he => ?_⟩
          rw [he, List.mem_singleton.mp hq'] at hq
          exact hp hq
        · rw [peers, hpeers]
          exact (h.boards.cons peer).trans (List.perm_append_singleton peer _).symm
        · rw [List.filterMap_append]
          exact (List.append_nil (ss.schd.head.filterMap Nmclient.name?)).symm ▸ h.closed
        · intro q hq bdi hb
          have hq' : q ∈ peers ss := by
            by_contra hout
            rw [hquiet q hout] at hb
            cases hb
          exact List.mem_cons_of_mem _ (h.told q hq' bdi hb)

/-- A client leaves with its board, and its component data is closed. -/
def leave (ss : NmserverSvr) (client : Nmclient) : NmserverSvr :=
  nmclientReleaseNode { ss with
    schd := { ss.schd with head := without Nmclient.peer client.peer ss.schd.head }
    glb := nmsGlbDelBdinfo ss.glb client.peer } client

theorem peers_leave (ss : NmserverSvr) (client : Nmclient) :
    peers (leave ss client) = (peers ss).erase client.peer := map_without

theorem leave_mirrors (h : Mirrors ss dir) (hclient : client ∈ ss.schd.head) :
    Mirrors (leave ss client) dir := by
  have hp : client.peer ∈ peers ss := List.mem_map_of_mem hclient
  obtain ⟨entry, hentry⟩ := Option.ne_none_iff_exists'.mp
    (mt h.findByip_none_iff.mp (not_not.mpr hp))
  have hglb : nmsGlbDelBdinfo ss.glb client.peer =
      ⟨ss.glb.nmbdiCnt - 1, without NmsBdinfo.peer client.peer ss.glb.lsthd⟩ := by
    rw [nmsGlbDelBdinfo, hentry]
  have hboards := perm_without hentry
  have hclients := perm_without (lookup_eq h.apart hclient)
  have hname : (ss.closed ++ client.name?.toList ++
      (without Nmclient.peer client.peer ss.schd.head).filterMap Nmclient.name?).Perm
        (ss.closed ++ ss.schd.head.filterMap Nmclient.name?) := by
    have hsplit := hclients.filterMap Nmclient.name?
    rw [List.filterMap_cons] at hsplit
    rw [List.append_assoc]
    refine (List.perm_append_left_iff _).mpr (List.Perm.trans ?_ hsplit.symm)
    cases client.name? <;> exact List.Perm.refl _
  rw [leave, hglb]
  refine ⟨?_, ?_, ?_, hname.trans h.closed, fun q hq bdi hb => ?_⟩
  · exact (peers_leave ss client).symm ▸ h.apart.erase _
  · have hpeers := h.boards.erase client.peer
    rw [← map_without, ← peers_leave] at hpeers
    exact hpeers
  · have hlen := hboards.length_eq
    rw [List.length_cons] at hlen
    change ss.glb.nmbdiCnt - 1 = (without NmsBdinfo.peer client.peer ss.glb.lsthd).length
    rw [h.cnt, hlen, Nat.add_sub_cancel]
  · obtain ⟨hne, hold⟩ := (h.apart.mem_erase_iff).mp (peers_leave ss client ▸ hq)
    exact (mem_without h.boards_apart).mpr ⟨h.told q hold bdi hb, hne⟩

/-- A client leaves when it was not heard of for too long, and its commands with it. -/
def timedOut (ss : NmserverSvr) (client : Nmclient) : NmserverSvr :=
  let ss' := leave ss client
  { ss' with schd := nmclientCmdDel ss'.schd client.peer }

theorem timeoutRelease_preserves {I : NmserverSvr → Prop} (hapart : ∀ ss, I ss → (peers ss).Nodup)
    (hleave : ∀ ss, I ss → ∀ client ∈ ss.schd.head, I (timedOut ss client))
    (tvSec : Nat → Int) {passed clients : List Nmclient} (hs : ss.schd.head = passed ++ clients)
    (h : I ss) : I (timeoutRelease tvSec ss passed clients) := by
  induction clients generalizing ss passed with
  | nil => exact h
  | cons client clients ih =>
      rw [timeoutRelease]
      split
      · have hmem : client ∈ ss.schd.head := hs ▸ List.mem_append_right _ List.mem_cons_self
        have hhead : without Nmclient.peer client.peer ss.schd.head = passed ++ clients := by
          have hn := hapart ss h
          rw [peers, hs] at hn
          rw [hs]
          exact without_middle hn
        have hnext := hleave ss h client hmem
        rw [timedOut, leave, hhead] at hnext
        exact ih rfl hnext
      · exact ih (by rw [hs, List.append_assoc, List.singleton_append]) h

theorem timeoutRelease_mirrors (h : Mirrors ss dir) (tvSec : Nat → Int) :
    Mirrors (nmclientTimeoutRelease tvSec ss) dir :=
  timeoutRelease_preserves (fun _ h => h.apart)
    (fun _ h _ hclient => (leave_mirrors h hclient).cmds _) tvSec rfl h

theorem disccb_mirrors (h : Mirrors ss dir) (peer : Peer) :
    Mirrors (nmserverDisccb ss peer) dir ∧
      peers (nmserverDisccb ss peer) = (peers ss).erase peer := by
  rw [nmserverDisccb, nmclientDelNode]
  cases hclient : nmclientGetNode ss.schd peer with
  | none =>
      have hout := getNode_none_iff.mp hclient
      dsimp only
      rw [nmsGlbDelBdinfo, h.findByip_none_iff.mpr hout]
      exact ⟨h, (List.erase_of_not_mem hout).symm⟩
  | some client =>
      obtain ⟨hmem, rfl⟩ := getNode_some hclient
      exact ⟨leave_mirrors h hmem, peers_leave ss client⟩

theorem peers_setNode {f : Nmclient → Nmclient}
    (hf : ∀ client ∈ ss.schd.head, client.peer = peer → (f client).peer = peer) :
    peers (setNode ss peer f) = peers ss := map_alter hf

theorem setNode_mirrors (h : Mirrors ss dir) {f : Nmclient → Nmclient}
    (hf : ∀ client ∈ ss.schd.head, client.peer = peer →
      (f client).peer = peer ∧ (f client).name? = client.name?) :
    Mirrors (setNode ss peer f) dir := by
  have hpeers := peers_setNode fun client hc hp => (hf client hc hp).1
  have hnames : (alter Nmclient.peer peer f ss.schd.head).filterMap Nmclient.name? =
      ss.schd.head.filterMap Nmclient.name? := by
    rw [alter, List.filterMap_map]
    refine List.filterMap_congr fun client hc => ?_
    by_cases hp : client.peer = peer
    · rw [Function.comp_apply, if_pos hp, (hf client hc hp).2]
    · rw [Function.comp_apply, if_neg hp]
  refine ⟨hpeers ▸ h.apart, hpeers ▸ h.boards, h.cnt, ?_, hpeers ▸ h.told⟩
  rw [setNode, hnames]
  exact h.closed

theorem open_mirrors (h : Mirrors ss dir) (hclient : nmclientGetNode ss.schd peer = some client)
    (hnone : client.component = none) :
    Mirrors { setNode ss peer fun client => { client with
      component := some (nmComponentOpen ss.opened) } with opened := ss.opened + 1 } dir := by
  have hpeers : peers (setNode ss peer fun client => { client with
      component := some (nmComponentOpen ss.opened) }) = peers ss := peers_setNode fun _ _ hp => hp
  refine ⟨hpeers ▸ h.apart, hpeers ▸ h.boards, h.cnt, ?_, hpeers ▸ h.told⟩
  have hold := (perm_without hclient).filterMap Nmclient.name?
  have hnew := (alter_perm (f := fun client => { client with
    component := some (nmComponentOpen ss.opened) }) h.apart hclient).filterMap Nmclient.name?
  have hname : client.name? = none := congrArg (Option.map NmComponentCtl.addr) hnone
  rw [List.filterMap_cons, hname] at hold
  rw [List.filterMap_cons] at hnew
  have hall := (h.closed.symm.trans ((List.perm_append_left_iff _).mpr hold)).symm
  change (ss.closed ++ (alter Nmclient.peer peer _ ss.schd.head).filterMap Nmclient.name?).Perm
    (List.range (ss.opened + 1))
  refine ((List.perm_append_left_iff _).mpr hnew).trans ?_
  refine List.perm_middle.trans ((hall.cons ss.opened).trans ?_)
  rw [List.range_succ]
  exact (List.perm_append_singleton _ _).symm

theorem insert_mirrors (h : Mirrors ss dir) (hp : peer ∈ peers ss) (bdi : NmboardInfo)
    (memory : Option NmboardInfo) :
    Mirrors { ss with glb := nmsGlbInsertBdinfo ss.glb peer (some bdi) memory }
      (Function.update dir peer (some bdi)) := by
  obtain ⟨entry, hentry⟩ := Option.ne_none_iff_exists'.mp
    (mt h.findByip_none_iff.mp (not_not.mpr hp))
  obtain ⟨hmem, hkey⟩ := lookup_some hentry
  have hkeys : (alter NmsBdinfo.peer peer (fun entry => ⟨peer, (some bdi).getD entry.bdi⟩)
      ss.glb.lsthd).map NmsBdinfo.peer = ss.glb.lsthd.map NmsBdinfo.peer :=
    map_alter fun _ _ _ => rfl
  rw [insert_listed hentry]
  refine ⟨h.apart, ?_, ?_, h.closed, fun q hq bdi' hb => mem_alter.mpr ?_⟩
  · rw [hkeys]
    exact h.boards
  · rw [length_alter]
    exact h.cnt
  · by_cases hqp : q = peer
    · subst hqp
      rw [Function.update_self] at hb
      obtain rfl := Option.some.inj hb
      exact Or.inr ⟨entry, hmem, hkey, rfl⟩
    · rw [Function.update_of_ne hqp] at hb
      exact Or.inl ⟨h.told q hq bdi' hb, hqp⟩

@[simp] theorem addr_openComp (allocs : Allocs) (ctl : NmComponentCtl) (comp : UInt32) :
    (nmComponentOpenComp allocs ctl comp).addr = ctl.addr := by
  rw [nmComponentOpenComp]
  dsimp only
  split
  · rfl
  · split <;> rfl

theorem addr_lprocess {allocs : Allocs} {ctl ctl' : NmComponentCtl} {module cmd : UInt8}
    {data : List UInt8} (h : nmComponentLprocess allocs ctl module cmd data = some ctl') :
    ctl'.addr = ctl.addr := by
  rw [nmComponentLprocess] at h
  split at h
  · rw [nmComponentLprocE1phy] at h
    split at h
    · rw [Option.some.inj h]
    · split at h
      · obtain ⟨e1hd, -, rfl⟩ := Option.map_eq_some_iff.mp h
        rfl
      · rw [Option.some.inj h]
  · split at h
    · rw [nmComponentLprocFpga] at h
      split at h
      · rw [Option.some.inj h]
      · obtain ⟨fpga, -, rfl⟩ := Option.map_eq_some_iff.mp h
        rfl
    · split at h
      · rw [nmComponentLprocSwitch] at h
        split at h
        · split at h
          · rw [Option.some.inj h]
          · obtain ⟨sw, -, rfl⟩ := Option.map_eq_some_iff.mp h
            rfl
        · rw [Option.some.inj h]
      · rw [Option.some.inj h]

structure Opens (ss : NmserverSvr) (dir : Peer → Option NmboardInfo) (peer : Peer)
    (component : NmComponentCtl) (ss' : NmserverSvr) : Prop where
  mirrors : Mirrors ss' dir
  peers : peers ss' = peers ss
  cmds : ss'.schd.cmdHead = ss.schd.cmdHead
  component : ∀ client ∈ ss'.schd.head, client.peer = peer → client.component = some component

theorem openComponent_opens (h : Mirrors ss dir)
    (hclient : nmclientGetNode ss.schd peer = some client) (alloc : Bool) :
    openComponent alloc ss client = none ∧ client.component = none ∧ alloc = false ∨
      ∃ ss', openComponent alloc ss client =
          some (client.component.getD (nmComponentOpen ss.opened), ss') ∧
        Opens ss dir peer (client.component.getD (nmComponentOpen ss.opened)) ss' := by
  obtain ⟨hmem, hpeer⟩ := getNode_some hclient
  have honly : ∀ c ∈ ss.schd.head, c.peer = peer → c = client := fun c hc hcp =>
    List.inj_on_of_nodup_map h.apart hc hmem (hcp.trans hpeer.symm)
  cases hcomponent : client.component with
  | some component =>
      refine Or.inr ⟨ss, by rw [openComponent, hcomponent]; rfl, h, rfl, rfl, fun c hc hcp => ?_⟩
      rw [honly c hc hcp, hcomponent]
      rfl
  | none =>
      cases alloc with
      | false => exact Or.inl ⟨by rw [openComponent, hcomponent]; rfl, rfl, rfl⟩
      | true =>
          have hopen : openComponent true ss client = some (nmComponentOpen ss.opened,
              { setNode ss client.peer fun client => { client with
                component := some (nmComponentOpen ss.opened) } with opened := ss.opened + 1 }) := by
            rw [openComponent, hcomponent]
            rfl
          refine Or.inr ⟨_, hopen, ?_, ?_, rfl, fun c hc hcp => ?_⟩
          · rw [hpeer]
            exact open_mirrors h hclient hcomponent
          · exact peers_setNode fun _ _ hp => hp
          · rcases mem_alter.mp hc with ⟨-, hne⟩ | ⟨old, -, -, rfl⟩
            · exact absurd hcp (hpeer ▸ hne)
            · rfl

theorem Opens.set {ss' : NmserverSvr} {component component' : NmComponentCtl}
    (h : Opens ss dir peer component ss') (haddr : component'.addr = component.addr)
    {f : Nmclient → Nmclient} (hf : ∀ client, (f client).peer = client.peer ∧
      (f client).component = some component') :
    Mirrors (setNode ss' peer f) dir ∧ NmLists.peers (setNode ss' peer f) = NmLists.peers ss ∧
      (setNode ss' peer f).schd.cmdHead = ss.schd.cmdHead := by
  refine ⟨setNode_mirrors h.mirrors fun client hc hp => ⟨(hf client).1.trans hp, ?_⟩,
    (peers_setNode fun client _ hp => (hf client).1.trans hp).trans h.peers, h.cmds⟩
  rw [Nmclient.name?, Nmclient.name?, (hf client).2, h.component client hc hp, Option.map_some,
    Option.map_some, haddr]

theorem decodeBdinfo_some {data : List UInt8} (h : nmboardInfoSize ≤ data.length) :
    ∃ bdi, nmGlbDecodeBdinfo data = some bdi := by
  match data, h with
  | _ :: _ :: _ :: _ :: _ :: _ :: _ :: _ :: _ :: _ :: _, _ => exact ⟨_, rfl⟩

theorem said_quiet {module cmd : UInt8} {data : List UInt8}
    (h : ¬ (peer ∈ peers ss ∧ module = nmModuleGlbInfo ∧ cmd = nmCmdGetBoardInfo)) :
    said ss peer module cmd data = .quiet := if_neg h

theorem lprocess_mirrors (h : Mirrors ss dir) {allocs : Allocs} {memory : Option NmboardInfo}
    {tvSec : Int} {module cmd : UInt8} {data : List UInt8}
    (hproper : Proper ss (.report allocs memory tvSec peer module cmd data))
    (hallocs : Allocated ss (.report allocs memory tvSec peer module cmd data)) :
    ∃ ss', nmclientLprocess allocs memory tvSec ss peer module cmd data = some ss' ∧
      Mirrors ss' ((said ss peer module cmd data).tell dir) ∧ peers ss' = peers ss ∧
      ss'.schd.cmdHead = ss.schd.cmdHead := by
  rw [nmclientLprocess]
  cases hclient : nmclientGetNode ss.schd peer with
  | none =>
      refine ⟨ss, rfl, ?_, rfl, rfl⟩
      rw [said_quiet fun hp => getNode_none_iff.mp hclient hp.1]
      exact h
  | some client =>
      obtain ⟨hmem, hpeer⟩ := getNode_some hclient
      have hp : peer ∈ peers ss := hpeer ▸ List.mem_map_of_mem hmem
      dsimp only
      obtain ⟨hopen, hnone, halloc⟩ | ⟨ss1, hopen, hopens⟩ :=
        openComponent_opens h hclient allocs.component
      · refine ⟨ss, by rw [hopen], ?_, rfl, rfl⟩
        rw [said_quiet fun hp => by
          rw [hallocs hp.2.1 hp.2.2 client hmem hpeer hnone] at halloc
          cases halloc]
        exact h
      · rw [hopen]
        dsimp only
        rw [Proper] at hproper
        by_cases hmodule : module = nmModuleGlbInfo
        · rw [if_pos hmodule] at hproper ⊢
          by_cases hcmd : cmd = nmCmdGetBoardInfo
          · obtain ⟨bdi, hbdi⟩ := decodeBdinfo_some hproper
            have hinsert : Opens ss (Function.update dir peer (some bdi)) peer _
                { ss1 with glb := nmsGlbInsertBdinfo ss1.glb peer (some bdi) memory } :=
              ⟨insert_mirrors hopens.mirrors (hopens.peers ▸ hp) bdi memory, hopens.peers,
                hopens.cmds, hopens.component⟩
            refine ⟨_, by rw [if_pos hcmd, nmComponentLprocGlbBdinfo, hbdi, Option.map_some], ?_⟩
            rw [said, if_pos ⟨hp, hmodule, hcmd⟩, hbdi]
            exact hinsert.set (addr_openComp _ _ _) fun _ => ⟨rfl, rfl⟩
          · refine ⟨ss1, if_neg hcmd, ?_⟩
            rw [said_quiet fun hp => hcmd hp.2.2]
            exact ⟨hopens.mirrors, hopens.peers, hopens.cmds⟩
        · rw [if_neg hmodule] at hproper ⊢
          obtain ⟨component, hcomponent⟩ :=
            Option.isSome_iff_exists.mp (hproper client hmem hpeer)
          refine ⟨_, by rw [hcomponent, Option.map_some], ?_⟩
          rw [said_quiet fun hp => hmodule hp.2.1]
          exact hopens.set (addr_lprocess hcomponent) fun _ => ⟨rfl, rfl⟩

/-- The lists mirror each other, and nothing is kept of what boards that left said. -/
structure Tracks (ss : NmserverSvr) (told : Peer → Option NmboardInfo) : Prop where
  mirrors : Mirrors ss told
  gone : ∀ peer ∉ peers ss, told peer = none

theorem tell_left (dir : Peer → Option NmboardInfo) (left : List Peer) (peer : Peer) :
    Event.tell dir (.left left) peer = if peer ∈ left then none else dir peer := rfl

theorem tracks_open : Tracks nmserverOpen (told []) := ⟨mirrors_open, fun _ _ => rfl⟩

theorem left_tracks (h : Tracks ss dir) {ss' : NmserverSvr} (hmirrors : Mirrors ss' dir)
    {left : List Peer} (hleft : ∀ peer, peer ∈ peers ss → peer ∉ peers ss' → peer ∈ left) :
    Tracks ss' (Event.tell dir (.left left)) := by
  constructor
  · refine hmirrors.mono fun peer _ bdi hb => ?_
    by_cases hp : peer ∈ left
    · rw [tell_left, if_pos hp] at hb
      cases hb
    · rwa [tell_left, if_neg hp] at hb
  · intro peer hout
    by_cases hp : peer ∈ left
    · exact if_pos hp
    · exact (if_neg hp).trans (h.gone peer fun hin => hp (hleft peer hin hout))

theorem said_gone (h : ∀ peer ∉ peers ss, dir peer = none) (module cmd : UInt8)
    (data : List UInt8) : ∀ q ∉ peers ss, (said ss peer module cmd data).tell dir q = none := by
  intro q hq
  rw [said]
  split
  · rename_i hsaid
    cases nmGlbDecodeBdinfo data with
    | none => exact h q hq
    | some bdi =>
        have hne : q ≠ peer := by
          rintro rfl
          exact hq hsaid.1
        exact (Function.update_of_ne hne _ _).trans (h q hq)
  · exact h q hq

theorem mem_peers_conncb (alloc : Bool) (memory : Option NmboardInfo) (tvSec : Int) {q : Peer}
    (hq : q ∈ peers ss) : q ∈ peers (nmserverConncb alloc memory tvSec ss peer) := by
  rw [peers, nmserverConncb, nmclientAddNode]
  dsimp only
  split
  · exact hq
  · split
    · exact List.mem_map.mpr ((List.mem_map.mp hq).imp fun _ hc =>
        ⟨List.mem_append_left _ hc.1, hc.2⟩)
    · exact hq

theorem step_tracks (h : Tracks ss dir) {act : Act} (hproper : Proper ss act)
    (hallocs : Allocated ss act) :
    ∃ ss' e, step ss act = some (ss', e) ∧ Tracks ss' (e.tell dir) := by
  cases act with
  | connect alloc memory tvSec peer =>
      refine ⟨_, _, rfl, conncb_mirrors h.mirrors h.gone tvSec hallocs, fun q hout => ?_⟩
      exact h.gone q fun hin => hout (mem_peers_conncb alloc memory tvSec hin)
  | disconnect peer =>
      obtain ⟨hmirrors, hpeers⟩ := disccb_mirrors h.mirrors peer
      refine ⟨_, _, rfl, left_tracks h hmirrors fun q hin hout => ?_⟩
      by_contra hq
      rw [hpeers] at hout
      exact hout ((List.mem_erase_of_ne fun he => hq (List.mem_singleton.mpr he)).mpr hin)
  | report allocs memory tvSec peer module cmd data =>
      obtain ⟨ss', hstep, hmirrors, hpeers, -⟩ := lprocess_mirrors h.mirrors hproper hallocs
      refine ⟨ss', _, by rw [step, hstep, Option.map_some], hmirrors, ?_⟩
      rw [hpeers]
      exact said_gone h.gone module cmd data
  | timerQuery alloc => exact ⟨_, _, rfl, h.mirrors.cmds _, h.gone⟩
  | timeOut tvSec =>
      refine ⟨_, _, rfl, left_tracks h (timeoutRelease_mirrors h.mirrors tvSec) fun q hin hout => ?_⟩
      exact List.mem_filter.mpr ⟨hin, decide_eq_true hout⟩
  | sendCmd => exact ⟨_, _, rfl, h.mirrors.cmds _, h.gone⟩
  | getBoards =>
      have hpkt := getAllBdinfoPkt_eq h.mirrors.cnt
      exact ⟨ss, _, congrArg (Option.map _) hpkt, h⟩

def Queued (ss : NmserverSvr) : Prop := ∀ cmd ∈ ss.schd.cmdHead, cmd.peer ∈ peers ss

theorem queries_peers (alloc : Nat → Bool) (clients : List Nmclient) :
    ∀ cmd ∈ queries alloc clients, cmd.peer ∈ clients.map Nmclient.peer := by
  induction clients with
  | nil => exact fun _ h => absurd h List.not_mem_nil
  | cons client clients ih =>
      intro cmd hcmd
      rw [queries] at hcmd
      split at hcmd
      · rcases List.mem_cons.mp hcmd with rfl | hcmd
        · exact List.mem_cons_self
        · exact List.mem_cons_of_mem _ (ih cmd hcmd)
      · exact List.mem_cons_of_mem _ (ih cmd hcmd)

theorem timeoutRelease_queued (h : Mirrors ss dir) (hq : Queued ss) (tvSec : Nat → Int) :
    Queued (nmclientTimeoutRelease tvSec ss) := by
  refine (timeoutRelease_preserves (I := fun ss => Mirrors ss dir ∧ Queued ss)
    (fun _ h => h.1.apart) (fun ss h client hclient => ?_) tvSec rfl ⟨h, hq⟩).2
  refine ⟨(leave_mirrors h.1 hclient).cmds _, fun cmd hcmd => ?_⟩
  obtain ⟨hold, hne⟩ := List.mem_filter.mp hcmd
  change cmd.peer ∈ peers (leave ss client)
  rw [peers_leave]
  exact (List.mem_erase_of_ne (of_decide_eq_true hne)).mpr (h.2 cmd hold)

theorem disccb_cmds (ss : NmserverSvr) (peer : Peer) :
    (nmserverDisccb ss peer).schd.cmdHead = ss.schd.cmdHead := by
  rw [nmserverDisccb, nmclientDelNode]
  dsimp only
  split <;> rfl

theorem conncb_cmds (alloc : Bool) (memory : Option NmboardInfo) (tvSec : Int) (ss : NmserverSvr)
    (peer : Peer) :
    (nmserverConncb alloc memory tvSec ss peer).schd.cmdHead = ss.schd.cmdHead := by
  rw [nmserverConncb, nmclientAddNode]
  dsimp only
  split
  · rfl
  · split <;> rfl

theorem step_queued (h : Mirrors ss dir) (hq : Queued ss) {act : Act} (hproper : Proper ss act)
    (hfits : Fits (ss, es) act) {ss' : NmserverSvr} {e : Event}
    (hstep : step ss act = some (ss', e)) : Queued ss' := by
  cases act with
  | connect alloc memory tvSec peer =>
      cases hstep
      intro cmd hcmd
      rw [conncb_cmds] at hcmd
      exact mem_peers_conncb alloc memory tvSec (hq cmd hcmd)
  | disconnect peer =>
      cases hstep
      intro cmd hcmd
      rw [disccb_cmds] at hcmd
      rw [(disccb_mirrors h peer).2]
      exact (List.mem_erase_of_ne (hfits.2 cmd hcmd)).mpr (hq cmd hcmd)
  | report allocs memory tvSec peer module cmd data =>
      obtain ⟨ss1, hprocess, -, hpeers, hcmds⟩ := lprocess_mirrors h hproper hfits.1
      rw [step, hprocess] at hstep
      cases hstep
      intro cmd hcmd
      rw [hpeers]
      exact hq cmd (hcmds ▸ hcmd)
  | timerQuery alloc =>
      cases hstep
      intro cmd hcmd
      rcases List.mem_append.mp hcmd with hold | hnew
      · exact hq cmd hold
      · exact queries_peers alloc ss.schd.head cmd hnew
  | timeOut tvSec =>
      cases hstep
      exact timeoutRelease_queued h hq tvSec
  | sendCmd =>
      cases hstep
      exact fun cmd hcmd => hq cmd (List.mem_of_mem_tail hcmd)
  | getBoards =>
      obtain ⟨reply, -, he⟩ := Option.map_eq_some_iff.mp hstep
      cases he
      exact hq

theorem flatMap_drop (entries : List NmsBdinfo) (i : Nat) :
    (entries.flatMap fun entry => nmGlbCodeBdinfo entry.bdi).drop (i * nmboardInfoSize) =
      (entries.drop i).flatMap fun entry => nmGlbCodeBdinfo entry.bdi := by
  induction entries generalizing i with
  | nil => rw [List.drop_nil, List.flatMap_nil, List.drop_nil]
  | cons entry entries ih =>
      cases i with
      | zero => rw [Nat.zero_mul, List.drop_zero, List.drop_zero]
      | succ i =>
          rw [List.flatMap_cons, List.drop_succ_cons, ← ih, Nat.succ_mul, Nat.add_comm,
            ← List.drop_drop, List.drop_left' (length_codeBdinfo entry.bdi)]

theorem getBoards_shows (h : Mirrors ss dir) (hheard : ∀ peer ∈ peers ss, (dir peer).isSome)
    {reply : NmData} (hpkt : nmsGlbGetAllBdinfoPkt ss.glb = some reply) :
    Shows dir (peers ss) ss.glb.nmbdiCnt reply := by
  rw [getAllBdinfoPkt_eq h.cnt] at hpkt
  obtain rfl := Option.some.inj hpkt
  refine ⟨?_, ?_, ss.glb.lsthd.map NmsBdinfo.peer, h.boards, ?_, fun i peer hi => ?_⟩
  · rw [h.cnt, Nat.add_comm]
  · rw [List.length_cons, length_codeEntries]
  · rw [List.length_map, h.cnt]
  · rw [List.getElem?_map] at hi
    obtain ⟨entry, hentry, rfl⟩ := Option.map_eq_some_iff.mp hi
    have hmem : entry ∈ ss.glb.lsthd := List.mem_of_getElem? hentry
    have hp : entry.peer ∈ peers ss := h.boards.mem_iff.mp (List.mem_map_of_mem hmem)
    obtain ⟨bdi, hbdi⟩ := Option.isSome_iff_exists.mp (hheard _ hp)
    have hsame : entry = ⟨entry.peer, bdi⟩ :=
      List.inj_on_of_nodup_map h.boards_apart hmem (h.told _ hp bdi hbdi) rfl
    obtain ⟨hi', hget⟩ := List.getElem?_eq_some_iff.mp hentry
    refine ⟨bdi, hbdi, ?_⟩
    rw [Nat.add_comm, List.drop_succ_cons, flatMap_drop, List.drop_eq_getElem_cons hi', hget,
      List.flatMap_cons, decode_codeBdinfo, hsame]

theorem told_snoc (es : List Event) (e : Event) : told (es ++ [e]) = e.tell (told es) :=
  List.foldl_append

def Packets (es : List Event) : Prop :=
  ∀ as listed nmbdiCnt reply bs, es = as ++ .boards listed nmbdiCnt reply :: bs →
    Shows (told as) listed nmbdiCnt reply

theorem packets_snoc (h : Packets es) {e : Event} (he : ∀ listed nmbdiCnt reply,
    e = .boards listed nmbdiCnt reply → Shows (told es) listed nmbdiCnt reply) :
    Packets (es ++ [e]) := by
  intro as listed nmbdiCnt reply bs heq
  rcases output_snoc heq with ⟨rfl, hlast⟩ | ⟨bs', hes⟩
  · exact he listed nmbdiCnt reply hlast.symm
  · exact h as listed nmbdiCnt reply bs' hes

theorem step_packets (h : Mirrors ss (told es)) (hpackets : Packets es) {act : Act}
    (hfits : Fits (ss, es) act) {ss' : NmserverSvr} {e : Event} (hstep : step ss act = some (ss', e)) :
    Packets (es ++ [e]) := by
  refine packets_snoc hpackets fun listed nmbdiCnt reply he => ?_
  subst he
  cases act with
  | getBoards =>
      obtain ⟨reply', hpkt, he⟩ := Option.map_eq_some_iff.mp hstep
      cases he
      exact getBoards_shows h hfits.2 hpkt
  | report allocs memory tvSec peer module cmd data =>
      obtain ⟨ss1, -, he⟩ := Option.map_eq_some_iff.mp hstep
      have hsaid := congrArg Prod.snd he
      rw [said] at hsaid
      split at hsaid
      · cases hdata : nmGlbDecodeBdinfo data <;> rw [hdata] at hsaid <;> cases hsaid
      · cases hsaid
  | connect | disconnect | timerQuery | timeOut | sendCmd => cases hstep

/-- Whatever boards and timers do, the lists are in step, as long as who leaves has no commands
to be sent, there is memory, and boards are asked for after all have said what they are. -/
theorem lists_in_step (acts : List Act)
    (hproper : Guarded (logged step) (fun p => Proper p.1) (nmserverOpen, []) acts)
    (hfits : Guarded (logged step) Fits (nmserverOpen, []) acts) :
    ∃ ss es, run step nmserverOpen acts = some (ss, es) ∧ InStep ss es := by
  obtain ⟨ss, es, hrun, htracks, hqueued, hpackets⟩ := guarded_logged
    (R := fun ss es => Tracks ss (told es) ∧ Queued ss ∧ Packets es)
    (fun ss es act h hok => by
      obtain ⟨htracks, hqueued, hpackets⟩ := h
      obtain ⟨ss', e, hstep, hnext⟩ := step_tracks htracks hok.1 hok.2.1
      exact ⟨ss', e, hstep, told_snoc es e ▸ hnext,
        step_queued htracks.mirrors hqueued hok.1 hok.2 hstep,
        step_packets htracks.mirrors hpackets hok.2 hstep⟩)
    ⟨tracks_open, fun _ h => absurd h List.not_mem_nil,
      fun as _ _ _ bs h => by cases as <;> cases h⟩ (guarded_and hproper hfits)
  have h := htracks.mirrors
  exact ⟨ss, es, hrun, h.apart, h.boards, h.cnt, hqueued, h.closed, hpackets⟩

def plenty : Allocs := ⟨true, true, true, true, fun _ => true⟩

def rack1 : Peer := ⟨"192.168.10.3", 3001⟩

def visit : List Act :=
  [.connect true (some ⟨0, 0, 0, 0, 0, 0, 0⟩) 1000 rack1,
    .report plenty none 1001 rack1 nmModuleGlbInfo nmCmdGetBoardInfo [1, 1, 3, 0, 0, 0, 0, 8, 33, 1],
    .getBoards, .timerQuery fun _ => true, .timeOut fun _ => 1017, .disconnect rack1]

theorem visit_in_step : ∃ ss es, run step nmserverOpen visit = some (ss, es) ∧ InStep ss es := by
  refine lists_in_step visit ?_ ?_
  · refine guarded_cons trivial rfl (guarded_cons ?_ rfl (guarded_cons trivial rfl
      (guarded_cons trivial rfl (guarded_cons trivial rfl (guarded_cons trivial rfl trivial)))))
    exact Nat.le_refl 10
  · refine guarded_cons ⟨Or.inr rfl, trivial⟩ rfl (guarded_cons ⟨fun _ _ _ _ _ _ => rfl, trivial⟩
      rfl (guarded_cons ⟨trivial, ?_⟩ rfl (guarded_cons ⟨trivial, trivial⟩ rfl
        (guarded_cons ⟨trivial, trivial⟩ rfl (guarded_cons ⟨trivial, ?_⟩ rfl trivial)))))
    · decide
    · decide

/-- A command for a board stays when the board disconnects. -/
theorem command_stays :
    ¬ ∀ acts, Guarded (logged step) (fun p => Proper p.1) (nmserverOpen, []) acts →
      ∃ ss es, run step nmserverOpen acts = some (ss, es) ∧ InStep ss es := by
  intro h
  obtain ⟨ss, es, hrun, hstep⟩ := h
    [.connect true (some ⟨0, 0, 0, 0, 0, 0, 0⟩) 1000 rack1, .timerQuery fun _ => true,
      .disconnect rack1]
    (guarded_cons trivial rfl (guarded_cons trivial rfl (guarded_cons trivial rfl trivial)))
  cases hrun
  exact absurd (hstep.cmds ⟨rack1⟩ (by decide)) (by decide)

end OiAmc.NmLists

namespace OiAmc.NmQuery

open KeyedList NmGlb NmComponent NmServer NmLists PartialMachine

def payload (lki : NmLkaddrInfo) (id type : UInt8) : Query → List UInt8
  | .fpga _ => NmLkaddrInfo.octets lki ++ [id, type]
  | .e1phy | .fpgaInfo | .switch => NmLkaddrInfo.octets lki

/-- What a query is for, who asks for memory, and what its memory happens to hold: the buffers
for ip and port, and the octets behind its payload. -/
structure Asked where
  query : Query
  lki : NmLkaddrInfo
  id : UInt8
  type : UInt8
  alloc : Bool
  buffers : Peer
  beyond : List UInt8

def Asked.data (q : Asked) : List UInt8 := payload q.lki q.id q.type q.query ++ q.beyond

def reply (ptrsize : Nat) (ss : NmserverSvr) (q : Asked) : Option (Option NmData) :=
  nmclientRprocess ptrsize q.buffers q.alloc ss q.query q.data

/-- The reply is from the data of a client whose board said last that it has the address, and
about the id and the type of the query. Without such a board there is no data, and no reply. -/
def Routed (ptrsize : Nat) (ss : NmserverSvr) (told : Peer → Option NmboardInfo) (q : Asked) :
    Prop :=
  (∃ client ∈ ss.schd.head, ∃ bdi, told client.peer = some bdi ∧ bdi.lki = q.lki ∧
    nmclientRprocGetCompHdl q.buffers ss q.lki = client.component ∧
    reply ptrsize ss q = match client.component with
      | some component => getPkt q.alloc component q.lki (q.query.kind q.id q.type)
      | none => some none) ∨
  (∀ peer ∈ peers ss, ∀ bdi, told peer = some bdi → bdi.lki ≠ q.lki) ∧
    nmclientRprocGetCompHdl q.buffers ss q.lki = none ∧ reply ptrsize ss q = some none

/-- The id and the type are where they are looked for, and the first board with the address has
said that it has it. Without such a board the buffers name no client. -/
def Fits (ptrsize : Nat) (ss : NmserverSvr) (told : Peer → Option NmboardInfo) (q : Asked) :
    Prop :=
  (∀ flag, q.query = .fpga flag →
    q.data[ptrsize]? = some q.id ∧ q.data[ptrsize + 1]? = some q.type) ∧
  match nmsGlbFindEntryBylki ss.glb q.lki with
  | some entry => (told entry.peer).isSome
  | none => q.buffers ∉ peers ss

variable {ptrsize : Nat} {ss : NmserverSvr} {dir : Peer → Option NmboardInfo} {q : Asked}

theorem decode_data (q : Asked) : nmGlbDecodeLkaddrInfo q.data = some q.lki := by
  obtain ⟨query, lki, id, type, alloc, buffers, beyond⟩ := q
  cases query <;> rfl

theorem reply_eq (hidType : ∀ flag, q.query = .fpga flag →
      q.data[ptrsize]? = some q.id ∧ q.data[ptrsize + 1]? = some q.type) :
    reply ptrsize ss q = match nmclientRprocGetCompHdl q.buffers ss q.lki with
      | some component => getPkt q.alloc component q.lki (q.query.kind q.id q.type)
      | none => some none := by
  rw [reply, nmclientRprocess, decode_data]
  cases hquery : q.query with
  | e1phy | fpgaInfo | switch => rfl
  | fpga flag =>
      obtain ⟨hid, htype⟩ := hidType flag hquery
      rw [Query.idType, hid, htype]
      rfl

theorem routed (h : Mirrors ss dir) (hfits : Fits ptrsize ss dir q) : Routed ptrsize ss dir q := by
  obtain ⟨hidType, hfind⟩ := hfits
  have hreply : reply ptrsize ss q = _ := reply_eq hidType
  cases hentry : nmsGlbFindEntryBylki ss.glb q.lki with
  | some entry =>
      rw [hentry] at hfind
      obtain ⟨hmem, hlki⟩ := lookup_some hentry
      obtain ⟨bdi, hbdi⟩ := Option.isSome_iff_exists.mp hfind
      have hp : entry.peer ∈ peers ss := h.boards.mem_iff.mp (List.mem_map_of_mem hmem)
      have hsame : entry = ⟨entry.peer, bdi⟩ :=
        List.inj_on_of_nodup_map h.boards_apart hmem (h.told _ hp bdi hbdi) rfl
      obtain ⟨client, hclient, hpeer⟩ := List.mem_map.mp hp
      have hget : nmclientGetNode ss.schd entry.peer = some client :=
        hpeer ▸ lookup_eq h.apart hclient
      have hhdl : nmclientRprocGetCompHdl q.buffers ss q.lki = client.component := by
        rw [nmclientRprocGetCompHdl, nmsGlbGetIpPort, hentry]
        exact congrArg (·.bind Nmclient.component) hget
      rw [hhdl] at hreply
      exact Or.inl ⟨client, hclient, bdi, hpeer ▸ hbdi, by rw [← hlki, hsame], hhdl, hreply⟩
  | none =>
      rw [hentry] at hfind
      have hnone : nmclientGetNode ss.schd q.buffers = none := getNode_none_iff.mpr hfind
      have hhdl : nmclientRprocGetCompHdl q.buffers ss q.lki = none := by
        rw [nmclientRprocGetCompHdl, nmsGlbGetIpPort, hentry]
        exact congrArg (·.bind Nmclient.component) hnone
      rw [hhdl] at hreply
      refine Or.inr ⟨fun peer hp bdi hbdi hlki => ?_, hhdl, hreply⟩
      exact lookup_none_iff.mp hentry (List.mem_map.mpr ⟨_, h.told peer hp bdi hbdi, hlki⟩)

/-- Whatever boards and timers did, a query that fits is routed to a board with its address. -/
theorem queries_routed (acts : List Act) (hproper : Guarded step Proper nmserverOpen acts)
    (hallocs : Guarded step Allocated nmserverOpen acts) :
    ∃ ss es, run step nmserverOpen acts = some (ss, es) ∧ ∀ ptrsize q,
      Fits ptrsize ss (told es) q → Routed ptrsize ss (told es) q := by
  obtain ⟨ss, es, hrun, htracks⟩ := guarded_log
    (R := fun ss es => Tracks ss (told es))
    (fun ss es act h hok => by
      obtain ⟨ss', e, hstep, hnext⟩ := step_tracks h hok.1 hok.2
      exact ⟨ss', e, hstep, told_snoc es e ▸ hnext⟩)
    tracks_open (guarded_and hproper hallocs)
  exact ⟨ss, es, hrun, fun ptrsize q hfits => routed htracks.mirrors hfits⟩

def fpgaBoard : List Act :=
  [.connect true (some ⟨0, 0, 0, 0, 0, 0, 0⟩) 1000 rack1,
    .report plenty none 1001 rack1 nmModuleGlbInfo nmCmdGetBoardInfo [1, 1, 3, 0, 0, 0, 0, 8, 33, 1],
    .report plenty none 1002 rack1 nmModuleFpga nmCmdGetFpgaInfo [1, 5, 6]]

theorem fpgaBoard_proper : Guarded step Proper nmserverOpen fpgaBoard := by
  exact guarded_cons trivial rfl (guarded_cons (by decide) rfl (guarded_cons (by decide) rfl trivial))

def fpgaStatus (beyond : List UInt8) : Asked :=
  ⟨.fpga .status, ⟨1, 1, 3, 0⟩, 5, 6, true, ⟨"", 0⟩, beyond⟩

theorem fpgaBoard_routed :
    ∃ ss es, run step nmserverOpen fpgaBoard = some (ss, es) ∧ ∀ ptrsize q,
      Fits ptrsize ss (told es) q → Routed ptrsize ss (told es) q := by
  refine queries_routed fpgaBoard fpgaBoard_proper ?_
  exact guarded_cons (Or.inr rfl) rfl (guarded_cons (fun _ _ _ _ _ _ => rfl) rfl
    (guarded_cons (fun _ _ _ _ _ _ => rfl) rfl trivial))

/-- Where addresses have eight octets, the id and the type are looked for behind the payload. -/
theorem idType_beyond :
    ¬ ∀ acts, Guarded step Proper nmserverOpen acts →
      ∃ ss es, run step nmserverOpen acts = some (ss, es) ∧
        ∀ ptrsize q, Routed ptrsize ss (told es) q := by
  intro h
  obtain ⟨ss, es, hrun, hrouted⟩ := h fpgaBoard fpgaBoard_proper
  cases hrun
  rcases hrouted 8 (fpgaStatus [0, 0, 0, 0]) with ⟨client, hclient, -, -, -, -, hreply⟩ | ⟨-, hnone, -⟩
  · obtain rfl := List.mem_singleton.mp hclient
    exact absurd hreply (by decide)
  · exact absurd hnone (by decide)

end OiAmc.NmQuery

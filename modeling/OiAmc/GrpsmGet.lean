import OiAmc.GrpsmPush

namespace OiAmc.GrpsmSearch

open GrpsmLinks

def channelOf (link : LinkInfo) : GroupChannel :=
  ⟨link.fiber, link.fiberRate, link.channel, link.channelRate⟩

/-- The distance is taken on a circle of 4096 or 32 frames, whatever the
range of the 16-bit numbers, so the second distance can be negative. -/
def grpsmNearMfi (blink link : LinkInfo) : Bool :=
  let threshold : Int := if blink.vcOrder = 1 then 10 else 5
  let mfidist : Int := if blink.vcOrder = 1 then 4096 else 32
  let b : Int := blink.mfi.toNat
  let l : Int := link.mfi.toNat
  let d1 := if l ≤ b then b - l else l - b
  let d2 := if l ≤ b then mfidist + l - b else mfidist + b - l
  let delta := if d1 < d2 then d1 else d2
  decide (delta ≤ threshold)

def firstEmptySq (sqlinks : Nat → List LinkPtr) : Nat :=
  ((List.range grpsmSqMax).find? fun i => (sqlinks i).isEmpty).getD grpsmSqMax

def lcasMatch (lmlink link : LinkInfo) : Bool :=
  (lmlink.preGid == link.preGid || lmlink.preGid == link.curGid ||
    lmlink.curGid == link.preGid || lmlink.curGid == link.curGid) && lmlink.mfi == link.mfi

def lcasChannels (svc : GrpsmSvc) (lmlink : LinkInfo) : Nat → List GroupChannel →
    Option (List GroupChannel)
  | 0, chs => some chs
  | j + 1, chs =>
      match (svc.sqlinks j).find? fun p => lcasMatch lmlink p.link with
      | some p => lcasChannels svc lmlink j (channelOf p.link :: chs)
      | none => none

def grpsmGetLcasFromSvc (svc : GrpsmSvc) : List GroupCfg :=
  let lmlinks := (List.range (firstEmptySq svc.sqlinks)).reverse.flatMap fun i =>
    (svc.sqlinks i).filter fun p => p.link.isLastMember ≠ 0
  lmlinks.filterMap fun p =>
    (lcasChannels svc p.link p.link.sq.toNat [channelOf p.link]).map fun chs => ⟨chs, 0⟩

def grpsmGetLcas (ctl : GrpsmCtl) : List GroupCfg :=
  ctl.fibers.flatMap fun f => f.lcas.flatMap grpsmGetLcasFromSvc

/-- The candidate lists below a base link, from its SQ down to 0; none when a
level has no candidate. -/
def grpsmInitSqlinks (svc : GrpsmSvc) (blink : LinkInfo) : Nat → List (List LinkPtr) →
    Option (List (List LinkPtr))
  | 0, cands => some cands
  | i + 1, cands =>
      let near := (svc.sqlinks i).filter fun p => grpsmNearMfi blink p.link
      if near = [] then none else grpsmInitSqlinks svc blink i (near :: cands)

def intMax : Nat := 2147483647

/-- The number of groups is an int product that must not overflow. -/
def numGroups (cands : List (List LinkPtr)) : Option Nat :=
  cands.foldlM (fun n c => if intMax < n * c.length then none else some (n * c.length)) 1

abbrev ChannelTable := Nat → Nat → GroupChannel

def setChannel (t : ChannelTable) (g i : Nat) (ch : GroupChannel) : ChannelTable :=
  fun g' i' => if g' = g ∧ i' = i then ch else t g' i'

/-- The three inner loops of one level: candidate k goes to every group whose
index has k as its digit of weight cm. -/
def fillLevel (times cm i : Nat) (links : List LinkPtr) (t : ChannelTable) : ChannelTable :=
  (List.range times).foldl (fun t j =>
    links.zipIdx.foldl (fun t pk =>
      (List.range cm).foldl (fun t l =>
        setChannel t ((j * links.length + pk.2) * cm + l) i (channelOf pk.1.link)) t) t) t

def fillLevels (total : Nat) : Nat → Nat → List (List LinkPtr) → ChannelTable → ChannelTable
  | _, _, [], t => t
  | i, cm, links :: rest, t =>
      let num := links.length
      fillLevels total (i + 1) (cm * num) rest (fillLevel (total / (cm * num)) cm i links t)

/-- No outcome when the number of groups overflows, or is 0 and then divided
by. -/
def grpsmCfgFromSqlinks (cands : List (List LinkPtr)) : Option (List GroupCfg) :=
  (numGroups cands).bind fun total =>
    if total = 0 then none
    else
      let t := fillLevels total 0 1 cands fun _ _ => ⟨0, 0, 0, 0⟩
      some ((List.range total).map fun g => ⟨(List.range cands.length).map (t g), 0⟩)

def blinkGroups (svc : GrpsmSvc) (sq : Nat) (p : LinkPtr) : Option (List GroupCfg) :=
  match grpsmInitSqlinks svc p.link sq [[p]] with
  | none => some []
  | some cands => grpsmCfgFromSqlinks cands

def grpsmGetVcsFromSvcSq (svc : GrpsmSvc) (sq : Nat) : Option (List GroupCfg) :=
  if sq = 0 then some ((svc.sqlinks 0).map fun p => ⟨[channelOf p.link], 0⟩)
  else ((svc.sqlinks sq).mapM (blinkGroups svc sq)).map List.flatten

/-- The level a full round searches: none when the bundle is finished with
this round. The level variables are unsigned chars. -/
def realSq (svc : GrpsmSvc) : Option Nat :=
  let top := firstEmptySq svc.sqlinks
  let sqMax := (top - 1) % 256
  let sqStart := if svc.sqStatus = .got then (svc.sqPre + 1) % 256 else 0
  if top = 0 then none
  else if svc.sqStatus = .got ∧ sqMax ≤ svc.sqPre then none
  else if sqStart = sqMax then some sqStart
  else some (((List.range' sqStart (sqMax - sqStart)).find? fun i =>
    decide ((svc.sqlinks (i + 1)).length < (svc.sqlinks i).length)).getD sqMax)

def grpsmGetVcsFromSvc (vcPartial : Bool) (svc : GrpsmSvc) : Option (GrpsmSvc × List GroupCfg) :=
  if svc.sqStatus = .finished then some (svc, [])
  else match if vcPartial then some svc.sqPre else realSq svc with
    | none => some ({ svc with sqStatus := .finished }, [])
    | some sq => (grpsmGetVcsFromSvcSq svc sq).map fun cfg =>
        ({ svc with sqPre := sq,
                    sqStatus := if svc.sqStatus = .default then .got else svc.sqStatus }, cfg)

end OiAmc.GrpsmSearch

namespace OiAmc.GrpsmGet

open GrpsmLinks GrpsmSearch

def isOlink (fiber : UInt8) (channel : GroupChannel) (p : LinkPtr) : Bool :=
  fiber == channel.fiber && p.link.channel == channel.channel

def grpsmRemoveOlinkFromSvc (fiber : UInt8) (svc : GrpsmSvc) (channel : GroupChannel) : GrpsmSvc :=
  match (List.range grpsmSqMax).find? fun i => (svc.sqlinks i).any (isOlink fiber channel) with
  | some i =>
      let rest := (svc.sqlinks i).eraseP (isOlink fiber channel)
      { svc with sqlinks := Function.update svc.sqlinks i rest }
  | none => svc

def grpsmRemoveOlinksFromSvc (fiber : UInt8) (groupcfg : List GroupCfg) (svc : GrpsmSvc) :
    GrpsmSvc :=
  groupcfg.foldl (fun svc cfg =>
    if cfg.result = 0 then svc else cfg.chs.foldl (grpsmRemoveOlinkFromSvc fiber) svc) svc

def filterFiber (groupcfg : List GroupCfg) (f : GrpsmFiber) : GrpsmFiber :=
  { f with vcs := f.vcs.map (grpsmRemoveOlinksFromSvc f.fiber groupcfg) }

def searchFiber (vcPartial : Bool) (f : GrpsmFiber) : Option (GrpsmFiber × List GroupCfg) :=
  (f.vcs.mapM (grpsmGetVcsFromSvc vcPartial)).map fun rs =>
    ({ f with vcs := rs.map Prod.fst }, (rs.map Prod.snd).flatten)

def grpsmGetVc (ctl : GrpsmCtl) (preGroupcfg : List GroupCfg) :
    Option (GrpsmCtl × List GroupCfg) :=
  ((ctl.fibers.map (filterFiber preGroupcfg)).mapM (searchFiber ctl.vcPartial)).map fun rs =>
    ({ ctl with fibers := rs.map Prod.fst }, (rs.map Prod.snd).flatten)

/-- The bytes that the blocks handed out by malloc hold before they are written:
those of a channel array, and that of a group's result. -/
structure Fresh where
  chs : Nat → UInt8
  result : UInt8

def channelBytes (c : GroupChannel) : List UInt8 :=
  [c.fiber, c.fiberRate, c.channel.toUInt8, (c.channel >>> 8).toUInt8, c.channelRate, 0]

def channelAt (mem : Nat → UInt8) (i : Nat) : GroupChannel where
  fiber := mem (6 * i)
  fiberRate := mem (6 * i + 1)
  channel := (mem (6 * i + 2)).toUInt16 ||| ((mem (6 * i + 3)).toUInt16 <<< 8)
  channelRate := mem (6 * i + 4)

/-- The copy of a group: an array for all its channels, into which the call of
memcpy moves num_chs bytes. -/
def copyCfg (fresh : Fresh) (cfg : GroupCfg) : GroupCfg where
  chs :=
    let bytes := cfg.chs.flatMap channelBytes
    let mem := fun b => if b < cfg.chs.length then bytes.getD b 0 else fresh.chs b
    (List.range cfg.chs.length).map (channelAt mem)
  result := fresh.result

/-- Neither loop advances its pointer, so both look at the first group in
every round. -/
def grpsmUpdateVgroups (fresh : Nat → Fresh) (ctl : GrpsmCtl) (groupcfg : List GroupCfg) :
    GrpsmCtl :=
  match groupcfg with
  | [] => ctl
  | cfg :: _ =>
      let num := (List.range groupcfg.length).countP fun _ => cfg.result ≠ 0
      if num = 0 then ctl
      else (List.range groupcfg.length).foldl (fun ctl i =>
        if cfg.result ≠ 0 then { ctl with vgroups := ctl.vgroups ++ [copyCfg (fresh i) cfg] }
        else ctl) ctl

/-- The arguments of a grpsm_get call: pre_groupcfg with its num_pregroups
groups (none for NULL) and num_trygroups; and what malloc hands out in it. -/
structure GetCall where
  preGroupcfg : Option (List GroupCfg)
  numTrygroups : Int
  fresh : Nat → Fresh

def GetCall.pre (call : GetCall) : List GroupCfg := call.preGroupcfg.getD []

/-- The filter loops go over num_trygroups groups, however many there are. -/
def GetCall.readsOutside (call : GetCall) (ctl : GrpsmCtl) : Prop :=
  (call.pre.length : Int) < call.numTrygroups ∧ ∃ f ∈ ctl.fibers, f.vcs ≠ []

instance (call : GetCall) (ctl : GrpsmCtl) : Decidable (call.readsOutside ctl) :=
  inferInstanceAs (Decidable (_ ∧ _))

/-- The handle after the call and the groups returned, whose number is the
return code. -/
def grpsmGet (ctl : GrpsmCtl) (call : GetCall) : Option (GrpsmCtl × List GroupCfg) :=
  let lcas := if call.preGroupcfg.isNone then grpsmGetLcas ctl else []
  if lcas ≠ [] then some (ctl, lcas)
  else
    let ctl := grpsmUpdateVgroups call.fresh ctl call.pre
    if ctl.lcasGot = false then grpsmGetVc { ctl with lcasGot := true, vcPartial := false } []
    else if call.readsOutside ctl then none
    else grpsmGetVc { ctl with vcPartial := decide (call.numTrygroups < call.pre.length) }
      (call.pre.take call.numTrygroups.toNat)

def grpsmStat (ctl : GrpsmCtl) : List GroupStat :=
  ctl.links.map fun link => match isLinkInGroup link ctl.vgroups with
    | some index => ⟨link, true, index + 1⟩
    | none => ⟨link, false, 0⟩

end OiAmc.GrpsmGet

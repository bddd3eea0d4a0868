import OiAmc.LockedCode

namespace OiAmc.Fpgamif

open LockedCode Code

inductive Reg
  | ver | dar (i : Nat)
  | dsr | bcr | brr
  | sel
  | chTransfer1 | chTransfer0 | chTransferDin | chTransferEn
  | cfgSelRw | cfgInfoSel | cfgInfoData (i : Nat) | cfgInfoDataR (i : Nat) | cfgInfoRwEn
  | portTypeSel | sdhPhyInfo | sigTypeSel | cntChScan (i : Nat) | cntFr (i : Nat)
  | clearIndexH | clearIndexL | clearIndexEn
  | cicr0 | cicr1 | csr | cer
  | resetPointer
  | slientVal | slientSel | slientEn | slientRw | slientRvalue
  | chanEn | chanSelH | chanSelL | chanType | chanPort | chanE1 | chanTs
  | mifE1Num | e1Valid | portSel
  deriving DecidableEq

inductive Access
  | read (reg : Reg)
  | write (reg : Reg) (val : UInt8)
  deriving DecidableEq

/-- The accesses to the registers, the last one first. What a read gives may depend on all. -/
structure Bus where
  answers : List Access → UInt8
  log : List Access

instance : Inhabited Bus := ⟨⟨fun _ => 0, []⟩⟩

def Bus.access (bus : Bus) (a : Access) : Bus := { bus with log := a :: bus.log }

inductive Lock
  | oicdev
  deriving DecidableEq

/-- Code that works on the registers and on what a pointer of its caller leads to. -/
abbrev Fn (μ : Type) := Code Lock (Bus × μ)

/-- A pointer into the memory of the caller. -/
structure Pointer (μ τ : Type) where
  get : μ → τ
  set : (τ → τ) → μ → μ

def Pointer.whole (τ : Type) : Pointer τ τ := ⟨id, id⟩

variable {μ τ : Type}

def readReg (reg : Reg) (next : UInt8 → Fn μ) : Fn μ :=
  step (fun m => (m.1.access (.read reg), m.2)) fun m => next (m.1.answers m.1.log)

def writeReg (reg : Reg) (val : UInt8) (next : Fn μ) : Fn μ :=
  step (fun m => (m.1.access (.write reg val), m.2)) fun _ => next

/-- The register is written and read. When it is not what it should be it is read again for the
message, and the function that is at work returns. -/
def bdregchk (reg : Reg) (val : UInt32) (next : Fn μ) : Fn μ :=
  writeReg reg val.toUInt8 <| readReg reg fun x =>
  check (x.toUInt32 == val) (readReg reg fun _ => ret (-1)) next

def load (p : Pointer μ τ) (next : τ → Fn μ) : Fn μ := step id fun m => next (p.get m.2)

def store (p : Pointer μ τ) (f : τ → τ) (next : Fn μ) : Fn μ :=
  step (fun m => (m.1, p.set f m.2)) fun _ => next

def readMode : UInt32 := 0x01
def writeMode : UInt32 := 0x00
def fpgaCfgSelSrcMac0 : UInt32 := 0x00
def fpgaCfgSelSrcMac1 : UInt32 := 0x01
def fpgaCfgSelSrcIp : UInt32 := 0x02
def fpgaCfgSelDstIp : UInt32 := 0x03
def fpgaCfgSelSrcPort : UInt32 := 0x04
def fpgaCfgSelDstPort1 : UInt32 := 0x05
def fpgaCfgSelDstPort2 : UInt32 := 0x06
def fpgaCfgSelDevId : UInt32 := 0x07
def vocSilentpMin0 : UInt32 := 0x0a
def vocSilentpMax0 : UInt32 := 0x0b
def vocSilentpMin1 : UInt32 := 0x0c
def vocSilentpMax1 : UInt32 := 0x0d
def cicIndexMaxL : UInt32 := 0x14
def cicIndexMaxH : UInt32 := 0x15
def fpgadrvOiamcPortMax : Nat := 4
def fpgadrvOiamcE1Max : Nat := 63
def fpgadrvOiamcChanAll : Nat := 1024
def getHdlcByPort : Int := 1
def getHdlcAll : Int := 2

structure Verinfo where
  ver : UInt8
  date : UInt32
  deriving Inhabited

def join4 (a b c d : UInt8) : UInt32 :=
  a.toUInt32 <<< 24 ||| b.toUInt32 <<< 16 ||| c.toUInt32 <<< 8 ||| d.toUInt32

def getBdInfo (ver : Pointer μ Verinfo) : Fn μ :=
  lock .oicdev <|
  readReg .ver fun v => store ver ({ · with ver := v }) <|
  readReg (.dar 0) fun a => readReg (.dar 1) fun b => readReg (.dar 2) fun c => readReg (.dar 3) fun d =>
  store ver ({ · with date := join4 a b c d }) <|
  unlock .oicdev <|
  ret 0

def waitStarted : Nat → Fn μ → Fn μ
  | 0, next => readReg .dsr fun dsr => if dsr = 0x01 then next else unlock .oicdev <| ret (-1)
  | left + 1, next => readReg .dsr fun dsr => if dsr = 0x01 then next else waitStarted left next

def setBdStart : Fn μ :=
  lock .oicdev <|
  bdregchk .brr 0x00 <|
  bdregchk .brr 0x01 <|
  waitStarted 9 <|
  bdregchk .bcr 0x01 <|
  unlock .oicdev <|
  ret 0

def fpgamifSetSel (sel : UInt32) : Fn μ :=
  lock .oicdev <|
  bdregchk .sel (sel &&& 0xff) <|
  unlock .oicdev <|
  ret 0

def fpgamifGetSel (sel : Pointer μ UInt32) : Fn μ :=
  lock .oicdev <|
  readReg .sel fun x => store sel (fun _ => x.toUInt32) <|
  unlock .oicdev <|
  ret 0

structure SrcMac where
  mac0 : UInt8
  mac1 : UInt8
  mac2 : UInt8
  mac3 : UInt8
  mac4 : UInt8
  mac5 : UInt8
  deriving Inhabited

/-- A value is passed on by writing 0 and 1. -/
def cfgEnable (next : Fn μ) : Fn μ := bdregchk .cfgInfoRwEn 0x00 <| bdregchk .cfgInfoRwEn 0x01 next

def cfgData (i : Nat) (val : UInt8) (next : Fn μ) : Fn μ := bdregchk (.cfgInfoData i) val.toUInt32 next

def fpgamifSetSmac (smac : SrcMac) : Fn μ :=
  lock .oicdev <|
  bdregchk .cfgSelRw writeMode <|
  bdregchk .cfgInfoSel fpgaCfgSelSrcMac0 <|
  cfgData 3 smac.mac0 <| cfgData 2 smac.mac1 <| cfgData 1 smac.mac2 <| cfgData 0 smac.mac3 <|
  cfgEnable <|
  bdregchk .cfgInfoSel fpgaCfgSelSrcMac1 <|
  cfgData 3 smac.mac4 <| cfgData 2 smac.mac5 <| cfgData 1 0x00 <| cfgData 0 0x00 <|
  cfgEnable <|
  unlock .oicdev <|
  ret 0

def fpgamifGetSmac (smac : Pointer μ SrcMac) : Fn μ :=
  lock .oicdev <|
  bdregchk .cfgSelRw readMode <|
  bdregchk .cfgInfoSel fpgaCfgSelSrcMac0 <|
  cfgEnable <|
  readReg (.cfgInfoDataR 3) fun x => store smac ({ · with mac0 := x }) <|
  readReg (.cfgInfoDataR 2) fun x => store smac ({ · with mac1 := x }) <|
  readReg (.cfgInfoDataR 1) fun x => store smac ({ · with mac2 := x }) <|
  readReg (.cfgInfoDataR 0) fun x => store smac ({ · with mac3 := x }) <|
  bdregchk .cfgInfoSel fpgaCfgSelSrcMac1 <|
  cfgEnable <|
  readReg (.cfgInfoDataR 3) fun x => store smac ({ · with mac4 := x }) <|
  readReg (.cfgInfoDataR 2) fun x => store smac ({ · with mac5 := x }) <|
  unlock .oicdev <|
  ret 0

structure Ip where
  ip3 : UInt8
  ip2 : UInt8
  ip1 : UInt8
  ip0 : UInt8
  deriving Inhabited

def setIp (sel : UInt32) (ip : Ip) : Fn μ :=
  lock .oicdev <|
  bdregchk .cfgSelRw writeMode <|
  bdregchk .cfgInfoSel sel <|
  cfgData 3 ip.ip0 <| cfgData 2 ip.ip1 <| cfgData 1 ip.ip2 <| cfgData 0 ip.ip3 <|
  cfgEnable <|
  unlock .oicdev <|
  ret 0

def getIp (sel : UInt32) (ip : Pointer μ Ip) : Fn μ :=
  lock .oicdev <|
  bdregchk .cfgSelRw readMode <|
  bdregchk .cfgInfoSel sel <|
  cfgEnable <|
  readReg (.cfgInfoDataR 3) fun x => store ip ({ · with ip0 := x }) <|
  readReg (.cfgInfoDataR 2) fun x => store ip ({ · with ip1 := x }) <|
  readReg (.cfgInfoDataR 1) fun x => store ip ({ · with ip2 := x }) <|
  readReg (.cfgInfoDataR 0) fun x => store ip ({ · with ip3 := x }) <|
  unlock .oicdev <|
  ret 0

def fpgamifSetSip (sip : Ip) : Fn μ := setIp fpgaCfgSelSrcIp sip

def fpgamifGetSip (sip : Pointer μ Ip) : Fn μ := getIp fpgaCfgSelSrcIp sip

def fpgamifSetDip (dip : Ip) : Fn μ := setIp fpgaCfgSelDstIp dip

def fpgamifGetDip (dip : Pointer μ Ip) : Fn μ := getIp fpgaCfgSelDstIp dip

structure Port where
  portH : UInt8
  portL : UInt8
  deriving Inhabited

def setPort (sel : UInt32) (port : Port) : Fn μ :=
  lock .oicdev <|
  bdregchk .cfgSelRw writeMode <|
  bdregchk .cfgInfoSel sel <|
  cfgData 3 port.portH <| cfgData 2 port.portL <|
  cfgEnable <|
  unlock .oicdev <|
  ret 0

def getPort (sel : UInt32) (port : Pointer μ Port) : Fn μ :=
  lock .oicdev <|
  bdregchk .cfgSelRw readMode <|
  bdregchk .cfgInfoSel sel <|
  cfgEnable <|
  readReg (.cfgInfoDataR 3) fun x => store port ({ · with portH := x }) <|
  readReg (.cfgInfoDataR 2) fun x => store port ({ · with portL := x }) <|
  unlock .oicdev <|
  ret 0

def fpgamifSetSport (sport : Port) : Fn μ := setPort fpgaCfgSelSrcPort sport

def fpgamifGetSport (sport : Pointer μ Port) : Fn μ := getPort fpgaCfgSelSrcPort sport

def fpgamifSetDport1 (dport1 : Port) : Fn μ := setPort fpgaCfgSelDstPort1 dport1

def fpgamifGetDport1 (dport1 : Pointer μ Port) : Fn μ := getPort fpgaCfgSelDstPort1 dport1

def fpgamifSetDport2 (dport2 : Port) : Fn μ := setPort fpgaCfgSelDstPort2 dport2

def fpgamifGetDport2 (dport2 : Pointer μ Port) : Fn μ := getPort fpgaCfgSelDstPort2 dport2

def fpgamifSetDevId (devid : UInt32) : Fn μ :=
  lock .oicdev <|
  bdregchk .cfgSelRw writeMode <|
  bdregchk .cfgInfoSel fpgaCfgSelDevId <|
  bdregchk (.cfgInfoData 3) (devid &&& 0xff) <|
  cfgEnable <|
  unlock .oicdev <|
  ret 0

def fpgamifGetDevId (devid : Pointer μ UInt32) : Fn μ :=
  lock .oicdev <|
  bdregchk .cfgSelRw readMode <|
  bdregchk .cfgInfoSel fpgaCfgSelDevId <|
  cfgEnable <|
  readReg (.cfgInfoDataR 3) fun x => store devid (fun _ => x.toUInt32) <|
  unlock .oicdev <|
  ret 0

/-- A test of its own returns in the way of the macro. -/
def fpgamifSetFpgaClearIndex (index : UInt32) : Fn μ :=
  lock .oicdev <|
  readReg .clearIndexEn fun value =>
  check (0x80 == value &&& 0x80) (ret (-1)) <|
  bdregchk .clearIndexH (index >>> 8 &&& 0x3f) <|
  bdregchk .clearIndexL (index &&& 0xff) <|
  bdregchk .clearIndexEn 0x80 <|
  bdregchk .clearIndexEn 0x81 <|
  unlock .oicdev <|
  ret 0

structure FpgaSilence where
  smin0 : UInt8
  smax0 : UInt8
  smin1 : UInt8
  smax1 : UInt8
  deriving Inhabited

def slientWrite (sel : UInt32) (val : UInt8) (next : Fn μ) : Fn μ :=
  bdregchk .slientRw 0 <|
  bdregchk .slientVal val.toUInt32 <|
  bdregchk .slientSel sel <|
  bdregchk .slientEn 0x00 <|
  bdregchk .slientEn 0x01 next

def slientRead (sel : UInt32) (next : UInt8 → Fn μ) : Fn μ :=
  bdregchk .slientRw 1 <|
  bdregchk .slientSel sel <|
  bdregchk .slientEn 0x00 <|
  bdregchk .slientEn 0x01 <|
  readReg .slientRvalue next

def fpgamifSetFpgaSilence (sn : FpgaSilence) : Fn μ :=
  lock .oicdev <|
  slientWrite vocSilentpMin0 sn.smin0 <|
  slientWrite vocSilentpMax0 sn.smax0 <|
  slientWrite vocSilentpMin1 sn.smin1 <|
  slientWrite vocSilentpMax1 sn.smax1 <|
  unlock .oicdev <|
  ret 0

def fpgamifGetFpgaSilence (sn : Pointer μ FpgaSilence) : Fn μ :=
  lock .oicdev <|
  slientRead vocSilentpMin0 fun x => store sn ({ · with smin0 := x }) <|
  slientRead vocSilentpMax0 fun x => store sn ({ · with smax0 := x }) <|
  slientRead vocSilentpMin1 fun x => store sn ({ · with smin1 := x }) <|
  slientRead vocSilentpMax1 fun x => store sn ({ · with smax1 := x }) <|
  unlock .oicdev <|
  ret 0

def fpgamifSetFpgaIndexlimit (val : UInt32) : Fn μ :=
  lock .oicdev <|
  slientWrite cicIndexMaxL (val &&& 0xff).toUInt8 <|
  slientWrite cicIndexMaxH (val >>> 8 &&& 0x1f).toUInt8 <|
  unlock .oicdev <|
  ret 0

def fpgamifGetFpgaIndexlimit (indexlimit : Pointer μ UInt32) : Fn μ :=
  lock .oicdev <|
  slientRead cicIndexMaxL fun vaL =>
  slientRead cicIndexMaxH fun vaH =>
  store indexlimit (fun _ => vaH.toUInt32 <<< 8 ||| vaL.toUInt32) <|
  unlock .oicdev <|
  ret 0

def fpgamifSetFpgaRel (index : UInt32) : Fn μ :=
  lock .oicdev <|
  bdregchk .cicr0 (index >>> 8 &&& 0xff) <|
  bdregchk .cicr1 (index &&& 0xff) <|
  bdregchk .csr 0x00 <|
  bdregchk .cer 0x00 <|
  bdregchk .cer 0x01 <|
  unlock .oicdev <|
  ret 0

def fpgamifSetFpgaResetPointer : Fn μ :=
  lock .oicdev <|
  bdregchk .resetPointer 0 <|
  bdregchk .resetPointer 1 <|
  unlock .oicdev <|
  ret 0

def fpgamifSetFpgaScanClear (_mask : UInt8) : Fn μ := ret 0

def fpgamifSetFpgaTranEn (_en _revert : UInt8) : Fn μ := ret 0

def fpgamifSetFpgaAnm (_index : UInt32) : Fn μ := ret 0

structure E1Status where
  port : UInt32
  vaild : Nat → UInt32
  syncErr : Nat → UInt32
  deriving Inhabited

def e1Loop (e1S : Pointer μ E1Status) : List Nat → Fn μ → Fn μ
  | [], next => next
  | i :: is, next =>
      bdregchk .mifE1Num (UInt32.ofNat i) <|
      readReg .e1Valid fun x =>
      store e1S (fun s => { s with vaild := Function.update s.vaild i x.toUInt32 }) <|
      store e1S (fun s => { s with syncErr := Function.update s.syncErr i 0 }) <|
      e1Loop e1S is next

/-- The registers of the E1 are used without the lock. -/
def fpgamifGetE1Vaild (e1S : Pointer μ E1Status) : Fn μ :=
  load e1S fun s =>
  bdregchk .portSel s.port <|
  e1Loop e1S (List.range fpgadrvOiamcE1Max) <|
  ret 0

structure HdlcChannelStat where
  port : UInt8
  id : UInt16
  type : UInt8
  e1 : UInt8
  ts : UInt8
  okPkts : UInt32
  errPkts : UInt32
  deriving Inhabited

structure GetHdlcStatToFile where
  chVaild : UInt32
  chstat : Nat → HdlcChannelStat
  deriving Inhabited

/-- What is reported of a channel that is at a place of the array. -/
def hdlcStat (stat : Pointer μ (Nat → HdlcChannelStat)) (num : Nat) (next : Fn μ) : Fn μ :=
  let chanStat (f : HdlcChannelStat → HdlcChannelStat) := store stat fun s => Function.update s num (f (s num))
  readReg .chanTs fun x => chanStat ({ · with ts := x }) <|
  readReg .chanE1 fun x => chanStat ({ · with e1 := x }) <|
  readReg .chanPort fun x => chanStat ({ · with port := x }) <|
  readReg .chanType fun x => chanStat ({ · with type := x }) <|
  chanStat ({ · with id := UInt16.ofNat (num + 1) }) next

/-- A channel that is valid has a place, also when its port is not asked for. -/
def hdlcLoop (mode : Int) (port : UInt32) (stat : Pointer μ (Nat → HdlcChannelStat)) :
    List Nat → Nat → (Nat → Fn μ) → Fn μ
  | [], num, next => next num
  | i :: is, num, next =>
      bdregchk .chanSelH (UInt32.ofNat i >>> 8 &&& 0xff) <|
      bdregchk .chanSelL (UInt32.ofNat i &&& 0xff) <|
      bdregchk .chanEn 0 <|
      bdregchk .chanEn 1 <|
      readReg .chanTs fun tmpval =>
      if tmpval < 1 ∨ tmpval > 31 then hdlcLoop mode port stat is num next
      else if mode = getHdlcByPort then
        readReg .chanPort fun x =>
        if port ≠ x.toUInt32 then hdlcLoop mode port stat is (num + 1) next
        else hdlcStat stat num <| hdlcLoop mode port stat is (num + 1) next
      else hdlcStat stat num <| hdlcLoop mode port stat is (num + 1) next

def getHdlcInfo (mode : Int) (port : UInt32) (chanNum : Pointer μ UInt32)
    (stat : Pointer μ (Nat → HdlcChannelStat)) : Fn μ :=
  lock .oicdev <|
  hdlcLoop mode port stat (List.range fpgadrvOiamcChanAll) 0 fun num =>
  store chanNum (fun _ => UInt32.ofNat num) <|
  unlock .oicdev <|
  ret 0

def fpgamifGetAllHdlcChannelStat (stat : Pointer μ GetHdlcStatToFile) : Fn μ :=
  store stat (fun s => { s with
    chstat := fun i => if i < fpgadrvOiamcChanAll then ⟨0, 0, 0, 0, 0, 0, 0⟩ else s.chstat i }) <|
  call
    (getHdlcInfo getHdlcAll 0
      ⟨fun m => (stat.get m).chVaild, fun f => stat.set fun s => { s with chVaild := f s.chVaild }⟩
      ⟨fun m => (stat.get m).chstat, fun f => stat.set fun s => { s with chstat := f s.chstat }⟩) fun rc =>
  if rc ≠ 0 then ret (-1) else ret 0

structure ChanTranCfg where
  port : UInt8
  e1 : UInt8
  ts : UInt8
  en : UInt8

/-- The registers of the transfer are used without the lock. -/
def fpgamifSetFpgaChanTran (tran : ChanTranCfg) : Fn μ :=
  let port := tran.port.toUInt32.toInt32 - 1
  let e1 := tran.e1.toUInt32.toInt32 - 1
  let channel := port * 64 * 32 + e1 * 32 + tran.ts.toUInt32.toInt32
  bdregchk .chTransfer1 (channel >>> 8 &&& 0xff).toUInt32 <|
  bdregchk .chTransfer0 (channel &&& 0xff).toUInt32 <|
  bdregchk .chTransferDin tran.en.toUInt32 <|
  bdregchk .chTransferEn 0 <|
  bdregchk .chTransferEn 1 <|
  ret 0

structure SdhPhyStat where
  port : UInt8
  status : UInt8
  b1 : UInt16
  b2 : UInt16
  b3 : UInt16
  e1Cnt : UInt8
  phyType : UInt8
  chcnt64k : UInt16
  fmcnt64k : UInt32
  chcnt2m : UInt16
  fmcnt2m : UInt32
  deriving Inhabited

def readCounters (next : UInt16 → UInt32 → Fn μ) : Fn μ :=
  readReg (.cntChScan 1) fun a => readReg (.cntChScan 0) fun b =>
  readReg (.cntFr 3) fun c => readReg (.cntFr 2) fun d => readReg (.cntFr 1) fun e => readReg (.cntFr 0) fun f =>
  next (a.toUInt16 <<< 8 ||| b.toUInt16) (join4 c d e f)

def fpgamifGetOnePortPhyStatus (phyStat : Pointer μ SdhPhyStat) : Fn μ :=
  lock .oicdev <|
  load phyStat fun s =>
  bdregchk .portTypeSel ((s.port.toUInt32 &&& 0x0f) <<< 4) <|
  readReg .sdhPhyInfo fun x => readReg .sdhPhyInfo fun y =>
  store phyStat ({ · with status := (x &&& 0x80) >>> 7 ||| (y &&& 0x40) >>> 5 }) <|
  readReg .sdhPhyInfo fun x => store phyStat ({ · with e1Cnt := x &&& 0x3f }) <|
  store phyStat ({ · with b1 := 0, b2 := 0, b3 := 0, phyType := 1 }) <|
  bdregchk .sigTypeSel 0 <|
  readCounters fun chcnt fmcnt => store phyStat ({ · with chcnt64k := chcnt, fmcnt64k := fmcnt }) <|
  bdregchk .sigTypeSel 1 <|
  readCounters fun chcnt fmcnt => store phyStat ({ · with chcnt2m := chcnt, fmcnt2m := fmcnt }) <|
  unlock .oicdev <|
  ret 0

def element (phyStatus : Pointer μ (Nat → SdhPhyStat)) (i : Nat) : Pointer μ SdhPhyStat :=
  ⟨fun m => phyStatus.get m i, fun f => phyStatus.set fun s => Function.update s i (f (s i))⟩

def phyLoop (phyStatus : Pointer μ (Nat → SdhPhyStat)) : List Nat → Fn μ → Fn μ
  | [], next => next
  | i :: is, next =>
      store (element phyStatus i) ({ · with port := UInt8.ofNat i }) <|
      call (fpgamifGetOnePortPhyStatus (element phyStatus i)) fun _ =>
      phyLoop phyStatus is next

def fpgamifGetPhyStatus (phyStatus : Pointer μ (Nat → SdhPhyStat)) : Fn μ :=
  phyLoop phyStatus (List.range fpgadrvOiamcPortMax) <|
  ret 0

end OiAmc.Fpgamif

import OiAmc.MessageLayout

namespace OiAmc.Pktcmd

open MessageLayout

/-- The fields of the argument structures, a nested one under the names of both. -/
inductive Field
  | deviceSequenceNumber
  | deviceDescription
  | etherItfNumber
  | etherItfIP
  | etherItfNetmask
  | etherItfMacAddr
  | serverIPAddress
  | gatewayIPAddress
  | sysTimeSec
  | sysTimeUsec
  | ntpMode
  | ntpServerIPAddress
  | clkType
  | clkSrc
  | phyItfType
  | lineCode
  | gain
  | inputFrameFormat
  | inputImpedance
  | outputFrameFormat
  | outputImpedance
  | portID
  | ctrlConfigFileTotal
  | ctrlConfigFileNum
  | ctrlConfigFileFlag
  | ctrlConfigFileRe
  | ctrlConfigFileCrc
  | data
  | size
  | deviceID
  | packetSubType
  | deviceMode
  | dstPortID
  | dstTsID
  | srcStmID
  | srcTribID
  | srcTsID
  | srcPortID
  | scanInterval
  | scanType
  | scanNList
  | bertStatus
  | bertDir
  | bertTSList
  | bertPattern
  | bertInverted
  | bertErrorRate
  | bertErrors
  | stmID
  | statusReportInterval
  | statusReportCount
  | performanceTestType
  | channelID
  | deviceModel
  | deviceHWVersion
  | deviceSWVersion
  | deviceSerialNumber
  | inputPorts
  | outputPorts
  | sysInfoCPU
  | sysInfoMemory
  | sysInfoFilesystem
  | sysInfoProcess
  | sdhAlarmLine
  | sdhAlarmHP
  | sdhAlarmLP
  | sdhStatisticsRsBip
  | sdhStatisticsMsBip
  | sdhStatisticsMsRei
  | sdhStatisticsPje
  | sdhStatisticsNje
  | sdhStatisticsBip
  | sdhStatisticsRei
  | portAlarm
  | portStatisticsLcvc
  | portStatisticsPcvc
  | portStatisticsFosc
  | portStatisticsEbc
  | portStatisticsBertBbc
  | portStatisticsBertBec
  | performanceTestResult
  | channleType
  | channelPortID
  | channelTS
  | channelTSCount
  | channelTSList
  | channelAlarm
  | channelStatisticsRframes
  | channelStatisticsRbytes
  | channelStatisticsTframes
  | channelStatisticsTbytes
  | channelStatisticsRbufFullFrames
  | channelStatisticsRbufFullBytes
  | channelStatisticsLl
  | channelStatisticsFisu
  | channelStatisticsLssu
  | channelStatisticsMsu
  | channelStatisticsFsnHop
  | channelStatisticsFsnDup
  | channelStatisticsLg
  | channelStatisticsNo
  | channelStatisticsAb
  | channelStatisticsCr
  | cdrID
  | starttime
  | pktnum
  | cmdType
  | subchID
  | cmdtype
  | maxcdr
  | cdrStartTime
  | cdrtype
  | cdrflag
  | pktseqnum
  deriving DecidableEq

open Field in
def Field.type : Field → CType Field
  | deviceSequenceNumber | etherItfNumber | ntpMode | clkType | phyItfType | lineCode | gain |
    inputFrameFormat | inputImpedance | outputFrameFormat | outputImpedance |
    ctrlConfigFileTotal | ctrlConfigFileNum | ctrlConfigFileFlag | ctrlConfigFileRe |
    packetSubType | deviceMode | dstTsID | srcStmID | srcTribID | srcTsID | scanInterval |
    scanType | bertStatus | bertDir | bertTSList | bertPattern | bertInverted | bertErrorRate |
    stmID | performanceTestType | deviceModel | channleType | channelTS | channelTSCount |
    cmdType | cmdtype => .number 1
  | clkSrc | deviceID => .number 2
  | etherItfIP | etherItfNetmask | serverIPAddress | gatewayIPAddress | sysTimeSec | sysTimeUsec |
    ntpServerIPAddress | portID | ctrlConfigFileCrc | size | dstPortID | srcPortID | scanNList |
    bertErrors | statusReportInterval | statusReportCount | channelID | inputPorts | outputPorts |
    sysInfoCPU | sysInfoMemory | sysInfoFilesystem | sysInfoProcess | sdhAlarmLine | sdhAlarmHP |
    sdhAlarmLP | sdhStatisticsRsBip | sdhStatisticsMsBip | sdhStatisticsMsRei | sdhStatisticsPje |
    sdhStatisticsNje | sdhStatisticsBip | sdhStatisticsRei | portAlarm | portStatisticsLcvc |
    portStatisticsPcvc | portStatisticsFosc | portStatisticsEbc | portStatisticsBertBbc |
    portStatisticsBertBec | performanceTestResult | channelPortID | channelTSList | channelAlarm |
    channelStatisticsRframes | channelStatisticsRbytes | channelStatisticsTframes |
    channelStatisticsTbytes | channelStatisticsRbufFullFrames | channelStatisticsRbufFullBytes |
    channelStatisticsLl | channelStatisticsFisu | channelStatisticsLssu | channelStatisticsMsu |
    channelStatisticsFsnHop | channelStatisticsFsnDup | channelStatisticsLg |
    channelStatisticsNo | channelStatisticsAb | channelStatisticsCr | cdrID | starttime | pktnum |
    subchID | maxcdr | cdrStartTime | cdrtype | cdrflag | pktseqnum => .number 4
  | deviceDescription => .string 128
  | etherItfMacAddr => .octets 6
  | data => .buffer size
  | deviceHWVersion => .string 8
  | deviceSWVersion => .string 64
  | deviceSerialNumber => .string 24

-- The macros of coding.h, and the spots that are written out by hand.
abbrev coding8 (f : Field) : Put Field := .num f 1

abbrev coding16 (f : Field) : Put Field := .num f 2

abbrev coding32 (f : Field) : Put Field := .num f 4

abbrev codingString (f : Field) : Put Field := .str f

/-- `*buf++ = io->etherItfMacAddr[i]`, six times. -/
abbrev putMac : Put Field := .octets .etherItfMacAddr 6

/-- `memcpy(buf, io->data, io->size)`; where it stands behind `io->size > 0`, it writes the same. -/
abbrev putData : Put Field := .block .size

abbrev decode8 (f : Field) : Get Field := .num f 1

abbrev decode16 (f : Field) : Get Field := .num f 2

abbrev decode32 (f : Field) : Get Field := .num f 4

abbrev decodeString (f : Field) (size : Nat) : Get Field := .str f size

/-- `io->etherItfMacAddr[i] = *buf++`, six times. -/
abbrev getMac : Get Field := .octets .etherItfMacAddr 6

/-- `io->data = malloc(io->size)` and `memcpy(io->data, buf, io->size)`. -/
abbrev getData : Get Field := .block .size false

/-- The same behind `io->size > 0`. -/
abbrev getDataPos : Get Field := .block .size true

end OiAmc.Pktcmd

import OiAmc.PktcmdArg

namespace OiAmc.Pktcmd

open MessageLayout

/-- The rows of `pktcmd_cbs`. -/
inductive Cmd
  | getHwModel
  | getHwVersion
  | getSwVersion
  | getHwSerialNum
  | getHwDescription
  | setHwDescription
  | getEtherInfo
  | setEtherInfo
  | getMac
  | setMac
  | getServerIp
  | setServerIp
  | getGatewayIp
  | setGatewayIp
  | getSysTime
  | setSysTime
  | getNtpMode
  | setNtpMode
  | getClkType
  | setClkType
  | getPorts
  | getGlobalPortCfg
  | setGlobalPortCfg
  | getPortCfg
  | setPortCfg
  | delPortCfg
  | downloadPortCfgFile
  | uploadPortCfgFile
  | downloadChCfgFile
  | uploadChCfgFile
  | getDevId
  | setDevId
  | getPackType
  | setPackType
  | getDevMode
  | setDevMode
  | getPortSdhMatrixCfg
  | setPortSdhMatrixCfg
  | getPortMatrixCfg
  | setPortMatrixCfg
  | downloadMatrixCfgFile
  | uploadMatrixCfgFile
  | gainScan
  | chanScan
  | getGlobalBertCfg
  | setGlobalBertCfg
  | getBertCfg
  | setBertCfg
  | delBertCfg
  | startPrbs
  | stopPrbs
  | insertError
  | sysReboot
  | sysStart
  | sysStop
  | sysFirmwareUpgrade
  | getSysResRep
  | getLineStatInfo
  | clrLineStatInfo
  | getPortStatInfo
  | clrPortStatInfo
  | startPfmTest
  | getPortPfmResult
  | stopPfmTest
  | getChCfg
  | getChStatInfo
  | clrChStatInfo
  | getRawData
  | getRtVoice
  | getCallTrace
  deriving DecidableEq

/-- The macro of pktcmdhdl.c that makes a handler of commands. -/
inductive HdlMacro
  | inHdl
  | inOut
  | inOutVarsize
  | inVarsize
  | inVarsizeOutVarsize

/-- The macro that makes a handler of acknowledgements. -/
inductive AckMacro
  | ackHdl
  | out
  | outVarsize

namespace Cmd

def id : Cmd → UInt16
  | getHwModel => 0x2001
  | getHwVersion => 0x2002
  | getSwVersion => 0x2003
  | getHwSerialNum => 0x2004
  | getHwDescription => 0x2005
  | setHwDescription => 0x2006
  | getEtherInfo => 0x2011
  | setEtherInfo => 0x2012
  | getMac => 0x2013
  | setMac => 0x2014
  | getServerIp => 0x2015
  | setServerIp => 0x2016
  | getGatewayIp => 0x2017
  | setGatewayIp => 0x2018
  | getSysTime => 0x2021
  | setSysTime => 0x2022
  | getNtpMode => 0x2023
  | setNtpMode => 0x2024
  | getClkType => 0x2031
  | setClkType => 0x2032
  | getPorts => 0x2041
  | getGlobalPortCfg => 0x2042
  | setGlobalPortCfg => 0x2043
  | getPortCfg => 0x2044
  | setPortCfg => 0x2045
  | delPortCfg => 0x2046
  | downloadPortCfgFile => 0x2047
  | uploadPortCfgFile => 0x2048
  | downloadChCfgFile => 0x2051
  | uploadChCfgFile => 0x2052
  | getDevId => 0x2061
  | setDevId => 0x2062
  | getPackType => 0x2063
  | setPackType => 0x2064
  | getDevMode => 0x2065
  | setDevMode => 0x2066
  | getPortSdhMatrixCfg => 0x2071
  | setPortSdhMatrixCfg => 0x2072
  | getPortMatrixCfg => 0x2073
  | setPortMatrixCfg => 0x2074
  | downloadMatrixCfgFile => 0x2075
  | uploadMatrixCfgFile => 0x2076
  | gainScan => 0x2101
  | chanScan => 0x2102
  | getGlobalBertCfg => 0x2111
  | setGlobalBertCfg => 0x2112
  | getBertCfg => 0x2113
  | setBertCfg => 0x2114
  | delBertCfg => 0x2115
  | startPrbs => 0x2116
  | stopPrbs => 0x2117
  | insertError => 0x2118
  | sysReboot => 0x2121
  | sysStart => 0x2123
  | sysStop => 0x2124
  | sysFirmwareUpgrade => 0x2122
  | getSysResRep => 0x2131
  | getLineStatInfo => 0x2141
  | clrLineStatInfo => 0x2142
  | getPortStatInfo => 0x2151
  | clrPortStatInfo => 0x2152
  | startPfmTest => 0x2153
  | getPortPfmResult => 0x2154
  | stopPfmTest => 0x2155
  | getChCfg => 0x2161
  | getChStatInfo => 0x2162
  | clrChStatInfo => 0x2163
  | getRawData => 0x2300
  | getRtVoice => 0x2301
  | getCallTrace => 0x2302

/-- The argument of a command. -/
def input : Cmd → Message Field
  | getHwModel => ⟨cmdGetHwModelIn, cmdGetHwModelInEncode, cmdGetHwModelInDecode⟩
  | getHwVersion => ⟨cmdGetHwVersionIn, cmdGetHwVersionInEncode, cmdGetHwVersionInDecode⟩
  | getSwVersion => ⟨cmdGetSwVersionIn, cmdGetSwVersionInEncode, cmdGetSwVersionInDecode⟩
  | getHwSerialNum => ⟨cmdGetHwSerialNumIn, cmdGetHwSerialNumInEncode, cmdGetHwSerialNumInDecode⟩
  | getHwDescription =>
      ⟨cmdGetHwDescriptionIn, cmdGetHwDescriptionInEncode, cmdGetHwDescriptionInDecode⟩
  | setHwDescription =>
      ⟨cmdSetHwDescriptionIn, cmdSetHwDescriptionInEncode, cmdSetHwDescriptionInDecode⟩
  | getEtherInfo => ⟨cmdGetEtherInfoIn, cmdGetEtherInfoInEncode, cmdGetEtherInfoInDecode⟩
  | setEtherInfo => ⟨cmdSetEtherInfoIn, cmdSetEtherInfoInEncode, cmdSetEtherInfoInDecode⟩
  | getMac => ⟨cmdGetMacIn, cmdGetMacInEncode, cmdGetMacInDecode⟩
  | setMac => ⟨cmdSetMacIn, cmdSetMacInEncode, cmdSetMacInDecode⟩
  | getServerIp => ⟨cmdGetServerIpIn, cmdGetServerIpInEncode, cmdGetServerIpInDecode⟩
  | setServerIp => ⟨cmdSetServerIpIn, cmdSetServerIpInEncode, cmdSetServerIpInDecode⟩
  | getGatewayIp => ⟨cmdGetGatewayIpIn, cmdGetGatewayIpInEncode, cmdGetGatewayIpInDecode⟩
  | setGatewayIp => ⟨cmdSetGatewayIpIn, cmdSetGatewayIpInEncode, cmdSetGatewayIpInDecode⟩
  | getSysTime => ⟨cmdGetSysTimeIn, cmdGetSysTimeInEncode, cmdGetSysTimeInDecode⟩
  | setSysTime => ⟨cmdSetSysTimeIn, cmdSetSysTimeInEncode, cmdSetSysTimeInDecode⟩
  | getNtpMode => ⟨cmdGetNtpModeIn, cmdGetNtpModeInEncode, cmdGetNtpModeInDecode⟩
  | setNtpMode => ⟨cmdSetNtpModeIn, cmdSetNtpModeInEncode, cmdSetNtpModeInDecode⟩
  | getClkType => ⟨cmdGetClkTypeIn, cmdGetClkTypeInEncode, cmdGetClkTypeInDecode⟩
  | setClkType => ⟨cmdSetClkTypeIn, cmdSetClkTypeInEncode, cmdSetClkTypeInDecode⟩
  | getPorts => ⟨cmdGetPortsIn, cmdGetPortsInEncode, cmdGetPortsInDecode⟩
  | getGlobalPortCfg =>
      ⟨cmdGetGlobalPortCfgIn, cmdGetGlobalPortCfgInEncode, cmdGetGlobalPortCfgInDecode⟩
  | setGlobalPortCfg =>
      ⟨cmdSetGlobalPortCfgIn, cmdSetGlobalPortCfgInEncode, cmdSetGlobalPortCfgInDecode⟩
  | getPortCfg => ⟨cmdGetPortCfgIn, cmdGetPortCfgInEncode, cmdGetPortCfgInDecode⟩
  | setPortCfg => ⟨cmdSetPortCfgIn, cmdSetPortCfgInEncode, cmdSetPortCfgInDecode⟩
  | delPortCfg => ⟨cmdDelPortCfgIn, cmdDelPortCfgInEncode, cmdDelPortCfgInDecode⟩
  | downloadPortCfgFile =>
      ⟨cmdDownloadPortCfgFileIn, cmdDownloadPortCfgFileInEncode, cmdDownloadPortCfgFileInDecode⟩
  | uploadPortCfgFile =>
      ⟨cmdUploadPortCfgFileIn, cmdUploadPortCfgFileInEncode, cmdUploadPortCfgFileInDecode⟩
  | downloadChCfgFile =>
      ⟨cmdDownloadChCfgFileIn, cmdDownloadChCfgFileInEncode, cmdDownloadChCfgFileInDecode⟩
  | uploadChCfgFile =>
      ⟨cmdUploadChCfgFileIn, cmdUploadChCfgFileInEncode, cmdUploadChCfgFileInDecode⟩
  | getDevId => ⟨cmdGetDevIdIn, cmdGetDevIdInEncode, cmdGetDevIdInDecode⟩
  | setDevId => ⟨cmdSetDevIdIn, cmdSetDevIdInEncode, cmdSetDevIdInDecode⟩
  | getPackType => ⟨cmdGetPackTypeIn, cmdGetPackTypeInEncode, cmdGetPackTypeInDecode⟩
  | setPackType => ⟨cmdSetPackTypeIn, cmdSetPackTypeInEncode, cmdSetPackTypeInDecode⟩
  | getDevMode => ⟨cmdGetDevModeIn, cmdGetDevModeInEncode, cmdGetDevModeInDecode⟩
  | setDevMode => ⟨cmdSetDevModeIn, cmdSetDevModeInEncode, cmdSetDevModeInDecode⟩
  | getPortSdhMatrixCfg =>
      ⟨cmdGetPortSdhMatrixCfgIn, cmdGetPortSdhMatrixCfgInEncode, cmdGetPortSdhMatrixCfgInDecode⟩
  | setPortSdhMatrixCfg =>
      ⟨cmdSetPortSdhMatrixCfgIn, cmdSetPortSdhMatrixCfgInEncode, cmdSetPortSdhMatrixCfgInDecode⟩
  | getPortMatrixCfg =>
      ⟨cmdGetPortMatrixCfgIn, cmdGetPortMatrixCfgInEncode, cmdGetPortMatrixCfgInDecode⟩
  | setPortMatrixCfg =>
      ⟨cmdSetPortMatrixCfgIn, cmdSetPortMatrixCfgInEncode, cmdSetPortMatrixCfgInDecode⟩
  | downloadMatrixCfgFile =>
      ⟨cmdDownloadMatrixCfgFileIn, cmdDownloadMatrixCfgFileInEncode, cmdDownloadMatrixCfgFileInDecode⟩
  | uploadMatrixCfgFile =>
      ⟨cmdUploadMatrixCfgFileIn, cmdUploadMatrixCfgFileInEncode, cmdUploadMatrixCfgFileInDecode⟩
  | gainScan => ⟨cmdGainScanIn, cmdGainScanInEncode, cmdGainScanInDecode⟩
  | chanScan => ⟨cmdChanScanIn, cmdChanScanInEncode, cmdChanScanInDecode⟩
  | getGlobalBertCfg =>
      ⟨cmdGetGlobalBertCfgIn, cmdGetGlobalBertCfgInEncode, cmdGetGlobalBertCfgInDecode⟩
  | setGlobalBertCfg =>
      ⟨cmdSetGlobalBertCfgIn, cmdSetGlobalBertCfgInEncode, cmdSetGlobalBertCfgInDecode⟩
  | getBertCfg => ⟨cmdGetBertCfgIn, cmdGetBertCfgInEncode, cmdGetBertCfgInDecode⟩
  | setBertCfg => ⟨cmdSetBertCfgIn, cmdSetBertCfgInEncode, cmdSetBertCfgInDecode⟩
  | delBertCfg => ⟨cmdDelBertCfgIn, cmdDelBertCfgInEncode, cmdDelBertCfgInDecode⟩
  | startPrbs => ⟨cmdStartPrbsIn, cmdStartPrbsInEncode, cmdStartPrbsInDecode⟩
  | stopPrbs => ⟨cmdStopPrbsIn, cmdStopPrbsInEncode, cmdStopPrbsInDecode⟩
  | insertError => ⟨cmdInsertErrorIn, cmdInsertErrorInEncode, cmdInsertErrorInDecode⟩
  | sysReboot => ⟨cmdSysRebootIn, cmdSysRebootInEncode, cmdSysRebootInDecode⟩
  | sysStart => ⟨cmdSysStartIn, cmdSysStartInEncode, cmdSysStartInDecode⟩
  | sysStop => ⟨cmdSysStopIn, cmdSysStopInEncode, cmdSysStopInDecode⟩
  | sysFirmwareUpgrade =>
      ⟨cmdSysFirmwareUpgradeIn, cmdSysFirmwareUpgradeInEncode, cmdSysFirmwareUpgradeInDecode⟩
  | getSysResRep => ⟨cmdGetSysResRepIn, cmdGetSysResRepInEncode, cmdGetSysResRepInDecode⟩
  | getLineStatInfo =>
      ⟨cmdGetLineStatInfoIn, cmdGetLineStatInfoInEncode, cmdGetLineStatInfoInDecode⟩
  | clrLineStatInfo =>
      ⟨cmdClrLineStatInfoIn, cmdClrLineStatInfoInEncode, cmdClrLineStatInfoInDecode⟩
  | getPortStatInfo =>
      ⟨cmdGetPortStatInfoIn, cmdGetPortStatInfoInEncode, cmdGetPortStatInfoInDecode⟩
  | clrPortStatInfo =>
      ⟨cmdClrPortStatInfoIn, cmdClrPortStatInfoInEncode, cmdClrPortStatInfoInDecode⟩
  | startPfmTest => ⟨cmdStartPfmTestIn, cmdStartPfmTestInEncode, cmdStartPfmTestInDecode⟩
  | getPortPfmResult =>
      ⟨cmdGetPortPfmResultIn, cmdGetPortPfmResultInEncode, cmdGetPortPfmResultInDecode⟩
  | stopPfmTest => ⟨cmdStopPfmTestIn, cmdStopPfmTestInEncode, cmdStopPfmTestInDecode⟩
  | getChCfg => ⟨cmdGetChCfgIn, cmdGetChCfgInEncode, cmdGetChCfgInDecode⟩
  | getChStatInfo => ⟨cmdGetChStatInfoIn, cmdGetChStatInfoInEncode, cmdGetChStatInfoInDecode⟩
  | clrChStatInfo => ⟨cmdClrChStatInfoIn, cmdClrChStatInfoInEncode, cmdClrChStatInfoInDecode⟩
  | getRawData => ⟨cmdGetRawDataIn, cmdGetRawDataInEncode, cmdGetRawDataInDecode⟩
  | getRtVoice => ⟨cmdGetRtVoiceIn, cmdGetRtVoiceInEncode, cmdGetRtVoiceInDecode⟩
  | getCallTrace => ⟨cmdGetCallTraceIn, cmdGetCallTraceInEncode, cmdGetCallTraceInDecode⟩

/-- What a command answers, where that has a structure. -/
def output : Cmd → Option (Message Field)
  | getHwModel => some ⟨cmdGetHwModelOut, cmdGetHwModelOutEncode, cmdGetHwModelOutDecode⟩
  | getHwVersion => some ⟨cmdGetHwVersionOut, cmdGetHwVersionOutEncode, cmdGetHwVersionOutDecode⟩
  | getSwVersion => some ⟨cmdGetSwVersionOut, cmdGetSwVersionOutEncode, cmdGetSwVersionOutDecode⟩
  | getHwSerialNum =>
      some ⟨cmdGetHwSerialNumOut, cmdGetHwSerialNumOutEncode, cmdGetHwSerialNumOutDecode⟩
  | getHwDescription =>
      some ⟨cmdGetHwDescriptionOut, cmdGetHwDescriptionOutEncode, cmdGetHwDescriptionOutDecode⟩
  | getEtherInfo => some ⟨cmdGetEtherInfoOut, cmdGetEtherInfoOutEncode, cmdGetEtherInfoOutDecode⟩
  | getMac => some ⟨cmdGetMacOut, cmdGetMacOutEncode, cmdGetMacOutDecode⟩
  | getServerIp => some ⟨cmdGetServerIpOut, cmdGetServerIpOutEncode, cmdGetServerIpOutDecode⟩
  | getGatewayIp => some ⟨cmdGetGatewayIpOut, cmdGetGatewayIpOutEncode, cmdGetGatewayIpOutDecode⟩
  | getSysTime => some ⟨cmdGetSysTimeOut, cmdGetSysTimeOutEncode, cmdGetSysTimeOutDecode⟩
  | getNtpMode => some ⟨cmdGetNtpModeOut, cmdGetNtpModeOutEncode, cmdGetNtpModeOutDecode⟩
  | getClkType => some ⟨cmdGetClkTypeOut, cmdGetClkTypeOutEncode, cmdGetClkTypeOutDecode⟩
  | getPorts => some ⟨cmdGetPortsOut, cmdGetPortsOutEncode, cmdGetPortsOutDecode⟩
  | getGlobalPortCfg =>
      some ⟨cmdGetGlobalPortCfgOut, cmdGetGlobalPortCfgOutEncode, cmdGetGlobalPortCfgOutDecode⟩
  | getPortCfg => some ⟨cmdGetPortCfgOut, cmdGetPortCfgOutEncode, cmdGetPortCfgOutDecode⟩
  | downloadPortCfgFile =>
      some ⟨cmdDownloadPortCfgFileOut, cmdDownloadPortCfgFileOutEncode, cmdDownloadPortCfgFileOutDecode⟩
  | downloadChCfgFile =>
      some ⟨cmdDownloadChCfgFileOut, cmdDownloadChCfgFileOutEncode, cmdDownloadChCfgFileOutDecode⟩
  | getDevId => some ⟨cmdGetDevIdOut, cmdGetDevIdOutEncode, cmdGetDevIdOutDecode⟩
  | getPackType => some ⟨cmdGetPackTypeOut, cmdGetPackTypeOutEncode, cmdGetPackTypeOutDecode⟩
  | getDevMode => some ⟨cmdGetDevModeOut, cmdGetDevModeOutEncode, cmdGetDevModeOutDecode⟩
  | getPortSdhMatrixCfg =>
      some ⟨cmdGetPortSdhMatrixCfgOut, cmdGetPortSdhMatrixCfgOutEncode, cmdGetPortSdhMatrixCfgOutDecode⟩
  | getPortMatrixCfg =>
      some ⟨cmdGetPortMatrixCfgOut, cmdGetPortMatrixCfgOutEncode, cmdGetPortMatrixCfgOutDecode⟩
  | downloadMatrixCfgFile =>
      some ⟨cmdDownloadMatrixCfgFileOut, cmdDownloadMatrixCfgFileOutEncode, cmdDownloadMatrixCfgFileOutDecode⟩
  | gainScan => some ⟨cmdGainScanOut, cmdGainScanOutEncode, cmdGainScanOutDecode⟩
  | chanScan => some ⟨cmdChanScanOut, cmdChanScanOutEncode, cmdChanScanOutDecode⟩
  | getGlobalBertCfg =>
      some ⟨cmdGetGlobalBertCfgOut, cmdGetGlobalBertCfgOutEncode, cmdGetGlobalBertCfgOutDecode⟩
  | getBertCfg => some ⟨cmdGetBertCfgOut, cmdGetBertCfgOutEncode, cmdGetBertCfgOutDecode⟩
  | getSysResRep => some ⟨cmdGetSysResRepOut, cmdGetSysResRepOutEncode, cmdGetSysResRepOutDecode⟩
  | getLineStatInfo =>
      some ⟨cmdGetLineStatInfoOut, cmdGetLineStatInfoOutEncode, cmdGetLineStatInfoOutDecode⟩
  | getPortStatInfo =>
      some ⟨cmdGetPortStatInfoOut, cmdGetPortStatInfoOutEncode, cmdGetPortStatInfoOutDecode⟩
  | getPortPfmResult =>
      some ⟨cmdGetPortPfmResultOut, cmdGetPortPfmResultOutEncode, cmdGetPortPfmResultOutDecode⟩
  | getChCfg => some ⟨cmdGetChCfgOut, cmdGetChCfgOutEncode, cmdGetChCfgOutDecode⟩
  | getChStatInfo =>
      some ⟨cmdGetChStatInfoOut, cmdGetChStatInfoOutEncode, cmdGetChStatInfoOutDecode⟩
  | getRawData => some ⟨cmdGetRawDataOut, cmdGetRawDataOutEncode, cmdGetRawDataOutDecode⟩
  | getRtVoice => some ⟨cmdGetRtVoiceOut, cmdGetRtVoiceOutEncode, cmdGetRtVoiceOutDecode⟩
  | getCallTrace => some ⟨cmdGetCallTraceOut, cmdGetCallTraceOutEncode, cmdGetCallTraceOutDecode⟩
  | _ => none

def hdl : Cmd → HdlMacro
  | getHwModel | getHwVersion | getSwVersion | getHwSerialNum | getHwDescription | getEtherInfo |
    getMac | getServerIp | getGatewayIp | getSysTime | getNtpMode | getClkType | getPorts |
    getGlobalPortCfg | getPortCfg | getDevId | getPackType | getDevMode | getPortSdhMatrixCfg |
    getPortMatrixCfg | getGlobalBertCfg | getBertCfg | getLineStatInfo | getPortStatInfo |
    getPortPfmResult | getChCfg | getChStatInfo => .inOut
  | downloadPortCfgFile | downloadChCfgFile | downloadMatrixCfgFile | chanScan | getSysResRep |
    getRawData | getRtVoice => .inOutVarsize
  | uploadPortCfgFile | uploadChCfgFile | uploadMatrixCfgFile | sysFirmwareUpgrade => .inVarsize
  | getCallTrace => .inVarsizeOutVarsize
  | _ => .inHdl

def ackHdl : Cmd → AckMacro
  | getHwModel | getHwVersion | getSwVersion | getHwSerialNum | getHwDescription | getEtherInfo |
    getMac | getServerIp | getGatewayIp | getSysTime | getNtpMode | getClkType | getPorts |
    getGlobalPortCfg | getPortCfg | getDevId | getPackType | getDevMode | getPortSdhMatrixCfg |
    getPortMatrixCfg | getGlobalBertCfg | getBertCfg | getLineStatInfo | getPortStatInfo |
    getPortPfmResult | getChCfg | getChStatInfo => .out
  | downloadPortCfgFile | downloadChCfgFile | downloadMatrixCfgFile | chanScan | getSysResRep |
    getRawData | getRtVoice | getCallTrace => .outVarsize
  | _ => .ackHdl

end Cmd

end OiAmc.Pktcmd

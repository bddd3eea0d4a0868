import OiAmc.PktcmdFields

namespace OiAmc.Pktcmd

open MessageLayout

def cmdGetHwModelIn : List Field := [.deviceSequenceNumber]

def cmdGetHwModelInEncode : List (Put Field) := [coding8 .deviceSequenceNumber]

def cmdGetHwModelInDecode : List (Get Field) := [decode8 .deviceSequenceNumber]

def cmdGetHwModelOut : List Field := [.deviceModel]

def cmdGetHwModelOutEncode : List (Put Field) := [coding8 .deviceModel]

def cmdGetHwModelOutDecode : List (Get Field) := [decode8 .deviceModel]

def cmdGetHwVersionIn : List Field := [.deviceSequenceNumber]

def cmdGetHwVersionInEncode : List (Put Field) := [coding8 .deviceSequenceNumber]

def cmdGetHwVersionInDecode : List (Get Field) := [decode8 .deviceSequenceNumber]

def cmdGetHwVersionOut : List Field := [.deviceHWVersion]

def cmdGetHwVersionOutEncode : List (Put Field) := [codingString .deviceHWVersion]

def cmdGetHwVersionOutDecode : List (Get Field) := [decodeString .deviceHWVersion 8]

def cmdGetSwVersionIn : List Field := [.deviceSequenceNumber]

def cmdGetSwVersionInEncode : List (Put Field) := [coding8 .deviceSequenceNumber]

def cmdGetSwVersionInDecode : List (Get Field) := [decode8 .deviceSequenceNumber]

def cmdGetSwVersionOut : List Field := [.deviceSWVersion]

def cmdGetSwVersionOutEncode : List (Put Field) := [codingString .deviceSWVersion]

def cmdGetSwVersionOutDecode : List (Get Field) := [decodeString .deviceSWVersion 64]

def cmdGetHwSerialNumIn : List Field := [.deviceSequenceNumber]

def cmdGetHwSerialNumInEncode : List (Put Field) := [coding8 .deviceSequenceNumber]

def cmdGetHwSerialNumInDecode : List (Get Field) := [decode8 .deviceSequenceNumber]

def cmdGetHwSerialNumOut : List Field := [.deviceSerialNumber]

def cmdGetHwSerialNumOutEncode : List (Put Field) := [codingString .deviceSerialNumber]

def cmdGetHwSerialNumOutDecode : List (Get Field) := [decodeString .deviceSerialNumber 24]

def cmdGetHwDescriptionIn : List Field := [.deviceSequenceNumber]

def cmdGetHwDescriptionInEncode : List (Put Field) := [coding8 .deviceSequenceNumber]

def cmdGetHwDescriptionInDecode : List (Get Field) := [decode8 .deviceSequenceNumber]

def cmdGetHwDescriptionOut : List Field := [.deviceDescription]

def cmdGetHwDescriptionOutEncode : List (Put Field) := [codingString .deviceDescription]

def cmdGetHwDescriptionOutDecode : List (Get Field) := [decodeString .deviceDescription 128]

def cmdSetHwDescriptionIn : List Field := [.deviceSequenceNumber, .deviceDescription]

def cmdSetHwDescriptionInEncode : List (Put Field) :=
  [coding8 .deviceSequenceNumber, codingString .deviceDescription]

def cmdSetHwDescriptionInDecode : List (Get Field) :=
  [decode8 .deviceSequenceNumber, decodeString .deviceDescription 128]

def cmdGetEtherInfoIn : List Field := [.deviceSequenceNumber, .etherItfNumber]

def cmdGetEtherInfoInEncode : List (Put Field) :=
  [coding8 .deviceSequenceNumber, coding8 .etherItfNumber]

def cmdGetEtherInfoInDecode : List (Get Field) :=
  [decode8 .deviceSequenceNumber, decode8 .etherItfNumber]

def cmdGetEtherInfoOut : List Field := [.etherItfNumber, .etherItfIP, .etherItfNetmask]

def cmdGetEtherInfoOutEncode : List (Put Field) :=
  [coding8 .etherItfNumber, coding32 .etherItfIP, coding32 .etherItfNetmask]

def cmdGetEtherInfoOutDecode : List (Get Field) :=
  [decode8 .etherItfNumber, decode32 .etherItfIP, decode32 .etherItfNetmask]

def cmdSetEtherInfoIn : List Field :=
  [.deviceSequenceNumber, .etherItfNumber, .etherItfIP, .etherItfNetmask]

def cmdSetEtherInfoInEncode : List (Put Field) :=
  [coding8 .deviceSequenceNumber, coding8 .etherItfNumber, coding32 .etherItfIP,
    coding32 .etherItfNetmask]

def cmdSetEtherInfoInDecode : List (Get Field) :=
  [decode8 .deviceSequenceNumber, decode8 .etherItfNumber, decode32 .etherItfIP,
    decode32 .etherItfNetmask]

def cmdGetMacIn : List Field := [.deviceSequenceNumber, .etherItfNumber]

def cmdGetMacInEncode : List (Put Field) := [coding8 .deviceSequenceNumber, coding8 .etherItfNumber]

def cmdGetMacInDecode : List (Get Field) := [decode8 .deviceSequenceNumber, decode8 .etherItfNumber]

def cmdGetMacOut : List Field := [.etherItfNumber, .etherItfMacAddr]

def cmdGetMacOutEncode : List (Put Field) := [coding8 .etherItfNumber, putMac]

def cmdGetMacOutDecode : List (Get Field) := [decode8 .etherItfNumber, getMac]

def cmdSetMacIn : List Field := [.deviceSequenceNumber, .etherItfNumber, .etherItfMacAddr]

def cmdSetMacInEncode : List (Put Field) :=
  [coding8 .deviceSequenceNumber, coding8 .etherItfNumber, putMac]

def cmdSetMacInDecode : List (Get Field) :=
  [decode8 .deviceSequenceNumber, decode8 .etherItfNumber, getMac]

def cmdGetServerIpIn : List Field := [.deviceSequenceNumber]

def cmdGetServerIpInEncode : List (Put Field) := [coding8 .deviceSequenceNumber]

def cmdGetServerIpInDecode : List (Get Field) := [decode8 .deviceSequenceNumber]

def cmdGetServerIpOut : List Field := [.serverIPAddress]

def cmdGetServerIpOutEncode : List (Put Field) := [coding32 .serverIPAddress]

def cmdGetServerIpOutDecode : List (Get Field) := [decode32 .serverIPAddress]

def cmdSetServerIpIn : List Field := [.deviceSequenceNumber, .serverIPAddress]

def cmdSetServerIpInEncode : List (Put Field) :=
  [coding8 .deviceSequenceNumber, coding32 .serverIPAddress]

def cmdSetServerIpInDecode : List (Get Field) :=
  [decode8 .deviceSequenceNumber, decode32 .serverIPAddress]

def cmdGetGatewayIpIn : List Field := [.deviceSequenceNumber]

def cmdGetGatewayIpInEncode : List (Put Field) := [coding8 .deviceSequenceNumber]

def cmdGetGatewayIpInDecode : List (Get Field) := [decode8 .deviceSequenceNumber]

def cmdGetGatewayIpOut : List Field := [.gatewayIPAddress]

def cmdGetGatewayIpOutEncode : List (Put Field) := [coding32 .gatewayIPAddress]

def cmdGetGatewayIpOutDecode : List (Get Field) := [decode32 .gatewayIPAddress]

def cmdSetGatewayIpIn : List Field := [.deviceSequenceNumber, .gatewayIPAddress]

def cmdSetGatewayIpInEncode : List (Put Field) :=
  [coding8 .deviceSequenceNumber, coding32 .gatewayIPAddress]

def cmdSetGatewayIpInDecode : List (Get Field) :=
  [decode8 .deviceSequenceNumber, decode32 .gatewayIPAddress]

def cmdGetSysTimeIn : List Field := [.deviceSequenceNumber]

def cmdGetSysTimeInEncode : List (Put Field) := [coding8 .deviceSequenceNumber]

def cmdGetSysTimeInDecode : List (Get Field) := [decode8 .deviceSequenceNumber]

def cmdGetSysTimeOut : List Field := [.sysTimeSec, .sysTimeUsec]

def cmdGetSysTimeOutEncode : List (Put Field) := [coding32 .sysTimeSec, coding32 .sysTimeUsec]

def cmdGetSysTimeOutDecode : List (Get Field) := [decode32 .sysTimeSec, decode32 .sysTimeUsec]

def cmdSetSysTimeIn : List Field := [.deviceSequenceNumber, .sysTimeSec, .sysTimeUsec]

def cmdSetSysTimeInEncode : List (Put Field) :=
  [coding8 .deviceSequenceNumber, coding32 .sysTimeSec, coding32 .sysTimeUsec]

def cmdSetSysTimeInDecode : List (Get Field) :=
  [decode8 .deviceSequenceNumber, decode32 .sysTimeSec, decode32 .sysTimeUsec]

def cmdGetNtpModeIn : List Field := [.deviceSequenceNumber]

def cmdGetNtpModeInEncode : List (Put Field) := [coding8 .deviceSequenceNumber]

def cmdGetNtpModeInDecode : List (Get Field) := [decode8 .deviceSequenceNumber]

def cmdGetNtpModeOut : List Field := [.ntpMode, .ntpServerIPAddress]

def cmdGetNtpModeOutEncode : List (Put Field) := [coding8 .ntpMode, coding32 .ntpServerIPAddress]

def cmdGetNtpModeOutDecode : List (Get Field) := [decode8 .ntpMode, decode32 .ntpServerIPAddress]

def cmdSetNtpModeIn : List Field := [.deviceSequenceNumber, .ntpMode, .ntpServerIPAddress]

def cmdSetNtpModeInEncode : List (Put Field) :=
  [coding8 .deviceSequenceNumber, coding8 .ntpMode, coding32 .ntpServerIPAddress]

def cmdSetNtpModeInDecode : List (Get Field) :=
  [decode8 .deviceSequenceNumber, decode8 .ntpMode, decode32 .ntpServerIPAddress]

def cmdGetClkTypeIn : List Field := [.deviceSequenceNumber]

def cmdGetClkTypeInEncode : List (Put Field) := [coding8 .deviceSequenceNumber]

def cmdGetClkTypeInDecode : List (Get Field) := [decode8 .deviceSequenceNumber]

def cmdGetClkTypeOut : List Field := [.clkType, .clkSrc]

def cmdGetClkTypeOutEncode : List (Put Field) := [coding8 .clkType, coding16 .clkSrc]

def cmdGetClkTypeOutDecode : List (Get Field) := [decode8 .clkType, decode16 .clkSrc]

def cmdSetClkTypeIn : List Field := [.deviceSequenceNumber, .clkType, .clkSrc]

def cmdSetClkTypeInEncode : List (Put Field) :=
  [coding8 .deviceSequenceNumber, coding8 .clkType, coding16 .clkSrc]

def cmdSetClkTypeInDecode : List (Get Field) :=
  [decode8 .deviceSequenceNumber, decode8 .clkType, decode16 .clkSrc]

def cmdGetPortsIn : List Field := [.deviceSequenceNumber]

def cmdGetPortsInEncode : List (Put Field) := [coding8 .deviceSequenceNumber]

def cmdGetPortsInDecode : List (Get Field) := [decode8 .deviceSequenceNumber]

def cmdGetPortsOut : List Field := [.inputPorts, .outputPorts]

def cmdGetPortsOutEncode : List (Put Field) := [coding32 .inputPorts, coding32 .outputPorts]

def cmdGetPortsOutDecode : List (Get Field) := [decode32 .inputPorts, decode32 .outputPorts]

def cmdGetGlobalPortCfgIn : List Field := [.deviceSequenceNumber]

def cmdGetGlobalPortCfgInEncode : List (Put Field) := [coding8 .deviceSequenceNumber]

def cmdGetGlobalPortCfgInDecode : List (Get Field) := [decode8 .deviceSequenceNumber]

def cmdGetGlobalPortCfgOut : List Field :=
  [.phyItfType, .lineCode, .gain, .inputFrameFormat, .inputImpedance, .outputFrameFormat,
    .outputImpedance]

def cmdGetGlobalPortCfgOutEncode : List (Put Field) :=
  [coding8 .phyItfType, coding8 .lineCode, coding8 .gain, coding8 .inputFrameFormat,
    coding8 .inputImpedance, coding8 .outputFrameFormat, coding8 .outputImpedance]

def cmdGetGlobalPortCfgOutDecode : List (Get Field) :=
  [decode8 .phyItfType, decode8 .lineCode, decode8 .gain, decode8 .inputFrameFormat,
    decode8 .inputImpedance, decode8 .outputFrameFormat, decode8 .outputImpedance]

def cmdSetGlobalPortCfgIn : List Field :=
  [.deviceSequenceNumber, .phyItfType, .lineCode, .gain, .inputFrameFormat, .inputImpedance,
    .outputFrameFormat, .outputImpedance]

def cmdSetGlobalPortCfgInEncode : List (Put Field) :=
  [coding8 .deviceSequenceNumber, coding8 .phyItfType, coding8 .lineCode, coding8 .gain,
    coding8 .inputFrameFormat, coding8 .inputImpedance, coding8 .outputFrameFormat,
    coding8 .outputImpedance]

def cmdSetGlobalPortCfgInDecode : List (Get Field) :=
  [decode8 .deviceSequenceNumber, decode8 .phyItfType, decode8 .lineCode, decode8 .gain,
    decode8 .inputFrameFormat, decode8 .inputImpedance, decode8 .outputFrameFormat,
    decode8 .outputImpedance]

def cmdGetPortCfgIn : List Field := [.deviceSequenceNumber, .portID]

def cmdGetPortCfgInEncode : List (Put Field) := [coding8 .deviceSequenceNumber, coding32 .portID]

def cmdGetPortCfgInDecode : List (Get Field) := [decode8 .deviceSequenceNumber, decode32 .portID]

def cmdGetPortCfgOut : List Field :=
  [.portID, .phyItfType, .lineCode, .gain, .inputFrameFormat, .inputImpedance, .outputFrameFormat,
    .outputImpedance]

def cmdGetPortCfgOutEncode : List (Put Field) :=
  [coding32 .portID, coding8 .phyItfType, coding8 .lineCode, coding8 .gain,
    coding8 .inputFrameFormat, coding8 .inputImpedance, coding8 .outputFrameFormat,
    coding8 .outputImpedance]

def cmdGetPortCfgOutDecode : List (Get Field) :=
  [decode32 .portID, decode8 .phyItfType, decode8 .lineCode, decode8 .gain,
    decode8 .inputFrameFormat, decode8 .inputImpedance, decode8 .outputFrameFormat,
    decode8 .outputImpedance]

def cmdSetPortCfgIn : List Field :=
  [.deviceSequenceNumber, .portID, .phyItfType, .lineCode, .gain, .inputFrameFormat,
    .inputImpedance, .outputFrameFormat, .outputImpedance]

def cmdSetPortCfgInEncode : List (Put Field) :=
  [coding8 .deviceSequenceNumber, coding32 .portID, coding8 .phyItfType, coding8 .lineCode,
    coding8 .gain, coding8 .inputFrameFormat, coding8 .inputImpedance, coding8 .outputFrameFormat,
    coding8 .outputImpedance]

def cmdSetPortCfgInDecode : List (Get Field) :=
  [decode8 .deviceSequenceNumber, decode32 .portID, decode8 .phyItfType, decode8 .lineCode,
    decode8 .gain, decode8 .inputFrameFormat, decode8 .inputImpedance, decode8 .outputFrameFormat,
    decode8 .outputImpedance]

def cmdDelPortCfgIn : List Field := [.deviceSequenceNumber, .portID]

def cmdDelPortCfgInEncode : List (Put Field) := [coding8 .deviceSequenceNumber, coding32 .portID]

def cmdDelPortCfgInDecode : List (Get Field) := [decode8 .deviceSequenceNumber, decode32 .portID]

def cmdDownloadPortCfgFileIn : List Field := [.deviceSequenceNumber]

def cmdDownloadPortCfgFileInEncode : List (Put Field) := [coding8 .deviceSequenceNumber]

def cmdDownloadPortCfgFileInDecode : List (Get Field) := [decode8 .deviceSequenceNumber]

def cmdDownloadPortCfgFileOut : List Field :=
  [.ctrlConfigFileTotal, .ctrlConfigFileNum, .ctrlConfigFileFlag, .ctrlConfigFileRe,
    .ctrlConfigFileCrc, .data, .size]

def cmdDownloadPortCfgFileOutEncode : List (Put Field) :=
  [coding8 .ctrlConfigFileTotal, coding8 .ctrlConfigFileNum, coding8 .ctrlConfigFileFlag,
    coding8 .ctrlConfigFileRe, coding32 .ctrlConfigFileCrc, coding32 .size, putData]

def cmdDownloadPortCfgFileOutDecode : List (Get Field) :=
  [decode8 .ctrlConfigFileTotal, decode8 .ctrlConfigFileNum, decode8 .ctrlConfigFileFlag,
    decode8 .ctrlConfigFileRe, decode32 .ctrlConfigFileCrc, decode32 .size, getData]

def cmdUploadPortCfgFileIn : List Field :=
  [.deviceSequenceNumber, .ctrlConfigFileTotal, .ctrlConfigFileNum, .ctrlConfigFileFlag,
    .ctrlConfigFileRe, .ctrlConfigFileCrc, .data, .size]

def cmdUploadPortCfgFileInEncode : List (Put Field) :=
  [coding8 .deviceSequenceNumber, coding8 .ctrlConfigFileTotal, coding8 .ctrlConfigFileNum,
    coding8 .ctrlConfigFileFlag, coding8 .ctrlConfigFileRe, coding32 .ctrlConfigFileCrc,
    coding32 .size, putData]

def cmdUploadPortCfgFileInDecode : List (Get Field) :=
  [decode8 .deviceSequenceNumber, decode8 .ctrlConfigFileTotal, decode8 .ctrlConfigFileNum,
    decode8 .ctrlConfigFileFlag, decode8 .ctrlConfigFileRe, decode32 .ctrlConfigFileCrc,
    decode32 .size, getData]

def cmdDownloadChCfgFileIn : List Field := [.deviceSequenceNumber]

def cmdDownloadChCfgFileInEncode : List (Put Field) := [coding8 .deviceSequenceNumber]

def cmdDownloadChCfgFileInDecode : List (Get Field) := [decode8 .deviceSequenceNumber]

def cmdDownloadChCfgFileOut : List Field :=
  [.ctrlConfigFileTotal, .ctrlConfigFileNum, .ctrlConfigFileFlag, .ctrlConfigFileRe,
    .ctrlConfigFileCrc, .data, .size]

def cmdDownloadChCfgFileOutEncode : List (Put Field) :=
  [coding8 .ctrlConfigFileTotal, coding8 .ctrlConfigFileNum, coding8 .ctrlConfigFileFlag,
    coding8 .ctrlConfigFileRe, coding32 .ctrlConfigFileCrc, coding32 .size, putData]

def cmdDownloadChCfgFileOutDecode : List (Get Field) :=
  [decode8 .ctrlConfigFileTotal, decode8 .ctrlConfigFileNum, decode8 .ctrlConfigFileFlag,
    decode8 .ctrlConfigFileRe, decode32 .ctrlConfigFileCrc, decode32 .size, getData]

def cmdUploadChCfgFileIn : List Field :=
  [.deviceSequenceNumber, .ctrlConfigFileTotal, .ctrlConfigFileNum, .ctrlConfigFileFlag,
    .ctrlConfigFileRe, .ctrlConfigFileCrc, .data, .size]

def cmdUploadChCfgFileInEncode : List (Put Field) :=
  [coding8 .deviceSequenceNumber, coding8 .ctrlConfigFileTotal, coding8 .ctrlConfigFileNum,
    coding8 .ctrlConfigFileFlag, coding8 .ctrlConfigFileRe, coding32 .ctrlConfigFileCrc,
    coding32 .size, putData]

def cmdUploadChCfgFileInDecode : List (Get Field) :=
  [decode8 .deviceSequenceNumber, decode8 .ctrlConfigFileTotal, decode8 .ctrlConfigFileNum,
    decode8 .ctrlConfigFileFlag, decode8 .ctrlConfigFileRe, decode32 .ctrlConfigFileCrc,
    decode32 .size, getData]

def cmdGetDevIdIn : List Field := [.deviceSequenceNumber]

def cmdGetDevIdInEncode : List (Put Field) := [coding8 .deviceSequenceNumber]

def cmdGetDevIdInDecode : List (Get Field) := [decode8 .deviceSequenceNumber]

def cmdGetDevIdOut : List Field := [.deviceID]

def cmdGetDevIdOutEncode : List (Put Field) := [coding16 .deviceID]

def cmdGetDevIdOutDecode : List (Get Field) := [decode16 .deviceID]

def cmdSetDevIdIn : List Field := [.deviceSequenceNumber, .deviceID]

def cmdSetDevIdInEncode : List (Put Field) := [coding8 .deviceSequenceNumber, coding16 .deviceID]

def cmdSetDevIdInDecode : List (Get Field) := [decode8 .deviceSequenceNumber, decode16 .deviceID]

def cmdGetPackTypeIn : List Field := [.deviceSequenceNumber]

def cmdGetPackTypeInEncode : List (Put Field) := [coding8 .deviceSequenceNumber]

def cmdGetPackTypeInDecode : List (Get Field) := [decode8 .deviceSequenceNumber]

def cmdGetPackTypeOut : List Field := [.packetSubType]

def cmdGetPackTypeOutEncode : List (Put Field) := [coding8 .packetSubType]

def cmdGetPackTypeOutDecode : List (Get Field) := [decode8 .packetSubType]

def cmdSetPackTypeIn : List Field := [.deviceSequenceNumber, .packetSubType]

def cmdSetPackTypeInEncode : List (Put Field) :=
  [coding8 .deviceSequenceNumber, coding8 .packetSubType]

def cmdSetPackTypeInDecode : List (Get Field) :=
  [decode8 .deviceSequenceNumber, decode8 .packetSubType]

def cmdGetDevModeIn : List Field := [.deviceSequenceNumber]

def cmdGetDevModeInEncode : List (Put Field) := [coding8 .deviceSequenceNumber]

def cmdGetDevModeInDecode : List (Get Field) := [decode8 .deviceSequenceNumber]

def cmdGetDevModeOut : List Field := [.deviceMode]

def cmdGetDevModeOutEncode : List (Put Field) := [coding8 .deviceMode]

def cmdGetDevModeOutDecode : List (Get Field) := [decode8 .deviceMode]

def cmdSetDevModeIn : List Field := [.deviceSequenceNumber, .deviceMode]

def cmdSetDevModeInEncode : List (Put Field) := [coding8 .deviceSequenceNumber, coding8 .deviceMode]

def cmdSetDevModeInDecode : List (Get Field) := [decode8 .deviceSequenceNumber, decode8 .deviceMode]

def cmdGetPortSdhMatrixCfgIn : List Field := [.deviceSequenceNumber, .dstPortID, .dstTsID]

def cmdGetPortSdhMatrixCfgInEncode : List (Put Field) :=
  [coding8 .deviceSequenceNumber, coding32 .dstPortID, coding8 .dstTsID]

def cmdGetPortSdhMatrixCfgInDecode : List (Get Field) :=
  [decode8 .deviceSequenceNumber, decode32 .dstPortID, decode8 .dstTsID]

def cmdGetPortSdhMatrixCfgOut : List Field :=
  [.dstPortID, .dstTsID, .srcStmID, .srcTribID, .srcTsID]

def cmdGetPortSdhMatrixCfgOutEncode : List (Put Field) :=
  [coding32 .dstPortID, coding8 .dstTsID, coding8 .srcStmID, coding8 .srcTribID, coding8 .srcTsID]

def cmdGetPortSdhMatrixCfgOutDecode : List (Get Field) :=
  [decode32 .dstPortID, decode8 .dstTsID, decode8 .srcStmID, decode8 .srcTribID, decode8 .srcTsID]

def cmdSetPortSdhMatrixCfgIn : List Field :=
  [.deviceSequenceNumber, .dstPortID, .dstTsID, .srcStmID, .srcTribID, .srcTsID]

def cmdSetPortSdhMatrixCfgInEncode : List (Put Field) :=
  [coding8 .deviceSequenceNumber, coding32 .dstPortID, coding8 .dstTsID, coding8 .srcStmID,
    coding8 .srcTribID, coding8 .srcTsID]

def cmdSetPortSdhMatrixCfgInDecode : List (Get Field) :=
  [decode8 .deviceSequenceNumber, decode32 .dstPortID, decode8 .dstTsID, decode8 .srcStmID,
    decode8 .srcTribID, decode8 .srcTsID]

def cmdGetPortMatrixCfgIn : List Field := [.deviceSequenceNumber, .dstPortID, .dstTsID]

def cmdGetPortMatrixCfgInEncode : List (Put Field) :=
  [coding8 .deviceSequenceNumber, coding32 .dstPortID, coding8 .dstTsID]

def cmdGetPortMatrixCfgInDecode : List (Get Field) :=
  [decode8 .deviceSequenceNumber, decode32 .dstPortID, decode8 .dstTsID]

def cmdGetPortMatrixCfgOut : List Field := [.dstPortID, .dstTsID, .srcPortID, .srcTsID]

def cmdGetPortMatrixCfgOutEncode : List (Put Field) :=
  [coding32 .dstPortID, coding8 .dstTsID, coding32 .srcPortID, coding8 .srcTsID]

def cmdGetPortMatrixCfgOutDecode : List (Get Field) :=
  [decode32 .dstPortID, decode8 .dstTsID, decode32 .srcPortID, decode8 .srcTsID]

def cmdSetPortMatrixCfgIn : List Field :=
  [.deviceSequenceNumber, .dstPortID, .dstTsID, .srcPortID, .srcTsID]

def cmdSetPortMatrixCfgInEncode : List (Put Field) :=
  [coding8 .deviceSequenceNumber, coding32 .dstPortID, coding8 .dstTsID, coding32 .srcPortID,
    coding8 .srcTsID]

def cmdSetPortMatrixCfgInDecode : List (Get Field) :=
  [decode8 .deviceSequenceNumber, decode32 .dstPortID, decode8 .dstTsID, decode32 .srcPortID,
    decode8 .srcTsID]

def cmdDownloadMatrixCfgFileIn : List Field := [.deviceSequenceNumber]

def cmdDownloadMatrixCfgFileInEncode : List (Put Field) := [coding8 .deviceSequenceNumber]

def cmdDownloadMatrixCfgFileInDecode : List (Get Field) := [decode8 .deviceSequenceNumber]

def cmdDownloadMatrixCfgFileOut : List Field :=
  [.ctrlConfigFileTotal, .ctrlConfigFileNum, .ctrlConfigFileFlag, .ctrlConfigFileRe,
    .ctrlConfigFileCrc, .data, .size]

def cmdDownloadMatrixCfgFileOutEncode : List (Put Field) :=
  [coding8 .ctrlConfigFileTotal, coding8 .ctrlConfigFileNum, coding8 .ctrlConfigFileFlag,
    coding8 .ctrlConfigFileRe, coding32 .ctrlConfigFileCrc, coding32 .size, putData]

def cmdDownloadMatrixCfgFileOutDecode : List (Get Field) :=
  [decode8 .ctrlConfigFileTotal, decode8 .ctrlConfigFileNum, decode8 .ctrlConfigFileFlag,
    decode8 .ctrlConfigFileRe, decode32 .ctrlConfigFileCrc, decode32 .size, getData]

def cmdUploadMatrixCfgFileIn : List Field :=
  [.deviceSequenceNumber, .ctrlConfigFileTotal, .ctrlConfigFileNum, .ctrlConfigFileFlag,
    .ctrlConfigFileRe, .ctrlConfigFileCrc, .data, .size]

def cmdUploadMatrixCfgFileInEncode : List (Put Field) :=
  [coding8 .deviceSequenceNumber, coding8 .ctrlConfigFileTotal, coding8 .ctrlConfigFileNum,
    coding8 .ctrlConfigFileFlag, coding8 .ctrlConfigFileRe, coding32 .ctrlConfigFileCrc,
    coding32 .size, putData]

def cmdUploadMatrixCfgFileInDecode : List (Get Field) :=
  [decode8 .deviceSequenceNumber, decode8 .ctrlConfigFileTotal, decode8 .ctrlConfigFileNum,
    decode8 .ctrlConfigFileFlag, decode8 .ctrlConfigFileRe, decode32 .ctrlConfigFileCrc,
    decode32 .size, getData]

def cmdGainScanIn : List Field := [.deviceSequenceNumber, .scanInterval]

def cmdGainScanInEncode : List (Put Field) := [coding8 .deviceSequenceNumber, coding8 .scanInterval]

def cmdGainScanInDecode : List (Get Field) := [decode8 .deviceSequenceNumber, decode8 .scanInterval]

def cmdGainScanOut : List Field :=
  [.ctrlConfigFileTotal, .ctrlConfigFileNum, .ctrlConfigFileFlag, .ctrlConfigFileRe,
    .ctrlConfigFileCrc, .data, .size]

def cmdGainScanOutEncode : List (Put Field) :=
  [coding8 .ctrlConfigFileTotal, coding8 .ctrlConfigFileNum, coding8 .ctrlConfigFileFlag,
    coding8 .ctrlConfigFileRe, coding32 .ctrlConfigFileCrc, coding32 .size, putData]

def cmdGainScanOutDecode : List (Get Field) :=
  [decode8 .ctrlConfigFileTotal, decode8 .ctrlConfigFileNum, decode8 .ctrlConfigFileFlag,
    decode8 .ctrlConfigFileRe, decode32 .ctrlConfigFileCrc, decode32 .size, getData]

def cmdChanScanIn : List Field := [.deviceSequenceNumber, .scanInterval, .scanType, .scanNList]

def cmdChanScanInEncode : List (Put Field) :=
  [coding8 .deviceSequenceNumber, coding8 .scanInterval, coding8 .scanType, coding32 .scanNList]

def cmdChanScanInDecode : List (Get Field) :=
  [decode8 .deviceSequenceNumber, decode8 .scanInterval, decode8 .scanType, decode32 .scanNList]

def cmdChanScanOut : List Field :=
  [.ctrlConfigFileTotal, .ctrlConfigFileNum, .ctrlConfigFileFlag, .ctrlConfigFileRe,
    .ctrlConfigFileCrc, .data, .size]

def cmdChanScanOutEncode : List (Put Field) :=
  [coding8 .ctrlConfigFileTotal, coding8 .ctrlConfigFileNum, coding8 .ctrlConfigFileFlag,
    coding8 .ctrlConfigFileRe, coding32 .ctrlConfigFileCrc, coding32 .size, putData]

def cmdChanScanOutDecode : List (Get Field) :=
  [decode8 .ctrlConfigFileTotal, decode8 .ctrlConfigFileNum, decode8 .ctrlConfigFileFlag,
    decode8 .ctrlConfigFileRe, decode32 .ctrlConfigFileCrc, decode32 .size, getData]

def cmdGetGlobalBertCfgIn : List Field := [.deviceSequenceNumber]

def cmdGetGlobalBertCfgInEncode : List (Put Field) := [coding8 .deviceSequenceNumber]

def cmdGetGlobalBertCfgInDecode : List (Get Field) := [decode8 .deviceSequenceNumber]

def cmdGetGlobalBertCfgOut : List Field :=
  [.bertStatus, .bertDir, .bertTSList, .bertPattern, .bertInverted, .bertErrorRate]

def cmdGetGlobalBertCfgOutEncode : List (Put Field) :=
  [coding8 .bertStatus, coding8 .bertDir, coding8 .bertTSList, coding8 .bertPattern,
    coding8 .bertInverted, coding8 .bertErrorRate]

def cmdGetGlobalBertCfgOutDecode : List (Get Field) :=
  [decode8 .bertStatus, decode8 .bertDir, decode8 .bertTSList, decode8 .bertPattern,
    decode8 .bertInverted, decode8 .bertErrorRate]

def cmdSetGlobalBertCfgIn : List Field :=
  [.deviceSequenceNumber, .bertStatus, .bertDir, .bertTSList, .bertPattern, .bertInverted,
    .bertErrorRate]

def cmdSetGlobalBertCfgInEncode : List (Put Field) :=
  [coding8 .deviceSequenceNumber, coding8 .bertStatus, coding8 .bertDir, coding8 .bertTSList,
    coding8 .bertPattern, coding8 .bertInverted, coding8 .bertErrorRate]

def cmdSetGlobalBertCfgInDecode : List (Get Field) :=
  [decode8 .deviceSequenceNumber, decode8 .bertStatus, decode8 .bertDir, decode8 .bertTSList,
    decode8 .bertPattern, decode8 .bertInverted, decode8 .bertErrorRate]

def cmdGetBertCfgIn : List Field := [.deviceSequenceNumber, .portID]

def cmdGetBertCfgInEncode : List (Put Field) := [coding8 .deviceSequenceNumber, coding32 .portID]

def cmdGetBertCfgInDecode : List (Get Field) := [decode8 .deviceSequenceNumber, decode32 .portID]

def cmdGetBertCfgOut : List Field :=
  [.portID, .bertStatus, .bertDir, .bertTSList, .bertPattern, .bertInverted, .bertErrorRate]

def cmdGetBertCfgOutEncode : List (Put Field) :=
  [coding32 .portID, coding8 .bertStatus, coding8 .bertDir, coding8 .bertTSList,
    coding8 .bertPattern, coding8 .bertInverted, coding8 .bertErrorRate]

def cmdGetBertCfgOutDecode : List (Get Field) :=
  [decode32 .portID, decode8 .bertStatus, decode8 .bertDir, decode8 .bertTSList,
    decode8 .bertPattern, decode8 .bertInverted, decode8 .bertErrorRate]

def cmdSetBertCfgIn : List Field :=
  [.deviceSequenceNumber, .portID, .bertStatus, .bertDir, .bertTSList, .bertPattern, .bertInverted,
    .bertErrorRate]

def cmdSetBertCfgInEncode : List (Put Field) :=
  [coding8 .deviceSequenceNumber, coding32 .portID, coding8 .bertStatus, coding8 .bertDir,
    coding8 .bertTSList, coding8 .bertPattern, coding8 .bertInverted, coding8 .bertErrorRate]

def cmdSetBertCfgInDecode : List (Get Field) :=
  [decode8 .deviceSequenceNumber, decode32 .portID, decode8 .bertStatus, decode8 .bertDir,
    decode8 .bertTSList, decode8 .bertPattern, decode8 .bertInverted, decode8 .bertErrorRate]

def cmdDelBertCfgIn : List Field := [.deviceSequenceNumber, .portID]

def cmdDelBertCfgInEncode : List (Put Field) := [coding8 .deviceSequenceNumber, coding32 .portID]

def cmdDelBertCfgInDecode : List (Get Field) := [decode8 .deviceSequenceNumber, decode32 .portID]

def cmdStartPrbsIn : List Field := [.deviceSequenceNumber]

def cmdStartPrbsInEncode : List (Put Field) := [coding8 .deviceSequenceNumber]

def cmdStartPrbsInDecode : List (Get Field) := [decode8 .deviceSequenceNumber]

def cmdStopPrbsIn : List Field := [.deviceSequenceNumber]

def cmdStopPrbsInEncode : List (Put Field) := [coding8 .deviceSequenceNumber]

def cmdStopPrbsInDecode : List (Get Field) := [decode8 .deviceSequenceNumber]

def cmdInsertErrorIn : List Field := [.deviceSequenceNumber, .bertErrors]

def cmdInsertErrorInEncode : List (Put Field) :=
  [coding8 .deviceSequenceNumber, coding32 .bertErrors]

def cmdInsertErrorInDecode : List (Get Field) :=
  [decode8 .deviceSequenceNumber, decode32 .bertErrors]

def cmdSysRebootIn : List Field := [.deviceSequenceNumber]

def cmdSysRebootInEncode : List (Put Field) := [coding8 .deviceSequenceNumber]

def cmdSysRebootInDecode : List (Get Field) := [decode8 .deviceSequenceNumber]

def cmdSysStartIn : List Field := [.deviceSequenceNumber]

def cmdSysStartInEncode : List (Put Field) := [coding8 .deviceSequenceNumber]

def cmdSysStartInDecode : List (Get Field) := [decode8 .deviceSequenceNumber]

def cmdSysStopIn : List Field := [.deviceSequenceNumber]

def cmdSysStopInEncode : List (Put Field) := [coding8 .deviceSequenceNumber]

def cmdSysStopInDecode : List (Get Field) := [decode8 .deviceSequenceNumber]

def cmdSysFirmwareUpgradeIn : List Field :=
  [.deviceSequenceNumber, .ctrlConfigFileTotal, .ctrlConfigFileNum, .ctrlConfigFileFlag,
    .ctrlConfigFileRe, .ctrlConfigFileCrc, .data, .size]

def cmdSysFirmwareUpgradeInEncode : List (Put Field) :=
  [coding8 .deviceSequenceNumber, coding8 .ctrlConfigFileTotal, coding8 .ctrlConfigFileNum,
    coding8 .ctrlConfigFileFlag, coding8 .ctrlConfigFileRe, coding32 .ctrlConfigFileCrc,
    coding32 .size, putData]

def cmdSysFirmwareUpgradeInDecode : List (Get Field) :=
  [decode8 .deviceSequenceNumber, decode8 .ctrlConfigFileTotal, decode8 .ctrlConfigFileNum,
    decode8 .ctrlConfigFileFlag, decode8 .ctrlConfigFileRe, decode32 .ctrlConfigFileCrc,
    decode32 .size, getData]

def cmdGetSysResRepIn : List Field := [.deviceSequenceNumber]

def cmdGetSysResRepInEncode : List (Put Field) := [coding8 .deviceSequenceNumber]

def cmdGetSysResRepInDecode : List (Get Field) := [decode8 .deviceSequenceNumber]

def cmdGetSysResRepOut : List Field :=
  [.sysInfoCPU, .sysInfoMemory, .sysInfoFilesystem, .sysInfoProcess, .data, .size]

def cmdGetSysResRepOutEncode : List (Put Field) :=
  [coding32 .sysInfoCPU, coding32 .sysInfoMemory, coding32 .sysInfoFilesystem,
    coding32 .sysInfoProcess, coding32 .size]

def cmdGetSysResRepOutDecode : List (Get Field) :=
  [decode32 .sysInfoCPU, decode32 .sysInfoMemory, decode32 .sysInfoFilesystem,
    decode32 .sysInfoProcess, decode32 .size]

def cmdGetLineStatInfoIn : List Field :=
  [.deviceSequenceNumber, .stmID, .statusReportInterval, .statusReportCount]

def cmdGetLineStatInfoInEncode : List (Put Field) :=
  [coding8 .deviceSequenceNumber, coding8 .stmID, coding32 .statusReportInterval,
    coding32 .statusReportCount]

def cmdGetLineStatInfoInDecode : List (Get Field) :=
  [decode8 .deviceSequenceNumber, decode8 .stmID, decode32 .statusReportInterval,
    decode32 .statusReportCount]

def cmdGetLineStatInfoOut : List Field :=
  [.stmID, .sdhAlarmLine, .sdhAlarmHP, .sdhAlarmLP, .sdhStatisticsRsBip, .sdhStatisticsMsBip,
    .sdhStatisticsMsRei, .sdhStatisticsPje, .sdhStatisticsNje, .sdhStatisticsBip, .sdhStatisticsRei]

def cmdGetLineStatInfoOutEncode : List (Put Field) :=
  [coding8 .stmID, coding32 .sdhAlarmLine, coding32 .sdhAlarmHP, coding32 .sdhAlarmLP,
    coding32 .sdhStatisticsRsBip, coding32 .sdhStatisticsMsBip, coding32 .sdhStatisticsMsRei,
    coding32 .sdhStatisticsPje, coding32 .sdhStatisticsNje, coding32 .sdhStatisticsBip,
    coding32 .sdhStatisticsRei]

def cmdGetLineStatInfoOutDecode : List (Get Field) :=
  [decode8 .stmID, decode32 .sdhAlarmLine, decode32 .sdhAlarmHP, decode32 .sdhAlarmLP,
    decode32 .sdhStatisticsRsBip, decode32 .sdhStatisticsMsBip, decode32 .sdhStatisticsMsRei,
    decode32 .sdhStatisticsPje, decode32 .sdhStatisticsNje, decode32 .sdhStatisticsBip]

def cmdClrLineStatInfoIn : List Field := [.deviceSequenceNumber, .stmID]

def cmdClrLineStatInfoInEncode : List (Put Field) := [coding8 .deviceSequenceNumber, coding8 .stmID]

def cmdClrLineStatInfoInDecode : List (Get Field) := [decode8 .deviceSequenceNumber, decode8 .stmID]

def cmdGetPortStatInfoIn : List Field :=
  [.deviceSequenceNumber, .portID, .statusReportInterval, .statusReportCount]

def cmdGetPortStatInfoInEncode : List (Put Field) :=
  [coding8 .deviceSequenceNumber, coding32 .portID, coding32 .statusReportInterval,
    coding32 .statusReportCount]

def cmdGetPortStatInfoInDecode : List (Get Field) :=
  [decode8 .deviceSequenceNumber, decode32 .portID, decode32 .statusReportInterval,
    decode32 .statusReportCount]

def cmdGetPortStatInfoOut : List Field :=
  [.portID, .portAlarm, .portStatisticsLcvc, .portStatisticsPcvc, .portStatisticsFosc,
    .portStatisticsEbc, .portStatisticsBertBbc, .portStatisticsBertBec]

def cmdGetPortStatInfoOutEncode : List (Put Field) :=
  [coding32 .portID, coding32 .portAlarm, coding32 .portStatisticsLcvc,
    coding32 .portStatisticsPcvc, coding32 .portStatisticsFosc, coding32 .portStatisticsEbc,
    coding32 .portStatisticsBertBbc, coding32 .portStatisticsBertBec]

def cmdGetPortStatInfoOutDecode : List (Get Field) :=
  [decode32 .portID, decode32 .portAlarm, decode32 .portStatisticsLcvc,
    decode32 .portStatisticsPcvc, decode32 .portStatisticsFosc, decode32 .portStatisticsEbc,
    decode32 .portStatisticsBertBbc, decode32 .portStatisticsBertBec]

def cmdClrPortStatInfoIn : List Field := [.deviceSequenceNumber, .portID]

def cmdClrPortStatInfoInEncode : List (Put Field) :=
  [coding8 .deviceSequenceNumber, coding32 .portID]

def cmdClrPortStatInfoInDecode : List (Get Field) :=
  [decode8 .deviceSequenceNumber, decode32 .portID]

def cmdStartPfmTestIn : List Field := [.deviceSequenceNumber, .performanceTestType]

def cmdStartPfmTestInEncode : List (Put Field) :=
  [coding8 .deviceSequenceNumber, coding8 .performanceTestType]

def cmdStartPfmTestInDecode : List (Get Field) :=
  [decode8 .deviceSequenceNumber, decode8 .performanceTestType]

def cmdGetPortPfmResultIn : List Field :=
  [.deviceSequenceNumber, .performanceTestType, .portID, .statusReportInterval, .statusReportCount]

def cmdGetPortPfmResultInEncode : List (Put Field) :=
  [coding8 .deviceSequenceNumber, coding8 .performanceTestType, coding32 .portID,
    coding32 .statusReportInterval, coding32 .statusReportCount]

def cmdGetPortPfmResultInDecode : List (Get Field) :=
  [decode8 .deviceSequenceNumber, decode8 .performanceTestType, decode32 .portID,
    decode32 .statusReportInterval, decode32 .statusReportCount]

def cmdGetPortPfmResultOut : List Field := [.performanceTestType, .portID, .performanceTestResult]

def cmdGetPortPfmResultOutEncode : List (Put Field) :=
  [coding8 .performanceTestType, coding32 .portID]

def cmdGetPortPfmResultOutDecode : List (Get Field) :=
  [decode8 .performanceTestType, decode32 .portID]

def cmdStopPfmTestIn : List Field := [.deviceSequenceNumber, .performanceTestType]

def cmdStopPfmTestInEncode : List (Put Field) :=
  [coding8 .deviceSequenceNumber, coding8 .performanceTestType]

def cmdStopPfmTestInDecode : List (Get Field) :=
  [decode8 .deviceSequenceNumber, decode8 .performanceTestType]

def cmdGetChCfgIn : List Field := [.deviceSequenceNumber, .channelID]

def cmdGetChCfgInEncode : List (Put Field) := [coding8 .deviceSequenceNumber, coding32 .channelID]

def cmdGetChCfgInDecode : List (Get Field) := [decode8 .deviceSequenceNumber, decode32 .channelID]

def cmdGetChCfgOut : List Field :=
  [.channelID, .channleType, .channelPortID, .channelTS, .channelTSCount, .channelTSList]

def cmdGetChCfgOutEncode : List (Put Field) :=
  [coding32 .channelID, coding8 .channleType, coding32 .channelPortID, coding8 .channelTS,
    coding8 .channelTSCount, coding32 .channelTSList]

def cmdGetChCfgOutDecode : List (Get Field) :=
  [decode32 .channelID, decode8 .channleType, decode32 .channelPortID, decode8 .channelTS,
    decode8 .channelTSCount, decode32 .channelTSList]

def cmdGetChStatInfoIn : List Field := [.deviceSequenceNumber, .channelID]

def cmdGetChStatInfoInEncode : List (Put Field) :=
  [coding8 .deviceSequenceNumber, coding32 .channelID]

def cmdGetChStatInfoInDecode : List (Get Field) :=
  [decode8 .deviceSequenceNumber, decode32 .channelID]

def cmdGetChStatInfoOut : List Field :=
  [.channelID, .channelAlarm, .channelStatisticsRframes, .channelStatisticsRbytes,
    .channelStatisticsTframes, .channelStatisticsTbytes, .channelStatisticsRbufFullFrames,
    .channelStatisticsRbufFullBytes, .channelStatisticsLl, .channelStatisticsFisu,
    .channelStatisticsLssu, .channelStatisticsMsu, .channelStatisticsFsnHop,
    .channelStatisticsFsnDup, .channelStatisticsLg, .channelStatisticsNo, .channelStatisticsAb,
    .channelStatisticsCr]

def cmdGetChStatInfoOutEncode : List (Put Field) :=
  [coding32 .channelID, coding32 .channelAlarm, coding32 .channelStatisticsRframes,
    coding32 .channelStatisticsRbytes, coding32 .channelStatisticsTframes,
    coding32 .channelStatisticsTbytes, coding32 .channelStatisticsRbufFullFrames,
    coding32 .channelStatisticsRbufFullBytes, coding32 .channelStatisticsLl,
    coding32 .channelStatisticsFisu, coding32 .channelStatisticsLssu,
    coding32 .channelStatisticsMsu, coding32 .channelStatisticsFsnHop,
    coding32 .channelStatisticsFsnDup, coding32 .channelStatisticsLg, coding32 .channelStatisticsNo,
    coding32 .channelStatisticsAb, coding32 .channelStatisticsCr]

def cmdGetChStatInfoOutDecode : List (Get Field) :=
  [decode32 .channelID, decode32 .channelAlarm, decode32 .channelStatisticsRframes,
    decode32 .channelStatisticsRbytes, decode32 .channelStatisticsTframes,
    decode32 .channelStatisticsTbytes, decode32 .channelStatisticsRbufFullFrames,
    decode32 .channelStatisticsRbufFullBytes, decode32 .channelStatisticsLl,
    decode32 .channelStatisticsFisu, decode32 .channelStatisticsLssu,
    decode32 .channelStatisticsMsu, decode32 .channelStatisticsFsnHop,
    decode32 .channelStatisticsFsnDup, decode32 .channelStatisticsLg, decode32 .channelStatisticsNo,
    decode32 .channelStatisticsAb, decode32 .channelStatisticsCr]

def cmdClrChStatInfoIn : List Field := [.deviceSequenceNumber, .channelID]

def cmdClrChStatInfoInEncode : List (Put Field) :=
  [coding8 .deviceSequenceNumber, coding32 .channelID]

def cmdClrChStatInfoInDecode : List (Get Field) :=
  [decode8 .deviceSequenceNumber, decode32 .channelID]

def cmdGetRawDataIn : List Field := [.cdrID, .starttime]

def cmdGetRawDataInEncode : List (Put Field) := [coding32 .starttime, coding32 .cdrID]

def cmdGetRawDataInDecode : List (Get Field) := [decode32 .starttime, decode32 .cdrID]

def cmdGetRawDataOut : List Field := [.cdrID, .starttime, .data, .size, .pktnum]

def cmdGetRawDataOutEncode : List (Put Field) := [coding32 .pktnum, coding32 .size, putData]

def cmdGetRawDataOutDecode : List (Get Field) := [decode32 .pktnum, decode32 .size, getData]

def cmdGetRtVoiceIn : List Field := [.cmdType, .deviceID, .channelID, .subchID]

def cmdGetRtVoiceInEncode : List (Put Field) :=
  [coding8 .cmdType, coding16 .deviceID, coding32 .channelID, coding32 .subchID]

def cmdGetRtVoiceInDecode : List (Get Field) :=
  [decode8 .cmdType, decode16 .deviceID, decode32 .channelID, decode32 .subchID]

def cmdGetRtVoiceOut : List Field := [.cmdType, .deviceID, .channelID, .subchID, .data, .size]

def cmdGetRtVoiceOutEncode : List (Put Field) :=
  [coding8 .cmdType, coding16 .deviceID, coding32 .channelID, coding32 .subchID, coding32 .size,
    putData]

def cmdGetRtVoiceOutDecode : List (Get Field) :=
  [decode8 .cmdType, decode16 .deviceID, decode32 .channelID, decode32 .subchID, decode32 .size,
    getData]

def cmdGetCallTraceIn : List Field := [.cmdtype, .maxcdr, .data, .size]

def cmdGetCallTraceInEncode : List (Put Field) :=
  [coding8 .cmdtype, coding32 .maxcdr, coding32 .size, putData]

def cmdGetCallTraceInDecode : List (Get Field) :=
  [decode8 .cmdtype, decode32 .maxcdr, decode32 .size, getDataPos]

def cmdGetCallTraceOut : List Field :=
  [.cmdtype, .cdrID, .cdrStartTime, .cdrtype, .cdrflag, .data, .size, .pktseqnum]

def cmdGetCallTraceOutEncode : List (Put Field) :=
  [coding8 .cmdtype, coding32 .cdrID, coding32 .cdrStartTime, coding32 .cdrtype, coding32 .cdrflag,
    coding32 .pktseqnum, coding32 .size, putData]

def cmdGetCallTraceOutDecode : List (Get Field) :=
  [decode8 .cmdtype, decode32 .cdrID, decode32 .cdrStartTime, decode32 .cdrtype, decode32 .cdrflag,
    decode32 .pktseqnum, decode32 .size, getDataPos]

end OiAmc.Pktcmd

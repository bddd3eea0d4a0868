import OiAmc.RamRoundTrip
import OiAmc.TryResult
import OiAmc.OldGroupsRun
import OiAmc.CascadeFresh
import OiAmc.CascadeSeparation
import OiAmc.GrpsmPartition
import OiAmc.GrpsmReuse
import OiAmc.GrpsmRecord
import OiAmc.GrpsmLevels
import OiAmc.SwimaIsolation
import OiAmc.SwimaChains
import OiAmc.SwimaFrames
import OiAmc.ScanOpen
import OiAmc.ImascanAccept
import OiAmc.SwtcDelineate
import OiAmc.Filter
import OiAmc.FilterCodec
import OiAmc.RbufAccount
import OiAmc.TimerCalls
import OiAmc.ImascanPlace
import OiAmc.RbufQueue
import OiAmc.CssockFraming
import OiAmc.CssockCarry
import OiAmc.PfifoQueue
import OiAmc.PktQueueOrder
import OiAmc.PktAccess
import OiAmc.Bufmgr
import OiAmc.HashtblRefine
import OiAmc.SlinkSessions
import OiAmc.PktcmdOwnership
import OiAmc.ImacfgLinks
import OiAmc.ImacfgSafety
import OiAmc.FifoShared
import OiAmc.UtimerDelivery
import OiAmc.BoardsMirror
import OiAmc.NmStore
import OiAmc.NmLists
import OiAmc.LkmpGate
import OiAmc.LkmpDevice
import OiAmc.SilenceTable
import OiAmc.PstackOwn
import OiAmc.FpgamifLock
import OiAmc.SnmpLocks
import OiAmc.PspSafety
import OiAmc.GrpsmCartesian
import OiAmc.GrpsmLcas
import OiAmc.ImascanLimit
import OiAmc.SwtcDescramble
import OiAmc.FilterCopy
import OiAmc.CombineBits
import OiAmc.DecodeBit7
import OiAmc.Algorithm
import OiAmc.SwtcHeader
import OiAmc.PfifoRollback
import OiAmc.PktQueueMemory
import OiAmc.CascadeHistory
import OiAmc.ImascanBounds
import OiAmc.FilterRoom
import OiAmc.SdhMapping
import OiAmc.BdCfginfo
import OiAmc.CconfigHandle
import OiAmc.CconfigReload
import OiAmc.SdhGfp
import OiAmc.AgingFile
import OiAmc.CascadeTables
import OiAmc.Cgiparse
import OiAmc.CgiMultipart
import OiAmc.Archive
import OiAmc.PayloadTree
import OiAmc.SwitchUndo
import OiAmc.FpgadrvCfg
import OiAmc.Gfplib
import OiAmc.PktFile
import OiAmc.LinkmapUpload
import OiAmc.LkmpStat
import OiAmc.LkmpTrap
import OiAmc.NmSwitchCmd
import OiAmc.Upgcli
import OiAmc.RedBlack
import OiAmc.RedBlackBalance
import OiAmc.RbtreeMem
import OiAmc.RbtreeHolds
import OiAmc.RbtreeInsert
import OiAmc.RbtreeErase
import OiAmc.RbtreeWalks
import OiAmc.UtimerTree
import OiAmc.CssockPair
import OiAmc.FilterCfg
import OiAmc.TreeHeights

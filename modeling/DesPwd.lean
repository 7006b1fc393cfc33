import DesPwd.L1Encoding.OiBmh
import DesPwd.L1Encoding.PacketMake
import DesPwd.L1Encoding.PbFrame
import DesPwd.L1Encoding.AttrDay
import DesPwd.L4App.AgentAttrRun
import DesPwd.L4App.AgentStrAttr
import DesPwd.L4App.ShmLog
import DesPwd.L4App.RemoteShmLog
import DesPwd.L4App.AttrDbRun
import DesPwd.L4App.LogConfigCheck
import DesPwd.L4App.WarnValue
import DesPwd.L2Machine.StrAttrTotals
import DesPwd.L4App.LogFreq
import DesPwd.L4App.LogFiles
import DesPwd.L4App.LogText
import DesPwd.L4App.LogComplete
import DesPwd.L4App.LogSearchEnd
import DesPwd.L4App.RealTimeLog
import DesPwd.L1Encoding.LogCust
import DesPwd.L5Concurrency.AppLogRing
import DesPwd.L4App.AttrTable
import DesPwd.L4App.AccessServer
import DesPwd.L4App.AgentDispatch
import DesPwd.L4App.MtClient
import DesPwd.L4App.ReportAuth
import DesPwd.L4App.AttrServer
import DesPwd.L4App.StrAttrDb
import DesPwd.L4App.StrAttrDecode
import DesPwd.L4App.StrAttrSend
import DesPwd.L4App.LogServer
import DesPwd.L4App.LogSpace
import DesPwd.L4App.PluginReport
import DesPwd.L3Protocol.AckLoop
import DesPwd.L3Protocol.AgentReport
import DesPwd.L1Encoding.BasicPacket
import DesPwd.L4App.Migration
import DesPwd.L2Machine.TimerWheelFire
import DesPwd.Core.RingFamily
import DesPwd.L2Machine.LogRing
import DesPwd.Core.Circular
import DesPwd.L2Machine.SharedHashCheck
import DesPwd.L2Machine.SharedHashSort
import DesPwd.Core.Ring
import DesPwd.L5Concurrency.VmemRead
import DesPwd.L2Machine.VmemRoom

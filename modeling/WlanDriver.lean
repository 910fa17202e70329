import WlanDriver.Aggr.Conservation
import WlanDriver.Bridge.Activation
import WlanDriver.Bridge.AddressCache
import WlanDriver.Bridge.DropAccounting
import WlanDriver.Bridge.Keepalive
import WlanDriver.Bridge.PeerRef
import WlanDriver.Bridge.ReadinessEdge
import WlanDriver.Bridge.SelfTraffic
import WlanDriver.Bridge.SwitchProgram
import WlanDriver.Cmd.ConfigBlocks
import WlanDriver.Cmd.IoctlOnce
import WlanDriver.Cmd.PowerMode
import WlanDriver.Cmd.Supervision
import WlanDriver.Dfs.ChanReport
import WlanDriver.Dfs.DomainCommand
import WlanDriver.Dfs.NonOccupancy
import WlanDriver.Join.AssocCommand
import WlanDriver.Join.FindIe
import WlanDriver.Misc.IeMemory
import WlanDriver.Misc.IeTables
import WlanDriver.Misc.WakeEntries
import WlanDriver.Pcie.RxRing
import WlanDriver.Pcie.TxRing
import WlanDriver.Radar.NewChannel
import WlanDriver.Radar.Unwedged
import WlanDriver.Relay.MgmtFrame
import WlanDriver.Reorder.BaSync
import WlanDriver.Reorder.Bitmap
import WlanDriver.Reorder.Order
import WlanDriver.Reorder.SlotIndex
import WlanDriver.Rtt.HalResults
import WlanDriver.Rx.AmsduAgreement
import WlanDriver.Rx.Budget
import WlanDriver.Rx.ForwardCopy
import WlanDriver.Scan.Attempt
import WlanDriver.Scan.CommandTlvs
import WlanDriver.Scan.Inheritance
import WlanDriver.Scan.Removal
import WlanDriver.Scan.Uniqueness
import WlanDriver.Sdio.Completion
import WlanDriver.Sdio.FwDownload
import WlanDriver.Sdio.RxBuffers
import WlanDriver.Sdio.RxHeader
import WlanDriver.Sdio.SpaBuffer
import WlanDriver.Shim.RxPressure
import WlanDriver.Shim.SleepHandshake
import WlanDriver.Shim.TxFlow
import WlanDriver.Tcp.AckRuns
import WlanDriver.Usb.FwDownload
import WlanDriver.Usb.RxDeaggr
import WlanDriver.Usb.TxAggr
import WlanDriver.Wmm.BaStreams
import WlanDriver.Wmm.Contention
import WlanDriver.Wmm.Links
import WlanDriver.Wmm.SetupPriorities
import WlanDriver.Wmm.TdlsEvents

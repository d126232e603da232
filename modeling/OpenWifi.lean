import OpenWifi.CapwapHash.Shape
import OpenWifi.CapwapProtocol.Fragmentation
import OpenWifi.AcSession.Retransmission
import OpenWifi.AcSession.Responses
import OpenWifi.AcSession.Admission
import OpenWifi.AcSession.Join
import OpenWifi.AcSession.Roaming
import OpenWifi.Kmod.RoundTrip
import OpenWifi.Kmod.Sessions
import OpenWifi.Ericstools.Deque
import OpenWifi.CapwapTimeout.Early
import OpenWifi.AcSession.Notifications
import OpenWifi.AcSession.Ownership
import OpenWifi.CapwapElement.Binding
import OpenWifi.AcSession.Teardown
import OpenWifi.OpenCapwap.AcRetransmission
import OpenWifi.OpenCapwap.PendingBoxes
import OpenWifi.OpenCapwap.TimerLib
import OpenWifi.OpenCapwap.Slots
import OpenWifi.Bwctl.Restore
import OpenWifi.Bwctl.Semaphore
import OpenWifi.IpsetLists.Merger
import OpenWifi.OpenCapwap.WtpStations
import OpenWifi.OpenCapwap.Closing
import OpenWifi.OpenCapwap.JoinResponse
import OpenWifi.Ericstools.StableQueue
import OpenWifi.Ericstools.Splitting
import OpenWifi.Ericstools.StringMap
import OpenWifi.FirewallUtil.RuleMeaning
import OpenWifi.FirewallUtil.QuotaIds
import OpenWifi.FirewallUtil.QuotedList
import OpenWifi.WifiPortal.Trusted
import OpenWifi.CapwapElement.ReadSafety
import OpenWifi.CapwapProtocol.HeaderEditing
import OpenWifi.Kmod.KeepAlive
import OpenWifi.MtkNvram.ReadOnly
import OpenWifi.AcBackend.Base64
import OpenWifi.AcBackend.Lists
import OpenWifi.OpenCapwap.Tunnel
import OpenWifi.OpenCapwap.PathMtu
import OpenWifi.AcSession.KernelWlans
import OpenWifi.Wificonf.Tokens
import OpenWifi.CapwapProtocol.Network
import OpenWifi.CapwapTimeout.Bookkeeping
import OpenWifi.QosMon.Filter

import Inet4.Icn.DelayQueueRuns
import Inet4.Icn.ClusterRuns
import Inet4.Icn.DataDelivery
import Inet4.Icn.Aggregation
import Inet4.Icn.Fragmentation
import Inet4.Pccp.Feedback
import Inet4.Pccp.IdleTime
import Inet4.Pccp.Retransmissions
import Inet4.Fap.Timers
import Inet4.Fap.Uniqueness
import Inet4.Fap.UsableAddresses
import Inet4.Fap.FilterTransfer
import Inet4.Packet.SlicePeek
import Inet4.Packet.SequenceItems
import Inet4.Packet.RegionTags
import Inet4.Tcp.SendLoops
import Inet4.Tcp.NextSeg
import Inet4.Tcp.SackOption
import Inet4.Tcp.TcpSendQueue
import Inet4.Tcp.ReceiveQueueRuns
import Inet4.Tcp.ReceiveWindow
import Inet4.Ipv4.FragBufRuns
import Inet4.Ieee80211.BlockAckWindow
import Inet4.Ieee80211.QosRecoveryProcedure
import Inet4.Ieee80211.BlockAckReqRelease
import Inet4.Ieee80211.BlockAckRuns
import Inet4.Ieee80211.ReassemblyRuns
import Inet4.Ieee80211.DuplicateRuns
import Inet4.Ieee80211.MsduAggregation
import Inet4.Sctp.GapListRuns
import Inet4.Sctp.ReceiveStreamRuns
import Inet4.Aodv.DiscoveryRuns
import Inet4.Dsdv.Floods
import Inet4.Rip.Exchanges
import Inet4.Rip.RouteLife
import Inet4.Tcp.DataTransfer
import Inet4.Tcp.HeaderSerializer
import Inet4.Ipv4.HeaderSerializer
import Inet4.Ieee8021d.StpConvergence
import Inet4.Dhcp.ServerRuns
import Inet4.Udp.DemultiplexingRuns
import Inet4.Udp.SourceFilters
import Inet4.EthernetSwitch.RelayRuns
import Inet4.Ipv6.RoutingTableRuns
import Inet4.Icn.PendingTableLifetimes
import Inet4.Icn.RoutingTableRuns
import Inet4.Icn.Overhearing
import Inet4.Udp.Integrity
import Inet4.Ted.Convergence
import Inet4.Bgp.ArrivalOrder
import Inet4.Queueing.WrrScheduler
import Inet4.Tcp.NewReno

import LarsSystem.ChunkIndependence
import LarsSystem.FramingSafety
import LarsSystem.MessageRoundTrip
import LarsSystem.ReconnectBoundary
import LarsSystem.ConnectionState
import LarsSystem.LoadBalanceInvariant
import LarsSystem.PushDelivery
import LarsSystem.MonitorFailure
import LarsSystem.SendAtomicity
import LarsSystem.RouteAnswer
import LarsSystem.ClientSubscription
import LarsSystem.PushTarget
import LarsSystem.HostHysteresis
import LarsSystem.ProbeCadence
import LarsSystem.ReportStore
import LarsSystem.BufferOwnership
import LarsSystem.RoutePull
import LarsSystem.RouteCoverage
import LarsSystem.ThreadQueue
import LarsSystem.RouteSnapshot
import LarsSystem.RequestOrder
import LarsSystem.UdpMessage
import LarsSystem.WriteInterest
import LarsSystem.ConnectionTable
import LarsSystem.LarsApi
import LarsSystem.ShardIndex
import LarsSystem.HostCredit
import LarsSystem.UpdateHosts
import LarsSystem.Noninterference
import LarsSystem.RouteIsolation
import LarsSystem.OutputQueue
import LarsSystem.ReadBounds
import LarsSystem.MemoryAccount
import LarsSystem.InterestTable
import LarsSystem.ReadyTasks
import LarsSystem.RateDecisions
import LarsSystem.DatagramDispatch
import LarsSystem.DatagramRoom
import LarsSystem.HostCalls
import LarsSystem.AddressText
import LarsSystem.TextRuns
import LarsSystem.ConfigFile
import LarsSystem.StringList
import LarsSystem.ConfigGrammar
import LarsSystem.DescriptorTable
import LarsSystem.ClientDescriptors
import LarsSystem.WireFormat
import LarsSystem.Varint
import LarsSystem.LarsWire
import LarsSystem.LarsMessage
import LarsSystem.LarsTraffic
import LarsSystem.EventRounds
import LarsSystem.ListedHosts
import LarsSystem.RouteReads
import LarsSystem.ReadsForward
import LarsSystem.HostQueues
import LarsSystem.ReportFlow
import LarsSystem.ConfigRoundTrip
import LarsSystem.PoolShares
import LarsSystem.ChangeNotices
import LarsSystem.PushComing
import LarsSystem.RouteUpdates
import LarsSystem.UpToDate

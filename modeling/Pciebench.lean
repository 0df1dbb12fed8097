import Pciebench.TransactionPlacement
import Pciebench.RoundRobin
import Pciebench.BwCompletion
import Pciebench.DescriptorAddress
import Pciebench.LatencyCoverage
import Pciebench.CheckSufficiency
import Pciebench.WarmCache
import Pciebench.DeviceWarm
import Pciebench.ChunkLog2
import Pciebench.TransferSize
import Pciebench.Handshake
import Pciebench.HandshakeRuns
import Pciebench.NpbLeakFree
import Pciebench.BwSequence
import Pciebench.WakeChain
import Pciebench.RequestedTest
import Pciebench.MainPass
import Pciebench.BufFile
import Pciebench.NpbPages
import Pciebench.Percentile
import Pciebench.ScanBound
import Pciebench.DescriptorRoundTrip
import Pciebench.SoftDivision
import Pciebench.UaSet64
import Pciebench.PcieSync
import Pciebench.LatReport
import Pciebench.HostSafety
import Pciebench.LatencyJournal
import Pciebench.CacheLabel
import Pciebench.BwReport
import Pciebench.IslandRequests
import Pciebench.BufRuns
import Pciebench.NpbModule
import Pciebench.AddrText
import Pciebench.RunTest
import Pciebench.TableWriter
import Pciebench.LatDetails
import Pciebench.LatSession
import Pciebench.DescriptorNfp3200

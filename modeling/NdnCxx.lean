import NdnCxx.Encoding.Oid
import NdnCxx.Name.Comparison
import NdnCxx.Name.ComponentTypes
import NdnCxx.Name.SubrangeComparison
import NdnCxx.Regex.ExpandStrings
import NdnCxx.Packet.Matching
import NdnCxx.Packet.SelectedDelegation
import NdnCxx.Packet.WireIntegers
import NdnCxx.Packet.SharedNonce
import NdnCxx.Packet.StoredPackets
import NdnCxx.Lp.PacketRoundTrip
import NdnCxx.Lp.PacketWriter
import NdnCxx.Storage.EvictionOrder
import NdnCxx.Storage.Freshness
import NdnCxx.Storage.Erasure
import NdnCxx.Storage.Shrinking
import NdnCxx.Security.PolicyDecision
import NdnCxx.Security.PibContract
import NdnCxx.Security.PibRefinement
import NdnCxx.Security.ValidatorProgress
import NdnCxx.Security.SecRuleRelative
import NdnCxx.Security.HierarchicalChecker
import NdnCxx.Security.CertificateCacheTtl
import NdnCxx.Security.ValidityPeriod
import NdnCxx.Security.OptionalCache
import NdnCxx.Security.CommandInterestRuns
import NdnCxx.Security.KeyChainPackets
import NdnCxx.Transport.Reassembly
import NdnCxx.Transport.Transmission
import NdnCxx.Util.SegmentOrder
import NdnCxx.Util.SchedulerOrder
import NdnCxx.Util.SegmentTermination
import NdnCxx.Util.SignalRuns
import NdnCxx.Util.NotificationRuns
import NdnCxx.Util.CanonicalUri
import NdnCxx.Util.LoggerFactory
import NdnCxx.Util.SegmentNumbers
import NdnCxx.Face.Processing
import NdnCxx.Face.Unregistration
import NdnCxx.Mgmt.DatasetSegments
import NdnCxx.Mgmt.DispatcherRuns
import NdnCxx.Mgmt.Entries
import NdnCxx.Mgmt.ControllerReplies
import NdnCxx.Mgmt.CommandHandling

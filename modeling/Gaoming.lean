import Gaoming.RelationalTable
import Gaoming.TransactionProgram
import Gaoming.TransactionProof
import Gaoming.TransactionInterleaving
import Gaoming.GoRuntime
import Gaoming.Contracts
import Gaoming.Database
import Gaoming.HostStoreProgram
import Gaoming.HostStoreSpec
import Gaoming.HostStoreCalls
import Gaoming.HostStoreTenants
import Gaoming.MetricCodec
import Gaoming.HostStoreIdentity
import Gaoming.FloatInteger
import Gaoming.MetricValidation
import Gaoming.IngestService
import Gaoming.HostStoreInterleaving
import Gaoming.HostStoreVersions
import Gaoming.Principals
import Gaoming.ShareStoreProgram
import Gaoming.ShareStoreSpec
import Gaoming.ShareStoreQuota
import Gaoming.ShareStoreRevocation
import Gaoming.MasterRead
import Gaoming.MasterReadScope
import Gaoming.AgentCollectors
import Gaoming.AgentSampler
import Gaoming.FirstOccurrence
import Gaoming.AgentUpload
import Gaoming.CollectorPoints
import Gaoming.SummaryFidelity
import Gaoming.AccountStoreProgram
import Gaoming.OperationsProgram
import Gaoming.OperationsAuthority
import Gaoming.AlertAcknowledge
import Gaoming.AccountBootstrap
import Gaoming.UserUpdates
import Gaoming.HostStoreStatus
import Gaoming.HostStoreOffline
import Gaoming.MetricWindowStore
import Gaoming.HostStream
import Gaoming.HostStreamAccess
import Gaoming.UploadProtocol
import Gaoming.UploadSafety
import Gaoming.AuthProvider
import Gaoming.LiveHosts
import Gaoming.AuthLimits
import Gaoming.ReturnNavigation
import Gaoming.ShareScope
import Gaoming.BatchAcceptance
import Gaoming.FloatExact
import Gaoming.HostStorePlacement
import Gaoming.MetricReadPaths
import Gaoming.ReadingPoints
import Gaoming.SummaryColumns
import Gaoming.WireRoundTrip
import Gaoming.AgentBatches
import Gaoming.CollectorSchedule
import Gaoming.PointIdentity
import Gaoming.SortedSeries
import Gaoming.TrendHistory
import Gaoming.GroupedFold
import Gaoming.DiskCounters
import Gaoming.HostPort
import Gaoming.IPText
import Gaoming.WordTrim
import Gaoming.TransportSecurity
import Gaoming.FileTree
import Gaoming.LocalClean
import Gaoming.MasterCalls
import Gaoming.SessionHistory
import Gaoming.MasterServer
import Gaoming.MasterMediation
import Gaoming.MasterHandlers
import Gaoming.MasterRuns
import Gaoming.TransactionMarks
import Gaoming.TenantMarks
import Gaoming.TenantWrites
import Gaoming.TenantIsolation
import Gaoming.PercentEscapes

import Llumnix.CmsConservation
import Llumnix.BatchTerminal
import Llumnix.BatchAgreement
import Llumnix.GatewayStage
import Llumnix.DispatchFailover
import Llumnix.Discovery
import Llumnix.CmsIndex
import Llumnix.CmsIpIndex
import Llumnix.CmsReserved
import Llumnix.LrsFailover
import Llumnix.StaleRelease
import Llumnix.BatchListing
import Llumnix.BatchRevalidate
import Llumnix.HandlerPanics
import Llumnix.StreamText
import Llumnix.ChatAgreement
import Llumnix.CmsProfiling
import Llumnix.CmsGarbled
import Llumnix.OutputOrder
import Llumnix.TokenHasher
import Llumnix.RequestQueue
import Llumnix.ClientManager
import Llumnix.Watcher
import Llumnix.MigrationGate
import Llumnix.DispatchChoice
import Llumnix.PrefillPrediction
import Llumnix.ReasoningChunks
import Llumnix.CmsWaiting
import Llumnix.CompletionConverter
import Llumnix.RetryBodies
import Llumnix.MoveScripts
import Llumnix.ReleaseRetries
import Llumnix.WorkerPool
import Llumnix.MigrationRequests
import Llumnix.ExtraArgs
import Llumnix.StatusUpdater
import Llumnix.CmsFreshness
import Llumnix.GatewayDisconnect
import Llumnix.ConnectionPool
import Llumnix.Metrics
import Llumnix.LrsReports

import Freeshard.Coroutine.Execution
import Freeshard.Coroutine.Outline
import Freeshard.Coroutine.Protocol
import Freeshard.Coroutine.Recorded
import Freeshard.Coroutine.Tasks
import Freeshard.Coroutine.Locks
import Freeshard.Sql.Inserts
import Freeshard.Migration.ExactlyOnce
import Freeshard.Snapshot.RoundTrip
import Freeshard.Transaction.ReadCommitted
import Freeshard.Util.PyDict
import Freeshard.Glob.Fnmatch
import Freeshard.Avatars.Requests
import Freeshard.Util.Throttle
import Freeshard.Util.Passphrase
import Freeshard.System.Throttled
import Freeshard.DataModel.AppMetaModel
import Freeshard.AppMetas.Upgrade
import Freeshard.Calendar.Gregorian
import Freeshard.AppUsage.Months
import Freeshard.AppUsage.Tracking
import Freeshard.Service.Terminals
import Freeshard.Terminals.Progress
import Freeshard.Terminals.Broadcast
import Freeshard.Service.WebSocket
import Freeshard.Websocket.Loops
import Freeshard.Service.AppInstallation
import Freeshard.Service.ControlLoop
import Freeshard.Service.Protocol
import Freeshard.Access.Caches
import Freeshard.Access.Decision
import Freeshard.Backups.Command
import Freeshard.Backups.Passphrase
import Freeshard.Backups.Updates
import Freeshard.Boot.Convergence
import Freeshard.Boot.Database
import Freeshard.Boot.QueuedRows
import Freeshard.Compose.Pinning
import Freeshard.Containers.Agreement
import Freeshard.Containers.Revive
import Freeshard.Containers.Stop
import Freeshard.Identities.DefaultIdentity
import Freeshard.Identities.Loadable
import Freeshard.Installation.LastRequest
import Freeshard.Installation.QueuedStatus
import Freeshard.Installation.TaskOrder
import Freeshard.Installation.TaskOutcome
import Freeshard.Installation.UploadExclusion
import Freeshard.Extraction.Fidelity
import Freeshard.HumanEncoding.Canonical
import Freeshard.Lifecycle.Admission
import Freeshard.Lifecycle.Demotion
import Freeshard.Lifecycle.LowDisk
import Freeshard.Lifecycle.RecentAccess
import Freeshard.Lifecycle.Demand
import Freeshard.Lifecycle.IdleApps
import Freeshard.Lifecycle.Thresholds
import Freeshard.Lifecycle.Succeeding
import Freeshard.Lifecycle.PressureTasks
import Freeshard.Lifecycle.StaleSnapshot
import Freeshard.Pairing.JwtSecret
import Freeshard.Pairing.Redemption
import Freeshard.Pairing.Revocation
import Freeshard.Management.Rollback
import Freeshard.Metrics.Conservation
import Freeshard.Metrics.HostFiles
import Freeshard.Peers.KeyBinding
import Freeshard.Peers.PrefixFree
import Freeshard.Peers.PrefixOperations
import Freeshard.Peers.Round
import Freeshard.Peers.Verification
import Freeshard.Reinstall.Revival
import Freeshard.Reinstall.Teardown
import Freeshard.Shutdown.AcceptedUninstalls
import Freeshard.Uninstall.CrashRecovery
import Freeshard.Uninstall.Revival
import Freeshard.Uninstall.Teardown
import Freeshard.OpLocks.Progress
import Freeshard.Routing.Agreement
import Freeshard.Routing.Config
import Freeshard.Routing.Hosts
import Freeshard.Web.CallPeer

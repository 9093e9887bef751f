import OrangeFrp.Core.Assoc
import OrangeFrp.Core.Except
import OrangeFrp.Core.LTS
import OrangeFrp.Core.Sum
import OrangeFrp.Core.Table
import OrangeFrp.Core.Waits
import OrangeFrp.Core.Window
import OrangeFrp.Core.Bucket
import OrangeFrp.Core.Binary64
import OrangeFrp.Core.Custody
import OrangeFrp.Core.Escapes
import OrangeFrp.Common.Text
import OrangeFrp.Common.Model
import OrangeFrp.Common.Crypto
import OrangeFrp.Common.Checked
import OrangeFrp.Common.Version
import OrangeFrp.Common.Server
import OrangeFrp.Storage.Config
import OrangeFrp.Storage.Valid
import OrangeFrp.Storage.Database
import OrangeFrp.Storage.Store
import OrangeFrp.Storage.Kept
import OrangeFrp.Storage.WriteOrder
import OrangeFrp.Storage.Traffic
import OrangeFrp.Storage.RoundTrip
import OrangeFrp.Storage.Idempotence
import OrangeFrp.Storage.Faults
import OrangeFrp.Storage.AtomicSave
import OrangeFrp.Storage.Processes
import OrangeFrp.Storage.Snapshots
import OrangeFrp.Storage.Passwords
import OrangeFrp.Storage.Legacy
import OrangeFrp.Storage.Migration
import OrangeFrp.Controller.Gate
import OrangeFrp.Controller.Reconcile
import OrangeFrp.Controller.Listeners
import OrangeFrp.Controller.Accounting
import OrangeFrp.Controller.Meter
import OrangeFrp.Controller.Sessions
import OrangeFrp.Controller.Channel
import OrangeFrp.Controller.SpeedLimit
import OrangeFrp.Controller.Relay
import OrangeFrp.Controller.Proxy
import OrangeFrp.Controller.UdpSessions
import OrangeFrp.Controller.UdpTable
import OrangeFrp.App.UserTunnels
import OrangeFrp.App.Candidate
import OrangeFrp.App.Acceptance
import OrangeFrp.App.SaveTunnels
import OrangeFrp.App.Plugin
import OrangeFrp.App.Rollback
import OrangeFrp.App.Isolation
import OrangeFrp.App.Replay
import OrangeFrp.App.ReplayWindow
import OrangeFrp.App.RateLimit
import OrangeFrp.App.Admin
import OrangeFrp.App.Site
import OrangeFrp.App.TunnelLimit
import OrangeFrp.App.Credentials
import OrangeFrp.App.Ledger
import OrangeFrp.App.Labels
import OrangeFrp.App.Serving
import OrangeFrp.App.Service
import OrangeFrp.App.Shutdown
import OrangeFrp.App.Awaits
import OrangeFrp.App.LockOrder
import OrangeFrp.App.Deadlock
import OrangeFrp.App.Counters
import OrangeFrp.App.FrpsConfig
import OrangeFrp.Controller.Connections
import OrangeFrp.Controller.UdpTraffic
import OrangeFrp.Core.Members
import OrangeFrp.Common.Envelopes
import OrangeFrp.Common.Records
import OrangeFrp.App.Responses
import OrangeFrp.App.Requests
import OrangeFrp.App.Answers
import OrangeFrp.App.Routing
import OrangeFrp.App.Outsider
import OrangeFrp.App.AtomicWrite
import OrangeFrp.App.Lifetime
import OrangeFrp.Core.Columns
import OrangeFrp.Storage.Schema
import OrangeFrp.Core.Dialog
import OrangeFrp.App.Prompts
import OrangeFrp.App.Terminal

import SimplyIpSync.Lib.Reach
import SimplyIpSync.Retry
import SimplyIpSync.Entities
import SimplyIpSync.Jobs.Push
import SimplyIpSync.Client.Delta
import SimplyIpSync.Bogon
import SimplyIpSync.Jobs.VaultSync
import SimplyIpSync.Jobs.TargetContent
import SimplyIpSync.Jobs.ExternalIngestion
import SimplyIpSync.Jobs.FullReplace
import SimplyIpSync.Crypto
import SimplyIpSync.Replay
import SimplyIpSync.Middleware
import SimplyIpSync.SingleUse
import SimplyIpSync.Api.Transactions
import SimplyIpSync.Scheduler.Handle
import SimplyIpSync.Scheduler.Agreement
import SimplyIpSync.Replication.Cursor
import SimplyIpSync.Lib.Paging
import SimplyIpSync.Replication.MockVault
import SimplyIpSync.Replication.Chain
import SimplyIpSync.Replication.Convergence
import SimplyIpSync.Replication.HopAccount
import SimplyIpSync.Client.Signing
import SimplyIpSync.Client.Outbound
import SimplyIpSync.Api.Amplification
import SimplyIpSync.Api.Atomicity
import SimplyIpSync.Api.Interleaving
import SimplyIpSync.Api.Lifecycle
import SimplyIpSync.Api.Lineage
import SimplyIpSync.Api.Oracle
import SimplyIpSync.Canary
import SimplyIpSync.Sanitize
import SimplyIpSync.Jobs.Slots
import SimplyIpSync.Jobs.Dedup
import SimplyIpSync.Parsers.Fragments
import SimplyIpSync.Parsers.Listing
import SimplyIpSync.Api.Bindings
import SimplyIpSync.Api.FeedConfig
import SimplyIpSync.Migration.DestinationGroups
import SimplyIpSync.Freshness
import SimplyIpSync.Jobs.IngestionStatus
import SimplyIpSync.Jobs.AgeLimit
import SimplyIpSync.Jobs.Decompress
import SimplyIpSync.Client.DeltaPages
import SimplyIpSync.Client.Target
import SimplyIpSync.Api.LogPages
import SimplyIpSync.Parsers.JsonModes
import SimplyIpSync.SignatureBinding
import SimplyIpSync.Envelopes
import SimplyIpSync.ProxyCache
import SimplyIpSync.Retention
import SimplyIpSync.Api.Subtree
import SimplyIpSync.Api.Ownership
import SimplyIpSync.Installation.Tables
import SimplyIpSync.Installation.Secrets
import SimplyIpSync.Installation.Secrecy
import SimplyIpSync.Installation.Schedules
import SimplyIpSync.Protocol.Security
import SimplyIpSync.Dashboard.Client
import SimplyIpSync.Proxies
import SimplyIpSync.Jobs.EndToEnd
import SimplyIpSync.Migration.AuditAttribution
import SimplyIpSync.Dashboard.FormRoundTrip

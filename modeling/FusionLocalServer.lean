import FusionLocalServer.Lib.Path
import FusionLocalServer.Lib.Decimal
import FusionLocalServer.Lib.Run
import FusionLocalServer.Lib.Utf8
import FusionLocalServer.Lib.Json.Syntax
import FusionLocalServer.Lib.Json.RoundTrip
import FusionLocalServer.Lib.Json.Indent
import FusionLocalServer.Lib.Json.Struct
import FusionLocalServer.Lib.Checks
import FusionLocalServer.Lib.Calendar
import FusionLocalServer.Lib.Date
import FusionLocalServer.Lib.Week
import FusionLocalServer.Lib.Stamp
import FusionLocalServer.Lib.Json.Time
import FusionLocalServer.Lib.RelPath
import FusionLocalServer.Lib.FileTree
import FusionLocalServer.Lib.Sha256
import FusionLocalServer.Lib.Retention
import FusionLocalServer.Lib.LineLog
import FusionLocalServer.Lib.Text
import FusionLocalServer.Lib.Heap
import FusionLocalServer.Lib.Graph
import FusionLocalServer.Lib.Search
import FusionLocalServer.Lib.Memory
import FusionLocalServer.Lib.Ownership
import FusionLocalServer.ApsBudget.Bucket
import FusionLocalServer.ApsBudget.Scheduler
import FusionLocalServer.ApsBudget.Safety
import FusionLocalServer.Chat.Record
import FusionLocalServer.Chat.Store
import FusionLocalServer.Chat.Replay
import FusionLocalServer.Chat.Durability
import FusionLocalServer.Storage.ProjectDir
import FusionLocalServer.Sse.Hub
import FusionLocalServer.Sse.Replay
import FusionLocalServer.Production.Types
import FusionLocalServer.Production.Plan
import FusionLocalServer.Production.Project
import FusionLocalServer.Production.Store
import FusionLocalServer.Production.Refinement
import FusionLocalServer.Production.Calls
import FusionLocalServer.Production.Invariant
import FusionLocalServer.Production.Graph
import FusionLocalServer.Production.Batches
import FusionLocalServer.Tasks.Types
import FusionLocalServer.Tasks.Project
import FusionLocalServer.Tasks.Store
import FusionLocalServer.Tasks.Invariant
import FusionLocalServer.Tasks.Dependencies
import FusionLocalServer.Tasks.Schedule
import FusionLocalServer.Storage.Atomicity
import FusionLocalServer.Backup.Manifest
import FusionLocalServer.Lib.Json.Any
import FusionLocalServer.Backup.Engine
import FusionLocalServer.Backup.Snapshot
import FusionLocalServer.Backup.Tiers
import FusionLocalServer.Backup.Retention
import FusionLocalServer.Backup.Promotion
import FusionLocalServer.Backup.Restore
import FusionLocalServer.Backup.Verify
import FusionLocalServer.Backup.Containment
import FusionLocalServer.Backup.RoundTrip
import FusionLocalServer.Backup.Recovery
import FusionLocalServer.Backup.Schedule
import FusionLocalServer.Backup.Scheduler
import FusionLocalServer.Backup.Missed
import FusionLocalServer.Lib.Table
import FusionLocalServer.Lib.Json.Raw
import FusionLocalServer.Whiteboards.Patch
import FusionLocalServer.Whiteboards.Room
import FusionLocalServer.Whiteboards.Folding
import FusionLocalServer.Whiteboards.Accepted
import FusionLocalServer.Whiteboards.Meaning
import FusionLocalServer.Whiteboards.Bindings
import FusionLocalServer.Whiteboards.Tombstones
import FusionLocalServer.Whiteboards.Capacity
import FusionLocalServer.Lib.Feed
import FusionLocalServer.Whiteboards.Client
import FusionLocalServer.Whiteboards.Follower
import FusionLocalServer.Whiteboards.Session
import FusionLocalServer.Whiteboards.Retries
import FusionLocalServer.Whiteboards.Store
import FusionLocalServer.Whiteboards.Outcome
import FusionLocalServer.Lib.Serial
import FusionLocalServer.Whiteboards.Fresh
import FusionLocalServer.Chat.Channels
import FusionLocalServer.Chat.FreshChannels
import FusionLocalServer.Whiteboards.Rooms
import FusionLocalServer.Whiteboards.Stored
import FusionLocalServer.Whiteboards.Revisions
import FusionLocalServer.Lib.Json.Literals
import FusionLocalServer.Lib.Json.Compact
import FusionLocalServer.Whiteboards.Documents
import FusionLocalServer.Whiteboards.Moves
import FusionLocalServer.Whiteboards.Registry
import FusionLocalServer.Whiteboards.Lifecycle
import FusionLocalServer.Whiteboards.Deletion
import FusionLocalServer.Chat.Authz
import FusionLocalServer.Chat.Calls
import FusionLocalServer.Chat.Idempotent
import FusionLocalServer.Notifications.Agreement
import FusionLocalServer.Notifications.Reminders
import FusionLocalServer.Chat.Cursors
import FusionLocalServer.Chat.Legible
import FusionLocalServer.Chat.Reading
import FusionLocalServer.Chat.Undo
import FusionLocalServer.Lib.Names
import FusionLocalServer.Production.FreshIds
import FusionLocalServer.Production.Histories
import FusionLocalServer.ApsBudget.Cache
import FusionLocalServer.ApsBudget.Coalesce
import FusionLocalServer.ApsBudget.Flights
import FusionLocalServer.ApsBudget.Freshness
import FusionLocalServer.ApsBudget.Monotone
import FusionLocalServer.ApsBudget.CacheKey
import FusionLocalServer.Fusion.Tickets
import FusionLocalServer.Fusion.Protocol
import FusionLocalServer.Jobs.Job
import FusionLocalServer.Jobs.Settling
import FusionLocalServer.Hubs.Profiles
import FusionLocalServer.Lib.Walk
import FusionLocalServer.Auth.NextParam
import FusionLocalServer.Chat.Audience
import FusionLocalServer.Sse.Provenance
import FusionLocalServer.Chat.Removed
import FusionLocalServer.Backup.Agreement
import FusionLocalServer.Lib.Nilable
import FusionLocalServer.Storage.Migrate
import FusionLocalServer.Pins.Load
import FusionLocalServer.Tasks.Loading
import FusionLocalServer.Production.Loading
import FusionLocalServer.Storage.Loading
import FusionLocalServer.Whiteboards.Squash
import FusionLocalServer.Lib.Meter
import FusionLocalServer.Chat.RateLimit
import FusionLocalServer.History.Declutter
import FusionLocalServer.Sessions.HubLock
import FusionLocalServer.Chat.Versions
import FusionLocalServer.Chat.EventOrder
import FusionLocalServer.Sse.Following
import FusionLocalServer.Chat.Completeness
import FusionLocalServer.Lib.FormUrl
import FusionLocalServer.DocRef.Scan
import FusionLocalServer.DocRef.Tokens
import FusionLocalServer.DocRef.Splitting
import FusionLocalServer.DocRef.Agreement
import FusionLocalServer.Nav.State
import FusionLocalServer.Lib.UriComponent
import FusionLocalServer.Nav.Permalink
import FusionLocalServer.ApsBudget.Index
import FusionLocalServer.Api.Values
import FusionLocalServer.Api.Paging
import FusionLocalServer.Api.Locate
import FusionLocalServer.Lib.SortOn
import FusionLocalServer.Api.History
import FusionLocalServer.Lib.Tally
import FusionLocalServer.Api.ActivityReport
import FusionLocalServer.Lib.Url
import FusionLocalServer.Fusion.Link
import FusionLocalServer.Lib.Groups
import FusionLocalServer.Lib.JsDate
import FusionLocalServer.Fmt.Dates
import FusionLocalServer.History.Days
import FusionLocalServer.Api.Upload
import FusionLocalServer.ApsBudget.SpendRing
import FusionLocalServer.Whiteboards.Accounting
import FusionLocalServer.Server.Proxy
import FusionLocalServer.Storage.SideFiles
import FusionLocalServer.Tasks.Board
import FusionLocalServer.Jobs.Registry
import FusionLocalServer.Chat.Threads
import FusionLocalServer.Fusion.Launch
import FusionLocalServer.Login.Protocol
import FusionLocalServer.Login.Refresh

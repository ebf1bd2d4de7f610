import Fkst.Cassette
import Fkst.Clock
import Fkst.Codex.Adoption
import Fkst.Codex.Coherence
import Fkst.Codex.Custody
import Fkst.Codex.Flight
import Fkst.Codex.Identity
import Fkst.Codex.LogWitness
import Fkst.Codex.Permits
import Fkst.Codex.Retention
import Fkst.Codex.RunLog
import Fkst.Codex.WorkerArgs
import Fkst.Consumer.Admission
import Fkst.Consumer.Completion
import Fkst.Consumer.Ephemeral
import Fkst.Consumer.EphemeralFlow
import Fkst.Consumer.FailureFact
import Fkst.Consumer.Loop
import Fkst.Consumer.Notices
import Fkst.Consumer.Raised
import Fkst.Consumer.Renewal
import Fkst.Delivery.Absence
import Fkst.Delivery.Budget
import Fkst.Delivery.Calls
import Fkst.Delivery.Coalescing
import Fkst.Delivery.Conservation
import Fkst.Delivery.Content
import Fkst.Delivery.DeadLetters
import Fkst.Delivery.DueKeys
import Fkst.Delivery.Effect
import Fkst.Delivery.Fencing
import Fkst.Delivery.Index
import Fkst.Delivery.Indexes
import Fkst.Delivery.Leasing
import Fkst.Delivery.Lifecycle
import Fkst.Delivery.Lineage
import Fkst.Delivery.Lookup
import Fkst.Delivery.Migration
import Fkst.Delivery.Open
import Fkst.Delivery.Progress
import Fkst.Delivery.Refinement
import Fkst.Delivery.Retry
import Fkst.Delivery.Rows
import Fkst.Delivery.Runs
import Fkst.Delivery.Schedule
import Fkst.Delivery.Slice
import Fkst.Delivery.Store
import Fkst.Delivery.Suppression
import Fkst.Delivery.Sweeping
import Fkst.Delivery.Tables
import Fkst.Delivery.Types
import Fkst.Escape
import Fkst.Graph.Authority
import Fkst.Graph.Config
import Fkst.Graph.DeliveryKeys
import Fkst.Graph.Durations
import Fkst.Graph.Names
import Fkst.Graph.Scan
import Fkst.Graph.Usable
import Fkst.Graph.Validation
import Fkst.Json
import Fkst.Lib.Base64
import Fkst.Lib.Bucket
import Fkst.Lib.Calendar
import Fkst.Lib.Checks
import Fkst.Lib.Codec
import Fkst.Lib.Dfs
import Fkst.Lib.Distinct
import Fkst.Lib.Eviction
import Fkst.Lib.Flags
import Fkst.Lib.Flock
import Fkst.Lib.Fnv
import Fkst.Lib.Glob
import Fkst.Lib.Keyset
import Fkst.Lib.Lines
import Fkst.Lib.Lua
import Fkst.Lib.Machine
import Fkst.Lib.Mailbox
import Fkst.Lib.OnPath
import Fkst.Lib.Probing
import Fkst.Lib.Replace
import Fkst.Lib.SecondaryIndex
import Fkst.Lib.Sha256
import Fkst.Lib.Table
import Fkst.Lib.Text
import Fkst.Lib.Utf8
import Fkst.Lib.Words
import Fkst.Manifest.Agreement
import Fkst.Manifest.CacheKeys
import Fkst.Manifest.Catalog
import Fkst.Manifest.Cycles
import Fkst.Manifest.Discovery
import Fkst.Manifest.External
import Fkst.Manifest.Hash
import Fkst.Manifest.Locking
import Fkst.Manifest.Modules
import Fkst.Manifest.Pinning
import Fkst.Manifest.Require
import Fkst.Manifest.RequireScan
import Fkst.Manifest.Snapshot
import Fkst.Manifest.TreeHash
import Fkst.Manifest.Units
import Fkst.Observe.Mock
import Fkst.Observe.Paging
import Fkst.Observe.Selection
import Fkst.Observe.Snapshot
import Fkst.Raiser.Glob
import Fkst.Raiser.Sources
import Fkst.RatePool
import Fkst.ReadCoalesce
import Fkst.RestrictedLua.Copy
import Fkst.RestrictedLua.Memory
import Fkst.Router.Declared
import Fkst.Router.Digest
import Fkst.Router.Fanout
import Fkst.Router.Identity
import Fkst.Router.Keys
import Fkst.Router.Publish
import Fkst.Router.QueueStarvation
import Fkst.Router.Replay
import Fkst.Router.Subscriptions
import Fkst.Rust
import Fkst.Scratch.Cache
import Fkst.Scratch.Layout
import Fkst.Scratch.Namespaces
import Fkst.Scratch.Replay
import Fkst.Startup
import Fkst.Update.Command
import Fkst.Update.Install
import Fkst.Consumer.Spawner

import Agora.Json.Basic
import Agora.Json.Path
import Agora.Json.Text
import Agora.Json.Bytes
import Agora.Memory.JsonPath
import Agora.Memory.RegionLru
import Agora.Memory.CacheManager
import Agora.Json.Prune
import Agora.Memory.Redis
import Agora.Memory.Retention
import Agora.Memory.PathBytes
import Agora.Memory.MemoryClass
import Agora.Memory.Coherence
import Agora.Memory.Operations
import Agora.Memory.Reading
import Agora.Memory.Staleness
import Agora.Memory.Refinement
import Agora.Memory.Patterns
import Agora.Memory.Shown
import Agora.Memory.Erase
import Agora.Json.Same
import Agora.Memory.RemoteFields
import Agora.Query.Access
import Agora.Query.Rules
import Agora.Broker.Operations
import Agora.Broker.Staged
import Agora.Script.Lua
import Agora.Broker.Ledger
import Agora.Receipts.Sequence
import Agora.Query.Backend
import Agora.Query.CanvasOps
import Agora.Broker.ExactlyOnce
import Agora.Chat.Script
import Agora.Chat.Log
import Agora.Chat.Rooms
import Agora.Chat.Mentions
import Agora.Query.Storage
import Agora.Broker.Regress
import Agora.Query.Accepted
import Agora.Query.Branches
import Agora.Query.Converge
import Agora.Accounts.Numbering
import Agora.Accounts.Users
import Agora.Query.Connectors
import Agora.Accounts.Handles
import Agora.Snapshot.Base64
import Agora.Snapshot.Codec
import Agora.Snapshot.RoundTrip
import Agora.Java.CanvasDocument
import Agora.Snapshot.Languages
import Agora.Java.Elasticsearch
import Agora.Canvases.Service
import Agora.Canvases.Deletion
import Agora.Canvases.Pairing
import Agora.Canvases.Rewrite
import Agora.Settings.Service
import Agora.Settings.Shutdown
import Agora.Settings.Recovery
import Agora.Settings.History
import Agora.Settings.Lifecycle
import Agora.Settings.Membership
import Agora.Settings.Asking
import Agora.Settings.Changes
import Agora.Settings.Document
import Agora.Settings.Members
import Agora.Chat.Ordered
import Agora.Chat.Slices
import Agora.Resp.Transport
import Agora.Search.Projection
import Agora.Search.Converge
import Agora.Resp.Reader
import Agora.Resp.Replies
import Agora.Persistence.Queue
import Agora.Persistence.Barriers
import Agora.Chat.History
import Agora.Chat.Paging
import Agora.Chat.Proposal
import Agora.Passwords.Formats
import Agora.Passwords.Pattern
import Agora.Passwords.Recognition
import Agora.Settings.Migration
import Agora.Passwords.Access
import Agora.Settings.Rollback
import Agora.Query.Validation
import Agora.Query.Editable
import Agora.Query.Repatch
import Agora.Query.Range
import Agora.Query.Patchable
import Agora.Query.Events
import Agora.Query.Crud
import Agora.Chat.Handler
import Agora.Chat.Handles
import Agora.Query.Service
import Agora.Query.Document
import Agora.Query.Admission
import Agora.Broker.Framing
import Agora.Broker.Replies
import Agora.Logging.Service
import Agora.Logging.Transitions
import Agora.Sql.Wakeups
import Agora.Sql.Command
import Agora.Query.Guarded
import Agora.Query.Serial
import Agora.Query.Reserved
import Agora.Canvases.Cleanup
import Agora.Resp.Verified
import Agora.Java.JwtTokenProvider
import Agora.Accounts.Sessions
import Agora.Passwords.Grants
import Agora.Canvases.RedisReader
import Agora.Settings.Lawful

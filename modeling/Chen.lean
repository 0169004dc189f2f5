import Chen.Backends.Base
import Chen.Backends.HuggingFace
import Chen.Backends.HuggingFaceShape
import Chen.Backends.Layers
import Chen.Backends.LlamaCpp
import Chen.Backends.LlamaLayout
import Chen.Backends.Mock
import Chen.Backends.Registry
import Chen.Backends.Transfer
import Chen.Backends.VLLM
import Chen.Benchmarks.Kpis
import Chen.Benchmarks.Runner
import Chen.Benchmarks.Tasks
import Chen.Cli.Run
import Chen.Core.Carbon
import Chen.Core.Config
import Chen.Core.Expert
import Chen.Core.Invocation
import Chen.Core.KVCache
import Chen.Core.Memory
import Chen.Core.MemoryCount
import Chen.Core.MemoryIndex
import Chen.Core.MemoryMap
import Chen.Core.MemoryRows
import Chen.Core.Pipeline
import Chen.Core.Retrieval
import Chen.Core.SharedMetadata
import Chen.Core.Tensor
import Chen.Core.Timing
import Chen.Core.Trace
import Chen.Library.Concat
import Chen.Library.Effect
import Chen.Library.Ensures
import Chen.Library.EventStream
import Chen.Library.FixedWidth
import Chen.Library.Framing
import Chen.Library.HashChain
import Chen.Library.LastWrite
import Chen.Library.Machine
import Chen.Library.Numerals
import Chen.Library.Ranking
import Chen.Library.RowMajor
import Chen.Library.Simulation
import Chen.Library.SlidingWindow
import Chen.Library.Tally
import Chen.Observability.Audit
import Chen.Observability.AuditChain
import Chen.Observability.AuditCommitment
import Chen.Observability.AuditCut
import Chen.Observability.AuditEntries
import Chen.Observability.AuditRace
import Chen.Observability.AuditReads
import Chen.Observability.AuditRecords
import Chen.Observability.AuditTorn
import Chen.Observability.CircuitBreaker
import Chen.Observability.CircuitInvariants
import Chen.Observability.CircuitMonitoring
import Chen.Observability.CircuitProbes
import Chen.Observability.CircuitReads
import Chen.Observability.CircuitRecovery
import Chen.Observability.CircuitRegistry
import Chen.Observability.Metrics
import Chen.Persistence.Migration
import Chen.Persistence.PgPool
import Chen.Persistence.PgStore
import Chen.Persistence.RunList
import Chen.Persistence.RunStore
import Chen.Persistence.TenantDefault
import Chen.Persistence.TenantExpiry
import Chen.Persistence.TenantMemory
import Chen.Persistence.TenantQuota
import Chen.Persistence.TenantRewrite
import Chen.Persistence.TenantStore
import Chen.Persistence.TenantUse
import Chen.Persistence.TenantWrite
import Chen.Phases.Budget
import Chen.Phases.Cascade
import Chen.Phases.Degradation
import Chen.Phases.Equivalence
import Chen.Phases.FallbackFlag
import Chen.Phases.IntermediateMemory
import Chen.Phases.KVPass
import Chen.Phases.MemoryReads
import Chen.Phases.Metering
import Chen.Phases.Reraise
import Chen.Phases.Routing
import Chen.Phases.Runs
import Chen.Phases.Steps
import Chen.Phases.Tokens
import Chen.Phases.Transcript
import Chen.Python.Base64
import Chen.Python.Bytes
import Chen.Python.DateTime
import Chen.Python.Dict
import Chen.Python.Exception
import Chen.Python.FindAll
import Chen.Python.Float
import Chen.Python.Hashlib
import Chen.Python.Json
import Chen.Python.JsonCanonical
import Chen.Python.JsonRoundTrip
import Chen.Python.JsonText
import Chen.Python.JsonValue
import Chen.Python.Numpy
import Chen.Python.Regex
import Chen.Python.Text
import Chen.Python.TextFile
import Chen.Reproducibility
import Chen.Router.ActivationCap
import Chen.Router.Alpha
import Chen.Router.Cosine
import Chen.Router.Features
import Chen.Router.ForceLast
import Chen.Router.HashEmbedding
import Chen.Router.HashSeed
import Chen.Router.Hybrid
import Chen.Router.Logistic
import Chen.Router.MinActivation
import Chen.Router.Picks
import Chen.Router.Proper
import Chen.Router.Selection
import Chen.Security.ActiveKeys
import Chen.Security.Backends
import Chen.Security.Config
import Chen.Security.Crypto
import Chen.Security.Disclosure
import Chen.Security.Handoff
import Chen.Security.Keyring
import Chen.Security.Keys
import Chen.Security.Rotation
import Chen.Security.SessionKeys
import Chen.Security.Splitting
import Chen.Security.Stream
import Chen.Security.Transit
import Chen.Security.WireFormat
import Chen.Server.App
import Chen.Server.AppRuns
import Chen.Server.Auth
import Chen.Server.ConfigHash
import Chen.Server.KeyFile
import Chen.Server.Provenance
import Chen.Server.RateLimit
import Chen.Server.Routes
import Chen.Server.RunHistory
import Chen.Server.RunMetrics
import Chen.Server.RunsApi
import Chen.Server.StreamText
import Chen.Server.Streaming
import Chen.Server.UnlimitedKeys

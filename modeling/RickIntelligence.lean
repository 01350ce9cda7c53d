import RickIntelligence.Lib.Validated
import RickIntelligence.Lib.Text
import RickIntelligence.Lib.Regex
import RickIntelligence.Lib.Run
import RickIntelligence.Lib.Tx
import RickIntelligence.Lib.Micros
import RickIntelligence.Lib.Table
import RickIntelligence.Lib.Json
import RickIntelligence.Lib.Trace
import RickIntelligence.Jobs.Fields
import RickIntelligence.Jobs.Contracts
import RickIntelligence.Jobs.Job
import RickIntelligence.Jobs.Lifecycle
import RickIntelligence.Jobs.Lifetime
import RickIntelligence.Jobs.Progress
import RickIntelligence.Jobs.TimeMap
import RickIntelligence.Postgres.Row
import RickIntelligence.Postgres.Codec
import RickIntelligence.Postgres.Store
import RickIntelligence.Postgres.Reads
import RickIntelligence.Postgres.States
import RickIntelligence.Postgres.Capacity
import RickIntelligence.Postgres.Admission
import RickIntelligence.Postgres.Fencing
import RickIntelligence.Sqlite.Safety
import RickIntelligence.Sqlite.Replay
import RickIntelligence.Authorization.Policy
import RickIntelligence.Knowledge.Catalog
import RickIntelligence.Knowledge.Cancellation
import RickIntelligence.Knowledge.Checkpoints
import RickIntelligence.Knowledge.Agreement
import RickIntelligence.Locking.Circuit
import RickIntelligence.Locking.Acquire
import RickIntelligence.Locking.RateLimit
import RickIntelligence.Retrieval.Interference
import RickIntelligence.Qdrant.Circuit
import RickIntelligence.Providers.Delivery
import RickIntelligence.Professor.Prompt
import RickIntelligence.Professor.Streaming
import RickIntelligence.Identity.Life
import RickIntelligence.Identity.Revocation
import RickIntelligence.Worker.Handler
import RickIntelligence.Worker.Exclusive
import RickIntelligence.Audit.Denied
import RickIntelligence.Audit.Projection
import RickIntelligence.Chat.Replay
import RickIntelligence.Chunking.Pages
import RickIntelligence.ObjectStore.Addresses
import RickIntelligence.ObjectStore.Map
import RickIntelligence.Observability.Bounds
import RickIntelligence.Observability.Events
import RickIntelligence.Observability.Leaks
import RickIntelligence.Authorization.Granted
import RickIntelligence.Retrieval.RerankOrder
import RickIntelligence.Retrieval.Selection
import RickIntelligence.Retrieval.FusionLaw
import RickIntelligence.Knowledge.Naming
import RickIntelligence.Grounding.Identity
import RickIntelligence.Grounding.Gate
import RickIntelligence.Ingestion.Compensation
import RickIntelligence.Ingestion.JobRecord
import RickIntelligence.Knowledge.Repeats
import RickIntelligence.Ingestion.Resume
import RickIntelligence.Ingestion.StagedBytes
import RickIntelligence.Qdrant.Snapshot
import RickIntelligence.Ingestion.Markdown
import RickIntelligence.Providers.Sse
import RickIntelligence.Ingestion.Archive
import RickIntelligence.Ingestion.Envelope
import RickIntelligence.Lib.SortedWire
import RickIntelligence.Qdrant.Points
import RickIntelligence.Qdrant.UpsertPlan
import RickIntelligence.Chat.ReadBack
import RickIntelligence.Professor.LeaseKey

import Vemsa.Support.Machine
import Vemsa.Support.Table
import Vemsa.Support.Runs
import Vemsa.Support.Python
import Vemsa.Support.Blocks
import Vemsa.Support.Json
import Vemsa.Support.Pieces
import Vemsa.Support.Spans
import Vemsa.Support.Search
import Vemsa.Support.Procs
import Vemsa.Support.Peak
import Vemsa.Support.Changes
import Vemsa.Support.Gluing
import Vemsa.Support.Ranks
import Vemsa.Support.Logs
import Vemsa.Support.Sorting
import Vemsa.Support.Grouping
import Vemsa.Support.Codes
import Vemsa.Support.Traces
import Vemsa.Support.Locks
import Vemsa.Support.Clients
import Vemsa.Support.Predictions
import Vemsa.Support.Percentiles
import Vemsa.Support.Dicts
import Vemsa.Jobs.Models
import Vemsa.Pipeline.Normalize
import Vemsa.Pipeline.Spelling
import Vemsa.Pipeline.Realign
import Vemsa.Pipeline.Attribution
import Vemsa.Pipeline.AlignTask
import Vemsa.Pipeline.AlignerOutput
import Vemsa.Pipeline.Windows
import Vemsa.Pipeline.Diarize
import Vemsa.Pipeline.Lines
import Vemsa.Pipeline.AssignSpeakers
import Vemsa.Pipeline.Sweep
import Vemsa.Pipeline.Snapping
import Vemsa.Pipeline.Islands
import Vemsa.Pipeline.SegmentMerge
import Vemsa.Pipeline.Shares
import Vemsa.Pipeline.Relabel
import Vemsa.Pipeline.LineLaw
import Vemsa.Pipeline.Orphans
import Vemsa.Pipeline.SpeakerReview
import Vemsa.Pipeline.Overlaps
import Vemsa.Pipeline.Annotation
import Vemsa.Pipeline.Label
import Vemsa.Pipeline.SegmentSplit
import Vemsa.Pipeline.WhisperApi
import Vemsa.Pipeline.Rungs
import Vemsa.Pipeline.NestedWords
import Vemsa.Pipeline.Hybrid
import Vemsa.Pipeline.WholeText
import Vemsa.Jobs.JobRequest
import Vemsa.Jobs.Timestamps
import Vemsa.Jobs.Codec
import Vemsa.Jobs.PostgresStore
import Vemsa.Jobs.StoreMachine
import Vemsa.Jobs.Lifecycle
import Vemsa.Jobs.Leases
import Vemsa.Jobs.Persistence
import Vemsa.Jobs.QueuePosition
import Vemsa.Jobs.Queue
import Vemsa.Jobs.Attempts
import Vemsa.Jobs.Admission
import Vemsa.Jobs.AudioFiles
import Vemsa.Jobs.JobView
import Vemsa.Jobs.Cleanup
import Vemsa.Jobs.Outbox
import Vemsa.Jobs.Loops
import Vemsa.Jobs.ProcessJob
import Vemsa.Jobs.JobRuns
import Vemsa.Jobs.JobTracks
import Vemsa.Jobs.Slots
import Vemsa.Jobs.Migrations
import Vemsa.Pipeline.Fetch
import Vemsa.Pipeline.Pauses
import Vemsa.Pipeline.GpuSlots
import Vemsa.Pipeline.Engines
import Vemsa.Api.Requests
import Vemsa.Api.McpServer
import Vemsa.Api.Health
import Vemsa.Api.Config
import Vemsa.Ops.Queries
import Vemsa.Ops.Dashboard
import Vemsa.Ops.HostSeries

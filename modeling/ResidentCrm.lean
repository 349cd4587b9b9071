import ResidentCrm.Agents.ModelCalls
import ResidentCrm.Api.RateLimiter
import ResidentCrm.DeadLetters.Acknowledged
import ResidentCrm.DeadLetters.Lanes
import ResidentCrm.Dlt.Attribution
import ResidentCrm.Dlt.AutoReplay
import ResidentCrm.Dlt.Bitbucket
import ResidentCrm.Dlt.CaseIdentity
import ResidentCrm.Dlt.CaseRuns
import ResidentCrm.Dlt.CaseTurns
import ResidentCrm.Dlt.CodeCheck
import ResidentCrm.Dlt.ConservativeFloor
import ResidentCrm.Dlt.ContextRecords
import ResidentCrm.Dlt.Corroborate
import ResidentCrm.Dlt.DeliveryClaims
import ResidentCrm.Dlt.FileListing
import ResidentCrm.Dlt.Finding
import ResidentCrm.Dlt.Fingerprint
import ResidentCrm.Dlt.FirstContaining
import ResidentCrm.Dlt.FixDeployed
import ResidentCrm.Dlt.FramePaths
import ResidentCrm.Dlt.GroupCalls
import ResidentCrm.Dlt.GroupComposed
import ResidentCrm.Dlt.GroupCutover
import ResidentCrm.Dlt.GroupOwnWrites
import ResidentCrm.Dlt.GroupReads
import ResidentCrm.Dlt.GroupStore
import ResidentCrm.Dlt.HarmlessEvidence
import ResidentCrm.Dlt.ListingEnds
import ResidentCrm.Dlt.Parked
import ResidentCrm.Dlt.ParkedQueue
import ResidentCrm.Dlt.PerCode
import ResidentCrm.Dlt.PomVersion
import ResidentCrm.Dlt.PrintedTrace
import ResidentCrm.Dlt.QueuedOnce
import ResidentCrm.Dlt.ReadFailures
import ResidentCrm.Dlt.RefIdSearch
import ResidentCrm.Dlt.RejectionsKept
import ResidentCrm.Dlt.ReplayPolicy
import ResidentCrm.Dlt.ReplayedOnce
import ResidentCrm.Dlt.ReplaysVetted
import ResidentCrm.Dlt.Reuse
import ResidentCrm.Dlt.ReviewLoop
import ResidentCrm.Dlt.SharedFindings
import ResidentCrm.Dlt.SingleFlight
import ResidentCrm.Dlt.Stacktrace
import ResidentCrm.Dlt.TraceText
import ResidentCrm.Dlt.VersionFiles
import ResidentCrm.Dlt.Versions
import ResidentCrm.Dlt.Withheld
import ResidentCrm.Docs.Refresh
import ResidentCrm.Kafka.CommitRetry
import ResidentCrm.Kafka.CommitSafety
import ResidentCrm.Kafka.Consumer
import ResidentCrm.Kafka.HandledOnce
import ResidentCrm.Kafka.OffsetTracker
import ResidentCrm.Lib.CreateOnly
import ResidentCrm.Lib.Floats
import ResidentCrm.Lib.Joined
import ResidentCrm.Lib.Json
import ResidentCrm.Lib.JsonDict
import ResidentCrm.Lib.JsonRoundTrip
import ResidentCrm.Lib.JsonStyles
import ResidentCrm.Lib.JsonText
import ResidentCrm.Lib.JsonUnique
import ResidentCrm.Lib.Latest
import ResidentCrm.Lib.LevelOrder
import ResidentCrm.Lib.LowWater
import ResidentCrm.Lib.Machine
import ResidentCrm.Lib.Matches
import ResidentCrm.Lib.NestedStrings
import ResidentCrm.Lib.Periods
import ResidentCrm.Lib.Ranked
import ResidentCrm.Lib.Register
import ResidentCrm.Lib.Rfc3339
import ResidentCrm.Lib.SlidingWindow
import ResidentCrm.Lib.Split
import ResidentCrm.Lib.Text
import ResidentCrm.Lib.Utf8
import ResidentCrm.Lib.Words
import ResidentCrm.Logs.Chronology
import ResidentCrm.Logs.ContextLines
import ResidentCrm.Logs.Coverage
import ResidentCrm.Logs.Discovery
import ResidentCrm.Logs.FanOut
import ResidentCrm.Logs.Fetch
import ResidentCrm.Logs.Fetcher
import ResidentCrm.Logs.FixtureLines
import ResidentCrm.Logs.Gaps
import ResidentCrm.Logs.Gathering
import ResidentCrm.Logs.JsonFields
import ResidentCrm.Logs.JsonTrees
import ResidentCrm.Logs.LiveTransport
import ResidentCrm.Logs.Pipeline
import ResidentCrm.Logs.RedactedTrees
import ResidentCrm.Logs.Redaction
import ResidentCrm.Logs.Reducer
import ResidentCrm.Logs.Retrieval
import ResidentCrm.Logs.Snapshot
import ResidentCrm.Logs.SnapshotReuse
import ResidentCrm.Logs.SnapshotRoundTrip
import ResidentCrm.Logs.Streaming
import ResidentCrm.Logs.TraceLimit
import ResidentCrm.Logs.Types
import ResidentCrm.Logs.WindowFolding
import ResidentCrm.Messages.Adapters
import ResidentCrm.Messages.AuditContract
import ResidentCrm.Messages.Dates
import ResidentCrm.Messages.DltMessage
import ResidentCrm.Messages.Handover
import ResidentCrm.Messages.MessagePayload
import ResidentCrm.Messages.RefIds
import ResidentCrm.Messages.Written
import ResidentCrm.Packets.Claims
import ResidentCrm.Packets.Kept
import ResidentCrm.Packets.NeverLost
import ResidentCrm.Packets.OneRun
import ResidentCrm.Packets.Shutdown
import ResidentCrm.Prompts.Graphs
import ResidentCrm.Prompts.InUse
import ResidentCrm.Prompts.Versions
import ResidentCrm.Replays.Accepted
import ResidentCrm.Replays.Approval
import ResidentCrm.Replays.Overwritten
import ResidentCrm.Replays.Posted
import ResidentCrm.Review.Gate
import ResidentCrm.Review.Graph
import ResidentCrm.Review.PromptFit
import ResidentCrm.Review.RoundTrip
import ResidentCrm.Review.Synthesis
import ResidentCrm.Review.Verdict
import ResidentCrm.Rules.Learned
import ResidentCrm.Runbooks.Rules
import ResidentCrm.Runbooks.Served
import ResidentCrm.Services.Lookup
import ResidentCrm.Services.MapFile
import ResidentCrm.Services.MapOnDisk
import ResidentCrm.Services.MapPlaces
import ResidentCrm.Services.Packs
import ResidentCrm.Services.Resolve
import ResidentCrm.Services.Unambiguous
import ResidentCrm.Storage.Casebook
import ResidentCrm.Storage.CreateJson
import ResidentCrm.Storage.TerminalRace
import ResidentCrm.Storage.UpdateDiagnosis
import ResidentCrm.Storage.UpdateJson
import ResidentCrm.Storage.VerdictsKept
import ResidentCrm.Tools.Evidence
import ResidentCrm.Tools.Harness
import ResidentCrm.Tools.HarnessAgents
import ResidentCrm.Tools.Isolation
import ResidentCrm.Tools.Scope

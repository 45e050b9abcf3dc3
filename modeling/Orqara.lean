import Orqara.Tasks.TaskSafety
import Orqara.Layout.LayoutRuns
import Orqara.Terminal.InputModeReplay
import Orqara.Session.CoverageRuns
import Orqara.Session.CatchUp
import Orqara.Session.EventBatches
import Orqara.Relay.ClientFrames
import Orqara.Relay.ChannelSafety
import Orqara.Agent.CoalescedStream
import Orqara.Labels.LabelCatchUp
import Orqara.Frames.FrameRoundTrip
import Orqara.Directory.BufferedDeltas
import Orqara.Labels.CommitAnswers
import Orqara.Schedule.DueRuns
import Orqara.Schedule.DaemonRestarts
import Orqara.Providers.FrameDelivery
import Orqara.Requests.KeyedAnswers
import Orqara.Timeline.StoredPages
import Orqara.Startup.SingleHolder
import Orqara.Services.PortOwnership
import Orqara.Config.PatchedConfig
import Orqara.Relay.RelayLinks
import Orqara.Search.MatchRanges
import Orqara.Providers.SnapshotCodec
import Orqara.Stream.InterleavedTurns
import Orqara.Timeline.ClosedWindows
import Orqara.Registry.ProjectAllocation
import Orqara.Uploads.UploadSafety
import Orqara.Speech.ChunkedResampling
import Orqara.Speech.SegmentedText
import Orqara.TaskFiles.ScheduledTasks
import Orqara.Directory.ReplicaIndex
import Orqara.Terminal.CmdExeArguments
import Orqara.Directory.DeletedAgents
import Orqara.Schedule.MissedRuns
import Orqara.Diff.SplitAndUnified
import Orqara.FileReads.SeparateReads
import Orqara.Loading.SingleFlight
import Orqara.Archiving.ArchivedSubtrees
import Orqara.Terminal.CopiedText
import Orqara.Terminal.LatestSubscription
import Orqara.Terminal.DrainedText
import Orqara.Diff.DiffSubscribers
import Orqara.Routes.OpenRoutes
import Orqara.Workspaces.EntryTimes
import Orqara.Pagination.PagesOnce
import Orqara.Patches.ReadPatches

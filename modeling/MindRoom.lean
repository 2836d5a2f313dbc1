import MindRoom.RedactedConvergence
import MindRoom.Lifecycle
import MindRoom.HydrationCoverage
import MindRoom.Redaction
import MindRoom.Recovery
import MindRoom.MembershipAgreement
import MindRoom.Gating
import MindRoom.DeliveryOrder
import MindRoom.Handling
import MindRoom.TurnCoherence
import MindRoom.TriggerNonces
import MindRoom.TriggerRollback
import MindRoom.ThreadLeases
import MindRoom.RecurringSchedule
import MindRoom.ScriptRunSafety
import MindRoom.DesktopReplay
import MindRoom.DesktopAnswers
import MindRoom.GatewayAccounts
import MindRoom.GatewayAuthority
import MindRoom.KnowledgeMarks
import MindRoom.CandidateRecovery
import MindRoom.FrameKeySafety
import MindRoom.DesktopReload
import MindRoom.ReplyGrants
import MindRoom.Worklist
import MindRoom.CompactionTombstones
import MindRoom.CompactionUpdates
import MindRoom.Keyset
import MindRoom.ConversationPages
import MindRoom.CurrentRevision
import MindRoom.TurnCodec
import MindRoom.TurnFiling
import MindRoom.HandledLedger
import MindRoom.LedgerMirror
import MindRoom.LedgerRuns
import MindRoom.WorkflowRuns
import MindRoom.WorkflowStoreRuns
import MindRoom.RevisionSanitizing
import MindRoom.ThreadOrdering
import MindRoom.ThreadMembership
import MindRoom.ThreadTags
import MindRoom.WhileLoop
import MindRoom.Binary64
import MindRoom.TextLines
import MindRoom.SegmentedMessages
import MindRoom.SegmentedLossless
import MindRoom.SegmentedFences
import MindRoom.CompactionInputs
import MindRoom.CompactionFit
import MindRoom.HistoryWalks
import MindRoom.HonestWalks
import MindRoom.ToolMarkers
import MindRoom.Streaming
import MindRoom.StreamingHonesty
import MindRoom.CompactJson
import MindRoom.LargeMessages
import MindRoom.LargePreviews
import MindRoom.LargeMessageFit
import MindRoom.LargeMessageLimits
import MindRoom.MessageTags
import MindRoom.IpAddresses
import MindRoom.ServerFetchUrl
import MindRoom.RoomDiscovery
import MindRoom.LedgerCleanup
import MindRoom.Chunking
import MindRoom.ScriptCallRate
import MindRoom.InteractiveText
import MindRoom.InteractiveOptions
import MindRoom.StreamPresentation
import MindRoom.FuzzyEdit
import MindRoom.ReadPages
import MindRoom.StopManager
import MindRoom.AttachmentCleanup
import MindRoom.TodoProgress

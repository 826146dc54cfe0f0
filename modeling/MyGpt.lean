import MyGpt.Lib.RunningTotal
import MyGpt.CreditLedger
import MyGpt.CreditBooks
import MyGpt.Lib.Trace
import MyGpt.RunDb
import MyGpt.RunWorker
import MyGpt.DurableTurn
import MyGpt.RunSystem
import MyGpt.RunMoves
import MyGpt.RunFrames
import MyGpt.TerminalStatus
import MyGpt.OneExecutor
import MyGpt.SplitBrain
import MyGpt.RecoverySafety
import MyGpt.RunOutcome
import MyGpt.FinishedMessage
import MyGpt.Continuation
import MyGpt.NativeRounds
import MyGpt.GatedTurn
import MyGpt.ApprovalWait
import MyGpt.RunControls
import MyGpt.ControlReach
import MyGpt.Lib.Dag
import MyGpt.WorkflowPlan
import MyGpt.WorkflowEngine
import MyGpt.Lib.Tally
import MyGpt.EngineSchedule
import MyGpt.AnswerClaims
import MyGpt.AnswerGate
import MyGpt.Lib.Worklist
import MyGpt.PlanRevision
import MyGpt.Checkpoints
import MyGpt.IngestionQueue
import MyGpt.IngestionFencing
import MyGpt.IngestionAttempts
import MyGpt.Lib.Scan
import MyGpt.PromptBoundary
import MyGpt.PromptFence
import MyGpt.Lib.Bisect
import MyGpt.ToolObservation
import MyGpt.ToolFence
import MyGpt.TurnHolds
import MyGpt.Lib.Distinct
import MyGpt.ChatScope
import MyGpt.ScopeAgreement
import MyGpt.Lib.Raising
import MyGpt.TurnEntry
import MyGpt.HoldReturn
import MyGpt.TurnGuard
import MyGpt.DocumentIndex
import MyGpt.IndexConsistency
import MyGpt.EventStream
import MyGpt.StreamCompleteness
import MyGpt.Lib.Expiring
import MyGpt.TokenStore
import MyGpt.RefreshRotation
import MyGpt.CodeSafety
import MyGpt.Json
import MyGpt.McpTransport
import MyGpt.FrameDelivery
import MyGpt.AnthropicStream
import MyGpt.HermesStream
import MyGpt.StreamAgreement
import MyGpt.AttachmentLife
import MyGpt.DeletedAttachment
import MyGpt.CommandDrain
import MyGpt.CommandsOnce
import MyGpt.ConnectorQuota
import MyGpt.EventAppends
import MyGpt.Idempotency
import MyGpt.LogIntegrity
import MyGpt.CitationHighlights
import MyGpt.CompactedTranscript
import MyGpt.Lib.Windows
import MyGpt.TurnMemory
import MyGpt.RetentionSweeps
import MyGpt.StaleJobs
import MyGpt.WechatIdentities
import MyGpt.AdmittedHistory
import MyGpt.ApplyPatch
import MyGpt.BudgetGuard
import MyGpt.ChargedOnce
import MyGpt.ContextBudget
import MyGpt.EngineAnswer
import MyGpt.FoundAgain
import MyGpt.KbOrder
import MyGpt.PackedContext
import MyGpt.PatchedFiles
import MyGpt.QueueContract
import MyGpt.QueuePromises
import MyGpt.ReplanBound
import MyGpt.ChatStreamState
import MyGpt.ShownAnswer
import MyGpt.AgentGraphReducer
import MyGpt.AgentHandoffs
import MyGpt.GatedRuns
import MyGpt.LeaderLock
import MyGpt.RedeemCodes
import MyGpt.RedeemOnce
import MyGpt.RunEventReplay
import MyGpt.RunQuota
import MyGpt.RunSlots
import MyGpt.StaleHolds
import MyGpt.ToolQuota
import MyGpt.CitedHits
import MyGpt.InMemoryQueue
import MyGpt.GatedStream
import MyGpt.SseFrames
import MyGpt.ChatStreamReducer
import MyGpt.BudgetAccounts
import MyGpt.OpenAiStream
import MyGpt.CircuitBreaker
import MyGpt.PatchSections
import MyGpt.SharedCounters
import MyGpt.PlanValidation
import MyGpt.RevisedPlan
import MyGpt.PlanTemplates
import MyGpt.PlanGraph
import MyGpt.ContinuedMerge
import MyGpt.MergedOverlap
import MyGpt.Deliverables
import MyGpt.KeywordScore
import MyGpt.PromptTemplates
import MyGpt.LlmPlanner
import MyGpt.AnthropicRequest
import MyGpt.StreamingWriter
import MyGpt.WriterAccount
import MyGpt.ContextCompression
import MyGpt.LoadedPolicy
import MyGpt.ClaimSpans
import MyGpt.ChunkSpans
import MyGpt.TextSplitter
import MyGpt.ChunkBounds
import MyGpt.JsonRendering
import MyGpt.DiffOptimal
import MyGpt.QueryPlan
import MyGpt.DiffFolding
import MyGpt.PatchRecovery
import MyGpt.CsvExport
import MyGpt.SpeechSegments
import MyGpt.RateLimit
import MyGpt.CheckpointClosure
import MyGpt.ConversationPages
import MyGpt.MessageVersions
import MyGpt.RefRemoval
import MyGpt.RunSubscription
import MyGpt.TokenRefresh

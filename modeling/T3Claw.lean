import T3Claw.Capability.Lease
import T3Claw.Capability.Policy
import T3Claw.Executor.Preflight
import T3Claw.Executor.Dispatch
import T3Claw.Executor.DispatchPolicy
import T3Claw.Capability.Planner
import T3Claw.Runtime.LeaseRefresh
import T3Claw.Executor.Rlm
import T3Claw.Executor.Rollback
import T3Claw.Conc.Program
import T3Claw.Conc.System
import T3Claw.Data.Text
import T3Claw.Types.Mission
import T3Claw.Mission.World
import T3Claw.Mission.Lifecycle
import T3Claw.Mission.Fire
import T3Claw.Mission.Outcome
import T3Claw.Mission.Contract
import T3Claw.Mission.Terminal
import T3Claw.Mission.Pause
import T3Claw.Mission.Index
import T3Claw.Mission.Race
import T3Claw.Mission.Neutral
import T3Claw.Mission.Accounts
import T3Claw.Mission.Guardrails
import T3Claw.Capability.Ledger
import T3Claw.Executor.Settlement
import T3Claw.Data.LastWrite
import T3Claw.Gate.Store
import T3Claw.Gate.Index
import T3Claw.Gate.Persistence
import T3Claw.Gate.Restart
import T3Claw.Gate.Once
import T3Claw.Runtime.Conversation
import T3Claw.Agent.CostGuard
import T3Claw.Agent.Spending
import T3Claw.Data.Search
import T3Claw.Safety.LeakDetector
import T3Claw.Safety.LeakScan
import T3Claw.Safety.Layer
import T3Claw.Executor.Awaited
import T3Claw.Jobs.Manager
import T3Claw.Jobs.Admission
import T3Claw.Jobs.Lifecycle
import T3Claw.Routines.Types
import T3Claw.Routines.Engine
import T3Claw.Routines.Execute
import T3Claw.Routines.Trigger
import T3Claw.Routines.Recovery
import T3Claw.Conc.Log
import T3Claw.Routines.Caps
import T3Claw.Routines.Schedule
import T3Claw.Llm.CircuitBreaker
import T3Claw.Llm.Failover
import T3Claw.Llm.Attribution
import T3Claw.Skills.Parser
import T3Claw.Skills.FileTree
import T3Claw.Skills.Registry
import T3Claw.Skills.Discovery
import T3Claw.Skills.Removal
import T3Claw.Skills.Writing
import T3Claw.Skills.Trust
import T3Claw.Workspace.Document
import T3Claw.Workspace.Storage
import T3Claw.Workspace.Write
import T3Claw.Workspace.Calls
import T3Claw.Workspace.Guards
import T3Claw.Workspace.Versions
import T3Claw.Workspace.Indexing
import T3Claw.Pairing.Database
import T3Claw.Pairing.Requests
import T3Claw.Pairing.Store
import T3Claw.Settings.Cached
import T3Claw.Data.Disk
import T3Claw.Files.EditGuard
import T3Claw.Files.History
import T3Claw.Files.Tools
import T3Claw.Files.Undo
import T3Claw.Bridge.HybridStore
import T3Claw.Bridge.Persist
import T3Claw.Capability.Provenance
import T3Claw.Capability.Serde
import T3Claw.Conc.Interference
import T3Claw.Data.Cooldown
import T3Claw.Data.Dedup
import T3Claw.Data.DiskWalk
import T3Claw.Data.FixedWindow
import T3Claw.Data.Slots
import T3Claw.Executor.Batch
import T3Claw.Files.Mount
import T3Claw.Memory.Rollback
import T3Claw.Memory.Usage
import T3Claw.Mission.Dedup
import T3Claw.Mission.Refire
import T3Claw.Runtime.Resume
import T3Claw.Tools.RateLimiter
import T3Claw.Data.Occurrence
import T3Claw.Types.Value
import T3Claw.Executor.Transcript
import T3Claw.Safety.Validator
import T3Claw.Safety.Wrapping
import T3Claw.Safety.Redaction
import T3Claw.Routines.ToolLoop
import T3Claw.Conc.Relational
import T3Claw.Workspace.Read
import T3Claw.Routines.Ownership
import T3Claw.Routines.Repeats
import T3Claw.Jobs.Stop
import T3Claw.Data.Lines
import T3Claw.Data.Marks
import T3Claw.Safety.Detection
import T3Claw.Safety.Escaping
import T3Claw.Agent.History
import T3Claw.Llm.Flatten
import T3Claw.Llm.Messages
import T3Claw.Llm.ResponseCache
import T3Claw.Llm.RigMessages
import T3Claw.Llm.Thinking
import T3Claw.Routines.Config
import T3Claw.Types.SerdeJson
import T3Claw.Skills.Selector
import T3Claw.Workspace.Chunking
import T3Claw.Workspace.Fusion
import T3Claw.Workspace.ProfileSync
import T3Claw.Workspace.Hygiene
import T3Claw.Skills.Install
import T3Claw.Data.Tally
import T3Claw.Agent.AgenticLoop
import T3Claw.Agent.TurnLimits
import T3Claw.Tools.ShellRisk
import T3Claw.Tools.Redaction
import T3Claw.Agent.Compaction
import T3Claw.Bridge.WorkspacePath
import T3Claw.Files.Encoding
import T3Claw.Tools.Allowlist
import T3Claw.Bridge.KnowledgeDoc
import T3Claw.Files.Patch
import T3Claw.Executor.Glue
import T3Claw.Executor.MainLoop
import T3Claw.Executor.LoopRuns
import T3Claw.Data.Timeline
import T3Claw.Agent.Transcript
import T3Claw.Agent.Undo
import T3Claw.Data.Chain
import T3Claw.Hooks.Registry
import T3Claw.Hooks.ToolCall
import T3Claw.Agent.ToolBatch
import T3Claw.Agent.Approval
import T3Claw.Agent.Inbox

import DocPipeline.Lib.Run
import DocPipeline.Lib.Table
import DocPipeline.Lib.Transaction
import DocPipeline.Lib.Consumer
import DocPipeline.Lib.Gather
import DocPipeline.Lib.Chunks
import DocPipeline.Lib.Matcher
import DocPipeline.Lib.Places
import DocPipeline.Core.Schema
import DocPipeline.Text.Pdf
import DocPipeline.Text.Money
import DocPipeline.Text.Digits
import DocPipeline.Text.Lower
import DocPipeline.Text.Date
import DocPipeline.Text.Json
import DocPipeline.Text.JsonRoundtrip
import DocPipeline.Text.JsonScan
import DocPipeline.Text.Codec
import DocPipeline.Core.Ledger
import DocPipeline.Core.LedgerSpec
import DocPipeline.Core.Artifact
import DocPipeline.Core.Gates
import DocPipeline.Core.GatesSpec
import DocPipeline.Core.Outbox
import DocPipeline.Core.Operation
import DocPipeline.Stages.Triage
import DocPipeline.Stages.TextProduction
import DocPipeline.Stages.Extraction
import DocPipeline.Stages.Funnel
import DocPipeline.Stages.Sink
import DocPipeline.Stages.LlmClient
import DocPipeline.Stages.DeterministicExtractor
import DocPipeline.Stages.Behaviors
import DocPipeline.Stages.Amount
import DocPipeline.Reconciliation.Sweeper
import DocPipeline.Reconciliation.Operator
import DocPipeline.System
import DocPipeline.Reconciliation.Desk
import DocPipeline.Reconciliation.Prune
import DocPipeline.Reconciliation.PruneJob
import DocPipeline.Reconciliation.GpuWatchdog
import DocPipeline.Reconciliation.TerminalReport
import DocPipeline.Reconciliation.ReadOnlyLane
import DocPipeline.Effects.TextProduction
import DocPipeline.Effects.Intake
import DocPipeline.Effects.Extraction
import DocPipeline.Effects.Reconciliation
import DocPipeline.Effects.Pipeline
import DocPipeline.Effects.Bucket
import DocPipeline.Effects.Lasting
import DocPipeline.Effects.Funnel
import DocPipeline.Effects.Operator
import DocPipeline.Effects.Desk
import DocPipeline.Effects.Locks
import DocPipeline.Transport.Batch
import DocPipeline.Transport.Delivery
import DocPipeline.Transport.Worker
import DocPipeline.Transport.Wire
import DocPipeline.Transport.Storage
import DocPipeline.Effects.Storage
import DocPipeline.Lifecycle.Model
import DocPipeline.Lifecycle.Posting
import DocPipeline.Lifecycle.Agreement
import DocPipeline.Lifecycle.Refinement
import DocPipeline.Transport.Posting
import DocPipeline.Gather.Knowledge
import DocPipeline.Gather.Kept
import DocPipeline.Gather.Invariant
import DocPipeline.Gather.Routing
import DocPipeline.Gather.Desk
import DocPipeline.Gather.TextRun
import DocPipeline.Gather.Exceptions
import DocPipeline.Gather.Scanned
import DocPipeline.Gather.First
import DocPipeline.Gather.Waiting
import DocPipeline.Gather.Recovery
import DocPipeline.Schedule
import DocPipeline.Audit.StateMachine
import DocPipeline.Audit.Posting
import DocPipeline.Audit.Delivery
import DocPipeline.Audit.FirstWriter
import DocPipeline.Audit.Redrive
import DocPipeline.Audit.Join
import DocPipeline.Audit.Recovery
import DocPipeline.Audit.Agreement
import DocPipeline.Audit.Relay
import DocPipeline.Audit.ScatterGather
import DocPipeline.Audit.Pages
import DocPipeline.Audit.Artifact
import DocPipeline.Audit.Omission
import DocPipeline.Audit.AppendedText
import DocPipeline.Audit.KillSwitch
import DocPipeline.Audit.Intake
import DocPipeline.Audit.Sweep
import DocPipeline.Audit.Verdict
import DocPipeline.Audit.Overflow
import DocPipeline.Audit.Grounding
import DocPipeline.Audit.BreakGlass
import DocPipeline.Audit.Override
import DocPipeline.Audit.Retention
import DocPipeline.Audit.Atomicity
import DocPipeline.Audit.Replay
import DocPipeline.Audit.Reply
import DocPipeline.Audit.GpuWatchdog
import DocPipeline.Audit.Coverage
import DocPipeline.Audit.StuckCount
import DocPipeline.Audit.Upload
import DocPipeline.Audit.ReadOnlyLane
import DocPipeline.Audit.Attempts
import DocPipeline.Audit.Routing
import DocPipeline.Audit.FirstDispatch
import DocPipeline.Audit.SelfGrounding
import DocPipeline.Audit.PruneLoop
import DocPipeline.Audit.OwnLine
import DocPipeline.Audit.Provenance
import DocPipeline.Audit.Record
import DocPipeline.Audit.Recording
import DocPipeline.Audit.Certification
import DocPipeline.Audit.Programmed
import DocPipeline.Audit.Pace
import DocPipeline.Audit.Wire
import DocPipeline.Audit.Storage
import DocPipeline.Audit.Fairness
import DocPipeline.Audit.Duplicates
import DocPipeline.Audit.Worker
import DocPipeline.Audit.Exceptions

import DocPipeline.Lib.Run
import DocPipeline.Stages.Triage
import DocPipeline.Stages.Extraction
import DocPipeline.Stages.Sink
import DocPipeline.Reconciliation.Operator

/-!
# The whole pipeline

Any number of handler runs, sweeps, operator calls and relays share one database, one
bucket and one broker, and take their steps in any order. A published message can be
received any number of times, at any time and in any order; a run can stop for ever at
any point, which is a crash of its process or an exception that the model does not name: of
the database, the storage, a library, or arithmetic that overflows. Either way its open
transaction is rolled back. Time passes only by `tick`, and a transaction's `now()` is when it
began, which may be a while ago.
-/
namespace DocPipeline

set_option autoImplicit false

/-- A run in progress. -/
inductive Task where
  | orphanScan (pc : OrphanDetector.Pc)
  | triage (gcsPath : String)
  | textEmbedded (docId : DocId) (gcsPath : String) (pc : PdfWorker.EmbeddedPc)
  | ocrSplit (docId : DocId) (gcsPath : String) (pc : PdfWorker.SplitPc)
  | ocrShard (payload : ShardPayload) (pc : OcrShard.Pc)
  | extraction (docId : DocId) (pc : Extraction.Pc)
  | sweep (pc : Sweeper.Pc)
  | forceRedrive (docId : DocId) (reason actor : String) (pc : Operator.RedrivePc)
  | acceptReview (docId : DocId) (reason actor : String) (pc : Operator.AcceptPc)
  | killSwitch (enabled : Bool) (reason actor : String)

/-- What starts without a message. -/
inductive Job where
  | orphanScan (paths : List String)
  | sweep (batchCap : Nat) (locked : List DocId)
  | forceRedrive (docId : DocId) (reason actor : String)
  | acceptReview (docId : DocId) (reason actor : String)
  | killSwitch (enabled : Bool) (reason actor : String)

def Job.start : Job → Task
  | .orphanScan paths => .orphanScan (.listing paths)
  | .sweep batchCap locked => .sweep (.claiming batchCap locked)
  | .forceRedrive docId reason actor => .forceRedrive docId reason actor .selecting
  | .acceptReview docId reason actor => .acceptReview docId reason actor .selecting
  | .killSwitch enabled reason actor => .killSwitch enabled reason actor

/-- The handler a message starts. `document.extracted` is the sink's. -/
def Task.ofMessage (topic : Topic) (payload : Payload) : Option Task :=
  match topic, payload with
  | .triageRequests, .triage gcsPath => some (.triage gcsPath)
  | .textEmbedded, .dispatch docId gcsPath _ => some (.textEmbedded docId gcsPath .uploading)
  | .ocrSplit, .dispatch docId gcsPath _ => some (.ocrSplit docId gcsPath .beginning)
  | .ocrShard, .shard payload => some (.ocrShard payload .beginning)
  | .ocrCompleted, .completed docId => some (.extraction docId .opening)
  | _, _ => none

/-- What the outside gives a step: the text OCR reads, the funnel's verdict. -/
structure Input where
  texts : List String := []
  verdict : Extraction.Verdict := ⟨none, {}, 0, []⟩

/-- Landmarks of an extraction run. -/
inductive Landmark where
  | passedOpening (tid : Nat) (docId : DocId)
  | returned (tid : Nat) (docId : DocId) (result : Extraction.Result)
  deriving DecidableEq

def Next.task {π ρ : Type} (wrap : π → Task) : Next π ρ → Option Task
  | .goto pc => some (wrap pc)
  | .returned _ => none
  | .raised _ => none

def Task.step (site : Deployment) (w : World) (input : Input) : Task → Option (World × Option Task)
  | .orphanScan pc =>
    let r := OrphanDetector.step site w pc
    some (r.1, r.2.task .orphanScan)
  | .triage gcsPath =>
    let r : World × Next Unit Triage.Result := w.transact (Triage.handleGcsPath site gcsPath) .returned .raised
    some (r.1, none)
  | .textEmbedded docId gcsPath pc =>
    (PdfWorker.embeddedStep site docId gcsPath w pc).map fun r =>
      (r.1, r.2.task (.textEmbedded docId gcsPath))
  | .ocrSplit docId gcsPath pc =>
    (PdfWorker.splitStep site docId gcsPath w pc).map fun r => (r.1, r.2.task (.ocrSplit docId gcsPath))
  | .ocrShard payload pc =>
    let r := OcrShard.step payload input.texts w pc
    some (r.1, r.2.task (.ocrShard payload))
  | .extraction docId pc =>
    let r := Extraction.step site docId input.verdict w pc
    some (r.1, r.2.task (.extraction docId))
  | .sweep pc =>
    let r := Sweeper.step site w pc
    some (r.1, r.2.task .sweep)
  | .forceRedrive docId reason actor pc =>
    let r := Operator.redriveStep site docId reason actor w pc
    some (r.1, r.2.task (.forceRedrive docId reason actor))
  | .acceptReview docId reason actor pc =>
    let r := Operator.acceptStep site docId reason actor w pc
    some (r.1, r.2.task (.acceptReview docId reason actor))
  | .killSwitch enabled reason actor =>
    let r : World × Next Unit Unit :=
      w.transact (Operator.setKillSwitch site enabled reason actor) .returned .raised
    some (r.1, none)

/-- The landmark a step passes, if any. -/
def Task.landmark (site : Deployment) (w : World) (input : Input) (tid : Nat) : Task → List Landmark
  | .extraction docId pc =>
    match pc, (Extraction.step site docId input.verdict w pc).2 with
    | .opening, .goto _ => [.passedOpening tid docId]
    | _, .returned result => [.returned tid docId result]
    | _, _ => []
  | _ => []

/-- `clock` is the time, and `world.db.now` the start of the transaction at hand. -/
structure Sys where
  clock : Nat := 0
  world : World := {}
  broker : Broker := fun _ _ => []
  tasks : Nat → Option Task := fun _ => none
  relays : Nat → Relay := fun _ => {}
  locks : List Nat := []
  sinks : Nat → Lib.Consumer := fun _ => {}
  log : List Landmark := []

namespace Sys

abbrev db (s : Sys) : Db := s.world.db

abbrev document (s : Sys) (docId : DocId) : Option Document := s.world.db.documents.lookup docId

inductive Action where
  | tick (seconds age : Nat)
  | spawn (tid : Nat) (job : Job)
  | receive (tid : Nat) (topic : Topic) (partition offset : Nat)
  | run (tid : Nat) (input : Input)
  | crash (tid : Nat)
  | relay (rid : Nat) (act : Relay.Act)
  | sink (partition : Nat) (act : Sink.Act)

def setTask (s : Sys) (tid : Nat) (task : Option Task) : Sys :=
  { s with tasks := fun t => if t = tid then task else s.tasks t }

/-- One step of the run in slot `tid`. -/
def runTask (site : Deployment) (s : Sys) (tid : Nat) (input : Input) : Option Sys :=
  match s.tasks tid with
  | none => none
  | some task =>
    (task.step site s.world input).map fun r =>
      { s with
        world := r.1
        tasks := fun t => if t = tid then r.2 else s.tasks t
        log := task.landmark site s.world input tid ++ s.log }

def startTask (s : Sys) (tid : Nat) (task : Task) : Option Sys :=
  match s.tasks tid with
  | some _ => none
  | none => some (s.setTask tid (some task))

def runRelay (site : Deployment) (s : Sys) (rid : Nat) (act : Relay.Act) : Option Sys :=
  (Relay.step site ⟨s.world.db, s.broker, s.locks⟩ (s.relays rid) act).map fun r =>
    { s with
      world := { s.world with db := r.1.db }
      broker := r.1.broker
      locks := r.1.locks
      relays := fun i => if i = rid then r.2 else s.relays i }

def runSink (s : Sys) (partition : Nat) (act : Sink.Act) : Option Sys :=
  (Sink.step s.world.db (s.broker .documentExtracted partition) (s.sinks partition) act).map fun r =>
    { s with
      world := { s.world with db := r.1 }
      sinks := fun p => if p = partition then r.2 else s.sinks p }

def step (site : Deployment) (s : Sys) : Action → Option Sys
  | .tick seconds age =>
    some { s with
      clock := s.clock + seconds
      world := { s.world with db := { s.world.db with now := s.clock + seconds - age } } }
  | .spawn tid job => s.startTask tid job.start
  | .receive tid topic partition offset =>
    ((s.broker topic partition)[offset]?.bind fun row => Task.ofMessage topic row.payload).bind
      (s.startTask tid)
  | .run tid input => s.runTask site tid input
  | .crash tid => some (s.setTask tid none)
  | .relay rid act => s.runRelay site rid act
  | .sink partition act => s.runSink partition act

/-- The migrations: empty tables, the kill switch on. -/
def initial : Sys :=
  { world := { db := { featureFlags := (∅ : Lib.Table String Bool).insert Extraction.autoPostFlag true } } }

def Step (site : Deployment) (s : Sys) (a : Action) (t : Sys) : Prop := s.step site a = some t

/-- A run of the pipeline whose steps all meet `Guard`. -/
abbrev GuardedRun (site : Deployment) (Guard : Sys → Action → Prop) (s : Sys) (as : List Action) (t : Sys) :
    Prop := Lib.Run (Step site) Guard s as t

abbrev FreeRun (site : Deployment) (s : Sys) (as : List Action) (t : Sys) : Prop :=
  GuardedRun site Lib.Always s as t

/-- The state after a list of actions, if each can be taken. -/
def exec (site : Deployment) : Sys → List Action → Option Sys
  | s, [] => some s
  | s, a :: as => (s.step site a).bind fun t => exec site t as

theorem freeRun_of_exec {site : Deployment} {s t : Sys} {as : List Action}
    (h : exec site s as = some t) : FreeRun site s as t := by
  induction as generalizing s with
  | nil =>
    cases h
    exact .nil
  | cons a as ih =>
    obtain ⟨m, hm, ht⟩ := Option.bind_eq_some_iff.mp h
    exact (Lib.Run.single trivial hm).trans (ih ht)

end Sys
end DocPipeline

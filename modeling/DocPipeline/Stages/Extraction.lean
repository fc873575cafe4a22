import DocPipeline.Core.Artifact

/-!
# The extraction worker

`handle_ocr_completed` from its opening transition to its last commit, split where
another process can act in between. The funnel's verdict is an input: any fields and
any gate results may come back from the models, together with the counters and log
rows the funnel writes. Where the funnel raises instead, its transaction is rolled back: the
run ends in `extracting`. Log lines and the scores pushed to the tracer are left out, and so
is the row a losing run reads for its log line; the transaction of that read stays open, so
that the next one of the worker may begin with an old `now()`.
-/
namespace DocPipeline

set_option autoImplicit false

open Ledger

namespace Extraction

inductive Result where
  | unknownDoc
  | reviewShardOutputMissing
  | reviewIncomplete
  | reviewGatesExhausted
  | reviewKillSwitch
  | reviewDuplicate
  | discardedNotFirstWriter
  | complete
  deriving DecidableEq, Repr

/-- What one run of the funnel gives. -/
structure Verdict where
  fields : Option Fields
  gates : GateResults
  repairs : Nat := 0
  attempts : List AttemptRow := []
  deriving DecidableEq

/-- What the run does next, with the local variables it still needs. -/
inductive Pc where
  | opening
  | selecting
  | stamping (doc : Option Document)
  | looking (doc : Document)
  | gathering (doc : Document) (idx : Nat) (pages : List Page)
  | readingBack (doc : Document)
  | routing (gates : GateResults) (result : Result)
  | counting (doc : Document) (assembled : Artifact)
  | extracting (assembled : Artifact) (attemptNo : Nat)
  | exhausted (gates : GateResults)
  | checkingFlag (assembled : Artifact) (fields : Fields) (gates : GateResults)
  | holding (fields : Fields) (gates : GateResults)
  | posting (assembled : Artifact) (fields : Fields) (gates : GateResults)

def openRun (docId : DocId) : Tx Unit := do
  let _ ← transition docId .extractRunning (some [.extractPending]) true

/-- `pages.sort(key=page_no)`, a stable sort. -/
def sortPages (pages : List Page) : List Page := pages.insertionSort fun p q => p.pageNo ≤ q.pageNo

def assembledFrom (site : Deployment) (pages : List Page) : Artifact :=
  ⟨"ocr-" ++ site.ocrEngine, "v1", sortPages pages⟩

/-- The completeness gate, on the page count of the row read at the start. -/
def checkPages (doc : Document) (assembled : Artifact) : Next Pc Result :=
  match doc.pageCount with
  | none => .raised .typeError
  | some n =>
    let gate := completeness (assembled.pages.map Page.pageNo) n
    if gate.outcome = .pass then .goto (.counting doc assembled)
    else .goto (.routing { completeness := some gate } .reviewIncomplete)

def shardMissing (idx : Nat) : GateResults :=
  { completeness := some ⟨.fail, some (.shardMissing idx)⟩ }

def countAttempt (docId : DocId) : Tx Nat := do
  let attemptNo ← incrementAttempts docId .extractAttempts
  resetRepairAttempts docId
  return attemptNo

/-- The ledger writes of one funnel run. -/
def funnelWrites (docId : DocId) (verdict : Verdict) : Tx Unit := do
  updateDocument docId (AttemptColumn.bump .repairAttempts verdict.repairs)
  logAttempts verdict.attempts

def killSwitched (gates : GateResults) : GateResults :=
  { gates with killSwitch := some ⟨.fail, some (.reason "auto_post_disabled")⟩ }

def duplicateAtCommit (gates : GateResults) : GateResults :=
  { gates with businessDedupe := some ⟨.fail, some (.reason "unique_violation_at_commit")⟩ }

def postPayload (site : Deployment) (docId : DocId) (assembled : Artifact) (fields : Fields)
    (gates : GateResults) : ExtractedPayload :=
  { docId := docId
    event := some "document.extracted"
    route := some "auto_post"
    producer := some assembled.producer
    funnelVersion := some site.funnelVersion
    fields := some fields
    gates := some gates }

/-- The key and the result, in one transaction. -/
def autoPost (site : Deployment) (docId : DocId) (assembled : Artifact) (fields : Fields)
    (gates : GateResults) : Tx Bool := do
  setBusinessKey docId fields.seller fields.invoiceNo
  commitExtractionResult docId fields gates .complete (some (postPayload site docId assembled fields gates))

def autoPostFlag : String := "auto_post_enabled"

def step (site : Deployment) (docId : DocId) (verdict : Verdict) (w : World) :
    Pc → World × Next Pc Result
  | .opening => w.transact (openRun docId) (fun _ => .goto .selecting) .raised
  | .selecting => (w, .goto (.stamping (getDocument w.db docId)))
  | .stamping none => (w, .returned .unknownDoc)
  | .stamping (some doc) =>
    w.transact (stampBuildInfo docId site.buildSha site.promptVersion)
      (fun _ => .goto (.looking doc)) .raised
  | .looking doc =>
    match w.bucket.assembled docId with
    | some assembled => (w, checkPages doc assembled)
    | none => (w, .goto (.gathering doc 0 []))
  | .gathering doc idx pages =>
    if idx < doc.shardsTotal then
      match w.bucket.shardOutput docId idx with
      | some shard => (w, .goto (.gathering doc (idx + 1) (pages ++ shard)))
      | none => (w, .goto (.routing (shardMissing idx) .reviewShardOutputMissing))
    else
      ({ w with bucket := w.bucket.writeAssembled docId (assembledFrom site pages) },
        .goto (.readingBack doc))
  | .readingBack doc =>
    match w.bucket.assembled docId with
    | some assembled => (w, checkPages doc assembled)
    | none => (w, .raised .typeError)
  | .routing gates result =>
    w.transact (routeWithoutWriting docId gates .review) (fun _ => .returned result) .raised
  | .counting _ assembled =>
    w.transact (countAttempt docId) (fun attemptNo => .goto (.extracting assembled attemptNo)) .raised
  | .extracting assembled _ =>
    w.transact (funnelWrites docId verdict)
      (fun _ => match verdict.fields with
        | none => .goto (.exhausted verdict.gates)
        | some fields => .goto (.checkingFlag assembled fields verdict.gates)) .raised
  | .exhausted gates =>
    w.transact (commitExtractionResult docId Fields.empty gates .review none)
      (fun _ => .returned .reviewGatesExhausted) .raised
  | .checkingFlag assembled fields gates =>
    if getFeatureFlag w.db autoPostFlag true then (w, .goto (.posting assembled fields gates))
    else (w, .goto (.holding fields (killSwitched gates)))
  | .holding fields gates =>
    w.transact (commitExtractionResult docId fields gates .review none)
      (fun _ => .returned .reviewKillSwitch) .raised
  | .posting assembled fields gates =>
    w.transact (autoPost site docId assembled fields gates)
      (fun won => .returned (if won then .complete else .discardedNotFirstWriter))
      (fun e => if e = .uniqueViolation then .goto (.routing (duplicateAtCommit gates) .reviewDuplicate)
        else .raised e)

end Extraction
end DocPipeline

import DocPipeline.Lib.Table

/-!
# The ledger's tables and the messages they carry

Rows and columns follow `migrations/`, payloads follow the dictionaries the
stages build. A JSON dictionary whose keys are fixed in the code is a structure of
optional keys, so that a missing key and a null are told apart from a value.
Columns that no modelled statement reads or writes are left out.
-/
namespace DocPipeline

set_option autoImplicit false

abbrev DocId := String

inductive DocState where
  | textPending | textRunning | extractPending | extractRunning | complete | review | failed
  deriving DecidableEq, Repr

inductive Topic where
  | triageRequests | textEmbedded | ocrSplit | ocrShard | ocrCompleted | documentExtracted
  deriving DecidableEq, Repr

inductive DocType where
  | invoice | receipt | creditMemo
  deriving DecidableEq, Repr

structure LineItem where
  description : String
  amountCents : Int
  deriving DecidableEq, Repr

/-- `model_dump(exclude_none=True)` of the extraction schema: a dictionary with a
subset of these keys. The empty dictionary is a value of its own. -/
structure Fields where
  docType : Option DocType := none
  invoiceNo : Option String := none
  invoiceDate : Option String := none
  dueDate : Option String := none
  seller : Option String := none
  buyer : Option String := none
  currency : Option String := none
  totalCents : Option Int := none
  subtotalCents : Option Int := none
  taxCents : Option Int := none
  iban : Option String := none
  lineItems : Option (List LineItem) := none
  deriving DecidableEq, Repr

/-- The dictionary `{}`. -/
def Fields.empty : Fields := {}

inductive GateOutcome where
  | pass | fail | inconclusive | notApplicable | accepted
  deriving DecidableEq, Repr

/-- The shapes of a gate result's `detail`. -/
inductive GateDetail where
  | reason (reason : String)
  | unparseable (raw : String)
  | errors (errors : List String)
  | missingFields (fields : List String)
  | mismatch (reason : String) (computed declared : Int)
  | totalMissing (computed : Int)
  | reasons (reasons : List String)
  | duplicateOf (docId : DocId)
  | shardMissing (shardIdx : Nat)
  | pages (missingPages unexpectedPages : List Nat)
  | operator (actor reason was : String)
  deriving DecidableEq, Repr

structure GateResult where
  outcome : GateOutcome
  detail : Option GateDetail := none
  deriving DecidableEq, Repr

inductive Tier where
  | cheap | strong
  deriving DecidableEq, Repr

/-- `documents.gate_results`, keyed by what the code writes into it. -/
structure GateResults where
  layoutCache : Option GateResult := none
  schema : Option GateResult := none
  grounding : Option GateResult := none
  arithmetic : Option GateResult := none
  ibanMod97 : Option GateResult := none
  plausibility : Option GateResult := none
  businessDedupe : Option GateResult := none
  tierUsed : Option Tier := none
  killSwitch : Option GateResult := none
  completeness : Option GateResult := none
  operatorOverride : Option GateResult := none
  deriving DecidableEq, Repr

/-- A row of `documents`, without its primary key. -/
structure Document where
  gcsPath : String
  state : DocState
  stateUpdatedAt : Nat := 0
  shardsTotal : Nat := 1
  shardsDone : Nat := 0
  textAttempts : Nat := 0
  extractAttempts : Nat := 0
  repairAttempts : Nat := 0
  extractionResult : Option Fields := none
  gateResults : GateResults := {}
  pageCount : Option Nat := none
  priority : Int := 0
  hasTextLayer : Option Bool := none
  docType : DocType := .invoice
  vendor : Option String := none
  invoiceNo : Option String := none
  lastError : Option String := none
  buildSha : Option String := none
  promptVersion : Option String := none
  deriving DecidableEq, Repr

/-- The payload of `ocr.shard`. -/
structure ShardPayload where
  docId : DocId
  shardIdx : Nat
  shardsTotal : Nat
  pageStart : Nat
  pageEnd : Nat
  shardGcsPath : String
  deriving DecidableEq, Repr

/-- The payload of `document.extracted`, as either of its two producers builds it. -/
structure ExtractedPayload where
  docId : DocId
  event : Option String := none
  route : Option String := none
  producer : Option String := none
  funnelVersion : Option Nat := none
  fields : Option Fields := none
  gates : Option GateResults := none
  operatorOverride : Option Bool := none
  deriving DecidableEq, Repr

inductive Payload where
  | triage (gcsPath : String)
  | dispatch (docId : DocId) (gcsPath : String) (pageCount : Option Nat)
  | shard (payload : ShardPayload)
  | completed (docId : DocId)
  | extracted (payload : ExtractedPayload)
  deriving DecidableEq, Repr

/-- A row of `outbox`. No caller sets headers. -/
structure OutboxRow where
  id : Nat
  docId : DocId
  topic : Topic
  payload : Payload
  deriving DecidableEq, Repr

/-- A row of `posted_documents`, without its primary key. -/
structure PostedDocument where
  route : String
  fields : Fields
  deriving DecidableEq, Repr

inductive AuditDetail where
  | move (fromState toState : DocState)
  | flag (autoPostEnabled : Bool)
  | bulk (predicate : String) (matched redriven : Nat) (failed : List (DocId × String))
  deriving DecidableEq, Repr

/-- A row of `break_glass_audit`. -/
structure AuditRow where
  docId : Option DocId
  action : String
  reason : String
  actor : String
  detail : Option AuditDetail
  deriving DecidableEq, Repr

/-- A row of `attempt_log`. -/
structure AttemptRow where
  docId : DocId
  stage : String
  attemptNo : Nat
  producerOrModel : Option String := none
  outcome : Option String := none
  errorClass : Option String := none
  errorMsg : Option String := none
  startedAt : Option Nat := none
  endedAt : Option Nat := none
  deriving DecidableEq, Repr

/-- A committed change of `documents.state` to a different value. -/
structure StateChange where
  docId : DocId
  fromState : DocState
  toState : DocState
  deriving DecidableEq, Repr

/-- The committed database. `history` and `sent` are not tables: they record every
state change and every outbox row ever committed, newest first, and no statement
reads them. -/
structure Db where
  documents : Lib.Table DocId Document := ∅
  documentShards : List (DocId × Nat) := []
  outbox : List OutboxRow := []
  outboxSeq : Nat := 1
  postedDocuments : Lib.Table DocId PostedDocument := ∅
  featureFlags : Lib.Table String Bool := ∅
  breakGlassAudit : List AuditRow := []
  attemptLog : List AttemptRow := []
  now : Nat := 0
  history : List StateChange := []
  sent : List OutboxRow := []

end DocPipeline

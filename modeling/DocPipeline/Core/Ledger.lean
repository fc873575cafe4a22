import DocPipeline.Lib.Transaction
import DocPipeline.Text.Pdf

/-!
# The document ledger

`core/ledger.py` statement by statement. An UPDATE of one document row takes its row
lock, so what a transaction does to that row between its first write and its commit is
one atomic step of the committed database; a read that an earlier statement made is
passed in as an argument, because other transactions may have committed since.
-/
namespace DocPipeline

set_option autoImplicit false

inductive LedgerError where
  | illegalTransition (docId : DocId) (toState : DocState) (fromStates : List DocState)
  | uniqueViolation
  | foreignKeyViolation
  | typeError
  | valueError
  | breakGlass (message : String)
  deriving DecidableEq, Repr

abbrev Tx (α : Type) := Lib.Transaction Db LedgerError α

namespace Ledger

def textStates : List DocState := [.textPending, .textRunning]

def extractStates : List DocState := [.extractPending, .extractRunning]

def allowedTransitions : List (DocState × DocState) := [
  (.textPending, .textRunning),
  (.textRunning, .extractPending),
  (.textRunning, .textPending),
  (.textRunning, .review),
  (.textRunning, .failed),
  (.extractPending, .extractRunning),
  (.extractRunning, .complete),
  (.extractRunning, .review),
  (.extractRunning, .extractPending),
  (.extractRunning, .failed),
  (.review, .extractPending),
  (.failed, .textPending),
  (.failed, .extractPending),
  (.review, .complete)]

/-- The states `transition` falls back to when its caller names none. -/
def predecessors (toState : DocState) : List DocState :=
  (allowedTransitions.filter fun p => p.2 = toState).map Prod.fst

end Ledger

namespace Db

/-- UPDATE of a row that currently reads `row`. -/
def write (db : Db) (docId : DocId) (row row' : Document) : Db :=
  { db with
    documents := db.documents.insert docId row'
    history := if row.state = row'.state then db.history
      else ⟨docId, row.state, row'.state⟩ :: db.history }

def insertOutbox (db : Db) (docId : DocId) (topic : Topic) (payload : Payload) : Db :=
  let row : OutboxRow := ⟨db.outboxSeq, docId, topic, payload⟩
  { db with outbox := db.outbox ++ [row], outboxSeq := db.outboxSeq + 1, sent := row :: db.sent }

/-- The partial unique index on (vendor, invoice_no): another row holds the pair. -/
def holdsKey (db : Db) (docId : DocId) (vendor invoiceNo : Option String) : Bool :=
  vendor.isSome && invoiceNo.isSome &&
    db.documents.rows.any fun r =>
      r.1 ≠ docId && decide (r.2.vendor = vendor) && decide (r.2.invoiceNo = invoiceNo)

end Db

namespace Ledger

def transition (docId : DocId) (toState : DocState) (fromStates : Option (List DocState))
    (idempotent : Bool) : Tx DocState := do
  let fromStates := fromStates.getD (predecessors toState)
  let allowed := fromStates ++ if idempotent then [toState] else []
  let db ← get
  match db.documents.lookup docId with
  | some row =>
    if row.state ∈ allowed then
      set (db.write docId row { row with state := toState, stateUpdatedAt := db.now })
      return toState
    else throw (.illegalTransition docId toState fromStates)
  | none => throw (.illegalTransition docId toState fromStates)

/-- An unconditional UPDATE by primary key, which matches no row when there is none. -/
def updateDocument (docId : DocId) (f : Document → Document) : Tx Unit :=
  modify fun db =>
    match db.documents.lookup docId with
    | some row => db.write docId row (f row)
    | none => db

def enqueue (docId : DocId) (topic : Topic) (payload : Payload) : Tx Unit :=
  modify fun db => db.insertOutbox docId topic payload

def enqueueMany (rows : List (DocId × Topic × Payload)) : Tx Unit :=
  modify fun db => rows.foldl (fun db r => db.insertOutbox r.1 r.2.1 r.2.2) db

/-- Python's `page_count <= SHARD_SIZE_PAGES` raises when the page count is null. -/
def routeTextProduction (site : Deployment) (hasTextLayer : Option Bool) (pageCount : Option Nat) :
    Except LedgerError (Topic × Nat) :=
  if hasTextLayer = some true then .ok (.textEmbedded, 1)
  else match pageCount with
    | none => .error .typeError
    | some n => if n ≤ site.shardSizePages then .ok (.ocrShard, 1) else .ok (.ocrSplit, 1)

def buildDispatchPayload (topic : Topic) (docId : DocId) (gcsPath : String) (pageCount : Option Nat) :
    Payload :=
  if topic = .ocrShard then
    .shard ⟨docId, 0, 1, 0, pageCount.getD 0, gcsPath⟩
  else .dispatch docId gcsPath pageCount

/-- INSERT ... ON CONFLICT (doc_id) DO NOTHING; false when the row already exists. -/
def insertInitialDocument (docId : DocId) (row : Document) : Tx Bool := do
  let db ← get
  match db.documents.lookup docId with
  | some _ => return false
  | none =>
    set { db with documents := db.documents.insert docId { row with stateUpdatedAt := db.now } }
    return true

/-- The INSERT of `claim_shard`; the index is unique and the document must exist. -/
def claimShard (docId : DocId) (shardIdx : Nat) : Tx Bool := do
  let db ← get
  if (docId, shardIdx) ∈ db.documentShards then return false
  else
    match db.documents.lookup docId with
    | none => throw .foreignKeyViolation
    | some _ =>
      set { db with documentShards := (docId, shardIdx) :: db.documentShards }
      return true

/-- UPDATE ... RETURNING shards_done, shards_total. -/
def incrementShardsDone (docId : DocId) : Tx (Nat × Nat) := do
  let db ← get
  match db.documents.lookup docId with
  | none => throw .typeError
  | some row =>
    set (db.write docId row { row with shardsDone := row.shardsDone + 1 })
    return (row.shardsDone + 1, row.shardsTotal)

def recordShardAndMaybeJoin (docId : DocId) (shardIdx : Nat) (completedPayload : Payload) :
    Tx Bool := do
  let claimed ← claimShard docId shardIdx
  if claimed then
    let (done, total) ← incrementShardsDone docId
    if done = total then
      let _ ← transition docId .extractPending (some [.textRunning]) true
      enqueue docId .ocrCompleted completedPayload
      return true
    else return false
  else return false

def missingShards (db : Db) (docId : DocId) (shardsTotal : Nat) : List Nat :=
  (List.range shardsTotal).filter fun i => (docId, i) ∉ db.documentShards

def commitExtractionResult (docId : DocId) (extractionResult : Fields) (gateResults : GateResults)
    (finalState : DocState) (outboxPayload : Option ExtractedPayload) : Tx Bool := do
  let db ← get
  match db.documents.lookup docId with
  | some row =>
    if row.extractionResult = none then
      set (db.write docId row { row with
        extractionResult := some extractionResult
        gateResults := gateResults
        state := finalState
        stateUpdatedAt := db.now })
      match outboxPayload with
      | some payload => enqueue docId .documentExtracted (.extracted payload)
      | none => pure ()
      return true
    else return false
  | none => return false

def routeWithoutWriting (docId : DocId) (gateResults : GateResults) (finalState : DocState) :
    Tx Bool := do
  let db ← get
  match db.documents.lookup docId with
  | some row =>
    set (db.write docId row { row with
      gateResults := gateResults, state := finalState, stateUpdatedAt := db.now })
    return true
  | none => return false

def logAttempts (rows : List AttemptRow) : Tx Unit :=
  modify fun db => { db with attemptLog := db.attemptLog ++ rows }

/-- The columns `increment_attempts` may name. -/
inductive AttemptColumn where
  | textAttempts | extractAttempts | repairAttempts
  deriving DecidableEq, Repr

def AttemptColumn.read : AttemptColumn → Document → Nat
  | .textAttempts, row => row.textAttempts
  | .extractAttempts, row => row.extractAttempts
  | .repairAttempts, row => row.repairAttempts

def AttemptColumn.bump : AttemptColumn → Nat → Document → Document
  | .textAttempts, n, row => { row with textAttempts := row.textAttempts + n }
  | .extractAttempts, n, row => { row with extractAttempts := row.extractAttempts + n }
  | .repairAttempts, n, row => { row with repairAttempts := row.repairAttempts + n }

def incrementAttempts (docId : DocId) (column : AttemptColumn) : Tx Nat := do
  let db ← get
  match db.documents.lookup docId with
  | none => throw .typeError
  | some row =>
    set (db.write docId row (column.bump 1 row))
    return column.read row + 1

def setLastError (docId : DocId) (message : String) : Tx Unit :=
  updateDocument docId fun row => { row with lastError := some message }

def setGateResults (docId : DocId) (gateResults : GateResults) : Tx Unit :=
  updateDocument docId fun row => { row with gateResults := gateResults }

def resetRepairAttempts (docId : DocId) : Tx Unit :=
  updateDocument docId fun row => { row with repairAttempts := 0 }

def stampBuildInfo (docId : DocId) (buildSha promptVersion : String) : Tx Unit :=
  updateDocument docId fun row =>
    { row with buildSha := some buildSha, promptVersion := some promptVersion }

def getFeatureFlag (db : Db) (key : String) (default : Bool) : Bool :=
  (db.featureFlags.lookup key).getD default

def setFeatureFlag (key : String) (value : Bool) : Tx Unit :=
  modify fun db => { db with featureFlags := db.featureFlags.insert key value }

def getDocument (db : Db) (docId : DocId) : Option Document := db.documents.lookup docId

/-- The inline UPDATE of the business-dedupe key, under its unique index. -/
def setBusinessKey (docId : DocId) (vendor invoiceNo : Option String) : Tx Unit := do
  let db ← get
  match db.documents.lookup docId with
  | some row =>
    if db.holdsKey docId vendor invoiceNo then throw .uniqueViolation
    else set (db.write docId row { row with vendor := vendor, invoiceNo := invoiceNo })
  | none => return ()

def audit (row : AuditRow) : Tx Unit :=
  modify fun db => { db with breakGlassAudit := db.breakGlassAudit ++ [row] }

end Ledger
end DocPipeline

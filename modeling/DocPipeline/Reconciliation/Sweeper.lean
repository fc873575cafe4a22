import DocPipeline.Stages.TextProduction

/-!
# The stuck-state sweeper

The claim is one transaction over the rows it locked. The messages go out afterwards,
one transaction a row, from the rows as they were read under the lock.
-/
namespace DocPipeline

set_option autoImplicit false

open Ledger

namespace DocState

/-- `state.startswith("text_")`. -/
def isText : DocState → Bool
  | .textPending | .textRunning => true
  | _ => false

/-- `state.endswith("_running")`. -/
def isRunning : DocState → Bool
  | .textRunning | .extractRunning => true
  | _ => false

/-- `state.replace("_running", "_pending")`, the identity where there is nothing to replace. -/
def toPending : DocState → DocState
  | .textRunning => .textPending
  | .extractRunning => .extractPending
  | s => s

def text : DocState → String
  | .textPending => "text_pending"
  | .textRunning => "text_running"
  | .extractPending => "extract_pending"
  | .extractRunning => "extract_running"
  | .complete => "complete"
  | .review => "review"
  | .failed => "failed"

end DocState

namespace Sweeper

/-- The WHERE clause of `claim_stuck_batch`. -/
def stuck (site : Deployment) (now : Nat) (row : Document) : Bool :=
  (decide (row.state ∈ textStates) && decide (row.stateUpdatedAt + site.stuckThresholdSeconds < now)) ||
    (decide (row.state ∈ extractStates) &&
      decide (row.stateUpdatedAt + site.extractStuckThresholdSeconds < now))

/-- ORDER BY priority DESC, state_updated_at ASC. -/
def before (p q : DocId × Document) : Prop :=
  q.2.priority < p.2.priority ∨
    (p.2.priority = q.2.priority ∧ p.2.stateUpdatedAt ≤ q.2.stateUpdatedAt)

instance : DecidableRel before := fun p q => by unfold before; infer_instance

/-- `claim_stuck_batch`; `locked` are the rows other transactions hold. -/
def claimStuckBatch (site : Deployment) (db : Db) (cap : Nat) (locked : List DocId) :
    List (DocId × Document) :=
  ((db.documents.rows.filter fun r => stuck site db.now r.2 && decide (r.1 ∉ locked)).insertionSort
    before).take cap

def capMessage (row : Document) (attempts maxAttempts : Nat) : String :=
  "sweeper: exceeded attempt cap in " ++ row.state.text ++ " (" ++ toString attempts ++ "/" ++
    toString maxAttempts ++ ")"

/-- The attempt counter of the row's stage, and its maximum. -/
def stageAttempts (site : Deployment) (row : Document) : AttemptColumn × Nat × Nat :=
  if row.state.isText then (.textAttempts, row.textAttempts, site.maxTextAttempts)
  else (.extractAttempts, row.extractAttempts, site.maxExtractAttempts)

/-- A running row whose budget is spent. -/
def capped (site : Deployment) (row : Document) : Bool :=
  row.state.isRunning && decide ((stageAttempts site row).2.2 ≤ (stageAttempts site row).2.1)

/-- The body of the loop over the claimed rows; true when the row is to be re-driven. -/
def claimRow (site : Deployment) (docId : DocId) (row : Document) : Tx Bool := do
  if capped site row then
    let _ ← transition docId .failed none true
    let (_, attempts, maxAttempts) := stageAttempts site row
    setLastError docId (capMessage row attempts maxAttempts)
    return false
  else
    if row.state.isRunning then
      let _ ← incrementAttempts docId (stageAttempts site row).1
    let _ ← transition docId row.state.toPending none true
    return true

def claimRows (site : Deployment) : List (DocId × Document) → Tx (List (DocId × Document))
  | [] => return []
  | r :: rest => do
    let claimed ← claimRow site r.1 r.2
    let others ← claimRows site rest
    return if claimed then r :: others else others

def claimBatch (site : Deployment) (cap : Nat) (locked : List DocId) : Tx (List (DocId × Document)) := do
  let db ← get
  claimRows site (claimStuckBatch site db cap locked)

/-- The shard message spelled out again by the re-drive. -/
def missingShardPayload (site : Deployment) (docId : DocId) (row : Document) (pageCount idx : Nat) :
    ShardPayload :=
  { docId := docId
    shardIdx := idx
    shardsTotal := row.shardsTotal
    pageStart := idx * site.shardSizePages
    pageEnd := min (idx * site.shardSizePages + site.shardSizePages) pageCount
    shardGcsPath := "gs://" ++ site.gcsBucket ++ "/shards/" ++ docId ++ "/" ++ pad4 idx ++ ".pdf" }

/-- The branch that sends the missing shards; a null page count raises at the first one. -/
def redriveShards (site : Deployment) (docId : DocId) (row : Document) : Tx Unit := do
  let db ← get
  let missing := missingShards db docId row.shardsTotal
  match row.pageCount with
  | some n =>
    enqueueMany (missing.map fun idx =>
      (docId, .ocrShard, .shard (missingShardPayload site docId row n idx)))
  | none => if missing = [] then return () else throw .typeError

def redriveDispatch (site : Deployment) (docId : DocId) (row : Document) : Tx Unit :=
  match routeTextProduction site row.hasTextLayer row.pageCount with
  | .error e => throw e
  | .ok (topic, _) => enqueue docId topic (buildDispatchPayload topic docId row.gcsPath row.pageCount)

/-- `redrive_document`; `row` may be older than the table's row. -/
def redriveDocument (site : Deployment) (docId : DocId) (row : Document) : Tx Unit :=
  if row.state.isText ∧ row.shardsTotal ≤ 1 then redriveDispatch site docId row
  else match row.state with
    | .textRunning => redriveShards site docId row
    | .textPending => enqueue docId .ocrSplit (.dispatch docId row.gcsPath row.pageCount)
    | .extractPending | .extractRunning => enqueue docId .ocrCompleted (.completed docId)
    | _ => return ()

inductive Pc where
  | claiming (cap : Nat) (locked : List DocId)
  | redriving (claimed : List (DocId × Document))

def step (site : Deployment) (w : World) : Pc → World × Next Pc Unit
  | .claiming cap locked => w.transact (claimBatch site cap locked) (fun rows => .goto (.redriving rows)) .raised
  | .redriving [] => (w, .returned ())
  | .redriving (r :: rest) =>
    w.transact (redriveDocument site r.1 r.2) (fun _ => .goto (.redriving rest)) .raised

end Sweeper
end DocPipeline

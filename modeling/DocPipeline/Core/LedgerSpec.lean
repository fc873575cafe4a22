import DocPipeline.Core.Ledger

/-!
# What each ledger function commits

One lemma a function: it commits exactly when its guard holds of the row it finds, and
then it leaves this database. Nothing later unfolds the functions themselves.
-/
namespace DocPipeline

set_option autoImplicit false

open Lib Lib.Transaction

/-! The rows the updates leave. -/
namespace Document

/-- `transition` to `toState`. -/
def moved (row : Document) (toState : DocState) (now : Nat) : Document :=
  { row with state := toState, stateUpdatedAt := now }

/-- The first UPDATE of the tier-0 fall-through. -/
def fallen (row : Document) (shardsTotal : Nat) : Document :=
  { row with hasTextLayer := some false, shardsTotal := shardsTotal }

/-- The UPDATE of `commit_split_result`. -/
def resplit (row : Document) (shardsTotal pageCount : Nat) : Document :=
  { row with shardsTotal := shardsTotal, pageCount := some pageCount }

def counted (row : Document) : Document := { row with shardsDone := row.shardsDone + 1 }

def routed (row : Document) (gates : GateResults) (state : DocState) (now : Nat) : Document :=
  { row with gateResults := gates, state := state, stateUpdatedAt := now }

def settled (row : Document) (fields : Fields) (gates : GateResults) (state : DocState) (now : Nat) : Document :=
  { row with extractionResult := some fields, gateResults := gates, state := state, stateUpdatedAt := now }

def rekeyed (row : Document) (vendor invoiceNo : Option String) : Document :=
  { row with vendor := vendor, invoiceNo := invoiceNo }

def accepted (row : Document) (gates : GateResults) (now : Nat) : Document :=
  { row with gateResults := gates, state := .complete, stateUpdatedAt := now }

end Document

namespace Db

variable (db : Db) (docId d : DocId) (row row' : Document) (topic : Topic) (payload : Payload)

@[simp] theorem write_lookup :
    (db.write docId row row').documents.lookup d = if d = docId then some row' else db.documents.lookup d :=
  Table.lookup_insert_ite db.documents docId d row'

theorem write_lookup_self : (db.write docId row row').documents.lookup docId = some row' := by
  rw [write_lookup, if_pos rfl]

@[simp] theorem write_documentShards : (db.write docId row row').documentShards = db.documentShards := rfl
@[simp] theorem write_outbox : (db.write docId row row').outbox = db.outbox := rfl
@[simp] theorem write_outboxSeq : (db.write docId row row').outboxSeq = db.outboxSeq := rfl
@[simp] theorem write_postedDocuments : (db.write docId row row').postedDocuments = db.postedDocuments := rfl
@[simp] theorem write_featureFlags : (db.write docId row row').featureFlags = db.featureFlags := rfl
@[simp] theorem write_now : (db.write docId row row').now = db.now := rfl
@[simp] theorem write_sent : (db.write docId row row').sent = db.sent := rfl

theorem write_history :
    (db.write docId row row').history =
      if row.state = row'.state then db.history else ⟨docId, row.state, row'.state⟩ :: db.history := rfl

/-- Writing a row twice is writing it once, when the first write keeps the state. -/
theorem write_write (row₁ row₂ : Document) (h : row₁.state = row.state) :
    (db.write docId row row₁).write docId row₁ row₂ = db.write docId row row₂ := by
  simp only [write, AList.insert_insert, h, if_true]

/-- The same when the second write keeps the state. -/
theorem write_write_of_kept (row₁ row₂ : Document) (h : row₂.state = row₁.state) :
    (db.write docId row row₁).write docId row₁ row₂ = db.write docId row row₂ := by
  simp only [write, AList.insert_insert, h, if_true]

@[simp] theorem insertOutbox_documents : (db.insertOutbox docId topic payload).documents = db.documents := rfl
@[simp] theorem insertOutbox_documentShards :
    (db.insertOutbox docId topic payload).documentShards = db.documentShards := rfl
@[simp] theorem insertOutbox_postedDocuments :
    (db.insertOutbox docId topic payload).postedDocuments = db.postedDocuments := rfl
@[simp] theorem insertOutbox_history : (db.insertOutbox docId topic payload).history = db.history := rfl
@[simp] theorem insertOutbox_outboxSeq :
    (db.insertOutbox docId topic payload).outboxSeq = db.outboxSeq + 1 := rfl
@[simp] theorem insertOutbox_outbox :
    (db.insertOutbox docId topic payload).outbox = db.outbox ++ [⟨db.outboxSeq, docId, topic, payload⟩] := rfl
@[simp] theorem insertOutbox_sent :
    (db.insertOutbox docId topic payload).sent = ⟨db.outboxSeq, docId, topic, payload⟩ :: db.sent := rfl

end Db

namespace Ledger

variable {db db' : Db} {docId : DocId}

theorem transition_commits {toState st : DocState} {fromStates : Option (List DocState)} {idempotent : Bool} :
    Commits (transition docId toState fromStates idempotent) db st db' ↔
    ∃ row, db.documents.lookup docId = some row ∧
      row.state ∈ fromStates.getD (predecessors toState) ++ (if idempotent then [toState] else []) ∧
      st = toState ∧
      db' = db.write docId row (row.moved toState db.now) := by
  simp only [transition, commits_bind, commits_get]
  constructor
  · rintro ⟨_, _, ⟨rfl, rfl⟩, h⟩
    split at h
    · next row hrow =>
      rw [commits_ite] at h
      rcases h with ⟨hmem, h⟩ | ⟨_, h⟩
      · simp only [commits_bind, commits_set, commits_pure] at h
        obtain ⟨_, _, rfl, rfl, rfl⟩ := h
        exact ⟨row, hrow, hmem, rfl, rfl⟩
      · exact absurd h commits_throw
    · exact absurd h commits_throw
  · rintro ⟨row, hrow, hmem, rfl, rfl⟩
    refine ⟨db, db, ⟨rfl, rfl⟩, ?_⟩
    rw [hrow]
    change Commits (if _ then _ else _) _ _ _
    rw [if_pos hmem]
    simp only [commits_bind, commits_set, commits_pure]
    exact ⟨⟨⟩, _, rfl, trivial, rfl⟩

theorem mem_predecessors {fromState toState : DocState} :
    fromState ∈ predecessors toState ↔ (fromState, toState) ∈ allowedTransitions := by
  simp only [predecessors, List.mem_map, List.mem_filter, decide_eq_true_eq]
  constructor
  · rintro ⟨⟨_, _⟩, ⟨hm, rfl⟩, rfl⟩
    exact hm
  · intro h
    exact ⟨_, ⟨h, rfl⟩, rfl⟩

/-- Nothing leaves `complete`. -/
theorem complete_final (toState : DocState) : (DocState.complete, toState) ∉ allowedTransitions := by
  cases toState <;> decide

/-- The guard when the caller names no states. -/
theorem transition_default_commits {toState st : DocState} :
    Commits (transition docId toState none true) db st db' ↔
    ∃ row, db.documents.lookup docId = some row ∧
      ((row.state, toState) ∈ allowedTransitions ∨ row.state = toState) ∧ st = toState ∧
      db' = db.write docId row (row.moved toState db.now) := by
  simp only [transition_commits, Option.getD_none, if_true, List.mem_append, mem_predecessors,
    List.mem_singleton]

theorem updateDocument_commits {f : Document → Document} {u : Unit} :
    Commits (updateDocument docId f) db u db' ↔
    (∃ row, db.documents.lookup docId = some row ∧ db' = db.write docId row (f row)) ∨
      (db.documents.lookup docId = none ∧ db' = db) := by
  rw [updateDocument, commits_modify]
  cases h : db.documents.lookup docId with
  | none => simp [eq_comm]
  | some row => simp [eq_comm]

@[simp] theorem enqueue_commits {topic : Topic} {payload : Payload} {u : Unit} :
    Commits (enqueue docId topic payload) db u db' ↔ db' = db.insertOutbox docId topic payload := by
  rw [enqueue, commits_modify, eq_comm]

theorem enqueueMany_nil {u : Unit} : Commits (enqueueMany []) db u db' ↔ db' = db := by
  rw [enqueueMany, commits_modify, eq_comm]
  rfl

theorem enqueueMany_cons {r : DocId × Topic × Payload} {rest : List (DocId × Topic × Payload)} {u : Unit} :
    Commits (enqueueMany (r :: rest)) db u db' ↔
      Commits (enqueueMany rest) (db.insertOutbox r.1 r.2.1 r.2.2) u db' := by
  rw [enqueueMany, commits_modify, enqueueMany, commits_modify, List.foldl_cons]

theorem enqueueMany_succeeds (rows : List (DocId × Topic × Payload)) (db : Db) :
    ∃ db', Commits (enqueueMany rows) db ⟨⟩ db' := ⟨_, commits_modify.mpr rfl⟩

/-- The messages sent are the rows, and nothing else changes that anyone reads. -/
theorem enqueueMany_sent {rows : List (DocId × Topic × Payload)} {u : Unit}
    (h : Commits (enqueueMany rows) db u db') :
    db'.documents = db.documents ∧ db'.documentShards = db.documentShards ∧
    ∃ new, db'.sent = new ++ db.sent ∧ ∀ r, r ∈ rows ↔ ∃ m, m ∈ new ∧ (m.docId, m.topic, m.payload) = r := by
  induction rows generalizing db with
  | nil =>
    rw [enqueueMany_nil.mp h]
    exact ⟨rfl, rfl, [], rfl, fun r => ⟨fun hr => (nomatch hr), fun ⟨_, hm, _⟩ => (nomatch hm)⟩⟩
  | cons first rest ih =>
    obtain ⟨hdocs, hshards, new, hnew, hrows⟩ := ih (enqueueMany_cons.mp h)
    refine ⟨hdocs, hshards, new ++ [⟨db.outboxSeq, first.1, first.2.1, first.2.2⟩], ?_, fun r => ?_⟩
    · rw [hnew, Db.insertOutbox_sent, List.append_assoc, List.singleton_append]
    · simp only [List.mem_cons, hrows r, List.mem_append, List.not_mem_nil, or_false, or_and_right, exists_or,
        exists_eq_left]
      rw [or_comm, eq_comm (a := r)]

theorem insertInitialDocument_commits {row : Document} {inserted : Bool} :
    Commits (insertInitialDocument docId row) db inserted db' ↔
    (inserted = true ∧ db.documents.lookup docId = none ∧
      db' = { db with documents := db.documents.insert docId { row with stateUpdatedAt := db.now } }) ∨
    (inserted = false ∧ db' = db ∧ ∃ old, db.documents.lookup docId = some old) := by
  simp only [insertInitialDocument, commits_bind, commits_get]
  cases h : db.documents.lookup docId with
  | none => simp [h, eq_comm, and_comm]
  | some old => simp [h, eq_comm, and_comm]

theorem claimShard_commits {shardIdx : Nat} {claimed : Bool} :
    Commits (claimShard docId shardIdx) db claimed db' ↔
    ((docId, shardIdx) ∈ db.documentShards ∧ claimed = false ∧ db' = db) ∨
    ((docId, shardIdx) ∉ db.documentShards ∧ claimed = true ∧
      (∃ row, db.documents.lookup docId = some row) ∧
      db' = { db with documentShards := (docId, shardIdx) :: db.documentShards }) := by
  simp only [claimShard, commits_bind, commits_get]
  by_cases hm : (docId, shardIdx) ∈ db.documentShards
  · simp [hm, eq_comm]
  · cases h : db.documents.lookup docId with
    | none => simp [hm, h]
    | some row => simp [hm, h, eq_comm, and_comm]

theorem incrementShardsDone_commits {r : Nat × Nat} :
    Commits (incrementShardsDone docId) db r db' ↔
    ∃ row, db.documents.lookup docId = some row ∧ r = (row.shardsDone + 1, row.shardsTotal) ∧
      db' = db.write docId row row.counted := by
  simp only [incrementShardsDone, commits_bind, commits_get]
  cases h : db.documents.lookup docId with
  | none => simp [h]
  | some row => simp [h, eq_comm, and_comm, Document.counted]

theorem commitExtractionResult_commits {fields : Fields} {gates : GateResults} {finalState : DocState}
    {payload : Option ExtractedPayload} {won : Bool} :
    Commits (commitExtractionResult docId fields gates finalState payload) db won db' ↔
    (won = false ∧ db' = db ∧
      ∀ row, db.documents.lookup docId = some row → row.extractionResult ≠ none) ∨
    (won = true ∧ ∃ row, db.documents.lookup docId = some row ∧ row.extractionResult = none ∧
      let written := db.write docId row (row.settled fields gates finalState db.now)
      db' = match payload with
        | some payload => written.insertOutbox docId .documentExtracted (.extracted payload)
        | none => written) := by
  simp only [commitExtractionResult, commits_bind, commits_get]
  cases h : db.documents.lookup docId with
  | none => simp [h, eq_comm, and_comm]
  | some row =>
    by_cases hr : row.extractionResult = none
    · cases payload <;> simp [h, hr, eq_comm, and_comm, Document.settled]
    · simp [h, hr, eq_comm, and_comm]

theorem routeWithoutWriting_commits {gates : GateResults} {finalState : DocState} {found : Bool} :
    Commits (routeWithoutWriting docId gates finalState) db found db' ↔
    (found = true ∧ ∃ row, db.documents.lookup docId = some row ∧
      db' = db.write docId row (row.routed gates finalState db.now)) ∨
    (found = false ∧ db.documents.lookup docId = none ∧ db' = db) := by
  simp only [routeWithoutWriting, commits_bind, commits_get]
  cases h : db.documents.lookup docId with
  | none => simp [h, eq_comm, and_comm]
  | some row => simp [h, eq_comm, and_comm, Document.routed]

theorem incrementAttempts_commits {column : AttemptColumn} {n : Nat} :
    Commits (incrementAttempts docId column) db n db' ↔
    ∃ row, db.documents.lookup docId = some row ∧ n = column.read row + 1 ∧
      db' = db.write docId row (column.bump 1 row) := by
  simp only [incrementAttempts, commits_bind, commits_get]
  cases h : db.documents.lookup docId with
  | none => simp [h]
  | some row => simp [h, eq_comm, and_comm]

theorem setBusinessKey_commits {vendor invoiceNo : Option String} {u : Unit} :
    Commits (setBusinessKey docId vendor invoiceNo) db u db' ↔
    (db.documents.lookup docId = none ∧ db' = db) ∨
    ∃ row, db.documents.lookup docId = some row ∧ db.holdsKey docId vendor invoiceNo = false ∧
      db' = db.write docId row (row.rekeyed vendor invoiceNo) := by
  simp only [setBusinessKey, commits_bind, commits_get]
  constructor
  · rintro ⟨_, _, ⟨rfl, rfl⟩, hc⟩
    split at hc
    · next row hrow =>
      rw [commits_ite] at hc
      rcases hc with ⟨_, hc⟩ | ⟨hk, hc⟩
      · exact absurd hc commits_throw
      · rw [commits_set] at hc
        exact Or.inr ⟨row, hrow, Bool.eq_false_iff.mpr hk, hc.symm⟩
    · next hrow =>
      rw [commits_pure] at hc
      exact Or.inl ⟨hrow, hc.2.symm⟩
  · rintro (⟨hrow, rfl⟩ | ⟨row, hrow, hk, rfl⟩)
    · refine ⟨db', db', ⟨rfl, rfl⟩, ?_⟩
      rw [hrow]
      exact commits_pure.mpr ⟨rfl, rfl⟩
    · refine ⟨db, db, ⟨rfl, rfl⟩, ?_⟩
      rw [hrow]
      change Commits (if _ then _ else _) _ _ _
      rw [if_neg (Bool.eq_false_iff.mp hk)]
      exact commits_set.mpr rfl

theorem audit_commits {row : AuditRow} {u : Unit} :
    Commits (audit row) db u db' ↔ db' = { db with breakGlassAudit := db.breakGlassAudit ++ [row] } := by
  rw [audit, commits_modify, eq_comm]

end Ledger
end DocPipeline

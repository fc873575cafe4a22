import DocPipeline.Lib.Run
import DocPipeline.Core.Artifact
import DocPipeline.Core.LedgerSpec

/-!
# The operations a transaction is made of

Every transaction of the pipeline is a sequence of the operations below, each with the
guard under which it changes anything. A property that all of them keep is kept by every
handler, so a result about the ledger is one case analysis over this list. Which handler
performs which operation is said beside the handlers.
-/
namespace DocPipeline

set_option autoImplicit false

/-- The bookkeeping columns, which decide nothing but the sweeper's attempt cap. -/
structure Notes where
  textAttempts : Nat
  extractAttempts : Nat
  repairAttempts : Nat
  lastError : Option String
  buildSha : Option String
  promptVersion : Option String

namespace Document

def notes (row : Document) : Notes :=
  ⟨row.textAttempts, row.extractAttempts, row.repairAttempts, row.lastError, row.buildSha, row.promptVersion⟩

def noted (row : Document) (notes : Notes) : Document :=
  { row with
    textAttempts := notes.textAttempts
    extractAttempts := notes.extractAttempts
    repairAttempts := notes.repairAttempts
    lastError := notes.lastError
    buildSha := notes.buildSha
    promptVersion := notes.promptVersion }

/-- The rows triage inserts. -/
structure Fresh (row : Document) : Prop where
  state : row.state = .textPending ∨ row.state = .review ∨ row.state = .failed
  extractionResult : row.extractionResult = none
  vendor : row.vendor = none
  invoiceNo : row.invoiceNo = none
  shardsTotal : row.shardsTotal = 1
  shardsDone : row.shardsDone = 0
  extractAttempts : row.extractAttempts = 0

end Document

namespace Db

/-- Only `feature_flags`, `break_glass_audit` and `attempt_log` differ. -/
structure SameLedger (db db' : Db) : Prop where
  documents : db'.documents = db.documents
  documentShards : db'.documentShards = db.documentShards
  outbox : db'.outbox = db.outbox
  outboxSeq : db'.outboxSeq = db.outboxSeq
  postedDocuments : db'.postedDocuments = db.postedDocuments
  history : db'.history = db.history
  sent : db'.sent = db.sent

/-- The effect of a shard that claims its index: both statements of the join. -/
def countShard (db : Db) (docId : DocId) (shardIdx : Nat) (row : Document) : Db :=
  { db with documentShards := (docId, shardIdx) :: db.documentShards }.write docId row row.counted

end Db

inductive Operation where
  | insert (docId : DocId) (row : Document)
  | move (docId : DocId) (toState : DocState)
  | note (docId : DocId) (notes : Notes)
  | fallThrough (docId : DocId) (shardsTotal : Nat)
  | split (docId : DocId) (shardsTotal pageCount : Nat)
  | recordShard (docId : DocId) (shardIdx : Nat)
  | send (docId : DocId) (topic : Topic) (payload : Payload)
  | route (docId : DocId) (gates : GateResults)
  | settle (docId : DocId) (fields : Fields) (gates : GateResults)
  | post (docId : DocId) (fields : Fields) (gates : GateResults) (payload : ExtractedPayload)
  | rekey (docId : DocId) (vendor invoiceNo : Option String)
  | accept (docId : DocId) (gates : GateResults) (payload : ExtractedPayload)
  | aside

namespace Operation

/-- The payload an auto-post enqueues for these fields. -/
structure Announces (payload : ExtractedPayload) (docId : DocId) (fields : Fields) : Prop where
  docId : payload.docId = docId
  route : payload.route = some "auto_post"
  fields : payload.fields = some fields

inductive Step : Db → Operation → Db → Prop
  | insert {db : Db} {docId : DocId} {row : Document} :
      db.documents.lookup docId = none → row.Fresh →
      Step db (.insert docId row) { db with documents := db.documents.insert docId row }
  | move {db : Db} {docId : DocId} {row : Document} {toState : DocState} :
      db.documents.lookup docId = some row →
      (row.state, toState) ∈ Ledger.allowedTransitions ∨ row.state = toState →
      toState ≠ .complete → toState ≠ .review →
      Step db (.move docId toState) (db.write docId row (row.moved toState db.now))
  | note {db : Db} {docId : DocId} {row : Document} {notes : Notes} :
      db.documents.lookup docId = some row →
      Step db (.note docId notes) (db.write docId row (row.noted notes))
  | fallThrough {db : Db} {docId : DocId} {row : Document} {shardsTotal : Nat} :
      db.documents.lookup docId = some row →
      Step db (.fallThrough docId shardsTotal)
        (db.write docId row (row.fallen shardsTotal))
  | split {db : Db} {docId : DocId} {row : Document} {shardsTotal pageCount : Nat} :
      db.documents.lookup docId = some row →
      Step db (.split docId shardsTotal pageCount)
        (db.write docId row (row.resplit shardsTotal pageCount))
  | recordShard {db : Db} {docId : DocId} {row : Document} {shardIdx : Nat} :
      db.documents.lookup docId = some row → (docId, shardIdx) ∉ db.documentShards →
      Step db (.recordShard docId shardIdx) (db.countShard docId shardIdx row)
  | send {db : Db} {docId : DocId} {topic : Topic} {payload : Payload} :
      topic ≠ .documentExtracted → Step db (.send docId topic payload) (db.insertOutbox docId topic payload)
  | route {db : Db} {docId : DocId} {row : Document} {gates : GateResults} :
      db.documents.lookup docId = some row →
      Step db (.route docId gates) (db.write docId row (row.routed gates .review db.now))
  | settle {db : Db} {docId : DocId} {row : Document} {fields : Fields} {gates : GateResults} :
      db.documents.lookup docId = some row → row.extractionResult = none →
      Step db (.settle docId fields gates) (db.write docId row (row.settled fields gates .review db.now))
  | post {db : Db} {docId : DocId} {row : Document} {fields : Fields} {gates : GateResults}
      {payload : ExtractedPayload} :
      db.documents.lookup docId = some row → row.extractionResult = none →
      db.holdsKey docId fields.seller fields.invoiceNo = false → Announces payload docId fields →
      Step db (.post docId fields gates payload)
        ((db.write docId row ((row.rekeyed fields.seller fields.invoiceNo).settled fields gates .complete
          db.now)).insertOutbox docId .documentExtracted (.extracted payload))
  | rekey {db : Db} {docId : DocId} {row : Document} {vendor invoiceNo : Option String} :
      db.documents.lookup docId = some row → row.extractionResult ≠ none →
      db.holdsKey docId vendor invoiceNo = false →
      Step db (.rekey docId vendor invoiceNo) (db.write docId row (row.rekeyed vendor invoiceNo))
  | accept {db : Db} {docId : DocId} {row : Document} {gates : GateResults} {payload : ExtractedPayload} :
      db.documents.lookup docId = some row → row.state = .review ∨ row.state = .complete →
      payload.docId = docId → payload.route = none → payload.fields = none →
      Step db (.accept docId gates payload)
        ((db.write docId row (row.accepted gates db.now)).insertOutbox docId .documentExtracted
          (.extracted payload))
  | aside {db db' : Db} : db.SameLedger db' → Step db .aside db'

/-- The document whose row or shards an operation writes. -/
def writes : Operation → Option DocId
  | .insert docId _ | .move docId _ | .note docId _ | .fallThrough docId _ | .split docId _ _ | .recordShard docId _
  | .route docId _ | .settle docId _ _ | .post docId _ _ _ | .rekey docId _ _ | .accept docId _ _ => some docId
  | .send _ _ _ | .aside => none

/-- An operation leaves the rows and the shards of other documents alone. -/
theorem Step.elsewhere {db db' : Db} {op : Operation} {d : DocId} (h : Step db op db') (hd : op.writes ≠ some d) :
    db'.documents.lookup d = db.documents.lookup d ∧
      ∀ i, (d, i) ∈ db'.documentShards ↔ (d, i) ∈ db.documentShards := by
  have hwrite : ∀ {db : Db} {docId : DocId} (row row' : Document), some docId ≠ some d →
      (db.write docId row row').documents.lookup d = db.documents.lookup d := by
    intro db docId row row' hne
    rw [Db.write_lookup, if_neg fun he : d = docId => hne (he ▸ rfl)]
  cases h with
  | insert => exact ⟨AList.lookup_insert_ne fun he => hd (he ▸ rfl), fun _ => Iff.rfl⟩
  | recordShard =>
    refine ⟨hwrite _ _ hd, fun i => ?_⟩
    change (d, i) ∈ _ :: _ ↔ _
    rw [List.mem_cons, or_iff_right]
    intro he
    exact hd (congrArg some (Prod.mk.inj he).1.symm)
  | move | note | fallThrough | split | route | settle | rekey => exact ⟨hwrite _ _ hd, fun _ => Iff.rfl⟩
  | post | accept => exact ⟨by rw [Db.insertOutbox_documents, hwrite _ _ hd], fun _ => Iff.rfl⟩
  | send => exact ⟨rfl, fun _ => Iff.rfl⟩
  | aside hsame => exact ⟨by rw [hsame.documents], fun _ => by rw [hsame.documentShards]⟩

/-- A row that is not there stays so, unless it is inserted. -/
theorem Step.absent {db db' : Db} {op : Operation} {d : DocId} (h : Step db op db')
    (hnone : db.documents.lookup d = none) :
    db'.documents.lookup d = none ∨ ∃ row, op = .insert d row := by
  have hwrite : ∀ {docId : DocId} {row row' : Document}, db.documents.lookup docId = some row →
      (db.write docId row row').documents.lookup d = none := by
    intro docId row row' hrow
    have hne : d ≠ docId := by
      rintro rfl
      rw [hrow] at hnone
      cases hnone
    rw [Db.write_lookup, if_neg hne, hnone]
  cases h with
  | @insert docId row _ _ =>
    by_cases hd : d = docId
    · exact Or.inr ⟨row, by rw [hd]⟩
    · exact Or.inl ((AList.lookup_insert_ne hd).trans hnone)
  | move hrow | note hrow | fallThrough hrow | split hrow | recordShard hrow | route hrow | settle hrow | post hrow
  | rekey hrow | accept hrow => exact Or.inl (hwrite hrow)
  | send => exact Or.inl hnone
  | aside hsame => exact Or.inl (hsame.documents ▸ hnone)

/-- A row that is there is never deleted. -/
theorem Step.present {db db' : Db} {op : Operation} {d : DocId} (h : Step db op db')
    (hsome : db.documents.lookup d ≠ none) : db'.documents.lookup d ≠ none := by
  have hinsert : ∀ {docId : DocId} {row : Document}, (db.documents.insert docId row).lookup d ≠ none := by
    intro docId row
    by_cases hd : d = docId
    · rw [hd, AList.lookup_insert]
      exact Option.some_ne_none _
    · rw [AList.lookup_insert_ne hd]
      exact hsome
  cases h with
  | insert | move | note | fallThrough | split | recordShard | route | settle | post | rekey | accept => exact hinsert
  | send => exact hsome
  | aside hsame =>
    rw [hsame.documents]
    exact hsome

end Operation

/-- A transaction that is made of operations `May` allows, each in the database it meets. -/
abbrev Performs (May : Db → Operation → Prop) (db db' : Db) : Prop :=
  Lib.Reaches Operation.Step May db db'

section Performs

open Lib Lib.Transaction

variable {May : Db → Operation → Prop} {db db' : Db} {docId : DocId}

/-- A transaction performs what it commits, and nothing when it is rolled back. -/
theorem World.transact_performs {α π ρ : Type} (w : World) (t : Tx α) (onCommit : α → Next π ρ)
    (onError : LedgerError → Next π ρ)
    (h : ∀ a db, Commits t w.db a db → Performs May w.db db) :
    Performs May w.db (w.transact t onCommit onError).1.db := by
  rcases w.transact_cases t onCommit onError with ⟨a, db, hc, he⟩ | ⟨e, he⟩
  · rw [he]
    exact h a db hc
  · rw [he]
    exact Reaches.refl _

/-- An update of bookkeeping columns only. -/
theorem performs_note {f : Document → Document} {u : Unit}
    (h : Commits (Ledger.updateDocument docId f) db u db')
    (hf : ∀ row, f row = row.noted (f row).notes) (hmay : ∀ notes, May db (.note docId notes)) :
    Performs May db db' := by
  rcases Ledger.updateDocument_commits.mp h with ⟨row, hrow, rfl⟩ | ⟨_, rfl⟩
  · rw [hf row]
    exact Reaches.single (hmay _) (.note hrow)
  · exact Reaches.refl _

theorem performs_attempt {column : Ledger.AttemptColumn} {n : Nat}
    (h : Commits (Ledger.incrementAttempts docId column) db n db')
    (hmay : ∀ notes, May db (.note docId notes)) : Performs May db db' := by
  obtain ⟨row, hrow, _, rfl⟩ := Ledger.incrementAttempts_commits.mp h
  rw [show column.bump 1 row = row.noted (column.bump 1 row).notes by cases column <;> rfl]
  exact Reaches.single (hmay _) (.note hrow)

/-- Messages sent one after another. -/
theorem performs_enqueueMany {rows : List (DocId × Topic × Payload)} {u : Unit}
    (h : Commits (Ledger.enqueueMany rows) db u db')
    (htopic : ∀ r, r ∈ rows → r.2.1 ≠ .documentExtracted)
    (hmay : ∀ db₁ r, r ∈ rows → db₁.documents = db.documents → May db₁ (.send r.1 r.2.1 r.2.2)) :
    Performs May db db' := by
  induction rows generalizing db with
  | nil =>
    rw [Ledger.enqueueMany_nil.mp h]
    exact Reaches.refl _
  | cons r rest ih =>
    have hfirst : Performs May db (db.insertOutbox r.1 r.2.1 r.2.2) :=
      Reaches.single (hmay db r List.mem_cons_self rfl) (.send (htopic r List.mem_cons_self))
    refine hfirst.trans (ih (Ledger.enqueueMany_cons.mp h) (fun r' hr' => htopic r' (List.mem_cons_of_mem _ hr'))
      fun db₁ r' hr' hd => hmay db₁ r' (List.mem_cons_of_mem _ hr') hd)

end Performs

end DocPipeline

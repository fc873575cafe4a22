import DocPipeline.Effects.Lasting
import DocPipeline.Gather.Invariant
import DocPipeline.Audit.StateMachine

/-!
# What is recorded stays

Over any stretch of any run: no document is lost, a row keeps what triage read off its
object, a result is written once, counters only go up, and the tables that are inserted into
keep every row. The page count is the one of these that a statement writes again; it writes
the number that is there. A row's timestamp is not among them: a transaction that began
earlier stamps with an earlier time.
-/
namespace DocPipeline

set_option autoImplicit false

open Lib Sys Gather

/-- What a later state has of a row. -/
structure Document.Outlives (row row' : Document) : Prop where
  gcsPath : row'.gcsPath = row.gcsPath
  docType : row'.docType = row.docType
  priority : row'.priority = row.priority
  pageCount : row'.pageCount = row.pageCount
  extractionResult : row.extractionResult ≠ none → row'.extractionResult = row.extractionResult
  shardsDone : row.shardsDone ≤ row'.shardsDone
  textAttempts : row.textAttempts ≤ row'.textAttempts
  extractAttempts : row.extractAttempts ≤ row'.extractAttempts

theorem Document.Outlives.refl (row : Document) : row.Outlives row :=
  ⟨rfl, rfl, rfl, rfl, fun _ => rfl, Nat.le_refl _, Nat.le_refl _, Nat.le_refl _⟩

theorem Document.Outlives.trans {row row' row'' : Document} (h : row.Outlives row') (k : row'.Outlives row'') :
    row.Outlives row'' where
  gcsPath := k.gcsPath.trans h.gcsPath
  docType := k.docType.trans h.docType
  priority := k.priority.trans h.priority
  pageCount := k.pageCount.trans h.pageCount
  extractionResult hne := by
    have hkept := h.extractionResult hne
    exact (k.extractionResult (hkept ▸ hne)).trans hkept
  shardsDone := h.shardsDone.trans k.shardsDone
  textAttempts := h.textAttempts.trans k.textAttempts
  extractAttempts := h.extractAttempts.trans k.extractAttempts

/-- What a later database has of an earlier one. -/
structure Db.Outlives (db db' : Db) : Prop where
  rows : ∀ d row, db.documents.lookup d = some row → ∃ row', db'.documents.lookup d = some row' ∧ row.Outlives row'
  documentShards : db.documentShards <:+ db'.documentShards
  history : db.history <:+ db'.history
  sent : db.sent <:+ db'.sent
  postedDocuments : ∀ d posted, db.postedDocuments.lookup d = some posted → db'.postedDocuments.lookup d = some posted
  breakGlassAudit : db.breakGlassAudit <+: db'.breakGlassAudit
  attemptLog : db.attemptLog <+: db'.attemptLog

namespace Db.Outlives

variable {db m db' : Db}

theorem refl (db : Db) : db.Outlives db :=
  ⟨fun _ row hrow => ⟨row, hrow, .refl row⟩, List.suffix_refl _, List.suffix_refl _, List.suffix_refl _,
    fun _ _ h => h, List.prefix_refl _, List.prefix_refl _⟩

theorem trans (h : db.Outlives m) (k : m.Outlives db') : db.Outlives db' where
  rows d row hrow := by
    obtain ⟨row₁, hrow₁, hfirst⟩ := h.rows d row hrow
    obtain ⟨row₂, hrow₂, hrest⟩ := k.rows d row₁ hrow₁
    exact ⟨row₂, hrow₂, hfirst.trans hrest⟩
  documentShards := h.documentShards.trans k.documentShards
  history := h.history.trans k.history
  sent := h.sent.trans k.sent
  postedDocuments d posted hposted := k.postedDocuments d posted (h.postedDocuments d posted hposted)
  breakGlassAudit := h.breakGlassAudit.trans k.breakGlassAudit
  attemptLog := h.attemptLog.trans k.attemptLog

end Db.Outlives

/-- With the page count known to be kept, what a transaction leaves outlives it. -/
theorem Db.Lasts.outlives {site : Deployment} {db db' : Db} (h : db.Lasts db') (hg : Grows False site db db') :
    db.Outlives db' where
  rows d row hrow := by
    obtain ⟨row', hrow', hlasts⟩ := h.rows d row hrow
    obtain ⟨row₁, hrow₁, _, hpages, _⟩ := hg d row hrow
    obtain rfl : row' = row₁ := Option.some.inj (hrow'.symm.trans hrow₁)
    exact ⟨row', hrow', hlasts.gcsPath, hlasts.docType, hlasts.priority, hpages, hlasts.extractionResult,
      hlasts.shardsDone, hlasts.textAttempts, hlasts.extractAttempts⟩
  documentShards := h.documentShards
  history := h.history
  sent := h.sent
  postedDocuments _ _ hposted := h.postedDocuments ▸ hposted
  breakGlassAudit := h.breakGlassAudit
  attemptLog := h.attemptLog

namespace Audit

variable {site : Deployment} {s t : Sys} {a : Action} {d : DocId} {row : Document}

/-- No step takes a document away. -/
theorem document_stays (hs : Step site s a t) (hrow : s.document d = some row) : ∃ row', t.document d = some row' := by
  have hkept : t.db.documents = s.db.documents → ∃ row', t.document d = some row' := fun he =>
    ⟨row, by rw [Sys.document, he, ← hrow]⟩
  cases step_kind hs with
  | idle => exact ⟨row, hrow⟩
  | relayed hrelay => exact hkept (relay_keeps hrelay).1.documents
  | sunk hsink => rcases sink_posts hsink with hdb | ⟨_, _, _, _, _, hdb⟩ <;> exact hkept (by rw [hdb])
  | ran htask hr =>
    obtain ⟨row', hrow', _⟩ := (Task.step_lasts hr).rows d row hrow
    exact ⟨row', hrow'⟩

/-- The relay touches the outbox alone. -/
theorem outlives_relay {rid : Nat} {act : Relay.Act} (h : s.runRelay site rid act = some t) : s.db.Outlives t.db := by
  obtain ⟨r, hr, rfl⟩ := Option.map_eq_some_iff.mp h
  change s.db.Outlives r.1.db
  rcases Relay.step_cases hr with ⟨_, _, hdb⟩ | ⟨_, _, _, _, hdb⟩ | ⟨_, _, hdb | ⟨_, _, _, _, _, _, hdb⟩⟩
  all_goals
    rw [hdb]
    exact ⟨fun _ row hrow => ⟨row, hrow, .refl row⟩, List.suffix_refl _, List.suffix_refl _, List.suffix_refl _,
      fun _ _ h => h, List.prefix_refl _, List.prefix_refl _⟩

/-- The sink inserts where there is nothing yet. -/
theorem outlives_sink {partition : Nat} {act : Sink.Act} (h : s.runSink partition act = some t) :
    s.db.Outlives t.db := by
  rcases sink_posts h with hdb | ⟨_, _, payload, _, _, hdb⟩ <;> rw [hdb]
  · exact .refl _
  · refine ⟨fun _ row hrow => ⟨row, hrow, .refl row⟩, List.suffix_refl _, List.suffix_refl _, List.suffix_refl _,
      fun d posted hposted => ?_, List.prefix_refl _, List.prefix_refl _⟩
    change (s.db.postedDocuments.insertNew payload.docId (Sink.postedRow payload)).lookup d = some posted
    rw [Table.lookup_insertNew]
    split
    · next hd => rw [← hd, hposted, Option.getD_some]
    · exact hposted

theorem outlives_step (hsound : Sound False site s) (hs : Step site s a t) : s.db.Outlives t.db := by
  have hgrows := grows_step hsound hs
  cases step_kind hs with
  | idle =>
    exact ⟨fun _ row hrow => ⟨row, hrow, .refl row⟩, List.suffix_refl _, List.suffix_refl _, List.suffix_refl _,
      fun _ _ h => h, List.prefix_refl _, List.prefix_refl _⟩
  | ran htask hr => exact (Task.step_lasts hr).outlives hgrows
  | relayed hrelay => exact outlives_relay hrelay
  | sunk hsink => exact outlives_sink hsink

theorem outlives_run {as : List Action} (hsound : Sound False site s) (h : FreeRun site s as t) :
    s.db.Outlives t.db := by
  have hall : Sound False site t ∧ s.db.Outlives t.db := by
    refine h.invariant (P := fun t => Sound False site t ∧ s.db.Outlives t.db) ⟨hsound, .refl _⟩ fun m a t hi _ hs => ?_
    exact ⟨sound_step hi.1 (fun hf => hf.elim) hs, hi.2.trans (outlives_step hi.1 hs)⟩
  exact hall.2

end Audit
end DocPipeline

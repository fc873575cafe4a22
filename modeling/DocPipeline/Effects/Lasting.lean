import DocPipeline.Effects.Pipeline

/-!
# What no transaction undoes

Statement by statement: a row keeps what triage read off the object, a result is written
once, counters only grow, and a row whose state is written is stamped with the time. The
tables that are only inserted into keep their rows. Every handler is made of these
statements.
-/
namespace DocPipeline

set_option autoImplicit false

open Lib Lib.Transaction Ledger

/-- What is left of a row, some statements later in the same transaction. -/
structure Document.Lasts (now : Nat) (row row' : Document) : Prop where
  gcsPath : row'.gcsPath = row.gcsPath
  docType : row'.docType = row.docType
  priority : row'.priority = row.priority
  extractionResult : row.extractionResult ≠ none → row'.extractionResult = row.extractionResult
  shardsDone : row.shardsDone ≤ row'.shardsDone
  textAttempts : row.textAttempts ≤ row'.textAttempts
  extractAttempts : row.extractAttempts ≤ row'.extractAttempts
  stamped : row'.stateUpdatedAt = now ∨ (row'.stateUpdatedAt = row.stateUpdatedAt ∧ row'.state = row.state)

theorem Document.Lasts.refl (now : Nat) (row : Document) : row.Lasts now row :=
  ⟨rfl, rfl, rfl, fun _ => rfl, Nat.le_refl _, Nat.le_refl _, Nat.le_refl _, Or.inr ⟨rfl, rfl⟩⟩

theorem Document.Lasts.trans {now : Nat} {row row' row'' : Document} (h : row.Lasts now row')
    (k : row'.Lasts now row'') : row.Lasts now row'' where
  gcsPath := k.gcsPath.trans h.gcsPath
  docType := k.docType.trans h.docType
  priority := k.priority.trans h.priority
  extractionResult hne := by
    have hkept := h.extractionResult hne
    exact (k.extractionResult (hkept ▸ hne)).trans hkept
  shardsDone := h.shardsDone.trans k.shardsDone
  textAttempts := h.textAttempts.trans k.textAttempts
  extractAttempts := h.extractAttempts.trans k.extractAttempts
  stamped := by
    rcases k.stamped with hnow | ⟨htime, hstate⟩
    · exact Or.inl hnow
    · rcases h.stamped with hnow | ⟨htime', hstate'⟩
      · exact Or.inl (htime.trans hnow)
      · exact Or.inr ⟨htime.trans htime', hstate.trans hstate'⟩

/-- The columns the clauses are about. -/
def Document.lasting (row : Document) : String × DocType × Int × Option Fields × Nat × Nat × Nat × Nat × DocState :=
  (row.gcsPath, row.docType, row.priority, row.extractionResult, row.shardsDone, row.textAttempts,
    row.extractAttempts, row.stateUpdatedAt, row.state)

theorem Document.Lasts.of_lasting (now : Nat) {row row' : Document} (h : row'.lasting = row.lasting) :
    row.Lasts now row' := by
  simp only [Document.lasting, Prod.mk.injEq] at h
  obtain ⟨hpath, htype, hpriority, hresult, hshards, htext, hextract, htime, hstate⟩ := h
  exact ⟨hpath, htype, hpriority, fun _ => hresult, hshards.ge, htext.ge, hextract.ge, Or.inr ⟨htime, hstate⟩⟩

/-- What is left of a database. Only the sink's table is kept whole: no handler writes it. -/
structure Db.Lasts (db db' : Db) : Prop where
  now : db'.now = db.now
  rows : ∀ d row, db.documents.lookup d = some row →
    ∃ row', db'.documents.lookup d = some row' ∧ row.Lasts db.now row'
  fresh : ∀ d row', db.documents.lookup d = none → db'.documents.lookup d = some row' → row'.stateUpdatedAt = db.now
  documentShards : db.documentShards <:+ db'.documentShards
  history : db.history <:+ db'.history
  sent : db.sent <:+ db'.sent
  postedDocuments : db'.postedDocuments = db.postedDocuments
  breakGlassAudit : db.breakGlassAudit <+: db'.breakGlassAudit
  attemptLog : db.attemptLog <+: db'.attemptLog

namespace Db.Lasts

variable {db m db' : Db} {docId : DocId} {row row' : Document}

theorem refl (db : Db) : db.Lasts db where
  now := rfl
  rows _ row hrow := ⟨row, hrow, .refl _ row⟩
  fresh d row' hnone hrow' := by
    rw [hnone] at hrow'
    cases hrow'
  documentShards := List.suffix_refl _
  history := List.suffix_refl _
  sent := List.suffix_refl _
  postedDocuments := rfl
  breakGlassAudit := List.prefix_refl _
  attemptLog := List.prefix_refl _

theorem trans (h : db.Lasts m) (k : m.Lasts db') : db.Lasts db' where
  now := k.now.trans h.now
  rows d row hrow := by
    obtain ⟨row₁, hrow₁, hfirst⟩ := h.rows d row hrow
    obtain ⟨row₂, hrow₂, hrest⟩ := k.rows d row₁ hrow₁
    exact ⟨row₂, hrow₂, hfirst.trans (h.now ▸ hrest)⟩
  fresh d row' hnone hrow' := by
    cases hm : m.documents.lookup d with
    | none => exact (k.fresh d row' hm hrow').trans h.now
    | some row₁ =>
      obtain ⟨row₂, hrow₂, hrest⟩ := k.rows d row₁ hm
      obtain rfl : row' = row₂ := Option.some.inj (hrow'.symm.trans hrow₂)
      rcases hrest.stamped with hnow | ⟨htime, _⟩
      · exact hnow.trans h.now
      · exact htime.trans (h.fresh d row₁ hnone hm)
  documentShards := h.documentShards.trans k.documentShards
  history := h.history.trans k.history
  sent := h.sent.trans k.sent
  postedDocuments := k.postedDocuments.trans h.postedDocuments
  breakGlassAudit := h.breakGlassAudit.trans k.breakGlassAudit
  attemptLog := h.attemptLog.trans k.attemptLog

/-- A write of a row that keeps what lasts. -/
theorem write (hrow : db.documents.lookup docId = some row) (h : row.Lasts db.now row') :
    db.Lasts (db.write docId row row') where
  now := rfl
  rows d old hold := by
    by_cases hd : d = docId
    · subst hd
      obtain rfl : old = row := Option.some.inj (hold.symm.trans hrow)
      exact ⟨row', Db.write_lookup_self .., h⟩
    · exact ⟨old, by rw [Db.write_lookup, if_neg hd, hold], .refl _ old⟩
  fresh d new hnone hnew := by
    have hd : d ≠ docId := by
      rintro rfl
      rw [hrow] at hnone
      cases hnone
    rw [Db.write_lookup, if_neg hd, hnone] at hnew
    cases hnew
  documentShards := List.suffix_refl _
  history := by
    rw [Db.write_history]
    split
    · exact List.suffix_refl _
    · exact List.suffix_cons _ _
  sent := List.suffix_refl _
  postedDocuments := rfl
  breakGlassAudit := List.prefix_refl _
  attemptLog := List.prefix_refl _

/-- A statement that leaves the documents alone. -/
theorem of_documents (hnow : db'.now = db.now) (hdocs : db'.documents = db.documents)
    (hshards : db.documentShards <:+ db'.documentShards) (hhistory : db'.history = db.history)
    (hsent : db.sent <:+ db'.sent) (hposted : db'.postedDocuments = db.postedDocuments)
    (haudit : db.breakGlassAudit <+: db'.breakGlassAudit) (hlog : db.attemptLog <+: db'.attemptLog) : db.Lasts db' where
  now := hnow
  rows d row hrow := ⟨row, by rw [hdocs, hrow], .refl _ row⟩
  fresh d row' hnone hrow' := by
    rw [hdocs, hnone] at hrow'
    cases hrow'
  documentShards := hshards
  history := hhistory ▸ List.suffix_refl _
  sent := hsent
  postedDocuments := hposted
  breakGlassAudit := haudit
  attemptLog := hlog

end Db.Lasts

abbrev Lasting {α : Type} (t : Tx α) : Prop := Respects Db.Lasts t

namespace Lasting

variable {α β : Type} {t : Tx α}

theorem pure (a : α) : Lasting (Pure.pure a : Tx α) := Respects.pure Db.Lasts.refl a

theorem get : Lasting (MonadState.get : Tx Db) := Respects.get Db.Lasts.refl

theorem bind {k : α → Tx β} (ht : Lasting t) (hk : ∀ a, Lasting (k a)) : Lasting (t >>= k) :=
  Respects.bind (fun _ _ _ => Db.Lasts.trans) ht hk

end Lasting

/-! ## Statements -/
namespace Ledger

variable {docId : DocId}

theorem transition_lasting {toState : DocState} {fromStates : Option (List DocState)} {idempotent : Bool} :
    Lasting (transition docId toState fromStates idempotent) := by
  intro db a db' h
  obtain ⟨row, hrow, _, _, rfl⟩ := transition_commits.mp h
  exact .write hrow ⟨rfl, rfl, rfl, fun _ => rfl, Nat.le_refl _, Nat.le_refl _, Nat.le_refl _, Or.inl rfl⟩

theorem updateDocument_lasting {f : Document → Document} (hf : ∀ now (row : Document), row.Lasts now (f row)) :
    Lasting (updateDocument docId f) := by
  intro db a db' h
  rcases updateDocument_commits.mp h with ⟨row, hrow, rfl⟩ | ⟨_, rfl⟩
  · exact .write hrow (hf db.now row)
  · exact .refl _

/-- An update of columns that no clause is about. -/
theorem updateDocument_aside {f : Document → Document} (hf : ∀ row : Document, (f row).lasting = row.lasting) :
    Lasting (updateDocument docId f) := updateDocument_lasting fun now row => .of_lasting now (hf row)

theorem insertOutbox_lasts (db : Db) (topic : Topic) (payload : Payload) :
    db.Lasts (db.insertOutbox docId topic payload) :=
  .of_documents rfl rfl (List.suffix_refl _) rfl (List.suffix_cons _ _) rfl (List.prefix_refl _) (List.prefix_refl _)

theorem enqueue_lasting {topic : Topic} {payload : Payload} : Lasting (enqueue docId topic payload) :=
  Respects.modify fun db => insertOutbox_lasts db topic payload

theorem enqueueMany_lasting {rows : List (DocId × Topic × Payload)} : Lasting (enqueueMany rows) := by
  refine Respects.modify fun db => ?_
  induction rows generalizing db with
  | nil => exact .refl db
  | cons r rest ih => exact (insertOutbox_lasts db r.2.1 r.2.2).trans (ih _)

theorem insertInitialDocument_lasting {row : Document} : Lasting (insertInitialDocument docId row) := by
  intro db a db' h
  rcases insertInitialDocument_commits.mp h with ⟨_, hnone, rfl⟩ | ⟨_, rfl, _⟩
  · refine ⟨rfl, fun d old hold => ?_, fun d new hfree hnew => ?_, List.suffix_refl _, List.suffix_refl _,
      List.suffix_refl _, rfl, List.prefix_refl _, List.prefix_refl _⟩
    · have hd : d ≠ docId := by
        rintro rfl
        rw [hnone] at hold
        cases hold
      exact ⟨old, (AList.lookup_insert_ne hd).trans hold, .refl _ old⟩
    · change (db.documents.insert docId { row with stateUpdatedAt := db.now }).lookup d = some new at hnew
      by_cases hd : d = docId
      · rw [hd, AList.lookup_insert] at hnew
        cases hnew
        rfl
      · rw [AList.lookup_insert_ne hd, hfree] at hnew
        cases hnew
  · exact .refl _

theorem claimShard_lasting {shardIdx : Nat} : Lasting (claimShard docId shardIdx) := by
  intro db a db' h
  rcases claimShard_commits.mp h with ⟨_, _, rfl⟩ | ⟨_, _, _, rfl⟩
  · exact .refl _
  · exact .of_documents rfl rfl (List.suffix_cons _ _) rfl (List.suffix_refl _) rfl (List.prefix_refl _)
      (List.prefix_refl _)

theorem incrementShardsDone_lasting : Lasting (incrementShardsDone docId) := by
  intro db a db' h
  obtain ⟨row, hrow, _, rfl⟩ := incrementShardsDone_commits.mp h
  exact .write hrow ⟨rfl, rfl, rfl, fun _ => rfl, Nat.le_succ _, Nat.le_refl _, Nat.le_refl _, Or.inr ⟨rfl, rfl⟩⟩

theorem recordShardAndMaybeJoin_lasting {shardIdx : Nat} {completed : Payload} :
    Lasting (recordShardAndMaybeJoin docId shardIdx completed) := by
  refine claimShard_lasting.bind fun claimed => Respects.ite ?_ (Lasting.pure _)
  refine incrementShardsDone_lasting.bind fun r => Respects.ite ?_ (Lasting.pure _)
  exact transition_lasting.bind fun _ => enqueue_lasting.bind fun _ => Lasting.pure _

/-- The result is written where there was none. -/
theorem commitExtractionResult_lasting {fields : Fields} {gates : GateResults} {finalState : DocState}
    {payload : Option ExtractedPayload} :
    Lasting (commitExtractionResult docId fields gates finalState payload) := by
  intro db a db' h
  rcases commitExtractionResult_commits.mp h with ⟨_, rfl, _⟩ | ⟨_, row, hrow, hnone, rfl⟩
  · exact .refl _
  · have hwrite : db.Lasts (db.write docId row (row.settled fields gates finalState db.now)) :=
      .write hrow ⟨rfl, rfl, rfl, fun hne => absurd hnone hne, Nat.le_refl _, Nat.le_refl _, Nat.le_refl _, Or.inl rfl⟩
    cases payload with
    | none => exact hwrite
    | some payload => exact hwrite.trans (insertOutbox_lasts _ _ _)

theorem routeWithoutWriting_lasting {gates : GateResults} {finalState : DocState} :
    Lasting (routeWithoutWriting docId gates finalState) := by
  intro db a db' h
  rcases routeWithoutWriting_commits.mp h with ⟨_, row, hrow, rfl⟩ | ⟨_, _, rfl⟩
  · exact .write hrow ⟨rfl, rfl, rfl, fun _ => rfl, Nat.le_refl _, Nat.le_refl _, Nat.le_refl _, Or.inl rfl⟩
  · exact .refl _

theorem logAttempts_lasting {rows : List AttemptRow} : Lasting (logAttempts rows) :=
  Respects.modify fun _ => .of_documents rfl rfl (List.suffix_refl _) rfl (List.suffix_refl _) rfl (List.prefix_refl _)
    (List.prefix_append _ _)

theorem bump_lasts (column : AttemptColumn) (n now : Nat) (row : Document) : row.Lasts now (column.bump n row) := by
  cases column <;>
    exact ⟨rfl, rfl, rfl, fun _ => rfl, Nat.le_refl _, by simp [AttemptColumn.bump], by simp [AttemptColumn.bump],
      Or.inr ⟨rfl, rfl⟩⟩

theorem incrementAttempts_lasting {column : AttemptColumn} : Lasting (incrementAttempts docId column) := by
  intro db a db' h
  obtain ⟨row, hrow, _, rfl⟩ := incrementAttempts_commits.mp h
  exact .write hrow (bump_lasts column 1 db.now row)

theorem setBusinessKey_lasting {vendor invoiceNo : Option String} : Lasting (setBusinessKey docId vendor invoiceNo) := by
  intro db a db' h
  rcases setBusinessKey_commits.mp h with ⟨_, rfl⟩ | ⟨row, hrow, _, rfl⟩
  · exact .refl _
  · exact .write hrow ⟨rfl, rfl, rfl, fun _ => rfl, Nat.le_refl _, Nat.le_refl _, Nat.le_refl _, Or.inr ⟨rfl, rfl⟩⟩

theorem setFeatureFlag_lasting {key : String} {value : Bool} : Lasting (setFeatureFlag key value) :=
  Respects.modify fun _ => .of_documents rfl rfl (List.suffix_refl _) rfl (List.suffix_refl _) rfl (List.prefix_refl _)
    (List.prefix_refl _)

theorem audit_lasting {row : AuditRow} : Lasting (audit row) :=
  Respects.modify fun _ => .of_documents rfl rfl (List.suffix_refl _) rfl (List.suffix_refl _) rfl
    (List.prefix_append _ _) (List.prefix_refl _)

end Ledger

/-! ## Handlers -/

theorem World.transact_lasts {α π ρ : Type} (w : World) {t : Tx α} (onCommit : α → Next π ρ)
    (onError : LedgerError → Next π ρ) (h : Lasting t) : w.db.Lasts (w.transact t onCommit onError).1.db := by
  rcases w.transact_cases t onCommit onError with ⟨a, db, hc, he⟩ | ⟨_, he⟩ <;> rw [he]
  · exact h w.db a db hc
  · exact .refl _

theorem Triage.handleGcsPath_lasting {site : Deployment} {gcsPath : String} :
    Lasting (Triage.handleGcsPath site gcsPath) := by
  have hreject : ∀ {docId : DocId} {state : DocState} {lastError : String} {n : Option Nat} {r : Triage.Result},
      Lasting (Triage.reject docId gcsPath state lastError n r) :=
    insertInitialDocument_lasting.bind fun _ => Lasting.pure _
  have hdispatch : ∀ {docId : DocId} {sample : String} {n : Nat},
      Lasting (Triage.dispatch site docId gcsPath sample n) := by
    intro docId sample n
    unfold Triage.dispatch
    dsimp only
    split
    · exact Respects.throw _
    · refine insertInitialDocument_lasting.bind fun inserted => Respects.ite ?_ (Lasting.pure _)
      exact enqueue_lasting.bind fun _ => Lasting.pure _
  unfold Triage.handleGcsPath
  split
  · exact Lasting.pure _
  · refine Respects.ite hreject (Respects.ite hreject ?_)
    split
    · exact hreject
    · exact hreject
    · refine Respects.ite hreject ?_
      split
      · exact Respects.throw _
      · exact hdispatch

theorem PdfWorker.handleTextEmbedded_lasting {site : Deployment} {docId : DocId} {gcsPath : String}
    {pages : List String} : Lasting (PdfWorker.handleTextEmbedded site docId gcsPath pages) := by
  refine transition_lasting.bind fun _ => Respects.ite ?_ ?_
  · exact transition_lasting.bind fun _ => enqueue_lasting.bind fun _ => Lasting.pure _
  · refine Lasting.bind ?_ fun _ => Lasting.pure _
    unfold PdfWorker.fallThrough
    split
    · exact Respects.throw _
    · refine Lasting.bind ?_ fun _ => enqueue_lasting.bind fun _ => transition_lasting.bind fun _ => Lasting.pure _
      exact updateDocument_aside fun _ => rfl

theorem PdfWorker.embeddedStep_lasts {site : Deployment} {docId : DocId} {gcsPath : String} {w : World}
    {pc : PdfWorker.EmbeddedPc} {r : World × Next PdfWorker.EmbeddedPc PdfWorker.EmbeddedResult}
    (h : PdfWorker.embeddedStep site docId gcsPath w pc = some r) : w.db.Lasts r.1.db := by
  cases pc with
  | uploading =>
    obtain ⟨_, _, rfl⟩ := Option.map_eq_some_iff.mp h
    split
    · exact .refl _
    · split <;> exact .refl _
  | committing =>
    obtain ⟨_, _, rfl⟩ := Option.map_eq_some_iff.mp h
    exact w.transact_lasts _ _ handleTextEmbedded_lasting

theorem PdfWorker.splitStep_lasts {site : Deployment} {docId : DocId} {gcsPath : String} {w : World}
    {pc : PdfWorker.SplitPc} {r : World × Next PdfWorker.SplitPc Unit}
    (h : PdfWorker.splitStep site docId gcsPath w pc = some r) : w.db.Lasts r.1.db := by
  cases pc with
  | beginning =>
    cases h
    exact w.transact_lasts _ _ (transition_lasting.bind fun _ => Lasting.pure _)
  | splitting =>
    obtain ⟨_, _, rfl⟩ := Option.map_eq_some_iff.mp h
    exact .refl _
  | committing =>
    obtain ⟨_, _, rfl⟩ := Option.map_eq_some_iff.mp h
    refine w.transact_lasts _ _ (Lasting.bind ?_ fun _ => enqueueMany_lasting)
    exact updateDocument_aside fun _ => rfl

theorem OcrShard.step_lasts (payload : ShardPayload) (texts : List String) (w : World) (pc : OcrShard.Pc) :
    w.db.Lasts (OcrShard.step payload texts w pc).1.db := by
  cases pc with
  | beginning => exact w.transact_lasts _ _ (transition_lasting.bind fun _ => Lasting.pure _)
  | recognising => exact .refl _
  | recording => exact w.transact_lasts _ _ recordShardAndMaybeJoin_lasting

theorem Extraction.step_lasts (site : Deployment) (docId : DocId) (verdict : Extraction.Verdict) (w : World)
    (pc : Extraction.Pc) : w.db.Lasts (Extraction.step site docId verdict w pc).1.db := by
  cases pc with
  | opening => exact w.transact_lasts _ _ (transition_lasting.bind fun _ => Lasting.pure _)
  | selecting => exact .refl _
  | stamping doc =>
    cases doc with
    | none => exact .refl _
    | some doc =>
      exact w.transact_lasts _ _ (updateDocument_aside fun _ => rfl)
  | looking doc | readingBack doc =>
    simp only [step]
    split <;> exact .refl _
  | gathering doc idx pages =>
    simp only [step]
    split
    · split <;> exact .refl _
    · exact .refl _
  | routing gates result => exact w.transact_lasts _ _ routeWithoutWriting_lasting
  | counting doc assembled =>
    refine w.transact_lasts _ _ (incrementAttempts_lasting.bind fun _ => Lasting.bind ?_ fun _ => Lasting.pure _)
    exact updateDocument_aside fun _ => rfl
  | extracting assembled attemptNo =>
    refine w.transact_lasts _ _ (Lasting.bind ?_ fun _ => logAttempts_lasting)
    exact updateDocument_lasting fun now row => bump_lasts _ _ now row
  | exhausted gates | holding fields gates => exact w.transact_lasts _ _ commitExtractionResult_lasting
  | checkingFlag assembled fields gates =>
    simp only [step]
    split <;> exact .refl _
  | posting assembled fields gates =>
    exact w.transact_lasts _ _ (setBusinessKey_lasting.bind fun _ => commitExtractionResult_lasting)

theorem Sweeper.claimRow_lasting {site : Deployment} {docId : DocId} {row : Document} :
    Lasting (Sweeper.claimRow site docId row) := by
  refine Respects.ite ?_ (Respects.ite ?_ ?_)
  · refine transition_lasting.bind fun _ => Lasting.bind ?_ fun _ => Lasting.pure _
    exact updateDocument_aside fun _ => rfl
  · exact incrementAttempts_lasting.bind fun _ => transition_lasting.bind fun _ => Lasting.pure _
  · exact transition_lasting.bind fun _ => Lasting.pure _

theorem Sweeper.claimRows_lasting {site : Deployment} {rows : List (DocId × Document)} :
    Lasting (Sweeper.claimRows site rows) := by
  induction rows with
  | nil => exact Lasting.pure _
  | cons r rest ih => exact claimRow_lasting.bind fun _ => ih.bind fun _ => Lasting.pure _

theorem Sweeper.redriveDocument_lasting {site : Deployment} {docId : DocId} {row : Document} :
    Lasting (Sweeper.redriveDocument site docId row) := by
  refine Respects.ite ?_ ?_
  · unfold Sweeper.redriveDispatch
    split
    · exact Respects.throw _
    · exact enqueue_lasting
  · split
    · refine Lasting.get.bind fun db => ?_
      dsimp only
      split
      · exact enqueueMany_lasting
      · exact Respects.ite (Lasting.pure _) (Respects.throw _)
    · exact enqueue_lasting
    · exact enqueue_lasting
    · exact enqueue_lasting
    · exact Lasting.pure _

theorem Sweeper.step_lasts (site : Deployment) (w : World) (pc : Sweeper.Pc) :
    w.db.Lasts (Sweeper.step site w pc).1.db := by
  cases pc with
  | claiming cap locked => exact w.transact_lasts _ _ (Lasting.get.bind fun _ => claimRows_lasting)
  | redriving claimed =>
    cases claimed with
    | nil => exact .refl _
    | cons r rest => exact w.transact_lasts _ _ redriveDocument_lasting

theorem OrphanDetector.step_lasts (site : Deployment) (w : World) (pc : OrphanDetector.Pc) :
    w.db.Lasts (OrphanDetector.step site w pc).1.db := by
  cases pc with
  | listing paths | checkingPending orphans => exact .refl _
  | enqueueing orphans => exact w.transact_lasts _ _ enqueueMany_lasting

namespace Operator

variable {site : Deployment} {docId : DocId} {reason actor : String}

theorem redriveStep_lasts (w : World) (pc : RedrivePc) :
    w.db.Lasts (redriveStep site docId reason actor w pc).1.db := by
  cases pc with
  | selecting =>
    simp only [redriveStep]
    split
    · exact .refl _
    · split <;> exact .refl _
  | targeting row =>
    simp only [redriveStep]
    split <;> exact .refl _
  | committing row target =>
    refine w.transact_lasts _ _ (transition_lasting.bind fun _ => ?_)
    exact Sweeper.redriveDocument_lasting.bind fun _ => audit_lasting

theorem acceptStep_lasts (w : World) (pc : AcceptPc) : w.db.Lasts (acceptStep site docId reason actor w pc).1.db := by
  cases pc with
  | selecting =>
    simp only [acceptStep]
    split
    · exact .refl _
    · split
      · exact .refl _
      · split <;> exact .refl _
  | committing row =>
    refine w.transact_lasts _ _ (Lasting.bind ?_ fun _ => transition_lasting.bind fun _ =>
      enqueue_lasting.bind fun _ => audit_lasting)
    exact updateDocument_aside fun _ => rfl

theorem setKillSwitch_lasting {enabled : Bool} : Lasting (setKillSwitch site enabled reason actor) :=
  Respects.ite (Respects.throw _) (setFeatureFlag_lasting.bind fun _ => audit_lasting)

end Operator

theorem Task.step_lasts {site : Deployment} {w : World} {input : Input} {task : Task} {r : World × Option Task}
    (h : task.step site w input = some r) : w.db.Lasts r.1.db := by
  cases task with
  | orphanScan pc =>
    cases h
    exact OrphanDetector.step_lasts site w pc
  | triage gcsPath =>
    cases h
    exact w.transact_lasts _ _ Triage.handleGcsPath_lasting
  | textEmbedded docId gcsPath pc =>
    obtain ⟨_, hr, rfl⟩ := Option.map_eq_some_iff.mp h
    exact PdfWorker.embeddedStep_lasts hr
  | ocrSplit docId gcsPath pc =>
    obtain ⟨_, hr, rfl⟩ := Option.map_eq_some_iff.mp h
    exact PdfWorker.splitStep_lasts hr
  | ocrShard payload pc =>
    cases h
    exact OcrShard.step_lasts payload input.texts w pc
  | extraction docId pc =>
    cases h
    exact Extraction.step_lasts site docId input.verdict w pc
  | sweep pc =>
    cases h
    exact Sweeper.step_lasts site w pc
  | forceRedrive docId reason actor pc =>
    cases h
    exact Operator.redriveStep_lasts w pc
  | acceptReview docId reason actor pc =>
    cases h
    exact Operator.acceptStep_lasts w pc
  | killSwitch enabled reason actor =>
    cases h
    exact w.transact_lasts _ _ Operator.setKillSwitch_lasting

end DocPipeline

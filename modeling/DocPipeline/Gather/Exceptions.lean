import DocPipeline.Effects.Bucket
import DocPipeline.Gather.TextRun

/-!
# What a step can raise

Statement by statement, what the ledger's functions raise and on which state. A handler
raises what its next transaction raises, unless it handles it.
-/
namespace DocPipeline

set_option autoImplicit false

open Lib Lib.Transaction

def LedgerError.isStale : LedgerError → Bool
  | .illegalTransition .. => true
  | _ => false

def LedgerError.isBreakGlass : LedgerError → Bool
  | .breakGlass _ => true
  | _ => false

/-- The exception a step ends with, if it ends with one. -/
def Next.error {π ρ : Type} : Next π ρ → Option LedgerError
  | .raised e => some e
  | _ => none

/-- What the next step of a run raises. -/
def Task.raises (site : Deployment) (w : World) (input : Input) : Task → Option LedgerError
  | .orphanScan pc => (OrphanDetector.step site w pc).2.error
  | .triage gcsPath =>
    let r : World × Next Unit Triage.Result := w.transact (Triage.handleGcsPath site gcsPath) .returned .raised
    r.2.error
  | .textEmbedded docId gcsPath pc => (PdfWorker.embeddedStep site docId gcsPath w pc).bind fun r => r.2.error
  | .ocrSplit docId gcsPath pc => (PdfWorker.splitStep site docId gcsPath w pc).bind fun r => r.2.error
  | .ocrShard payload pc => (OcrShard.step payload input.texts w pc).2.error
  | .extraction docId pc => (Extraction.step site docId input.verdict w pc).2.error
  | .sweep pc => (Sweeper.step site w pc).2.error
  | .forceRedrive docId reason actor pc => (Operator.redriveStep site docId reason actor w pc).2.error
  | .acceptReview docId reason actor pc => (Operator.acceptStep site docId reason actor w pc).2.error
  | .killSwitch enabled reason actor =>
    let r : World × Next Unit Unit := w.transact (Operator.setKillSwitch site enabled reason actor) .returned .raised
    r.2.error

/-- A step that hands on what its transaction raises. -/
theorem World.transact_raised {α π ρ : Type} {w : World} {t : Tx α} {onCommit : α → Next π ρ} {e : LedgerError}
    (h : (w.transact t onCommit .raised).2.error = some e) (hc : ∀ a, (onCommit a).error = none) :
    Raises t w.db e := by
  unfold World.transact at h
  split at h
  · next a db _ =>
    rw [hc a] at h
    cases h
  · next e' hrun =>
    cases h
    exact hrun

namespace Ledger

variable {docId : DocId} {db : Db} {e : LedgerError}

theorem transition_raises {toState : DocState} {fromStates : Option (List DocState)} {idempotent : Bool}
    (h : Raises (transition docId toState fromStates idempotent) db e) : e.isStale = true := by
  simp only [transition, raises_bind, raises_get, false_or, commits_get] at h
  obtain ⟨_, _, ⟨rfl, rfl⟩, h⟩ := h
  split at h
  · rcases raises_ite.mp h with ⟨_, h⟩ | ⟨_, h⟩
    · simp at h
    · rw [← raises_throw.mp h]
      rfl
  · rw [← raises_throw.mp h]
    rfl

theorem updateDocument_raises {f : Document → Document} : ¬ Raises (updateDocument docId f) db e := raises_modify

theorem enqueue_raises {topic : Topic} {payload : Payload} : ¬ Raises (enqueue docId topic payload) db e := raises_modify

theorem enqueueMany_raises {rows : List (DocId × Topic × Payload)} : ¬ Raises (enqueueMany rows) db e := raises_modify

theorem insertInitialDocument_raises {row : Document} : ¬ Raises (insertInitialDocument docId row) db e := by
  simp only [insertInitialDocument, raises_bind, raises_get, false_or, commits_get]
  rintro ⟨_, _, ⟨rfl, rfl⟩, h⟩
  split at h <;> simp at h

/-- The shard of a document that is there: only the join's transition can raise. -/
theorem recordShardAndMaybeJoin_raises {shardIdx : Nat} {completed : Payload} (hdoc : db.documents.lookup docId ≠ none)
    (h : Raises (recordShardAndMaybeJoin docId shardIdx completed) db e) : e.isStale = true := by
  obtain ⟨row, hrow⟩ := Option.ne_none_iff_exists'.mp hdoc
  simp only [recordShardAndMaybeJoin, raises_bind] at h
  rcases h with h | ⟨claimed, m, hclaim, h⟩
  · simp only [claimShard, raises_bind, raises_get, false_or, commits_get] at h
    obtain ⟨_, _, ⟨rfl, rfl⟩, h⟩ := h
    simp [raises_ite, hrow] at h
  have hkept : m.documents = db.documents := by
    simp only [claimShard, commits_bind, commits_get] at hclaim
    obtain ⟨_, _, ⟨rfl, rfl⟩, hclaim⟩ := hclaim
    rcases commits_ite.mp hclaim with ⟨_, hclaim⟩ | ⟨_, hclaim⟩
    · rw [(commits_pure.mp hclaim).2]
    · simp only [hrow, commits_bind, commits_set, commits_pure] at hclaim
      obtain ⟨_, _, rfl, _, rfl⟩ := hclaim
      rfl
  rcases raises_ite.mp h with ⟨_, h⟩ | ⟨_, h⟩
  · simp only [raises_bind] at h
    rcases h with h | ⟨counts, m', _, h⟩
    · simp [incrementShardsDone, hkept, hrow] at h
    · rcases raises_ite.mp h with ⟨_, h⟩ | ⟨_, h⟩
      · simp only [raises_bind, raises_pure, enqueue_raises, and_false, exists_false, or_false] at h
        exact transition_raises h
      · exact absurd h raises_pure
  · exact absurd h raises_pure

theorem incrementAttempts_raises {column : AttemptColumn} (hdoc : db.documents.lookup docId ≠ none) :
    ¬ Raises (incrementAttempts docId column) db e := by
  obtain ⟨row, hrow⟩ := Option.ne_none_iff_exists'.mp hdoc
  simp [incrementAttempts, hrow]

theorem commitExtractionResult_raises {fields : Fields} {gates : GateResults} {finalState : DocState}
    {payload : Option ExtractedPayload} : ¬ Raises (commitExtractionResult docId fields gates finalState payload) db e := by
  simp only [commitExtractionResult, raises_bind, raises_get, false_or, commits_get]
  rintro ⟨_, _, ⟨rfl, rfl⟩, h⟩
  split at h
  · rcases raises_ite.mp h with ⟨_, h⟩ | ⟨_, h⟩
    · split at h <;> simp [enqueue_raises] at h
    · exact absurd h raises_pure
  · exact absurd h raises_pure

theorem routeWithoutWriting_raises {gates : GateResults} {finalState : DocState} :
    ¬ Raises (routeWithoutWriting docId gates finalState) db e := by
  simp only [routeWithoutWriting, raises_bind, raises_get, false_or, commits_get]
  rintro ⟨_, _, ⟨rfl, rfl⟩, h⟩
  split at h <;> simp at h

theorem setBusinessKey_raises {vendor invoiceNo : Option String}
    (h : Raises (setBusinessKey docId vendor invoiceNo) db e) : e = .uniqueViolation := by
  simp only [setBusinessKey, raises_bind, raises_get, false_or, commits_get] at h
  obtain ⟨_, _, ⟨rfl, rfl⟩, h⟩ := h
  split at h
  · rcases raises_ite.mp h with ⟨_, h⟩ | ⟨_, h⟩
    · exact (raises_throw.mp h).symm
    · exact absurd h raises_set
  · exact absurd h raises_pure

end Ledger

open Ledger

variable {site : Deployment} {w : World} {db : Db} {e : LedgerError}

/-! ## Triage and text production -/

theorem Triage.reject_raises {docId : DocId} {gcsPath lastError : String} {state : DocState} {pageCount : Option Nat}
    {result : Triage.Result} : ¬ Raises (reject docId gcsPath state lastError pageCount result) db e := by
  simp [reject, insertInitialDocument_raises]

/-- An object whose pages could be counted can be sampled. -/
theorem Triage.sample_of_pageCount {data : PdfRead} {contentType : String} {n : Nat}
    (h : Pdf.readPageCount data contentType = .ok n) : ∃ text, Pdf.sampleText data contentType = .ok text := by
  unfold Pdf.readPageCount at h
  unfold Pdf.sampleText
  split at h
  · next ht =>
    rw [if_neg (not_not_intro ht)]
    cases hr : Pdf.reader data with
    | error _ =>
      rw [hr] at h
      cases h
    | ok pages => exact ⟨_, rfl⟩
  · next ht => exact ⟨_, if_pos ht⟩

theorem Triage.handleGcsPath_raises {gcsPath : String} : ¬ Raises (handleGcsPath site gcsPath) db e := by
  intro h
  unfold handleGcsPath at h
  split at h
  · exact raises_pure h
  · simp only [raises_ite, reject_raises, and_false, false_or] at h
    obtain ⟨_, _, h⟩ := h
    split at h
    · exact reject_raises h
    · exact reject_raises h
    · next n hread =>
      simp only [raises_ite, reject_raises, and_false, false_or] at h
      obtain ⟨_, h⟩ := h
      obtain ⟨text, hsample⟩ := sample_of_pageCount hread
      rw [hsample] at h
      obtain ⟨topic, total, hroute⟩ := Gather.route_succeeds site (some (Pdf.hasTextLayer site.unicode text)) n
      simp only [dispatch, hroute, raises_bind, insertInitialDocument_raises, false_or] at h
      obtain ⟨inserted, _, _, h⟩ := h
      rcases raises_ite.mp h with ⟨_, h⟩ | ⟨_, h⟩
      · simp [enqueue_raises] at h
      · exact raises_pure h

theorem PdfWorker.handleTextEmbedded_raises {docId : DocId} {gcsPath : String} {pages : List String}
    (h : Raises (handleTextEmbedded site docId gcsPath pages) db e) : e.isStale = true := by
  simp only [handleTextEmbedded, raises_bind] at h
  rcases h with h | ⟨_, _, _, h⟩
  · exact transition_raises h
  rcases raises_ite.mp h with ⟨_, h⟩ | ⟨_, h⟩
  · simp only [raises_bind, enqueue_raises, raises_pure, and_false, exists_false, or_false] at h
    exact transition_raises h
  · obtain ⟨topic, total, hroute⟩ := Gather.route_succeeds site (some false) pages.length
    simp only [fallThrough, hroute, raises_bind, updateDocument_raises, enqueue_raises, raises_pure, and_false,
      exists_false, or_false, false_or] at h
    obtain ⟨_, _, _, _, _, _, h⟩ := h
    exact transition_raises h

theorem PdfWorker.embeddedStep_raises {docId : DocId} {gcsPath : String} {pc : EmbeddedPc}
    {r : World × Next EmbeddedPc EmbeddedResult} (hr : embeddedStep site docId gcsPath w pc = some r)
    (h : r.2.error = some e) : e.isStale = true := by
  cases pc with
  | uploading =>
    obtain ⟨pages, _, rfl⟩ := Option.map_eq_some_iff.mp hr
    split at h
    · next e' hrun =>
      cases h
      exact transition_raises hrun
    · split at h <;> cases h
  | committing =>
    obtain ⟨pages, _, rfl⟩ := Option.map_eq_some_iff.mp hr
    exact handleTextEmbedded_raises (World.transact_raised h fun _ => rfl)

theorem PdfWorker.splitStep_raises {docId : DocId} {gcsPath : String} {pc : SplitPc} {r : World × Next SplitPc Unit}
    (hr : splitStep site docId gcsPath w pc = some r) (h : r.2.error = some e) : e.isStale = true := by
  cases pc with
  | beginning =>
    cases hr
    have hraised := World.transact_raised h fun _ => rfl
    simp only [beginSplit, raises_bind, raises_pure, and_false, exists_false, or_false] at hraised
    exact transition_raises hraised
  | splitting =>
    obtain ⟨_, _, rfl⟩ := Option.map_eq_some_iff.mp hr
    cases h
  | committing =>
    obtain ⟨counts, _, rfl⟩ := Option.map_eq_some_iff.mp hr
    have hraised := World.transact_raised h fun _ => rfl
    simp [commitSplitResult, updateDocument_raises, enqueueMany_raises] at hraised

theorem OcrShard.step_raises {payload : ShardPayload} {texts : List String} {pc : OcrShard.Pc}
    (hdoc : pc = .recording → w.db.documents.lookup payload.docId ≠ none)
    (h : (step payload texts w pc).2.error = some e) : e.isStale = true := by
  cases pc with
  | beginning =>
    have hraised := World.transact_raised h fun _ => rfl
    simp only [beginShard, raises_bind, raises_pure, and_false, exists_false, or_false] at hraised
    exact transition_raises hraised
  | recognising => cases h
  | recording => exact recordShardAndMaybeJoin_raises (hdoc rfl) (World.transact_raised h fun _ => rfl)

/-! ## Extraction -/

theorem Extraction.checkPages_raises {doc : Document} {assembled : Artifact} (hpages : doc.pageCount ≠ none) :
    (checkPages doc assembled).error = none := by
  obtain ⟨n, hn⟩ := Option.ne_none_iff_exists'.mp hpages
  unfold checkPages
  rw [hn]
  dsimp only
  split <;> rfl

/-- What the next step of an extraction run relies on. -/
def Extraction.Ready (w : World) (docId : DocId) : Extraction.Pc → Prop
  | .looking doc => w.bucket.assembled docId ≠ none → doc.pageCount ≠ none
  | .readingBack doc => w.bucket.assembled docId ≠ none ∧ doc.pageCount ≠ none
  | .counting .. => w.db.documents.lookup docId ≠ none
  | _ => True

/-- The run's first transition is the only one that raises out of it; the key that is taken at
the commit is caught. -/
theorem Extraction.step_raises {docId : DocId} {verdict : Verdict} {pc : Extraction.Pc} (hready : Ready w docId pc)
    (h : (step site docId verdict w pc).2.error = some e) : pc = .opening ∧ e.isStale = true := by
  cases pc with
  | opening =>
    have hraised := World.transact_raised h fun _ => rfl
    simp only [openRun, raises_bind, raises_pure, and_false, exists_false, or_false] at hraised
    exact ⟨rfl, transition_raises hraised⟩
  | selecting => cases h
  | stamping doc =>
    cases doc with
    | none => cases h
    | some doc => exact absurd (World.transact_raised h fun _ => rfl) updateDocument_raises
  | looking doc =>
    simp only [step] at h
    split at h
    · next assembled hart =>
      rw [checkPages_raises (hready (hart ▸ Option.some_ne_none _))] at h
      cases h
    · cases h
  | gathering doc idx pages =>
    simp only [step] at h
    split at h
    · split at h <;> cases h
    · cases h
  | readingBack doc =>
    simp only [step] at h
    split at h
    · rw [checkPages_raises hready.2] at h
      cases h
    · next hnone => exact absurd hnone hready.1
  | routing gates result => exact absurd (World.transact_raised h fun _ => rfl) routeWithoutWriting_raises
  | counting doc assembled =>
    have hraised := World.transact_raised h fun _ => rfl
    simp [countAttempt, resetRepairAttempts, incrementAttempts_raises hready, updateDocument_raises] at hraised
  | extracting assembled attemptNo =>
    have hraised := World.transact_raised h fun _ => by split <;> rfl
    simp [funnelWrites, logAttempts, updateDocument_raises] at hraised
  | exhausted gates | holding fields gates =>
    exact absurd (World.transact_raised h fun _ => rfl) commitExtractionResult_raises
  | checkingFlag assembled fields gates =>
    simp only [step] at h
    split at h <;> cases h
  | posting assembled fields gates =>
    simp only [step, World.transact] at h
    split at h
    · cases h
    · next e' hrun =>
      have hraised : Raises (autoPost site docId assembled fields gates) w.db e' := hrun
      simp only [autoPost, raises_bind, commitExtractionResult_raises, and_false, exists_false, or_false] at hraised
      rw [if_pos (setBusinessKey_raises hraised)] at h
      cases h

/-! ## Reconciliation -/

theorem OrphanDetector.step_raises {pc : OrphanDetector.Pc} : (step site w pc).2.error = none := by
  cases pc with
  | listing | checkingPending => rfl
  | enqueueing orphans =>
    cases h : (step site w (.enqueueing orphans)).2.error with
    | none => rfl
    | some e => exact absurd (World.transact_raised h fun _ => rfl) enqueueMany_raises

/-- A sweep that can re-drive every row it has claimed. -/
theorem Sweeper.step_raises {pc : Sweeper.Pc} (hready : ∀ claimed, pc = .redriving claimed → ∀ r, r ∈ claimed →
      ∀ db, ∃ db', Commits (redriveDocument site r.1 r.2) db ⟨⟩ db') : (step site w pc).2.error = none := by
  cases h : (step site w pc).2.error with
  | none => rfl
  | some e =>
    cases pc with
    | claiming cap locked =>
      have hraised := World.transact_raised h fun _ => rfl
      simp only [claimBatch, raises_bind, raises_get, false_or, commits_get] at hraised
      obtain ⟨_, _, ⟨rfl, rfl⟩, hraised⟩ := hraised
      have hrows : ∀ r, r ∈ claimStuckBatch site w.db cap locked → w.db.documents.lookup r.1 = some r.2 :=
        fun r hr => (claimStuckBatch_current r hr).1
      obtain ⟨_, hc, _⟩ := claimRows_succeeds site hrows claimStuckBatch_nodup
      exact absurd hraised hc.not_raises
    | redriving claimed =>
      cases claimed with
      | nil => cases h
      | cons r rest =>
        obtain ⟨_, hc⟩ := hready _ rfl r List.mem_cons_self w.db
        exact absurd (World.transact_raised h fun _ => rfl) hc.not_raises

namespace Operator

variable {docId : DocId} {reason actor : String}

theorem redriveStep_raises {pc : RedrivePc} (hready : ∀ row target, pc = .committing row target →
      ∀ db, ∃ db', Commits (Sweeper.redriveDocument site docId { row with state := target.state }) db ⟨⟩ db')
    (h : (redriveStep site docId reason actor w pc).2.error = some e) : e.isStale = true ∨ e.isBreakGlass = true := by
  cases pc with
  | selecting =>
    right
    simp only [redriveStep] at h
    split at h
    · cases h
      rfl
    · split at h <;> cases h
      rfl
  | targeting row =>
    right
    simp only [redriveStep] at h
    split at h
    · next e' htarget =>
      cases h
      unfold redriveTargetState at htarget
      split at htarget
      · cases htarget
      · split at htarget <;> cases htarget
        rfl
      · cases htarget
        rfl
    · cases h
  | committing row target =>
    left
    have hraised := World.transact_raised h fun _ => rfl
    simp only [forceRedriveTx, audit, raises_bind, raises_modify, and_false, exists_false, or_false] at hraised
    rcases hraised with hraised | ⟨_, m, _, hraised⟩
    · exact transition_raises hraised
    · obtain ⟨_, hc⟩ := hready row target rfl m
      exact absurd hraised hc.not_raises

theorem acceptStep_raises {pc : AcceptPc} (h : (acceptStep site docId reason actor w pc).2.error = some e) :
    e.isStale = true ∨ e.isBreakGlass = true := by
  cases pc with
  | selecting =>
    right
    simp only [acceptStep] at h
    split at h
    · cases h
      rfl
    · split at h
      · cases h
        rfl
      · split at h <;> cases h
        rfl
  | committing row =>
    left
    have hraised := World.transact_raised h fun _ => rfl
    simp only [acceptReviewTx, setGateResults, audit, enqueue_raises, updateDocument_raises, raises_bind, raises_modify,
      and_false, exists_false, or_false, false_or] at hraised
    obtain ⟨_, _, _, hraised⟩ := hraised
    exact transition_raises hraised

theorem setKillSwitch_raises {enabled : Bool} (h : Raises (setKillSwitch site enabled reason actor) db e) :
    e.isBreakGlass = true := by
  rcases raises_ite.mp h with ⟨_, h⟩ | ⟨_, h⟩
  · rw [← raises_throw.mp h]
    rfl
  · simp [setFeatureFlag, audit] at h

end Operator
end DocPipeline

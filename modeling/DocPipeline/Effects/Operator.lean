import DocPipeline.Effects.Pipeline

/-!
# Who writes the flags and the audit log

Only `set_kill_switch` writes a flag, and only the three break-glass transactions write the
audit log, one row each. Every other transaction leaves both tables as it found them, and
so do the relay, the sink and the clock.
-/
namespace DocPipeline

set_option autoImplicit false

open Lib Lib.Transaction

/-- The tables only an operator writes. -/
def Db.operated (db : Db) : Lib.Table String Bool × List AuditRow := (db.featureFlags, db.breakGlassAudit)

abbrev KeepsOperated {α : Type} (t : Tx α) : Prop := Keeps Db.operated t

namespace Ledger

variable {docId : DocId}

theorem transition_operated {toState : DocState} {fromStates : Option (List DocState)} {idempotent : Bool} :
    KeepsOperated (transition docId toState fromStates idempotent) := by
  intro db a db' h
  obtain ⟨_, _, _, _, rfl⟩ := transition_commits.mp h
  rfl

theorem updateDocument_operated {f : Document → Document} : KeepsOperated (updateDocument docId f) := by
  intro db a db' h
  rcases updateDocument_commits.mp h with ⟨_, _, rfl⟩ | ⟨_, rfl⟩ <;> rfl

theorem enqueue_operated {topic : Topic} {payload : Payload} : KeepsOperated (enqueue docId topic payload) :=
  Keeps.modify fun _ => rfl

theorem enqueueMany_operated {rows : List (DocId × Topic × Payload)} : KeepsOperated (enqueueMany rows) := by
  refine Keeps.modify fun db => ?_
  induction rows generalizing db with
  | nil => rfl
  | cons r rest ih => exact ih _

theorem insertInitialDocument_operated {row : Document} : KeepsOperated (insertInitialDocument docId row) := by
  intro db a db' h
  rcases insertInitialDocument_commits.mp h with ⟨_, _, rfl⟩ | ⟨_, rfl, _⟩ <;> rfl

theorem claimShard_operated {shardIdx : Nat} : KeepsOperated (claimShard docId shardIdx) := by
  intro db a db' h
  rcases claimShard_commits.mp h with ⟨_, _, rfl⟩ | ⟨_, _, _, rfl⟩ <;> rfl

theorem incrementShardsDone_operated : KeepsOperated (incrementShardsDone docId) := by
  intro db a db' h
  obtain ⟨_, _, _, rfl⟩ := incrementShardsDone_commits.mp h
  rfl

theorem recordShardAndMaybeJoin_operated {shardIdx : Nat} {completed : Payload} :
    KeepsOperated (recordShardAndMaybeJoin docId shardIdx completed) := by
  refine claimShard_operated.bind fun claimed => Keeps.ite ?_ (Keeps.pure _)
  refine incrementShardsDone_operated.bind fun r => Keeps.ite ?_ (Keeps.pure _)
  exact transition_operated.bind fun _ => enqueue_operated.bind fun _ => Keeps.pure _

theorem commitExtractionResult_operated {fields : Fields} {gates : GateResults} {finalState : DocState}
    {payload : Option ExtractedPayload} :
    KeepsOperated (commitExtractionResult docId fields gates finalState payload) := by
  intro db a db' h
  rcases commitExtractionResult_commits.mp h with ⟨_, rfl, _⟩ | ⟨_, _, _, _, rfl⟩
  · rfl
  · cases payload <;> rfl

theorem routeWithoutWriting_operated {gates : GateResults} {finalState : DocState} :
    KeepsOperated (routeWithoutWriting docId gates finalState) := by
  intro db a db' h
  rcases routeWithoutWriting_commits.mp h with ⟨_, _, _, rfl⟩ | ⟨_, _, rfl⟩ <;> rfl

theorem logAttempts_operated {rows : List AttemptRow} : KeepsOperated (logAttempts rows) :=
  Keeps.modify fun _ => rfl

theorem incrementAttempts_operated {column : AttemptColumn} : KeepsOperated (incrementAttempts docId column) := by
  intro db a db' h
  obtain ⟨_, _, _, rfl⟩ := incrementAttempts_commits.mp h
  rfl

theorem setBusinessKey_operated {vendor invoiceNo : Option String} :
    KeepsOperated (setBusinessKey docId vendor invoiceNo) := by
  intro db a db' h
  rcases setBusinessKey_commits.mp h with ⟨_, rfl⟩ | ⟨_, _, _, rfl⟩ <;> rfl

end Ledger

open Ledger

theorem World.transact_operated {α π ρ : Type} (w : World) {t : Tx α} (onCommit : α → Next π ρ)
    (onError : LedgerError → Next π ρ) (h : KeepsOperated t) :
    (w.transact t onCommit onError).1.db.operated = w.db.operated := by
  rcases w.transact_cases t onCommit onError with ⟨a, db, hc, he⟩ | ⟨_, he⟩ <;> rw [he]
  exact h w.db a db hc

theorem Triage.handleGcsPath_operated {site : Deployment} {gcsPath : String} :
    KeepsOperated (Triage.handleGcsPath site gcsPath) := by
  have hreject : ∀ {docId : DocId} {state : DocState} {lastError : String} {n : Option Nat} {r : Triage.Result},
      KeepsOperated (Triage.reject docId gcsPath state lastError n r) :=
    insertInitialDocument_operated.bind fun _ => Keeps.pure _
  have hdispatch : ∀ {docId : DocId} {sample : String} {n : Nat},
      KeepsOperated (Triage.dispatch site docId gcsPath sample n) := by
    intro docId sample n
    unfold Triage.dispatch
    dsimp only
    split
    · exact Keeps.throw _
    · refine insertInitialDocument_operated.bind fun inserted => Keeps.ite ?_ (Keeps.pure _)
      exact enqueue_operated.bind fun _ => Keeps.pure _
  unfold Triage.handleGcsPath
  split
  · exact Keeps.pure _
  · refine Keeps.ite hreject (Keeps.ite hreject ?_)
    split
    · exact hreject
    · exact hreject
    · refine Keeps.ite hreject ?_
      split
      · exact Keeps.throw _
      · exact hdispatch

theorem PdfWorker.handleTextEmbedded_operated {site : Deployment} {docId : DocId} {gcsPath : String}
    {pages : List String} : KeepsOperated (PdfWorker.handleTextEmbedded site docId gcsPath pages) := by
  refine transition_operated.bind fun _ => Keeps.ite ?_ ?_
  · exact transition_operated.bind fun _ => enqueue_operated.bind fun _ => Keeps.pure _
  · refine Keeps.bind ?_ fun _ => Keeps.pure _
    unfold PdfWorker.fallThrough
    split
    · exact Keeps.throw _
    · exact updateDocument_operated.bind fun _ => enqueue_operated.bind fun _ => transition_operated.bind fun _ => Keeps.pure _

theorem PdfWorker.embeddedStep_operated {site : Deployment} {docId : DocId} {gcsPath : String} {w : World}
    {pc : PdfWorker.EmbeddedPc} {r : World × Next PdfWorker.EmbeddedPc PdfWorker.EmbeddedResult}
    (h : PdfWorker.embeddedStep site docId gcsPath w pc = some r) :
    r.1.db.operated = w.db.operated := by
  cases pc with
  | uploading =>
    obtain ⟨_, _, rfl⟩ := Option.map_eq_some_iff.mp h
    split
    · rfl
    · split <;> rfl
  | committing =>
    obtain ⟨_, _, rfl⟩ := Option.map_eq_some_iff.mp h
    exact w.transact_operated _ _ handleTextEmbedded_operated

theorem PdfWorker.splitStep_operated {site : Deployment} {docId : DocId} {gcsPath : String} {w : World}
    {pc : PdfWorker.SplitPc} {r : World × Next PdfWorker.SplitPc Unit}
    (h : PdfWorker.splitStep site docId gcsPath w pc = some r) : r.1.db.operated = w.db.operated := by
  cases pc with
  | beginning =>
    cases h
    exact w.transact_operated _ _ (transition_operated.bind fun _ => Keeps.pure _)
  | splitting =>
    obtain ⟨_, _, rfl⟩ := Option.map_eq_some_iff.mp h
    rfl
  | committing =>
    obtain ⟨_, _, rfl⟩ := Option.map_eq_some_iff.mp h
    exact w.transact_operated _ _ (updateDocument_operated.bind fun _ => enqueueMany_operated)

theorem OcrShard.step_operated (payload : ShardPayload) (texts : List String) (w : World) (pc : OcrShard.Pc) :
    (OcrShard.step payload texts w pc).1.db.operated = w.db.operated := by
  cases pc with
  | beginning => exact w.transact_operated _ _ (transition_operated.bind fun _ => Keeps.pure _)
  | recognising => rfl
  | recording => exact w.transact_operated _ _ recordShardAndMaybeJoin_operated

theorem Extraction.step_operated (site : Deployment) (docId : DocId) (verdict : Extraction.Verdict) (w : World)
    (pc : Extraction.Pc) : (Extraction.step site docId verdict w pc).1.db.operated = w.db.operated := by
  cases pc with
  | opening => exact w.transact_operated _ _ (transition_operated.bind fun _ => Keeps.pure _)
  | selecting => rfl
  | stamping doc =>
    cases doc with
    | none => rfl
    | some doc => exact w.transact_operated _ _ updateDocument_operated
  | looking doc | readingBack doc =>
    simp only [step]
    split <;> rfl
  | gathering doc idx pages =>
    simp only [step]
    split
    · split <;> rfl
    · rfl
  | routing gates result => exact w.transact_operated _ _ routeWithoutWriting_operated
  | counting doc assembled =>
    exact w.transact_operated _ _ (incrementAttempts_operated.bind fun _ => updateDocument_operated.bind fun _ => Keeps.pure _)
  | extracting assembled attemptNo =>
    exact w.transact_operated _ _ (updateDocument_operated.bind fun _ => logAttempts_operated)
  | exhausted gates | holding fields gates => exact w.transact_operated _ _ commitExtractionResult_operated
  | checkingFlag assembled fields gates =>
    simp only [step]
    split <;> rfl
  | posting assembled fields gates =>
    exact w.transact_operated _ _ (setBusinessKey_operated.bind fun _ => commitExtractionResult_operated)

theorem Sweeper.claimRow_operated {site : Deployment} {docId : DocId} {row : Document} :
    KeepsOperated (Sweeper.claimRow site docId row) := by
  refine Keeps.ite ?_ (Keeps.ite ?_ ?_)
  · exact transition_operated.bind fun _ => updateDocument_operated.bind fun _ => Keeps.pure _
  · exact incrementAttempts_operated.bind fun _ => transition_operated.bind fun _ => Keeps.pure _
  · exact transition_operated.bind fun _ => Keeps.pure _

theorem Sweeper.claimRows_operated {site : Deployment} {rows : List (DocId × Document)} :
    KeepsOperated (Sweeper.claimRows site rows) := by
  induction rows with
  | nil => exact Keeps.pure _
  | cons r rest ih => exact claimRow_operated.bind fun _ => ih.bind fun _ => Keeps.pure _

theorem Sweeper.redriveDocument_operated {site : Deployment} {docId : DocId} {row : Document} :
    KeepsOperated (Sweeper.redriveDocument site docId row) := by
  refine Keeps.ite ?_ ?_
  · unfold Sweeper.redriveDispatch
    split
    · exact Keeps.throw _
    · exact enqueue_operated
  · split
    · refine Keeps.get.bind fun db => ?_
      dsimp only
      split
      · exact enqueueMany_operated
      · exact Keeps.ite (Keeps.pure _) (Keeps.throw _)
    · exact enqueue_operated
    · exact enqueue_operated
    · exact enqueue_operated
    · exact Keeps.pure _

theorem Sweeper.step_operated (site : Deployment) (w : World) (pc : Sweeper.Pc) :
    (Sweeper.step site w pc).1.db.operated = w.db.operated := by
  cases pc with
  | claiming cap locked => exact w.transact_operated _ _ (Keeps.get.bind fun _ => claimRows_operated)
  | redriving claimed =>
    cases claimed with
    | nil => rfl
    | cons r rest => exact w.transact_operated _ _ redriveDocument_operated

theorem OrphanDetector.step_operated (site : Deployment) (w : World) (pc : OrphanDetector.Pc) :
    (OrphanDetector.step site w pc).1.db.operated = w.db.operated := by
  cases pc with
  | listing paths | checkingPending orphans => rfl
  | enqueueing orphans => exact w.transact_operated _ _ enqueueMany_operated

namespace Operator

variable {site : Deployment} {docId : DocId} {row : Document} {target : RedriveTarget} {reason actor : String}

/-- The audit is the last statement: until then both tables are as they were. -/
theorem audited {db m db' : Db} {entry : AuditRow} {u : Unit} (hm : m.operated = db.operated)
    (h : Commits (audit entry) m u db') :
    db'.featureFlags = db.featureFlags ∧ db'.breakGlassAudit = db.breakGlassAudit ++ [entry] := by
  obtain ⟨hflags, haudit⟩ := Prod.mk.inj hm
  rw [audit_commits.mp h]
  exact ⟨hflags, congrArg (· ++ [entry]) haudit⟩

theorem forceRedriveTx_audited {db db' : Db} {u : Unit}
    (h : Commits (forceRedriveTx site docId row target reason actor) db u db') :
    db'.featureFlags = db.featureFlags ∧ db'.breakGlassAudit = db.breakGlassAudit ++
      [⟨some docId, "force_redrive", reason, actor, some (.move row.state target.state)⟩] := by
  simp only [forceRedriveTx, commits_bind] at h
  obtain ⟨_, m, hmove, _, m', hsend, haudit⟩ := h
  have hmoved : m.operated = db.operated := transition_operated _ _ _ hmove
  exact audited ((Sweeper.redriveDocument_operated _ _ _ hsend).trans hmoved) haudit

theorem acceptReviewTx_audited {db db' : Db} {u : Unit} (h : Commits (acceptReviewTx docId row reason actor) db u db') :
    db'.featureFlags = db.featureFlags ∧ db'.breakGlassAudit = db.breakGlassAudit ++
      [⟨some docId, "accept_review", reason, actor, some (.move .review .complete)⟩] := by
  simp only [acceptReviewTx, commits_bind] at h
  obtain ⟨_, m, hgates, _, m', hmove, _, m'', hsend, haudit⟩ := h
  have hwritten : m.operated = db.operated := updateDocument_operated _ _ _ hgates
  have hmoved : m'.operated = db.operated := (transition_operated _ _ _ hmove).trans hwritten
  exact audited ((enqueue_operated _ _ _ hsend).trans hmoved) haudit

/-- The call commits when it is given a reason, and writes the one flag. -/
theorem setKillSwitch_commits {enabled : Bool} {db db' : Db} {u : Unit} :
    Commits (setKillSwitch site enabled reason actor) db u db' ↔ blank site reason = false ∧
      db' = { db with
        featureFlags := db.featureFlags.insert Extraction.autoPostFlag enabled
        breakGlassAudit := db.breakGlassAudit ++ [⟨none, "kill_switch_toggle", reason, actor, some (.flag enabled)⟩] } := by
  unfold setKillSwitch
  rw [commits_ite]
  simp only [commits_throw, and_false, false_or, Bool.not_eq_true, commits_bind, setFeatureFlag, commits_modify,
    audit_commits]
  refine and_congr_right fun _ => ⟨?_, ?_⟩
  · rintro ⟨_, m, rfl, rfl⟩
    rfl
  · rintro rfl
    exact ⟨⟨⟩, _, rfl, rfl⟩

end Operator

/-- The audit row that the closing transaction of an operator's call writes. -/
def Task.auditRow : Task → Option AuditRow
  | .forceRedrive docId reason actor (.committing row target) =>
    some ⟨some docId, "force_redrive", reason, actor, some (.move row.state target.state)⟩
  | .acceptReview docId reason actor (.committing _) =>
    some ⟨some docId, "accept_review", reason, actor, some (.move .review .complete)⟩
  | .killSwitch enabled reason actor => some ⟨none, "kill_switch_toggle", reason, actor, some (.flag enabled)⟩
  | _ => none

/-- What a step leaves of the operator's tables. -/
inductive Task.Operates (site : Deployment) (db db' : Db) : Task → Prop
  | none {task : Task} : db'.operated = db.operated → Task.Operates site db db' task
  | audit {task : Task} {entry : AuditRow} : task.auditRow = some entry → db'.featureFlags = db.featureFlags →
      db'.breakGlassAudit = db.breakGlassAudit ++ [entry] → Task.Operates site db db' task
  | toggle {enabled : Bool} {reason actor : String} : Operator.blank site reason = false →
      db'.featureFlags = db.featureFlags.insert Extraction.autoPostFlag enabled →
      db'.breakGlassAudit = db.breakGlassAudit ++ [⟨none, "kill_switch_toggle", reason, actor, some (.flag enabled)⟩] →
      Task.Operates site db db' (.killSwitch enabled reason actor)

theorem Task.step_operates {site : Deployment} {w : World} {input : Input} {task : Task} {r : World × Option Task}
    (h : task.step site w input = some r) : task.Operates site w.db r.1.db := by
  cases task with
  | orphanScan pc =>
    cases h
    exact .none (OrphanDetector.step_operated site w pc)
  | triage gcsPath =>
    cases h
    exact .none (w.transact_operated _ _ Triage.handleGcsPath_operated)
  | textEmbedded docId gcsPath pc =>
    obtain ⟨_, hr, rfl⟩ := Option.map_eq_some_iff.mp h
    exact .none (PdfWorker.embeddedStep_operated hr)
  | ocrSplit docId gcsPath pc =>
    obtain ⟨_, hr, rfl⟩ := Option.map_eq_some_iff.mp h
    exact .none (PdfWorker.splitStep_operated hr)
  | ocrShard payload pc =>
    cases h
    exact .none (OcrShard.step_operated payload input.texts w pc)
  | extraction docId pc =>
    cases h
    exact .none (Extraction.step_operated site docId input.verdict w pc)
  | sweep pc =>
    cases h
    exact .none (Sweeper.step_operated site w pc)
  | forceRedrive docId reason actor pc =>
    cases h
    cases pc with
    | selecting =>
      refine .none ?_
      simp only [Operator.redriveStep]
      split
      · rfl
      · split <;> rfl
    | targeting row =>
      refine .none ?_
      simp only [Operator.redriveStep]
      split <;> rfl
    | committing row target =>
      simp only [Operator.redriveStep]
      rcases w.transact_cases (Operator.forceRedriveTx site docId row target reason actor)
        (fun _ => (.returned target : Next Operator.RedrivePc _)) .raised with ⟨_, db, hc, he⟩ | ⟨_, he⟩
      · rw [he]
        obtain ⟨hflags, haudit⟩ := Operator.forceRedriveTx_audited hc
        exact .audit rfl hflags haudit
      · rw [he]
        exact .none rfl
  | acceptReview docId reason actor pc =>
    cases h
    cases pc with
    | selecting =>
      refine .none ?_
      simp only [Operator.acceptStep]
      split
      · rfl
      · split
        · rfl
        · split <;> rfl
    | committing row =>
      simp only [Operator.acceptStep]
      rcases w.transact_cases (Operator.acceptReviewTx docId row reason actor)
        (.returned : Unit → Next Operator.AcceptPc Unit) .raised with ⟨_, db, hc, he⟩ | ⟨_, he⟩
      · rw [he]
        obtain ⟨hflags, haudit⟩ := Operator.acceptReviewTx_audited hc
        exact .audit rfl hflags haudit
      · rw [he]
        exact .none rfl
  | killSwitch enabled reason actor =>
    cases h
    dsimp only
    rcases w.transact_cases (Operator.setKillSwitch site enabled reason actor)
      (.returned : Unit → Next Unit Unit) .raised with ⟨_, db, hc, he⟩ | ⟨_, he⟩
    · rw [he]
      obtain ⟨hb, rfl⟩ := Operator.setKillSwitch_commits.mp hc
      exact .toggle hb rfl rfl
    · rw [he]
      exact .none rfl

/-- A step of a run leaves the flags alone unless it commits a toggle. -/
theorem Task.step_flags {site : Deployment} {w : World} {input : Input} {task : Task} {r : World × Option Task}
    (h : task.step site w input = some r) :
    r.1.db.featureFlags = w.db.featureFlags ∨
    ∃ enabled reason actor, task = .killSwitch enabled reason actor ∧ Operator.blank site reason = false ∧
      r.1.db.featureFlags = w.db.featureFlags.insert Extraction.autoPostFlag enabled := by
  cases Task.step_operates h with
  | none hsame => exact Or.inl (congrArg Prod.fst hsame)
  | audit _ hflags _ => exact Or.inl hflags
  | toggle hb hflags _ => exact Or.inr ⟨_, _, _, rfl, hb, hflags⟩

/-- A step of a run leaves the audit log alone unless it commits an operator's call. -/
theorem Task.step_audits {site : Deployment} {w : World} {input : Input} {task : Task} {r : World × Option Task}
    (h : task.step site w input = some r) :
    r.1.db.breakGlassAudit = w.db.breakGlassAudit ∨
    ∃ entry, task.auditRow = some entry ∧ r.1.db.breakGlassAudit = w.db.breakGlassAudit ++ [entry] := by
  cases Task.step_operates h with
  | none hsame => exact Or.inl (congrArg Prod.snd hsame)
  | audit hentry _ haudit => exact Or.inr ⟨_, hentry, haudit⟩
  | toggle _ _ haudit => exact Or.inr ⟨_, rfl, haudit⟩

namespace Sys

variable {site : Deployment} {s t : Sys} {a : Action}

/-- The step commits `set_kill_switch(enabled)`. -/
def toggles (site : Deployment) (enabled : Bool) (s : Sys) (a : Action) : Bool :=
  match a with
  | .run tid _ =>
    match s.tasks tid with
    | some (.killSwitch e reason _) => e == enabled && !Operator.blank site reason
    | _ => false
  | _ => false

theorem flags_of_step (h : Step site s a t) :
    t.db.featureFlags = s.db.featureFlags ∨
    ∃ enabled, toggles site enabled s a = true ∧
      t.db.featureFlags = s.db.featureFlags.insert Extraction.autoPostFlag enabled := by
  cases step_kind h with
  | idle => exact Or.inl rfl
  | ran htask hr =>
    rcases Task.step_flags hr with hsame | ⟨enabled, reason, actor, rfl, hb, hflags⟩
    · exact Or.inl hsame
    · refine Or.inr ⟨enabled, ?_, hflags⟩
      simp [toggles, htask, hb]
  | relayed hrelay =>
    obtain ⟨r, hr, rfl⟩ := Option.map_eq_some_iff.mp hrelay
    left
    change r.1.db.featureFlags = s.db.featureFlags
    rcases Relay.step_cases hr with ⟨_, _, hdb⟩ | ⟨_, _, _, _, hdb⟩ | ⟨_, _, hdb | ⟨_, _, _, _, _, _, hdb⟩⟩
    all_goals rw [hdb]
    rfl
  | sunk hsink =>
    left
    rcases sink_posts hsink with hdb | ⟨_, _, _, _, _, hdb⟩ <;> rw [hdb]

/-- Only the closing transaction of an operator's call writes the audit log, one row. -/
theorem audit_of_step (h : Step site s a t) :
    t.db.breakGlassAudit = s.db.breakGlassAudit ∨
    ∃ tid input task entry, a = .run tid input ∧ s.tasks tid = some task ∧ task.auditRow = some entry ∧
      t.db.breakGlassAudit = s.db.breakGlassAudit ++ [entry] := by
  cases step_kind h with
  | idle => exact Or.inl rfl
  | ran htask hr =>
    rcases Task.step_audits hr with hsame | ⟨entry, hentry, haudit⟩
    · exact Or.inl hsame
    · exact Or.inr ⟨_, _, _, entry, rfl, htask, hentry, haudit⟩
  | relayed hrelay =>
    obtain ⟨r, hr, rfl⟩ := Option.map_eq_some_iff.mp hrelay
    left
    change r.1.db.breakGlassAudit = s.db.breakGlassAudit
    rcases Relay.step_cases hr with ⟨_, _, hdb⟩ | ⟨_, _, _, _, hdb⟩ | ⟨_, _, hdb | ⟨_, _, _, _, _, _, hdb⟩⟩
    all_goals rw [hdb]
    rfl
  | sunk hsink =>
    left
    rcases sink_posts hsink with hdb | ⟨_, _, _, _, _, hdb⟩ <;> rw [hdb]

theorem flag_of_toggle {enabled : Bool} (h : toggles site enabled s a = true) (hs : Step site s a t) :
    Ledger.getFeatureFlag t.db Extraction.autoPostFlag true = enabled := by
  unfold toggles at h
  split at h
  · next tid input =>
    split at h
    · next e reason actor htask =>
      simp only [Bool.and_eq_true, beq_iff_eq, Bool.not_eq_true'] at h
      obtain ⟨rfl, hb⟩ := h
      obtain ⟨task, r, htask', hr, rfl⟩ := runTask_eq hs
      rw [htask] at htask'
      cases htask'
      cases hr
      have hc : Commits (Operator.setKillSwitch site e reason actor) s.db ⟨⟩ _ :=
        Operator.setKillSwitch_commits.mpr ⟨hb, rfl⟩
      rw [World.transact_of_commits _ _ hc]
      change ((s.db.featureFlags.insert Extraction.autoPostFlag e).lookup Extraction.autoPostFlag).getD true = e
      rw [AList.lookup_insert, Option.getD_some]
    · cases h
  · cases h

end Sys
end DocPipeline

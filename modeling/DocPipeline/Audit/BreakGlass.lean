import DocPipeline.Audit.Redrive
import DocPipeline.Effects.Operator
import DocPipeline.Gather.Recovery

/-!
# Does a re-drive leave in-flight documents alone?

`force_redrive` checks the state of the row it has read, and moves the document in a later
transaction whose UPDATE accepts every predecessor of the target and the target itself.
The audit row records the state that was checked. So a re-drive is what its audit row says
exactly as long as the document is still in that state, or in one the UPDATE rejects.
-/
namespace DocPipeline.Audit

set_option autoImplicit false

open Lib Lib.Transaction Sys

variable {site : Deployment} {s t : Sys} {a : Action} {d : DocId} {fromState toState : DocState}

/-- The step commits a re-drive of `d`, and records this move of it. -/
def Redrives (s t : Sys) (d : DocId) (fromState toState : DocState) : Prop :=
  ∃ reason actor, t.db.breakGlassAudit =
    s.db.breakGlassAudit ++ [⟨some d, "force_redrive", reason, actor, some (.move fromState toState)⟩]

/-- The document was at rest in the recorded state, and the step took it out of there. -/
structure TakenFromRest (s t : Sys) (d : DocId) (fromState toState : DocState) : Prop where
  before : ∃ row, s.document d = some row ∧ row.state = fromState
  rested : fromState = .review ∨ fromState = .failed
  after : ∃ row, t.document d = some row ∧ row.state = toState
  moved : toState ≠ fromState

/-- The UPDATE of `transition` without `from_states`, `idempotent=True`. -/
def accepts (state : DocState) (target : Operator.RedriveTarget) : Bool :=
  (state, target.state) ∈ Ledger.allowedTransitions || state = target.state

/-- At the closing transaction of a re-drive, its document is in the state that was
checked, or in one the UPDATE rejects. -/
def fresh (s : Sys) : Action → Bool
  | .run tid _ =>
    match s.tasks tid with
    | some (.forceRedrive d _ _ (.committing row target)) =>
      (s.document d).all fun current => current.state = row.state || !accepts current.state target
    | _ => true
  | _ => true

/-- A re-drive that is about to commit has checked its row. -/
def Checked : Task → Prop
  | .forceRedrive _ _ _ (.committing row _) => row.state = .review ∨ row.state = .failed
  | _ => True

theorem checked_of_target {docId : DocId} {row : Document} {assembled : Bool} {target : Operator.RedriveTarget}
    (h : Operator.redriveTargetState docId row assembled = .ok target) : row.state = .review ∨ row.state = .failed := by
  unfold Operator.redriveTargetState at h
  split at h
  · next hstate => exact Or.inl hstate
  · next hstate => exact Or.inr hstate
  · cases h

/-- Only the step that has found a target leads to the closing transaction. -/
theorem checked_own {w : World} {input : Input} {task : Task} {r : World × Option Task} {reason actor : String}
    {row : Document} {target : Operator.RedriveTarget} (hr : task.step site w input = some r)
    (hnext : r.2 = some (.forceRedrive d reason actor (.committing row target))) :
    row.state = .review ∨ row.state = .failed := by
  cases task with
  | forceRedrive d' reason' actor' pc =>
    cases hr
    obtain ⟨pc', hgoto, heq⟩ := Next.goto_of_task hnext
    cases heq
    cases pc with
    | selecting =>
      simp only [Operator.redriveStep] at hgoto
      split at hgoto
      · cases hgoto
      · split at hgoto <;> cases hgoto
    | targeting row' =>
      simp only [Operator.redriveStep] at hgoto
      split at hgoto
      · cases hgoto
      · next htarget =>
        cases hgoto
        exact checked_of_target htarget
    | committing row' target' =>
      obtain ⟨_, _, heq⟩ := World.transact_committed hgoto fun _ he => by cases he
      cases heq
  | triage | killSwitch =>
    cases hr
    cases hnext
  | orphanScan | ocrShard | extraction | sweep | acceptReview =>
    cases hr
    obtain ⟨_, _, heq⟩ := Next.goto_of_task hnext
    cases heq
  | textEmbedded | ocrSplit =>
    obtain ⟨_, _, rfl⟩ := Option.map_eq_some_iff.mp hr
    obtain ⟨_, _, heq⟩ := Next.goto_of_task hnext
    cases heq

theorem checked_step (hi : ∀ tid task, s.tasks tid = some task → Checked task) (hs : Step site s a t) :
    ∀ tid task, t.tasks tid = some task → Checked task := by
  intro tid task ht
  rcases task_of_step hs ht with hkept | ⟨job, rfl⟩ | ⟨topic, _, row, _, hmsg⟩ | ⟨_, _, _, _, _, hr, hnext, _⟩
  · exact hi tid task hkept
  · cases job <;> trivial
  · cases topic <;> cases hp : row.payload <;> rw [hp] at hmsg <;> cases hmsg <;> trivial
  · cases task with
    | forceRedrive d reason actor pc =>
      cases pc with
      | selecting | targeting => trivial
      | committing row target => exact checked_own hr hnext
    | orphanScan | triage | textEmbedded | ocrSplit | ocrShard | extraction | sweep | acceptReview | killSwitch =>
      trivial

theorem checked_run {as : List Action} (h : FreeRun site initial as s) :
    ∀ tid task, s.tasks tid = some task → Checked task :=
  h.invariant (P := fun s => ∀ tid task, s.tasks tid = some task → Checked task) (fun _ _ ht => nomatch ht)
    fun _ _ _ hi _ hs => checked_step hi hs

/-! ## The closing transaction -/

variable {row : Document} {target : Operator.RedriveTarget} {reason actor : String} {tid : Nat} {input : Input}

/-- The one step that records a re-drive, and what its UPDATE found and left. -/
theorem closing_of_redrives (hs : Step site s a t) (h : Redrives s t d fromState toState) :
    ∃ tid input reason actor row target current, a = .run tid input ∧
      s.tasks tid = some (.forceRedrive d reason actor (.committing row target)) ∧
      row.state = fromState ∧ target.state = toState ∧ s.document d = some current ∧
      accepts current.state target = true ∧ t.document d = some (current.moved target.state s.db.now) := by
  obtain ⟨reason, actor, haudit⟩ := h
  rcases audit_of_step hs with hsame | ⟨tid, input, task, entry, rfl, htask, hentry, happended⟩
  · rw [hsame] at haudit
    exact absurd (congrArg List.length haudit) (by simp)
  · rw [haudit] at happended
    obtain rfl := List.singleton_inj.mp (List.append_cancel_left happended)
    obtain ⟨row, target, rfl, hfrom, hto⟩ : ∃ row target, task = .forceRedrive d reason actor (.committing row target) ∧
        row.state = fromState ∧ target.state = toState := by
      unfold Task.auditRow at hentry
      split at hentry
      · cases hentry
        exact ⟨_, _, rfl, rfl, rfl⟩
      · have haction : "accept_review" = "force_redrive" := congrArg AuditRow.action (Option.some.inj hentry)
        exact absurd haction (by decide)
      · have haction : "kill_switch_toggle" = "force_redrive" := congrArg AuditRow.action (Option.some.inj hentry)
        exact absurd haction (by decide)
      · cases hentry
    obtain ⟨task, r, htask', hr, rfl⟩ := runTask_eq hs
    rw [htask] at htask'
    cases htask'
    cases hr
    simp only [Operator.redriveStep] at haudit ⊢
    rcases s.world.transact_cases (Operator.forceRedriveTx site d row target reason actor)
      (fun _ => (.returned target : Next Operator.RedrivePc _)) .raised with ⟨_, db, hc, he⟩ | ⟨_, he⟩
    · simp only [he]
      simp only [Operator.forceRedriveTx, commits_bind, Ledger.transition_default_commits] at hc
      obtain ⟨_, _, ⟨current, hrow, hstate, _, rfl⟩, _, m, hsend, hlog⟩ := hc
      refine ⟨tid, input, reason, actor, row, target, current, rfl, htask, hfrom, hto, hrow, ?_, ?_⟩
      · simpa [accepts] using hstate
      · change db.documents.lookup d = _
        rw [Ledger.audit_commits.mp hlog]
        change m.documents.lookup d = _
        rw [(Sweeper.redriveDocument_kept hsend).1, Db.write_lookup_self]
    · simp only [he] at haudit
      exact absurd (congrArg List.length haudit) (by simp)

/-- A re-drive took its document from rest exactly when its check was still fresh. -/
theorem takenFromRest_iff (hi : ∀ tid task, s.tasks tid = some task → Checked task) (hs : Step site s a t)
    (h : Redrives s t d fromState toState) : TakenFromRest s t d fromState toState ↔ fresh s a = true := by
  obtain ⟨tid, input, reason, actor, row, target, current, rfl, htask, rfl, rfl, hrow, hacc, hafter⟩ :=
    closing_of_redrives hs h
  have hfresh : fresh s (.run tid input) = true ↔ current.state = row.state := by
    simp [fresh, htask, hrow, hacc]
  rw [hfresh]
  constructor
  · intro htaken
    obtain ⟨row', hrow', hstate⟩ := htaken.before
    rw [hrow] at hrow'
    cases hrow'
    exact hstate
  · intro hstate
    have hchecked : row.state = .review ∨ row.state = .failed := hi tid _ htask
    refine ⟨⟨current, hrow, hstate⟩, hchecked, ⟨_, hafter, rfl⟩, fun he => ?_⟩
    -- neither target is a state a checked row can be in
    rw [← he] at hchecked
    cases target <;> rcases hchecked with h | h <;> cases h

/-- Every re-drive that a guarded run commits took its document out of review or failed,
and its audit row names the state it took it from. Any other re-drive did not. -/
theorem redrive_takes_from_rest {as : List Action} :
    (GuardedRun site (fun s a => fresh s a = true) initial as s → fresh s a = true → Step site s a t →
      ∀ d fromState toState, Redrives s t d fromState toState → TakenFromRest s t d fromState toState) ∧
    (FreeRun site initial as s → fresh s a = false → Step site s a t →
      ∀ d fromState toState, Redrives s t d fromState toState → ¬ TakenFromRest s t d fromState toState) := by
  constructor
  · intro h hg hs d fromState toState hr
    exact (takenFromRest_iff (checked_run h.unguarded) hs hr).mpr hg
  · intro h hg hs d fromState toState hr htaken
    rw [(takenFromRest_iff (checked_run h) hs hr).mp htaken] at hg
    cases hg

def atClosing (as : List Action) : List Action :=
  exhausted ++ [.spawn 1 (.forceRedrive "crc32c-a" "retry" "ops")] ++ Schedule.turns 1 2 ++ as

/-- The audit log grows by a re-drive of the document between these states. -/
def recorded (fromState toState : DocState) (s t : Sys) : Bool :=
  t.db.breakGlassAudit =
    s.db.breakGlassAudit ++ [⟨some "crc32c-a", "force_redrive", "retry", "ops", some (.move fromState toState)⟩]

theorem redrives_of_recorded (h : recorded fromState toState s t = true) : Redrives s t "crc32c-a" fromState toState :=
  ⟨"retry", "ops", of_decide_eq_true h⟩

/-- The re-drive of an exhausted document that no one else touches. -/
theorem lone_redrive_takes_from_review :
    ∃ s t, FreeRun oneInvoice initial (atClosing []) s ∧ Step oneInvoice s (.run 1 {}) t ∧
      TakenFromRest s t "crc32c-a" .review .extractPending := by
  obtain ⟨s, hrun, hs⟩ := exists_guardedRun oneInvoice fresh (atClosing [])
    (fun s => fresh s (.run 1 {}) && (s.step oneInvoice (.run 1 {})).any (recorded .review .extractPending s))
    (by decide +kernel)
  rw [Bool.and_eq_true, Option.any_eq_true] at hs
  obtain ⟨hfresh, t, ht, hrec⟩ := hs
  exact ⟨s, t, hrun.unguarded, ht, redrive_takes_from_rest.1 hrun hfresh ht _ _ _ (redrives_of_recorded hrec)⟩

/-- A second operator has re-driven the document, and a worker has opened it: the first
operator's UPDATE takes it from the worker, and the audit row says `review`. -/
theorem redrive_takes_from_worker :
    ¬ ∀ (site : Deployment) (as : List Action) (s t : Sys) (a : Action) (d : DocId) (fromState toState : DocState),
      FreeRun site initial as s → Step site s a t → Redrives s t d fromState toState →
        TakenFromRest s t d fromState toState := by
  intro hclaim
  obtain ⟨s, hrun, hs⟩ := exists_freeRun oneInvoice
    (atClosing (Schedule.forceRedrive 2 "crc32c-a" ++ Schedule.publish 1 ++ [.receive 3 .ocrCompleted 0 1] ++
      Schedule.turns 3 1))
    (fun s => ((s.document "crc32c-a").all fun row => row.state = .extractRunning) &&
      (s.step oneInvoice (.run 1 {})).any (recorded .review .extractPending s)) (by decide +kernel)
  rw [Bool.and_eq_true, Option.any_eq_true] at hs
  obtain ⟨hrunning, t, ht, hrec⟩ := hs
  obtain ⟨row, hrow, hstate⟩ := (hclaim oneInvoice _ s t _ _ _ _ hrun ht (redrives_of_recorded hrec)).before
  rw [hrow, Option.all_some, decide_eq_true_eq, hstate] at hrunning
  cases hrunning

end DocPipeline.Audit

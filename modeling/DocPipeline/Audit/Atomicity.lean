import DocPipeline.Effects.Desk
import DocPipeline.Audit.Redrive

/-!
# Are operator actions atomic and audited?

On a connection of their own and in a loop that shares one, the break-glass actions change
the database only in their commit, as one transaction with one audit row. What an action
that raises has written is pending at most until its connection is closed, and a loop only
goes on after exceptions that find nothing pending.
-/
namespace DocPipeline.Audit

set_option autoImplicit false

open Lib Lib.Transaction Ledger Desk

variable {site : Deployment} {d docId : DocId} {db db' : Db} {action : BreakGlass} {k k' : Desk} {a : Desk.Action}

/-! ## What a transaction leaves of other documents -/

/-- What the ledger says of one document, and the tables that no re-drive writes. -/
def about (d : DocId) (db : Db) :=
  (db.documents.lookup d, db.outbox.filter (fun r => r.docId = d), db.documentShards, db.postedDocuments,
    db.featureFlags, db.attemptLog)

abbrev KeepsAbout {α : Type} (d : DocId) (t : Tx α) : Prop := Keeps (about d) t

theorem transition_about (hd : d ≠ docId) {toState : DocState} {fromStates : Option (List DocState)}
    {idempotent : Bool} : KeepsAbout d (transition docId toState fromStates idempotent) := by
  intro db a db' h
  obtain ⟨row, _, _, _, rfl⟩ := transition_commits.mp h
  unfold about
  rw [Db.write_lookup, if_neg hd]
  rfl

theorem insertOutbox_about (hd : d ≠ docId) (db : Db) (topic : Topic) (payload : Payload) :
    about d (db.insertOutbox docId topic payload) = about d db := by
  have hother : (docId = d) = False := eq_false (Ne.symm hd)
  simp [about, Db.insertOutbox, hother]

theorem enqueue_about (hd : d ≠ docId) {topic : Topic} {payload : Payload} :
    KeepsAbout d (enqueue docId topic payload) := Keeps.modify fun db => insertOutbox_about hd db topic payload

theorem enqueueMany_about {rows : List (DocId × Topic × Payload)} (hrows : ∀ r, r ∈ rows → d ≠ r.1) :
    KeepsAbout d (enqueueMany rows) := by
  refine Keeps.modify fun db => ?_
  induction rows generalizing db with
  | nil => rfl
  | cons r rest ih =>
    rw [List.foldl_cons, ih fun r' hr' => hrows r' (List.mem_cons_of_mem _ hr')]
    exact insertOutbox_about (hrows r List.mem_cons_self) db _ _

theorem redriveDocument_about (hd : d ≠ docId) {row : Document} :
    KeepsAbout d (Sweeper.redriveDocument site docId row) := by
  refine Keeps.ite ?_ ?_
  · unfold Sweeper.redriveDispatch
    split
    · exact Keeps.throw _
    · exact enqueue_about hd
  · split
    · refine Keeps.get.bind fun db => ?_
      dsimp only
      split
      · refine enqueueMany_about fun r hr => ?_
        obtain ⟨_, _, rfl⟩ := List.mem_map.mp hr
        exact hd
      · exact Keeps.ite (Keeps.pure _) (Keeps.throw _)
    · exact enqueue_about hd
    · exact enqueue_about hd
    · exact enqueue_about hd
    · exact Keeps.pure _

theorem forceRedriveTx_about (hd : d ≠ docId) {row : Document} {target : Operator.RedriveTarget}
    {reason actor : String} : KeepsAbout d (Operator.forceRedriveTx site docId row target reason actor) :=
  (transition_about hd).bind fun _ => (redriveDocument_about hd).bind fun _ => Keeps.modify fun _ => rfl

theorem makes_elsewhere {reason actor : String} (hd : d ≠ docId)
    (h : (BreakGlass.forceRedrive docId reason actor).Makes site db db') : about d db' = about d db := by
  cases h with
  | forceRedrive _ hc => exact forceRedriveTx_about hd _ _ _ hc

/-! ## The audit row of an action -/

/-- The audit row is one of this action. -/
inductive Records : BreakGlass → AuditRow → Prop
  | forceRedrive {docId : DocId} {reason actor : String} {fromState toState : DocState} :
      Records (.forceRedrive docId reason actor)
        ⟨some docId, "force_redrive", reason, actor, some (.move fromState toState)⟩
  | acceptReview {docId : DocId} {reason actor : String} :
      Records (.acceptReview docId reason actor)
        ⟨some docId, "accept_review", reason, actor, some (.move .review .complete)⟩
  | setKillSwitch {enabled : Bool} {reason actor : String} :
      Records (.setKillSwitch enabled reason actor)
        ⟨none, "kill_switch_toggle", reason, actor, some (.flag enabled)⟩

theorem makes_audited (h : action.Makes site db db') :
    ∃ entry, Records action entry ∧ db'.breakGlassAudit = db.breakGlassAudit ++ [entry] := by
  cases h with
  | forceRedrive _ hc => exact ⟨_, .forceRedrive, (Operator.forceRedriveTx_audited hc).2⟩
  | acceptReview _ hc => exact ⟨_, .acceptReview, (Operator.acceptReviewTx_audited hc).2⟩
  | setKillSwitch hc =>
    obtain ⟨_, rfl⟩ := Operator.setKillSwitch_commits.mp hc
    exact ⟨_, .setKillSwitch, rfl⟩

/-! ## The calls -/

/-- The reason a call was given, or gives to its re-drives. -/
def reason (site : Deployment) : Progress → Option String
  | .acting action _ => some action.reason
  | .requiring bulk | .matching bulk | .concluding bulk _ _ => some bulk.reason
  | .looping loop docId _ => some (loop.job.redrive site docId).reason
  | .finding _ _ => none

/-- The documents a bulk re-drive has matched. -/
def matched : Progress → Option (Bulk × List DocId)
  | .looping loop _ _ =>
    match loop.job with
    | .bulkRedrive bulk => some (bulk, loop.matched)
    | .dlqReplay _ => none
  | .concluding bulk loop _ => some (bulk, loop.matched)
  | .acting _ _ | .requiring _ | .matching _ | .finding _ _ => none

/-- What one statement of a call may do. -/
structure Atomic (site : Deployment) (k k' : Desk) (cid : Nat) (found : List DocId) (o : Open) : Prop where
  /-- Only a commit changes anything: the whole of an action with one audit row, or the
  audit row of a bulk re-drive itself. -/
  committed : k'.db = k.db ∨
    (∃ action, o.progress.at site = some (action, .writing []) ∧ action.Makes site k.db k'.db ∧
      ∃ entry, Records action entry ∧ k'.db.breakGlassAudit = k.db.breakGlassAudit ++ [entry]) ∨
    ∃ bulk loop, o.progress = .concluding bulk loop [] ∧
      k'.db = { k.db with breakGlassAudit := k.db.breakGlassAudit ++ [bulk.concluded loop] }
  /-- An action that raises changes nothing, and leaves nothing for a later commit. -/
  raised : ∀ action pc e, o.progress.at site = some (action, pc) →
    (pc.step site action k.sys.world o.pending).2.2 = .raised e →
      k'.db = k.db ∧ ∀ o', k'.calls.lookup cid = some o' → o'.pending = []
  blank : ∀ given, reason site o.progress = some given → Operator.blank site given = true → k'.db = k.db
  exceeded : ∀ bulk, o.progress = .matching bulk → bulk.approved = false → bulk.cap < found.length →
    k'.db = k.db ∧ k'.calls.lookup cid = none
  confined : ∀ bulk docIds, matched o.progress = some (bulk, docIds) →
    (bulk.approved = true ∨ docIds.length ≤ bulk.cap) ∧ ∀ d, d ∉ docIds → about d k'.db = about d k.db
  selected : ∀ o', k'.calls.lookup cid = some o' → ∀ bulk docIds, matched o'.progress = some (bulk, docIds) →
    matched o.progress = some (bulk, docIds) ∨ (o.progress = .matching bulk ∧ docIds.Perm (bulk.matching k.db))

theorem matched_of_next {loop : Loop} {progress : Progress} (h : loop.next = .goto progress) {bulk : Bulk}
    {docIds : List DocId} (hm : matched progress = some (bulk, docIds)) :
    loop.job = .bulkRedrive bulk ∧ loop.matched = docIds := by
  unfold Loop.next at h
  split at h
  · cases h
    simp only [matched] at hm
    split at hm
    · next hjob =>
      cases hm
      exact ⟨hjob, rfl⟩
    · cases hm
  · split at h
    · next hjob =>
      cases h
      cases hm
      exact ⟨hjob, rfl⟩
    · cases h

theorem matched_looping {loop : Loop} {pc : Pc} {bulk : Bulk} (hjob : loop.job = .bulkRedrive bulk) :
    matched (.looping loop docId pc) = some (bulk, loop.matched) := by
  simp [matched, hjob]

/-- What a bulk re-drive has matched is what its SELECT returned, from then on. -/
theorem matched_of_step {w : World} {found : List DocId} {pending : List Write} {progress progress' : Progress}
    {r : Desk.Outcome Progress Result} (hi : progress.Sound site pending)
    (h : progress.step site w found pending = some r) (hnext : r.2.2 = .goto progress') {bulk : Bulk}
    {docIds : List DocId} (hm : matched progress' = some (bulk, docIds)) :
    matched progress = some (bulk, docIds) ∨ (progress = .matching bulk ∧ docIds.Perm (bulk.matching w.db)) := by
  cases progress with
  | acting action pc =>
    cases h
    simp only at hnext
    split at hnext <;> cases hnext
    cases hm
  | requiring bulk' =>
    cases h
    simp only at hnext
    split at hnext <;> cases hnext
    cases hm
  | matching bulk' =>
    obtain ⟨rfl, _⟩ := hi
    simp only [Progress.step] at h
    split at h
    · next hperm =>
      cases h
      simp only at hnext
      split at hnext
      · cases hnext
      · obtain ⟨hjob, rfl⟩ := matched_of_next hnext hm
        cases hjob
        exact Or.inr ⟨rfl, hperm⟩
    · cases h
  | finding actor dryRun =>
    simp only [Progress.step] at h
    split at h <;> cases h
    simp only at hnext
    split at hnext
    · cases hnext
    · obtain ⟨hjob, _⟩ := matched_of_next hnext hm
      cases hjob
  | looping loop d pc =>
    cases h
    refine Or.inl ?_
    simp only [Loop.after] at hnext
    split at hnext
    · cases hnext
      exact hm
    · obtain ⟨hjob, rfl⟩ := matched_of_next hnext hm
      exact matched_looping hjob
    · obtain ⟨hjob, rfl⟩ := matched_of_next hnext hm
      exact matched_looping hjob
    · cases hnext
  | concluding bulk' loop todo =>
    cases h
    simp only at hnext
    split at hnext <;> cases hnext
    exact Or.inl hm

theorem reason_of_at {progress : Progress} {pc : Pc} (h : progress.at site = some (action, pc)) :
    reason site progress = some action.reason := by
  cases progress <;> cases h <;> rfl

/-- A raise is caught by a loop with nothing pending, or ends the call. -/
theorem raised_leaves {w : World} {found : List DocId} {pending : List Write} {progress : Progress} {pc : Pc}
    {r : Desk.Outcome Progress Result} {e : LedgerError} (hi : progress.Sound site pending)
    (h : progress.step site w found pending = some r) (hat : progress.at site = some (action, pc))
    (he : (pc.step site action w pending).2.2 = .raised e) :
    r.1 = w ∧ ∀ progress', r.2.2 = .goto progress' → r.2.1 = [] := by
  cases progress with
  | acting action' pc' =>
    cases hat
    cases h
    have hwent := Pc.step_went (w := w) hi
    generalize pc.step site action w pending = out at he hwent
    cases hwent <;> cases he
    · exact ⟨rfl, fun _ hnext => nomatch hnext⟩
    · exact ⟨rfl, fun _ hnext => nomatch hnext⟩
  | looping loop docId pc' =>
    cases hat
    cases h
    have hwent := Pc.step_went (w := w) hi.2.2
    generalize pc.step site (loop.job.redrive site docId) w pending = out at he hwent
    cases hwent <;> cases he
    · exact ⟨rfl, fun _ _ => rfl⟩
    · next hescapes =>
      refine ⟨rfl, fun _ hnext => ?_⟩
      cases e with
      | breakGlass message => exact absurd rfl (hescapes message)
      | illegalTransition | uniqueViolation | foreignKeyViolation | typeError | valueError => cases hnext
  | requiring | matching | finding | concluding => cases hat

/-- The matched documents of a bulk re-drive are within its cap or approved. -/
theorem permitted_of_matched {pending : List Write} {progress : Progress} (hi : progress.Sound site pending)
    {bulk : Bulk} {docIds : List DocId} (hm : matched progress = some (bulk, docIds)) :
    bulk.approved = true ∨ docIds.length ≤ bulk.cap := by
  cases progress with
  | looping loop docId pc =>
    simp only [matched] at hm
    split at hm
    · next hjob =>
      cases hm
      exact (hi.1.permitted _ hjob).2
    · cases hm
  | concluding bulk' loop todo =>
    cases hm
    exact (hi.1.permitted _ hi.2.1).2
  | acting | requiring | matching | finding => cases hm

/-- A bulk re-drive changes only documents it has matched. -/
theorem confined_to_matched {w : World} {pending : List Write} {progress : Progress} {r : Desk.Outcome Progress Result}
    (hi : progress.Sound site pending) (hwent : progress.Went site w r) {bulk : Bulk} {docIds : List DocId}
    (hm : matched progress = some (bulk, docIds)) (hd : d ∉ docIds) : about d r.1.db = about d w.db := by
  cases hwent with
  | kept => rfl
  | acted hat _ hmakes =>
    cases progress with
    | looping loop docId pc =>
      cases hat
      simp only [matched] at hm
      split at hm
      · next hjob =>
        cases hm
        rw [hjob] at hmakes
        refine makes_elsewhere ?_ hmakes
        rintro rfl
        exact hd hi.2.1
      · cases hm
    | acting => cases hm
    | requiring | matching | finding | concluding => cases hat
  | concluded _ hc =>
    rw [audit_commits.mp hc]
    rfl

theorem atomic_of_statement {cid : Nat} {found : List DocId} (hi : k.Sound site)
    (hs : k.runStatement site cid found = some k') :
    ∃ o, k.calls.lookup cid = some o ∧ Atomic site k k' cid found o := by
  obtain ⟨⟨progress, pending⟩, r, ho, hr, rfl⟩ := runStatement_inv hs
  have hsound : progress.Sound site pending := hi cid _ ho
  have hwent := Progress.step_went hsound hr
  refine ⟨_, ho, ?_, ?_, ?_, ?_, ?_, ?_⟩
  · cases hwent with
    | kept => exact Or.inl rfl
    | acted hat hreason hmakes => exact Or.inr (Or.inl ⟨_, hat, hmakes, makes_audited hmakes⟩)
    | concluded hprogress hc => exact Or.inr (Or.inr ⟨_, _, hprogress, audit_commits.mp hc⟩)
  · intro action pc e hat he
    obtain ⟨hworld, hpending⟩ := raised_leaves hsound hr hat he
    refine ⟨congrArg World.db hworld, fun o' ho' => ?_⟩
    rcases goOn_lookup ho' with ⟨hne, _⟩ | ⟨_, progress', hnext, rfl⟩
    · exact absurd rfl hne
    · exact hpending progress' hnext
  · intro given hgiven hblank
    cases hwent with
    | kept => rfl
    | acted hat hreason _ =>
      rw [reason_of_at hat] at hgiven
      cases hgiven
      rw [hreason] at hblank
      cases hblank
    | concluded hprogress _ =>
      subst hprogress
      cases hgiven
      rw [(hsound.1.permitted _ hsound.2.1).1] at hblank
      cases hblank
  · intro bulk hprogress happroved hcap
    subst hprogress
    simp only [Progress.step] at hr
    split at hr <;> cases hr
    rw [if_pos ⟨hcap, happroved⟩]
    exact ⟨rfl, AList.lookup_erase ..⟩
  · intro bulk docIds hm
    exact ⟨permitted_of_matched hsound hm, fun d hd => confined_to_matched hsound hwent hm hd⟩
  · intro o' ho' bulk docIds hm
    rcases goOn_lookup ho' with ⟨hne, _⟩ | ⟨_, progress', hnext, rfl⟩
    · exact absurd rfl hne
    · exact matched_of_step hsound hr hnext hm

/-- In every run of the pipeline and the desk: a statement of a call is atomic, and
nothing else that happens to a call changes anything. -/
theorem operator_actions_atomic {sys : Sys} {as : List Desk.Action} (h : FreeRun site { sys := sys } as k)
    (hs : Step site k a k') :
    match a with
    | .pipeline act => Sys.Step site k.sys act k'.sys ∧ k'.calls = k.calls
    | .call _ _ => k'.db = k.db
    | .statement cid found => ∃ o, k.calls.lookup cid = some o ∧ Atomic site k k' cid found o
    | .fault cid => k'.db = k.db ∧ k'.calls.lookup cid = none := by
  have hi : k.Sound site := sound_run h
  unfold Step step at hs
  cases a with
  | pipeline act =>
    obtain ⟨sys', hsys, hs⟩ := Option.bind_eq_some_iff.mp hs
    split at hs <;> cases hs
    exact ⟨hsys, rfl⟩
  | call cid call =>
    dsimp only at hs
    split at hs <;> cases hs
    rfl
  | statement cid found => exact atomic_of_statement hi hs
  | fault cid =>
    obtain ⟨_, _, rfl⟩ := Option.map_eq_some_iff.mp hs
    exact ⟨rfl, AList.lookup_erase ..⟩

/-- `bulk_redrive` with a predicate that is true of every document. -/
def everything : Bulk := ⟨"true", fun _ _ => true, "retry", "ops", 1, false⟩

/-- The document that fails its gates is re-driven in a loop, up to the commit. -/
def bulkAtCommit : List Desk.Action :=
  pipeline exhausted ++ [.call 0 (.bulkRedrive everything)] ++ statements 0 1 ++ [.statement 0 ["crc32c-a"]] ++
    statements 0 6

theorem bulk_redrive_is_atomic :
    ∃ k k' o, FreeRun oneInvoice {} bulkAtCommit k ∧ Step oneInvoice k (.statement 0 []) k' ∧
      k.calls.lookup 0 = some o ∧ Atomic oneInvoice k k' 0 [] o ∧
      k.db.breakGlassAudit = [] ∧ k'.db.breakGlassAudit.length = 1 := by
  obtain ⟨k, hrun, hk⟩ := Desk.exists_guardedRun oneInvoice (fun _ _ => true) bulkAtCommit
    (fun k => k.db.breakGlassAudit = [] &&
      (k.step oneInvoice (.statement 0 [])).any fun k' => k'.db.breakGlassAudit.length = 1) (by decide +kernel)
  rw [Bool.and_eq_true, Option.any_eq_true, decide_eq_true_eq] at hk
  obtain ⟨hbefore, k', hs, hafter⟩ := hk
  obtain ⟨o, ho, hatomic⟩ := operator_actions_atomic hrun.unguarded hs
  exact ⟨k, k', o, hrun.unguarded, hs, ho, hatomic, hbefore, of_decide_eq_true hafter⟩

end DocPipeline.Audit

import DocPipeline.Effects.Desk
import DocPipeline.Gather.Routing

/-!
# The page count at the operator's desk

A re-drive in a loop goes on with the row it has found, as one on its own connection does.
Its commit is the transaction of a run of `force_redrive`, so what holds of a step of such
a run holds of the desk.
-/
namespace DocPipeline.Gather

set_option autoImplicit false

open Lib Lib.Transaction Desk

variable {site : Deployment} {db db' : Db} {s : Sys} {action : BreakGlass} {pending : List Write}

/-- A step of a run that is in no slot. -/
theorem Provided.acts {input : Input} {task : Task} {r : World × Option Task} (h : Provided site s)
    (ht : TaskSound False site s.db task) (hi : Informed site s.db task) (hr : task.step site s.world input = some r) :
    Provided site { s with world := r.1 } ∧ Grows False site s.db r.1.db := by
  obtain ⟨hl, hgrows, ⟨new, hnew, hmsgs⟩, _⟩ := sound_taskStep h.sound.ledger ht (fun hf => hf.elim) hr
  have hperforms : Performs (task.Does site s.db) s.db ({ s with world := r.1 } : Sys).db := Task.step_performs hr
  have htransport : Sys.Transport site { s with world := r.1 } := (h.sound.transport.performs hperforms rfl rfl).1
  refine ⟨⟨⟨htransport, hl, fun m hm => ?_, fun tid task' htask => (h.sound.tasks tid task' htask).mono hgrows⟩,
    (stocked_stores h.stocked ht hi (Task.step_stores hr)).mono rfl hgrows,
    fun tid task' htask => (h.informed tid task' htask).mono hgrows⟩, hgrows⟩
  change m ∈ r.1.db.sent at hm
  rw [hnew] at hm
  rcases List.mem_append.mp hm with hm | hm
  · exact hmsgs m hm
  · exact (h.sound.messages m hm).mono hgrows

/-- A commit that leaves the pipeline's tables alone. -/
theorem Provided.aside (h : Provided site s) (hsame : s.db.SameLedger db) :
    Provided site { s with world := { s.world with db := db } } ∧ Grows False site s.db db := by
  have hgrows : Grows False site s.db db := Grows.of_documents hsame.documents
  refine ⟨⟨⟨h.sound.transport.congr hsame.sent hsame.outbox hsame.outboxSeq rfl rfl,
    h.sound.ledger.congr hsame.documents hsame.documentShards, fun m hm => ?_,
    fun tid task htask => (h.sound.tasks tid task htask).mono hgrows⟩, h.stocked.mono rfl hgrows,
    fun tid task htask => (h.informed tid task htask).mono hgrows⟩, hgrows⟩
  change m ∈ db.sent at hm
  rw [hsame.sent] at hm
  exact (h.sound.messages m hm).mono hgrows

/-- What a re-drive has found, and what it writes because of it. -/
def Recalls (site : Deployment) (db : Db) (action : BreakGlass) (pending : List Write) : Pc → Prop
  | .requiring | .selecting => True
  | .planning found => ∀ docId reason actor row, action = .forceRedrive docId reason actor → found = some row →
      Snapshot False site db docId row
  | .writing todo => ∀ docId reason actor, action = .forceRedrive docId reason actor →
      ∃ row assembled target, Snapshot False site db docId row ∧ Operator.redriveTargetState docId row assembled = .ok target ∧
        pending ++ todo = BreakGlass.redriveWrites docId row target reason actor

theorem Recalls.mono {pc : Pc} (h : Recalls site db action pending pc) (hg : Grows False site db db') :
    Recalls site db' action pending pc := by
  cases pc with
  | requiring | selecting => trivial
  | planning found => exact fun docId reason actor row haction hfound => (h docId reason actor row haction hfound).mono hg
  | writing todo =>
    intro docId reason actor haction
    obtain ⟨row, assembled, target, hsnapshot, htarget, hwrites⟩ := h docId reason actor haction
    exact ⟨row, assembled, target, hsnapshot.mono hg, htarget, hwrites⟩

/-- The commit of an action is a step of its own run. -/
theorem Provided.commit (h : Provided site s) (hsound : Pc.Sound site action pending (.writing []))
    (hrecalls : Recalls site s.db action pending (.writing []))
    (hc : Commits (transaction site pending) s.db ⟨⟩ db) :
    Provided site { s with world := { s.world with db := db } } ∧ Grows False site s.db db := by
  cases action with
  | forceRedrive docId reason actor =>
    obtain ⟨row, assembled, target, hsnapshot, htarget, hwrites⟩ := hrecalls docId reason actor rfl
    rw [List.append_nil] at hwrites
    rw [hwrites, redrive_transaction] at hc
    have hstep : (Task.forceRedrive docId reason actor (.committing row target)).step site s.world {} =
        some ({ s.world with db := db }, none) := by
      simp only [Task.step, Operator.redriveStep, World.transact_of_commits _ _ hc]
      rfl
    have ht : TaskSound False site s.db (.forceRedrive docId reason actor (.committing row target)) :=
      ⟨hsnapshot, fun he => Operator.textPending_pages (he ▸ htarget)⟩
    exact h.acts ht trivial hstep
  | acceptReview docId reason actor =>
    have hplanned : BreakGlass.Planned site (.acceptReview docId reason actor) (pending ++ []) := hsound
    rw [List.append_nil] at hplanned
    cases hplanned.makes hc with
    | @acceptReview _ _ _ row hstate hc' =>
      have hstep : (Task.acceptReview docId reason actor (.committing row)).step site s.world {} =
          some ({ s.world with db := db }, none) := by
        simp only [Task.step, Operator.acceptStep, World.transact_of_commits _ _ hc']
        rfl
      have ht : TaskSound False site s.db (.acceptReview docId reason actor (.committing row)) := trivial
      exact h.acts ht trivial hstep
  | setKillSwitch enabled reason actor =>
    have hplanned : BreakGlass.Planned site (.setKillSwitch enabled reason actor) (pending ++ []) := hsound
    rw [List.append_nil] at hplanned
    cases hplanned.makes hc with
    | setKillSwitch hc' =>
      have hstep : (Task.killSwitch enabled reason actor).step site s.world {} =
          some ({ s.world with db := db }, none) := by
        simp only [Task.step, World.transact_of_commits _ _ hc']
      have ht : TaskSound False site s.db (.killSwitch enabled reason actor) := trivial
      exact h.acts ht trivial hstep

/-- One statement of an action. -/
theorem statement_recalls {pc : Pc} (h : Provided site s) (hsound : pc.Sound site action pending)
    (hrecalls : Recalls site s.db action pending pc) :
    (Provided site { s with world := (pc.step site action s.world pending).1 } ∧
      Grows False site s.db (pc.step site action s.world pending).1.db) ∧
    ∀ pc', (pc.step site action s.world pending).2.2 = .goto pc' →
      Recalls site s.db action (pc.step site action s.world pending).2.1 pc' := by
  have hstays : Provided site { s with world := s.world } ∧ Grows False site s.db s.db := ⟨h, Grows.refl _ _ _⟩
  cases pc with
  | requiring =>
    refine ⟨hstays, fun pc' hnext => ?_⟩
    simp only [Pc.step] at hnext
    split at hnext <;> cases hnext
    trivial
  | selecting =>
    obtain ⟨rfl, _⟩ := hsound
    cases action with
    | forceRedrive docId reason actor =>
      refine ⟨hstays, fun pc' hnext => ?_⟩
      cases hnext
      intro docId' reason' actor' row haction hfound
      cases haction
      exact ⟨h.sound.ledger.rows docId row hfound, row, hfound, rfl, rfl, fun hf => hf.elim⟩
    | acceptReview | setKillSwitch =>
      refine ⟨hstays, fun pc' hnext => ?_⟩
      cases hnext
      intro _ _ _ _ haction
      cases haction
  | planning found =>
    obtain ⟨rfl, _⟩ := hsound
    simp only [Pc.step]
    split
    · exact ⟨hstays, fun _ hnext => by cases hnext⟩
    · next todo hplan =>
      refine ⟨hstays, fun pc' hnext => ?_⟩
      cases hnext
      intro docId reason actor haction
      subst haction
      cases found with
      | none => cases hplan
      | some row =>
        have hsnapshot := hrecalls docId reason actor row rfl rfl
        change (Operator.redriveTargetState docId row _).map _ = _ at hplan
        cases htarget : Operator.redriveTargetState docId row (s.world.bucket.assembled docId).isSome with
        | error e =>
          rw [htarget] at hplan
          cases hplan
        | ok target =>
          rw [htarget] at hplan
          cases hplan
          exact ⟨row, _, target, hsnapshot, htarget, rfl⟩
  | writing todo =>
    have hwrote := writeStep_wrote site s.world pending todo
    simp only [Pc.step]
    generalize writeStep site s.world pending todo = r at hwrote
    cases hwrote with
    | executed =>
      refine ⟨hstays, fun pc' hnext => ?_⟩
      cases hnext
      intro docId reason actor haction
      obtain ⟨row, assembled, target, hsnapshot, htarget, hwrites⟩ := hrecalls docId reason actor haction
      exact ⟨row, assembled, target, hsnapshot, htarget, by rw [← hwrites, List.append_assoc]; rfl⟩
    | committed hc => exact ⟨h.commit hsound hrecalls hc, fun _ hnext => by cases hnext⟩
    | raised => exact ⟨hstays, fun _ hnext => by cases hnext⟩

/-- The same of the action that a call is at. -/
def CallRecalls (site : Deployment) (db : Db) (progress : Progress) (pending : List Write) : Prop :=
  ∀ action pc, progress.at site = some (action, pc) → Recalls site db action pending pc

theorem next_recalls {loop : Loop} {progress : Progress} (h : loop.next = .goto progress) :
    CallRecalls site db progress pending := by
  intro action pc hat
  unfold Loop.next at h
  split at h
  · cases h
    cases hat
    trivial
  · split at h <;> cases h
    cases hat

/-- One statement of a call. -/
theorem call_recalls {progress : Progress} {found : List DocId} {r : Outcome Progress Result} (h : Provided site s)
    (hsound : progress.Sound site pending) (hrecalls : CallRecalls site s.db progress pending)
    (hr : progress.step site s.world found pending = some r) :
    (Provided site { s with world := r.1 } ∧ Grows False site s.db r.1.db) ∧
    ∀ progress', r.2.2 = .goto progress' → CallRecalls site s.db progress' r.2.1 := by
  have hstays : Provided site { s with world := s.world } ∧ Grows False site s.db s.db := ⟨h, Grows.refl _ _ _⟩
  cases progress with
  | acting action pc =>
    cases hr
    obtain ⟨hkept, hnext⟩ := statement_recalls h hsound (hrecalls action pc rfl)
    refine ⟨hkept, fun progress' hgoto action' pc' hat => ?_⟩
    dsimp only at hgoto
    split at hgoto
    · next pc'' hpc =>
      cases hgoto
      cases hat
      exact hnext _ hpc
    · cases hgoto
    · cases hgoto
  | requiring bulk =>
    cases hr
    refine ⟨hstays, fun progress' hgoto action pc hat => ?_⟩
    split at hgoto <;> cases hgoto
    cases hat
  | matching bulk =>
    simp only [Progress.step] at hr
    split at hr <;> cases hr
    refine ⟨hstays, fun progress' hgoto => ?_⟩
    split at hgoto
    · cases hgoto
    · exact next_recalls hgoto
  | finding actor dryRun =>
    simp only [Progress.step] at hr
    split at hr <;> cases hr
    refine ⟨hstays, fun progress' hgoto => ?_⟩
    split at hgoto
    · cases hgoto
    · exact next_recalls hgoto
  | looping loop docId pc =>
    obtain ⟨_, _, hpc⟩ := hsound
    cases hr
    obtain ⟨hkept, hnext⟩ := statement_recalls h hpc (hrecalls _ pc rfl)
    refine ⟨hkept, fun progress' hgoto => ?_⟩
    dsimp only at hgoto ⊢
    generalize pc.step site (loop.job.redrive site docId) s.world pending = r' at hnext hgoto ⊢
    obtain ⟨w', pending', next⟩ := r'
    cases next with
    | goto pc' =>
      cases hgoto
      intro action pc'' hat
      cases hat
      exact hnext _ rfl
    | returned => exact next_recalls hgoto
    | raised e =>
      cases e with
      | breakGlass message => exact next_recalls hgoto
      | illegalTransition | uniqueViolation | foreignKeyViolation | typeError | valueError => cases hgoto
  | concluding bulk loop todo =>
    obtain ⟨_, _, htodo⟩ := hsound
    cases hr
    have hwrote := writeStep_wrote site s.world pending todo
    generalize writeStep site s.world pending todo = r' at hwrote
    cases hwrote with
    | executed =>
      refine ⟨hstays, fun progress' hgoto action pc hat => ?_⟩
      cases hgoto
      cases hat
    | @committed db hc =>
      rw [List.append_nil] at htodo
      rw [htodo] at hc
      have hsame : s.db.SameLedger db := by
        simp only [transaction, execAll, Write.exec, commits_bind, Ledger.audit, commits_modify, commits_pure] at hc
        obtain ⟨_, _, rfl, _, rfl⟩ := hc
        exact ⟨rfl, rfl, rfl, rfl, rfl, rfl, rfl⟩
      exact ⟨h.aside hsame, fun _ hgoto => by cases hgoto⟩
    | raised => exact ⟨hstays, fun _ hgoto => by cases hgoto⟩

/-- The desk and the pipeline have the page counts that their next steps will need. -/
structure Equipped (site : Deployment) (k : Desk) : Prop where
  pipeline : Provided site k.sys
  connections : k.Sound site
  calls : ∀ cid o, k.calls.lookup cid = some o → CallRecalls site k.db o.progress o.pending

variable {k k' : Desk} {a : Desk.Action}

theorem equipped_initial (site : Deployment) : Equipped site {} :=
  ⟨provided_initial site, fun _ _ h => (nomatch h), fun _ _ h => (nomatch h)⟩

theorem CallRecalls.mono {progress : Progress} (h : CallRecalls site db progress pending) (hg : Grows False site db db') :
    CallRecalls site db' progress pending := fun action pc hat => (h action pc hat).mono hg

theorem equipped_step (h : Equipped site k) (hs : Desk.Step site k a k') : Equipped site k' := by
  have hconnections := Desk.sound_step h.connections hs
  unfold Desk.Step Desk.step at hs
  cases a with
  | pipeline act =>
    obtain ⟨sys, hsys, hs⟩ := Option.bind_eq_some_iff.mp hs
    split at hs <;> cases hs
    have hgrows : Grows False site k.db sys.db := grows_step h.pipeline.sound hsys
    exact ⟨provided_step h.pipeline hsys, hconnections, fun cid o ho => (h.calls cid o ho).mono hgrows⟩
  | call cid call =>
    dsimp only at hs
    split at hs <;> cases hs
    refine ⟨h.pipeline, hconnections, fun i o ho => ?_⟩
    rw [Table.lookup_insert_ite] at ho
    split at ho
    · cases ho
      intro action pc hat
      cases call <;> cases hat
      trivial
    · exact h.calls i o ho
  | statement cid found =>
    obtain ⟨o, r, ho, hr, rfl⟩ := runStatement_inv hs
    obtain ⟨⟨hprovided, hgrows⟩, hnext⟩ := call_recalls h.pipeline (h.connections cid o ho) (h.calls cid o ho) hr
    refine ⟨hprovided, hconnections, fun i o' ho' => ?_⟩
    rcases goOn_lookup ho' with ⟨_, hkept⟩ | ⟨rfl, progress, hgoto, rfl⟩
    · exact (h.calls i o' hkept).mono hgrows
    · exact (hnext progress hgoto).mono hgrows
  | fault cid =>
    obtain ⟨_, _, rfl⟩ := Option.map_eq_some_iff.mp hs
    refine ⟨h.pipeline, hconnections, fun i o ho => ?_⟩
    by_cases hcid : i = cid
    · rw [hcid, AList.lookup_erase] at ho
      cases ho
    · rw [AList.lookup_erase_ne hcid] at ho
      exact h.calls i o ho

theorem equipped_run {as : List Desk.Action} (h : Desk.FreeRun site {} as k) : Equipped site k :=
  h.invariant (equipped_initial site) fun _ _ _ hi _ hs => equipped_step hi hs

end DocPipeline.Gather

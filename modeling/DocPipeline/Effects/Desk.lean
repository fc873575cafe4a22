import DocPipeline.Effects.Operator
import DocPipeline.Reconciliation.Desk

/-!
# What a statement at the desk does

No write raises a `BreakGlassError`, so what a loop catches comes from the checks before
the first write, when the connection holds nothing. Hence the writes pending on a
connection are always a beginning of the plan of the action that is on it, and a commit is
the whole plan: the transaction of that action.
-/
namespace DocPipeline

set_option autoImplicit false

open Lib Lib.Transaction Ledger

/-- An exception that a loop of re-drives does not catch. -/
def LedgerError.Escapes (e : LedgerError) : Prop := ∀ message, e ≠ .breakGlass message

namespace Desk

variable {site : Deployment} {action : BreakGlass} {db db' : Db} {w : World} {pending todo writes : List Write}

/-! ## What the writes raise -/

abbrev Escaping {α : Type} (t : Tx α) : Prop := RaisesOnly LedgerError.Escapes t

theorem transition_escaping {docId : DocId} {toState : DocState} {fromStates : Option (List DocState)}
    {idempotent : Bool} : Escaping (transition docId toState fromStates idempotent) := by
  unfold transition
  refine RaisesOnly.get.bind fun db => ?_
  split
  · exact RaisesOnly.ite ((RaisesOnly.set _).bind fun _ => RaisesOnly.pure _) (RaisesOnly.throw fun _ h => nomatch h)
  · exact RaisesOnly.throw fun _ h => nomatch h

theorem redriveDocument_escaping {docId : DocId} {row : Document} :
    Escaping (Sweeper.redriveDocument site docId row) := by
  refine RaisesOnly.ite ?_ ?_
  · unfold Sweeper.redriveDispatch
    split
    · next e hroute =>
      refine RaisesOnly.throw fun message he => ?_
      subst he
      unfold routeTextProduction at hroute
      split at hroute
      · cases hroute
      · split at hroute
        · cases hroute
        · split at hroute <;> cases hroute
    · exact RaisesOnly.modify _
  · split
    · refine RaisesOnly.get.bind fun db => ?_
      dsimp only
      split
      · exact RaisesOnly.modify _
      · exact RaisesOnly.ite (RaisesOnly.pure _) (RaisesOnly.throw fun _ h => nomatch h)
    · exact RaisesOnly.modify _
    · exact RaisesOnly.modify _
    · exact RaisesOnly.modify _
    · exact RaisesOnly.pure _

theorem Write.exec_escaping (write : Write) : Escaping (write.exec site) := by
  cases write with
  | transition => exact transition_escaping.bind fun _ => RaisesOnly.pure _
  | redrive => exact redriveDocument_escaping
  | gateResults | enqueue | featureFlag | audit => exact RaisesOnly.modify _

theorem transaction_escaping (writes : List Write) : Escaping (transaction site writes) :=
  RaisesOnly.execAll Write.exec_escaping writes

/-- How a write or a commit can go. -/
inductive Wrote (site : Deployment) (w : World) (pending : List Write) :
    List Write → Outcome (List Write) Unit → Prop
  | executed {write : Write} {todo : List Write} :
      Wrote site w pending (write :: todo) (w, pending ++ [write], .goto todo)
  | committed {db : Db} : Commits (transaction site pending) w.db ⟨⟩ db →
      Wrote site w pending [] ({ w with db := db }, [], .returned ())
  | raised {todo : List Write} {e : LedgerError} : e.Escapes → Wrote site w pending todo (w, pending, .raised e)

theorem writeStep_wrote (site : Deployment) (w : World) (pending todo : List Write) :
    Wrote site w pending todo (writeStep site w pending todo) := by
  cases todo with
  | nil =>
    unfold writeStep
    cases hrun : (transaction site pending).run w.db with
    | ok r => exact .committed hrun
    | error e => exact .raised (transaction_escaping pending _ _ hrun)
  | cons write todo =>
    simp only [writeStep]
    cases hrun : (transaction site (pending ++ [write])).run w.db with
    | ok r => exact .executed
    | error e => exact .raised (transaction_escaping _ _ _ hrun)

/-! ## What a plan commits -/

/-- The whole transaction of an action, as it is without the split into statements. -/
inductive BreakGlass.Makes (site : Deployment) (db db' : Db) : BreakGlass → Prop
  | forceRedrive {docId : DocId} {reason actor : String} {row : Document} {assembled : Bool}
      {target : Operator.RedriveTarget} : Operator.redriveTargetState docId row assembled = .ok target →
      Commits (Operator.forceRedriveTx site docId row target reason actor) db ⟨⟩ db' →
      Makes site db db' (.forceRedrive docId reason actor)
  | acceptReview {docId : DocId} {reason actor : String} {row : Document} : row.state = .review →
      Commits (Operator.acceptReviewTx docId row reason actor) db ⟨⟩ db' →
      Makes site db db' (.acceptReview docId reason actor)
  | setKillSwitch {enabled : Bool} {reason actor : String} :
      Commits (Operator.setKillSwitch site enabled reason actor) db ⟨⟩ db' →
      Makes site db db' (.setKillSwitch enabled reason actor)

/-- The writes of an action whose checks have passed. -/
def BreakGlass.Planned (site : Deployment) (action : BreakGlass) (writes : List Write) : Prop :=
  Operator.blank site action.reason = false ∧ ∃ assembled found, action.plan assembled found = .ok writes

theorem redrive_transaction {docId : DocId} {row : Document} {target : Operator.RedriveTarget} {reason actor : String} :
    transaction site (BreakGlass.redriveWrites docId row target reason actor) =
      Operator.forceRedriveTx site docId row target reason actor := by
  simp [transaction, execAll, BreakGlass.redriveWrites, Operator.forceRedriveTx, Write.exec]

theorem accept_transaction {docId : DocId} {row : Document} {reason actor : String} :
    transaction site (BreakGlass.acceptWrites docId row reason actor) =
      Operator.acceptReviewTx docId row reason actor := by
  simp [transaction, execAll, BreakGlass.acceptWrites, Operator.acceptReviewTx, Write.exec]

theorem killSwitch_transaction {enabled : Bool} {reason actor : String} (hreason : Operator.blank site reason = false) :
    transaction site (BreakGlass.killSwitchWrites enabled reason actor) =
      Operator.setKillSwitch site enabled reason actor := by
  simp [transaction, execAll, BreakGlass.killSwitchWrites, Operator.setKillSwitch, Write.exec, hreason]

theorem BreakGlass.Planned.makes (h : action.Planned site writes) (hc : Commits (transaction site writes) db ⟨⟩ db') :
    action.Makes site db db' := by
  obtain ⟨hreason, assembled, found, hplan⟩ := h
  cases action with
  | forceRedrive docId reason actor =>
    cases found with
    | none => cases hplan
    | some row =>
      change (Operator.redriveTargetState docId row assembled).map _ = _ at hplan
      cases htarget : Operator.redriveTargetState docId row assembled with
      | error e =>
        rw [htarget] at hplan
        cases hplan
      | ok target =>
        rw [htarget] at hplan
        cases hplan
        exact .forceRedrive htarget (redrive_transaction ▸ hc)
  | acceptReview docId reason actor =>
    cases found with
    | none => cases hplan
    | some row =>
      simp only [plan] at hplan
      split at hplan
      · cases hplan
      · next hstate =>
        cases hplan
        exact .acceptReview (not_not.mp hstate) (accept_transaction ▸ hc)
  | setKillSwitch enabled reason actor =>
    cases hplan
    exact .setKillSwitch (killSwitch_transaction hreason ▸ hc)

/-! ## An action, statement by statement -/

/-- What is pending on the connection of an action. -/
def Pc.Sound (site : Deployment) (action : BreakGlass) (pending : List Write) : Pc → Prop
  | .requiring => pending = []
  | .selecting | .planning _ => pending = [] ∧ Operator.blank site action.reason = false
  | .writing todo => action.Planned site (pending ++ todo)

/-- How a statement of an action can go. -/
inductive Pc.Went (site : Deployment) (action : BreakGlass) (w : World) (pc : Pc) : Outcome Pc Unit → Prop
  | goto {pending : List Write} {pc' : Pc} : pc'.Sound site action pending →
      Went site action w pc (w, pending, .goto pc')
  | returned {db : Db} : pc = .writing [] → Operator.blank site action.reason = false → action.Makes site w.db db →
      Went site action w pc ({ w with db := db }, [], .returned ())
  | caught {message : String} : Went site action w pc (w, [], .raised (.breakGlass message))
  | escaped {pending : List Write} {e : LedgerError} : e.Escapes → Went site action w pc (w, pending, .raised e)

theorem BreakGlass.plan_raises {assembled : Bool} {found : Option Document} {e : LedgerError}
    (h : action.plan assembled found = .error e) : ∃ message, e = .breakGlass message := by
  cases action with
  | forceRedrive docId reason actor =>
    cases found with
    | none =>
      cases h
      exact ⟨_, rfl⟩
    | some row =>
      change (Operator.redriveTargetState docId row assembled).map _ = _ at h
      unfold Operator.redriveTargetState at h
      split at h
      · cases h
      · split at h <;> cases h
        exact ⟨_, rfl⟩
      · cases h
        exact ⟨_, rfl⟩
  | acceptReview docId reason actor =>
    cases found with
    | none =>
      cases h
      exact ⟨_, rfl⟩
    | some row =>
      simp only [plan] at h
      split at h <;> cases h
      exact ⟨_, rfl⟩
  | setKillSwitch enabled reason actor => cases h

theorem Pc.step_went {pc : Pc} (hi : pc.Sound site action pending) :
    Went site action w pc (pc.step site action w pending) := by
  cases pc with
  | requiring =>
    obtain rfl : pending = [] := hi
    simp only [step]
    split
    · exact .caught
    · next hreason => exact .goto ⟨rfl, Bool.eq_false_iff.mpr hreason⟩
  | selecting =>
    obtain ⟨rfl, hreason⟩ := hi
    cases action <;> exact .goto ⟨rfl, hreason⟩
  | planning found =>
    obtain ⟨rfl, hreason⟩ := hi
    simp only [step]
    split
    · next e hplan =>
      obtain ⟨message, rfl⟩ := BreakGlass.plan_raises hplan
      exact .caught
    · next todo hplan => exact .goto ⟨hreason, _, found, hplan⟩
  | writing todo =>
    have hwrote := writeStep_wrote site w pending todo
    have hplanned : action.Planned site (pending ++ todo) := hi
    simp only [step]
    generalize writeStep site w pending todo = r at hwrote
    cases hwrote with
    | executed =>
      refine .goto ?_
      change action.Planned site _
      rwa [List.append_assoc]
    | committed hc =>
      rw [List.append_nil] at hplanned
      exact .returned rfl hplanned.1 (hplanned.makes hc)
    | raised he => exact .escaped he

/-! ## A call, statement by statement -/

/-- The loop over what was matched has a reason, and is within its cap or approved. -/
structure Loop.Sound (site : Deployment) (loop : Loop) : Prop where
  rest : ∀ d, d ∈ loop.rest → d ∈ loop.matched
  permitted : ∀ bulk, loop.job = .bulkRedrive bulk →
    Operator.blank site bulk.reason = false ∧ (bulk.approved = true ∨ loop.matched.length ≤ bulk.cap)

/-- What is pending on the connection of a call. -/
def Progress.Sound (site : Deployment) (pending : List Write) : Progress → Prop
  | .acting action pc => pc.Sound site action pending
  | .requiring _ | .finding _ _ => pending = []
  | .matching bulk => pending = [] ∧ Operator.blank site bulk.reason = false
  | .looping loop docId pc =>
    loop.Sound site ∧ docId ∈ loop.matched ∧ pc.Sound site (loop.job.redrive site docId) pending
  | .concluding bulk loop todo =>
    loop.Sound site ∧ loop.job = .bulkRedrive bulk ∧ pending ++ todo = [.audit (bulk.concluded loop)]

theorem Loop.next_sound {loop : Loop} (hi : loop.Sound site) {progress : Progress} (h : loop.next = .goto progress) :
    progress.Sound site [] := by
  unfold next at h
  split at h
  · next docId rest hrest =>
    cases h
    have hmem : ∀ d, d ∈ docId :: rest → d ∈ loop.matched := fun d hd => hi.rest d (hrest ▸ hd)
    exact ⟨⟨fun d hd => hmem d (List.mem_cons_of_mem _ hd), hi.permitted⟩, hmem docId List.mem_cons_self, rfl⟩
  · split at h <;> cases h
    next bulk hjob => exact ⟨hi, hjob, rfl⟩

/-- The action that a call is at. -/
def Progress.at (site : Deployment) : Progress → Option (BreakGlass × Pc)
  | .acting action pc => some (action, pc)
  | .looping loop docId pc => some (loop.job.redrive site docId, pc)
  | .requiring _ | .matching _ | .finding _ _ | .concluding _ _ _ => none

/-- How a statement of a call can go. -/
inductive Progress.Went (site : Deployment) (w : World) (progress : Progress) : Outcome Progress Result → Prop
  | kept {pending : List Write} {next : Next Progress Result} :
      (∀ progress', next = .goto progress' → progress'.Sound site pending) →
      Went site w progress (w, pending, next)
  | acted {action : BreakGlass} {db : Db} {next : Next Progress Result} :
      progress.at site = some (action, .writing []) → Operator.blank site action.reason = false →
      action.Makes site w.db db → (∀ progress', next = .goto progress' → progress'.Sound site []) →
      Went site w progress ({ w with db := db }, [], next)
  | concluded {bulk : Bulk} {loop : Loop} {db : Db} {result : Result} : progress = .concluding bulk loop [] →
      Commits (Ledger.audit (bulk.concluded loop)) w.db ⟨⟩ db →
      Went site w progress ({ w with db := db }, [], .returned result)

theorem Loop.Sound.noted {loop : Loop} (hi : loop.Sound site) (redriven : List DocId)
    (failed : List (DocId × String)) : Loop.Sound site { loop with redriven := redriven, failed := failed } :=
  ⟨hi.rest, hi.permitted⟩

/-- What the loop goes on with, after a statement that leaves this pending. -/
theorem Loop.after_sound {loop : Loop} {docId : DocId} (hi : loop.Sound site) (hmem : docId ∈ loop.matched)
    {pc : Pc} {r : Outcome Pc Unit} (hwent : Pc.Went site (loop.job.redrive site docId) w pc r) {progress : Progress}
    (h : loop.after docId r.2.2 = .goto progress) : progress.Sound site r.2.1 := by
  cases hwent with
  | goto hsound =>
    cases h
    exact ⟨hi, hmem, hsound⟩
  | returned => exact next_sound (hi.noted _ _) h
  | caught => exact next_sound (hi.noted _ _) h
  | @escaped _ e he =>
    cases e with
    | breakGlass message => exact absurd rfl (he message)
    | illegalTransition | uniqueViolation | foreignKeyViolation | typeError | valueError => cases h

theorem Progress.step_went {progress : Progress} {found : List DocId} {r : Outcome Progress Result}
    (hi : progress.Sound site pending) (h : progress.step site w found pending = some r) : progress.Went site w r := by
  cases progress with
  | acting action pc =>
    cases h
    have hwent := Pc.step_went (w := w) hi
    generalize pc.step site action w pending = r' at hwent
    cases hwent with
    | goto hsound =>
      refine .kept fun _ he => ?_
      cases he
      exact hsound
    | returned hpc hreason hmakes =>
      subst hpc
      refine .acted rfl hreason hmakes fun _ he => ?_
      cases he
    | caught | escaped =>
      refine .kept fun _ he => ?_
      cases he
  | requiring bulk =>
    cases h
    refine .kept fun progress' he => ?_
    split at he <;> cases he
    next hreason => exact ⟨hi, Bool.eq_false_iff.mpr hreason⟩
  | matching bulk =>
    obtain ⟨rfl, hreason⟩ := hi
    simp only [step] at h
    split at h <;> cases h
    refine .kept fun progress' he => ?_
    split at he
    · cases he
    · next hcap =>
      refine Loop.next_sound ⟨fun _ hd => hd, fun bulk' hjob => ?_⟩ he
      cases hjob
      refine ⟨hreason, ?_⟩
      by_cases happroved : bulk.approved = true
      · exact Or.inl happroved
      · exact Or.inr (not_lt.mp fun hlt => hcap ⟨hlt, Bool.eq_false_iff.mpr happroved⟩)
  | finding actor dryRun =>
    obtain rfl : pending = [] := hi
    simp only [step] at h
    split at h <;> cases h
    refine .kept fun progress' he => ?_
    split at he
    · cases he
    · refine Loop.next_sound ⟨fun _ hd => hd, fun _ hjob => ?_⟩ he
      cases hjob
  | looping loop docId pc =>
    obtain ⟨hloop, hmem, hpc⟩ := hi
    cases h
    have hwent := Pc.step_went (w := w) hpc
    have hafter : ∀ progress, loop.after docId (pc.step site (loop.job.redrive site docId) w pending).2.2 =
        .goto progress → progress.Sound site (pc.step site (loop.job.redrive site docId) w pending).2.1 :=
      fun _ => Loop.after_sound hloop hmem hwent
    generalize pc.step site (loop.job.redrive site docId) w pending = r' at hwent hafter
    cases hwent with
    | goto | caught | escaped => exact .kept hafter
    | returned hpc hreason hmakes =>
      subst hpc
      exact .acted rfl hreason hmakes hafter
  | concluding bulk loop todo =>
    obtain ⟨hloop, hjob, htodo⟩ := hi
    cases h
    have hwrote := writeStep_wrote site w pending todo
    generalize writeStep site w pending todo = r' at hwrote
    cases hwrote with
    | executed =>
      refine .kept fun _ he => ?_
      cases he
      exact ⟨hloop, hjob, by rw [← htodo, List.append_assoc]; rfl⟩
    | committed hc =>
      rw [List.append_nil] at htodo
      refine .concluded rfl ?_
      rw [htodo] at hc
      simpa [transaction, Write.exec] using hc
    | raised => exact .kept fun _ he => nomatch he

/-- What is counted as a replay is a re-drive that has been committed. -/
theorem Progress.replays_makes {progress : Progress} {found : List DocId} {r : Outcome Progress Result}
    {docId : DocId} (hi : progress.Sound site pending) (h : progress.step site w found pending = some r)
    (hreplays : progress.replays site w pending = some docId) :
    ∃ loop actor, progress = .looping loop docId (.writing []) ∧ loop.job = .dlqReplay actor ∧
      (BreakGlass.forceRedrive docId (dlqReason site) actor).Makes site w.db r.1.db := by
  unfold replays at hreplays
  split at hreplays
  · next loop docId' =>
    obtain ⟨_, _, hplanned⟩ := hi
    split at hreplays
    · next actor committed hjob hrun =>
      cases hreplays
      obtain ⟨u, db⟩ := committed
      have hc : Commits (transaction site pending) w.db ⟨⟩ db := hrun
      change BreakGlass.Planned site _ (pending ++ []) at hplanned
      rw [List.append_nil, hjob] at hplanned
      refine ⟨loop, actor, rfl, hjob, ?_⟩
      simp only [step, Pc.step, writeStep, hrun, Option.some.injEq] at h
      rw [← h]
      exact hplanned.makes hc
    · cases hreplays
  · cases hreplays

/-! ## The desk -/

/-- What is pending on each connection belongs to the call that is on it. -/
def Sound (site : Deployment) (k : Desk) : Prop :=
  ∀ cid o, k.calls.lookup cid = some o → o.progress.Sound site o.pending

variable {k k' : Desk} {a : Action}

/-- A statement of a call, seen from the desk. -/
theorem runStatement_inv {cid : Nat} {found : List DocId} (h : k.runStatement site cid found = some k') :
    ∃ o r, k.calls.lookup cid = some o ∧ o.progress.step site k.sys.world found o.pending = some r ∧
      k' = { sys := { k.sys with world := r.1 }
             calls := k.goOn cid r.2.1 r.2.2
             replayed := (o.progress.replays site k.sys.world o.pending).toList ++ k.replayed } := by
  unfold runStatement at h
  split at h
  · cases h
  · next progress pending ho =>
    split at h
    · cases h
    · obtain ⟨r, hr, rfl⟩ := Option.map_eq_some_iff.mp h
      exact ⟨_, r, ho, hr, rfl⟩

theorem goOn_lookup {cid i : Nat} {pending : List Write} {next : Next Progress Result} {o : Open}
    (h : (k.goOn cid pending next).lookup i = some o) :
    (i ≠ cid ∧ k.calls.lookup i = some o) ∨
      (i = cid ∧ ∃ progress, next = .goto progress ∧ o = ⟨progress, pending⟩) := by
  unfold goOn at h
  by_cases hi : i = cid
  · subst hi
    split at h
    · rw [AList.lookup_insert] at h
      cases h
      exact Or.inr ⟨rfl, _, rfl, rfl⟩
    · rw [AList.lookup_erase] at h
      cases h
    · rw [AList.lookup_erase] at h
      cases h
  · refine Or.inl ⟨hi, ?_⟩
    split at h
    · rwa [AList.lookup_insert_ne hi] at h
    · rwa [AList.lookup_erase_ne hi] at h
    · rwa [AList.lookup_erase_ne hi] at h

theorem Call.start_sound (call : Call) : call.start.Sound site [] := by
  cases call <;> exact rfl

theorem sound_step (hi : k.Sound site) (hs : Step site k a k') : k'.Sound site := by
  intro cid o ho
  unfold Step step at hs
  cases a with
  | pipeline act =>
    obtain ⟨sys, _, hs⟩ := Option.bind_eq_some_iff.mp hs
    split at hs <;> cases hs
    exact hi cid o ho
  | call i call =>
    dsimp only at hs
    split at hs <;> cases hs
    rw [Table.lookup_insert_ite] at ho
    split at ho
    · cases ho
      exact call.start_sound
    · exact hi cid o ho
  | statement i found =>
    obtain ⟨o', r, ho', hr, rfl⟩ := runStatement_inv hs
    rcases goOn_lookup ho with ⟨_, hkept⟩ | ⟨rfl, progress, hnext, rfl⟩
    · exact hi cid o hkept
    · have hwent := Progress.step_went (hi _ o' ho') hr
      cases hwent with
      | kept hsound | acted _ _ _ hsound => exact hsound progress hnext
      | concluded => cases hnext
  | fault i =>
    obtain ⟨_, _, rfl⟩ := Option.map_eq_some_iff.mp hs
    by_cases hcid : cid = i
    · subst hcid
      rw [AList.lookup_erase] at ho
      cases ho
    · rw [AList.lookup_erase_ne hcid] at ho
      exact hi cid o ho

/-- A desk that opens with no call in progress. -/
theorem sound_run {Guard : Desk → Action → Prop} {sys : Sys} {as : List Action}
    (h : GuardedRun site Guard { sys := sys } as k) : k.Sound site :=
  h.invariant (P := Sound site) (fun _ _ ho => nomatch ho) fun _ _ _ hi _ hs => sound_step hi hs

end Desk
end DocPipeline

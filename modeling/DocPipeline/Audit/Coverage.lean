import DocPipeline.Audit.Atomicity
import DocPipeline.Effects.Locks
import DocPipeline.Gather.TextRun

/-!
# Do bulk operations cover every match?

A loop of re-drives sorts each document it has matched into one of two lists, and only
catches a `BreakGlassError`. The guarded UPDATE is the one statement that can raise
something else: it does when the document has been moved since it was read, to a state the
target cannot be entered from. As long as no UPDATE meets that, a call comes to its end
with every match in one list.
-/
namespace DocPipeline.Audit

set_option autoImplicit false

open Lib Lib.Transaction Ledger Desk

variable {site : Deployment} {d docId : DocId} {db db' : Db} {k k' : Desk} {cid : Nat} {row : Document}
  {target : Operator.RedriveTarget} {reason actor : String}

/-! ## When a re-drive commits -/

/-- The document is in a state from which `transition` goes to `toState`. -/
def admitsMove (db : Db) (docId : DocId) (toState : DocState) : Bool :=
  (db.documents.lookup docId).any fun row => decide (row.state ∈ predecessors toState ++ [toState])

theorem redriveDocument_total (site : Deployment) (docId : DocId) (db : Db)
    (hpages : row.pageCount ≠ none ∨ target = .extractPending) :
    ∃ db', Commits (Sweeper.redriveDocument site docId { row with state := target.state }) db ⟨⟩ db' := by
  unfold Sweeper.redriveDocument
  cases target with
  | extractPending => exact ⟨_, enqueue_commits.mpr rfl⟩
  | textPending =>
    obtain ⟨n, hn⟩ := Option.ne_none_iff_exists'.mp (hpages.resolve_right nofun)
    split
    · obtain ⟨topic, total, hroute⟩ := Gather.route_succeeds site row.hasTextLayer n
      simp only [Sweeper.redriveDispatch, hn, hroute]
      exact ⟨_, enqueue_commits.mpr rfl⟩
    · exact ⟨_, enqueue_commits.mpr rfl⟩

theorem redriveWrites_commits (hpages : row.pageCount ≠ none ∨ target = .extractPending)
    (hadmits : admitsMove db docId target.state = true) :
    ∃ db', Commits (transaction site (BreakGlass.redriveWrites docId row target reason actor)) db ⟨⟩ db' := by
  obtain ⟨current, hrow, hstate⟩ := Option.any_eq_true _ _ |>.mp hadmits
  rw [decide_eq_true_eq, List.mem_append, mem_predecessors, List.mem_singleton] at hstate
  obtain ⟨m, hm⟩ :=
    redriveDocument_total site docId (db.write docId current (current.moved target.state db.now)) hpages
  rw [redrive_transaction, Operator.forceRedriveTx]
  simp only [commits_bind, transition_default_commits, audit, commits_modify]
  exact ⟨_, _, _, ⟨current, hrow, hstate, rfl, rfl⟩, ⟨⟩, m, hm, rfl⟩

/-- What commits as a whole can be executed up to any statement. -/
theorem commits_prefix {writes others : List Write} {u : Unit}
    (h : Commits (transaction site (writes ++ others)) db u db') : ∃ m, Commits (transaction site writes) db ⟨⟩ m := by
  induction writes generalizing db with
  | nil => exact ⟨db, commits_execAll_nil.mpr rfl⟩
  | cons write rest ih =>
    obtain ⟨m, hfirst, hrest⟩ := commits_execAll_cons.mp h
    obtain ⟨m', hm'⟩ := ih hrest
    exact ⟨m', commits_execAll_cons.mpr ⟨m, hfirst, hm'⟩⟩

/-- A write is executed when the transaction it belongs to would commit as a whole. -/
theorem writeStep_of_whole {w : World} {pending todo : List Write} {write : Write}
    (h : Commits (transaction site (pending ++ write :: todo)) w.db ⟨⟩ db') :
    writeStep site w pending (write :: todo) = (w, pending ++ [write], .goto todo) := by
  rw [← List.singleton_append, ← List.append_assoc] at h
  obtain ⟨m, hm⟩ := commits_prefix h
  rw [writeStep, show (transaction site (pending ++ [write])).run w.db = .ok (⟨⟩, m) from hm]

theorem writeStep_of_commits {w : World} {pending : List Write} (h : Commits (transaction site pending) w.db ⟨⟩ db') :
    writeStep site w pending [] = ({ w with db := db' }, [], .returned ()) := by
  rw [writeStep, show (transaction site pending).run w.db = .ok (⟨⟩, db') from h]

/-- The writes of a re-drive, read back from its plan. -/
theorem planned_redrive {writes : List Write} (h : (BreakGlass.forceRedrive docId reason actor).Planned site writes) :
    ∃ row target, writes = BreakGlass.redriveWrites docId row target reason actor ∧
      (row.pageCount ≠ none ∨ target = .extractPending) := by
  obtain ⟨_, assembled, found, hplan⟩ := h
  cases found with
  | none => cases hplan
  | some row =>
    change (Operator.redriveTargetState docId row assembled).map _ = _ at hplan
    cases htarget : Operator.redriveTargetState docId row assembled with
    | error e =>
      rw [htarget] at hplan
      cases hplan
    | ok target =>
      rw [htarget] at hplan
      cases hplan
      exact ⟨row, target, rfl, Operator.redriveTarget_pages htarget⟩

/-! ## Lists -/

/-- Every document of the first list is in exactly one of the other two. -/
def Partition (matched redriven : List DocId) (failed : List (DocId × String)) : Prop :=
  matched.Nodup ∧ matched.Perm (redriven ++ failed.map Prod.fst)

/-- The loop has sorted what it has matched, but for these documents and the rest. -/
structure Covered (loop : Loop) (current : List DocId) : Prop where
  nodup : loop.matched.Nodup
  perm : loop.matched.Perm (loop.redriven ++ loop.failed.map Prod.fst ++ (current ++ loop.rest))

/-- How a call goes on over the documents it has matched. -/
inductive Covers (matched : List DocId) : Next Progress Result → Prop
  | looping {loop : Loop} {docId : DocId} {pc : Pc} : loop.matched = matched → Covered loop [docId] →
      Covers matched (.goto (.looping loop docId pc))
  | concluding {bulk : Bulk} {loop : Loop} {todo : List Write} : loop.matched = matched → loop.rest = [] →
      Covered loop [] → Covers matched (.goto (.concluding bulk loop todo))
  | replayed {redriven : List DocId} {failed : List (DocId × String)} : Partition matched redriven failed →
      Covers matched (.returned (.replayed redriven failed))
  | redriven {redriven : List DocId} {failed : List (DocId × String)} : Partition matched redriven failed →
      Covers matched (.returned (.redriven matched.length redriven failed))

theorem Covered.partition {loop : Loop} (h : Covered loop []) (hrest : loop.rest = []) :
    Partition loop.matched loop.redriven loop.failed := by
  have hperm := h.perm
  rw [hrest, List.append_nil, List.append_nil] at hperm
  exact ⟨h.nodup, hperm⟩

theorem next_covers {loop : Loop} (h : Covered loop []) : Covers loop.matched loop.next := by
  unfold Loop.next
  split
  · next docId rest hrest =>
    refine .looping rfl ⟨h.nodup, ?_⟩
    have hperm := h.perm
    rw [hrest] at hperm
    exact hperm
  · next hrest =>
    split
    · exact .concluding rfl hrest h
    · exact .replayed (h.partition hrest)

theorem covered_redriven {loop : Loop} (h : Covered loop [docId]) :
    Covered { loop with redriven := loop.redriven ++ [docId] } [] := by
  refine ⟨h.nodup, h.perm.trans ?_⟩
  simp only [List.nil_append, List.append_assoc]
  refine List.Perm.append_left _ ?_
  exact List.perm_append_comm_assoc _ [docId] _

theorem covered_failed {loop : Loop} {message : String} (h : Covered loop [docId]) :
    Covered { loop with failed := loop.failed ++ [(docId, message)] } [] := by
  refine ⟨h.nodup, h.perm.trans ?_⟩
  simp only [List.map_append, List.map_cons, List.map_nil, List.nil_append, List.append_assoc]
  exact List.Perm.refl _

/-- A loop whose re-drive raises nothing but a `BreakGlassError` goes on over its match. -/
theorem after_covers {loop : Loop} {next : Next Pc Unit} (h : Covered loop [docId])
    (hcaught : ∀ e, next = .raised e → ∃ message, e = .breakGlass message) : Covers loop.matched (loop.after docId next) := by
  cases next with
  | goto pc => exact .looping rfl h
  | returned => exact next_covers (covered_redriven h)
  | raised e =>
    obtain ⟨message, rfl⟩ := hcaught e rfl
    exact next_covers (covered_failed h)

/-! ## One statement -/

/-- The transitions that are pending are admitted. -/
def StandsFor (db : Db) (pending : List Write) : Prop :=
  ∀ docId toState, Write.transition docId toState none ∈ pending → admitsMove db docId toState = true

/-- The guarded UPDATE that a loop is about to execute finds its document in a state from
which the target may be entered. -/
def redrivesAdmitted (k : Desk) : Desk.Action → Bool
  | .statement cid _ =>
    match k.calls.lookup cid with
    | some ⟨.looping _ _ (.writing (.transition docId toState none :: _)), _⟩ => admitsMove k.db docId toState
    | _ => true
  | _ => true

/-- Such a re-drive raises nothing that the loop does not catch. -/
theorem redrive_caught {w : World} {pending : List Write} {pc : Pc} {e : LedgerError}
    (hsound : pc.Sound site (.forceRedrive docId reason actor) pending) (hstands : StandsFor w.db pending)
    (hguard : ∀ toState rest, pc = .writing (.transition docId toState none :: rest) →
      admitsMove w.db docId toState = true)
    (he : (pc.step site (.forceRedrive docId reason actor) w pending).2.2 = .raised e) :
    ∃ message, e = .breakGlass message := by
  cases pc with
  | requiring =>
    simp only [Pc.step] at he
    split at he <;> cases he
    exact ⟨_, rfl⟩
  | selecting => cases he
  | planning found =>
    simp only [Pc.step] at he
    split at he
    · next hplan =>
      cases he
      exact BreakGlass.plan_raises hplan
    · cases he
  | writing todo =>
    obtain ⟨row, target, hwrites, hpages⟩ := planned_redrive hsound
    have hadmits : admitsMove w.db docId target.state = true := by
      cases pending with
      | nil =>
        rw [List.nil_append] at hwrites
        exact hguard _ _ (by rw [hwrites]; rfl)
      | cons first rest =>
        obtain rfl := (List.cons.inj hwrites).1
        exact hstands _ _ List.mem_cons_self
    have hwhole : ∃ db, Commits (transaction site (pending ++ todo)) w.db ⟨⟩ db := by
      rw [hwrites]
      exact redriveWrites_commits hpages hadmits
    obtain ⟨db, hc⟩ := hwhole
    simp only [Pc.step] at he
    cases todo with
    | nil =>
      rw [List.append_nil] at hc
      rw [writeStep_of_commits hc] at he
      cases he
    | cons write todo =>
      rw [writeStep_of_whole hc] at he
      cases he

/-- The documents that a call's SELECT has returned. -/
def selection : Progress → Option (List DocId)
  | .looping loop _ _ | .concluding _ loop _ => some loop.matched
  | .acting _ _ | .requiring _ | .matching _ | .finding _ _ => none

/-- What is known of the calls in every run whose re-drives are admitted. -/
structure Sorted (site : Deployment) (k : Desk) : Prop where
  sound : k.Sound site
  apart : NoSharedRow k
  covers : ∀ cid o matched, k.calls.lookup cid = some o → selection o.progress = some matched →
    Covers matched (.goto o.progress)
  stands : ∀ cid o, k.calls.lookup cid = some o → (∀ action pc, o.progress ≠ .acting action pc) → StandsFor k.db o.pending

theorem admitted_of_guard {found : List DocId} {loop : Loop} {pc : Pc} {pending : List Write}
    (hg : redrivesAdmitted k (.statement cid found) = true)
    (ho : k.calls.lookup cid = some ⟨.looping loop docId pc, pending⟩) :
    ∀ d toState rest, pc = .writing (.transition d toState none :: rest) → admitsMove k.db d toState = true := by
  rintro d toState rest rfl
  simpa only [redrivesAdmitted, ho] using hg

theorem redrive_eq (site : Deployment) (docId : DocId) (job : Desk.Job) :
    ∃ reason actor, job.redrive site docId = .forceRedrive docId reason actor := by
  cases job with
  | bulkRedrive bulk => exact ⟨bulk.reason, bulk.actor, rfl⟩
  | dlqReplay actor => exact ⟨dlqReason site, actor, rfl⟩

/-- Over what it has matched, a call goes on until both lists are complete. -/
theorem statement_covers (hi : Sorted site k) {found : List DocId} {o : Open} {r : Desk.Outcome Progress Result}
    (hg : redrivesAdmitted k (.statement cid found) = true) (ho : k.calls.lookup cid = some o)
    (hr : o.progress.step site k.sys.world found o.pending = some r) {matched : List DocId}
    (hm : selection o.progress = some matched) : Covers matched r.2.2 := by
  have hcovers := hi.covers cid o matched ho hm
  have hsound := hi.sound cid o ho
  obtain ⟨progress, pending⟩ := o
  cases hcovers with
  | @looping loop docId pc hmatched hcovered =>
    cases hr
    subst hmatched
    refine after_covers hcovered fun e he => ?_
    obtain ⟨reason, actor, haction⟩ := redrive_eq site docId loop.job
    have hpc := hsound.2.2
    rw [haction] at he hpc
    have hbulk : ∀ action pc', Progress.looping loop docId pc ≠ .acting action pc' := fun _ _ he => nomatch he
    exact redrive_caught hpc (hi.stands cid ⟨_, pending⟩ ho hbulk) (admitted_of_guard hg ho docId) he
  | @concluding bulk loop todo hmatched hrest hcovered =>
    cases hr
    subst hmatched
    have htodo : pending ++ todo = [.audit (bulk.concluded loop)] := hsound.2.2
    have hwrites : ∀ writes, writes = [.audit (bulk.concluded loop)] →
        ∃ db, (transaction site writes).run k.db = .ok (⟨⟩, db) := by
      rintro _ rfl
      exact ⟨_, rfl⟩
    cases todo with
    | nil =>
      rw [List.append_nil] at htodo
      obtain ⟨db, hdb⟩ := hwrites pending htodo
      simp only [writeStep, hdb]
      exact .redriven (hcovered.partition hrest)
    | cons write todo =>
      obtain rfl : pending = [] := by
        cases pending with
        | nil => rfl
        | cons first rest => simp at htodo
      rw [List.nil_append] at htodo
      cases htodo
      exact .concluding rfl hrest hcovered

/-- What a SELECT has returned is all still to be done. -/
theorem select_covers {job : Desk.Job} {found : List DocId} (hnodup : found.Nodup) :
    Covers found (Loop.next { job := job, matched := found, rest := found }) :=
  have hall : Covered { job := job, matched := found, rest := found } [] := ⟨hnodup, List.Perm.refl _⟩
  next_covers hall

theorem nodup_matching (bulk : Bulk) (db : Db) : (bulk.matching db).Nodup :=
  (Table.nodup_rows db.documents).filter _

theorem nodup_findReplayable (site : Deployment) (db : Db) : (findReplayable site db).Nodup :=
  (List.filter_sublist.map Prod.fst).nodup (Table.nodup_rows db.documents)

/-- The statement by which a call finds what it is to re-drive. -/
inductive Selects (site : Deployment) (db : Db) (found : List DocId) : Progress → Next Progress Result → Prop
  | matching {bulk : Bulk} : found.Perm (bulk.matching db) →
      Selects site db found (.matching bulk) (Loop.next { job := .bulkRedrive bulk, matched := found, rest := found })
  | finding {actor : String} : found.Perm (findReplayable site db) →
      Selects site db found (.finding actor false) (Loop.next { job := .dlqReplay actor, matched := found, rest := found })

theorem Covers.selection {matched : List DocId} {progress : Progress} (h : Covers matched (.goto progress)) :
    selection progress = some matched := by
  cases h with
  | looping hmatched | concluding hmatched => exact congrArg some hmatched

theorem Selects.covers {found : List DocId} {progress : Progress} {next : Next Progress Result}
    (h : Selects site db found progress next) : Covers found next := by
  cases h with
  | matching hperm => exact select_covers (hperm.nodup_iff.mpr (nodup_matching _ db))
  | finding hperm => exact select_covers (hperm.nodup_iff.mpr (nodup_findReplayable site db))

/-- A call that has something to re-drive and had nothing before has just selected it. -/
theorem selects_of_step {found : List DocId} {o : Open} {r : Desk.Outcome Progress Result} {progress : Progress}
    {matched : List DocId} (hsound : o.progress.Sound site o.pending)
    (hr : o.progress.step site k.sys.world found o.pending = some r) (hnext : r.2.2 = .goto progress)
    (hbefore : selection o.progress = none) (hafter : selection progress = some matched) :
    o.pending = [] ∧ Selects site k.db found o.progress r.2.2 := by
  obtain ⟨before, pending⟩ := o
  cases before with
  | acting action pc =>
    cases hr
    simp only at hnext
    split at hnext <;> cases hnext
    cases hafter
  | requiring bulk =>
    cases hr
    simp only at hnext
    split at hnext <;> cases hnext
    cases hafter
  | matching bulk =>
    obtain ⟨rfl, _⟩ := hsound
    refine ⟨rfl, ?_⟩
    simp only [Progress.step] at hr
    split at hr
    · next hperm =>
      cases hr
      simp only at hnext ⊢
      split at hnext
      · cases hnext
      · next hcap =>
        rw [if_neg hcap]
        exact .matching hperm
    · cases hr
  | finding actor dryRun =>
    obtain rfl : pending = [] := hsound
    refine ⟨rfl, ?_⟩
    simp only [Progress.step] at hr
    split at hr
    · next hperm =>
      cases hr
      simp only at hnext ⊢
      split at hnext
      · cases hnext
      · next hdry =>
        obtain rfl := Bool.eq_false_iff.mpr hdry
        exact .finding hperm
    · cases hr
  | looping | concluding => cases hbefore

/-- The transition a bulk call is about to execute is admitted. -/
theorem admitted_upcoming {found : List DocId} {o : Open} (hsound : o.progress.Sound site o.pending)
    (hg : redrivesAdmitted k (.statement cid found) = true) (ho : k.calls.lookup cid = some o)
    (hbulk : ∀ action pc, o.progress ≠ .acting action pc) {toState : DocState}
    (hup : o.progress.upcoming = some (.transition d toState none)) : admitsMove k.db d toState = true := by
  obtain ⟨progress, pending⟩ := o
  cases progress with
  | acting action pc => exact absurd rfl (hbulk action pc)
  | looping loop docId pc =>
    cases pc with
    | writing todo =>
      cases todo with
      | nil => cases hup
      | cons write rest =>
        cases hup
        exact admitted_of_guard hg ho _ _ rest rfl
    | requiring | selecting | planning => cases hup
  | concluding bulk loop todo =>
    have htodo : pending ++ todo = [.audit (bulk.concluded loop)] := hsound.2.2
    cases todo with
    | nil => cases hup
    | cons write rest =>
      cases hup
      have hmem : Write.transition d toState none ∈ [Write.audit (bulk.concluded loop)] := by
        rw [← htodo]
        exact List.mem_append_right _ List.mem_cons_self
      rw [List.mem_singleton] at hmem
      cases hmem
  | requiring | matching | finding => cases hup

/-! ## Every run -/

theorem StandsFor.held {o : Open} {a : Desk.Action} (h : StandsFor k.db o.pending) (hi : NoSharedRow k)
    (ho : k.calls.lookup cid = some o) (hother : ∀ found, a ≠ .statement cid found) (hs : Step site k a k') :
    StandsFor k'.db o.pending := by
  intro d toState hmem
  have hheld : d ∈ o.holds := List.mem_filterMap.mpr ⟨_, hmem, rfl⟩
  unfold admitsMove
  rw [held_of_step hi ho hheld hother hs]
  exact h d toState hmem

/-- What the statement of a bulk call leaves pending still stands. -/
theorem stands_statement (hi : Sorted site k) {found : List DocId} {o : Open} {r : Desk.Outcome Progress Result}
    (hg : redrivesAdmitted k (.statement cid found) = true) (ho : k.calls.lookup cid = some o)
    (hr : o.progress.step site k.sys.world found o.pending = some r) (hbulk : ∀ action pc, o.progress ≠ .acting action pc) :
    StandsFor r.1.db r.2.1 := by
  obtain ⟨hkept, hcommitted, _⟩ := Progress.step_executes hr
  obtain ⟨w', pending', next⟩ := r
  simp only at hkept hcommitted ⊢
  rcases hcommitted with hworld | hnone
  · rw [hworld]
    have hbefore := hi.stands cid o ho hbulk
    cases hkept with
    | cleared => exact nofun
    | same => exact hbefore
    | @executed write hup =>
      intro d toState hmem
      rcases List.mem_append.mp hmem with hold | hnew
      · exact hbefore d toState hold
      · rw [← List.mem_singleton.mp hnew] at hup
        exact admitted_upcoming (hi.sound cid o ho) hg ho hbulk hup
  · rw [hnone]
    exact nofun

/-- A call of an action stays one. -/
theorem acting_step {w : World} {found : List DocId} {pending : List Write} {action : BreakGlass} {pc : Pc}
    {r : Desk.Outcome Progress Result} {progress : Progress}
    (hr : (Progress.acting action pc).step site w found pending = some r) (hnext : r.2.2 = .goto progress) :
    ∃ pc', progress = .acting action pc' := by
  cases hr
  simp only at hnext
  split at hnext <;> cases hnext
  exact ⟨_, rfl⟩

theorem sorted_step {a : Desk.Action} (hi : Sorted site k) (hg : redrivesAdmitted k a = true) (hs : Step site k a k') :
    Sorted site k' := by
  refine ⟨sound_step hi.sound hs, noSharedRow_step hi.apart hs, fun cid o matched ho hm => ?_, fun cid o ho hbulk => ?_⟩
  · rcases open_of_step hs ho with ⟨_, ho⟩ | ⟨call, rfl⟩ | ⟨found, before, r, rfl, hbefore, hr, hnext, _, _⟩
    · exact hi.covers cid o matched ho hm
    · cases call <;> cases hm
    · have hcovers : ∃ matched', Covers matched' (.goto o.progress) := by
        rw [← hnext]
        cases hsel : selection before.progress with
        | none => exact ⟨_, (selects_of_step (hi.sound _ _ hbefore) hr hnext hsel hm).2.covers⟩
        | some matched' => exact ⟨_, statement_covers hi hg hbefore hr hsel⟩
      obtain ⟨matched', hcovers⟩ := hcovers
      cases hcovers.selection.symm.trans hm
      exact hcovers
  · rcases open_of_step hs ho with ⟨hother, ho⟩ | ⟨call, rfl⟩ | ⟨found, before, r, rfl, hbefore, hr, hnext, hpending, hworld⟩
    · exact (hi.stands cid o ho hbulk).held hi.apart ho hother hs
    · exact nofun
    · rw [hpending, Desk.db, hworld]
      refine stands_statement hi hg hbefore hr fun action pc hact => ?_
      rw [hact] at hr
      obtain ⟨pc', hact'⟩ := acting_step hr hnext
      exact hbulk _ _ hact'

/-! ## The end of a call -/

/-- A bound on the statements an action has left. -/
def pcRemaining : Pc → Nat
  | .requiring => 8
  | .selecting => 7
  | .planning _ => 6
  | .writing todo => todo.length + 1

/-- How far a call is from its end: its SELECT is still to come, or at most so many statements are. -/
def rank : Progress → Nat × Nat
  | .requiring _ => (2, 0)
  | .matching _ | .finding _ _ => (1, 0)
  | .acting _ pc => (0, pcRemaining pc)
  | .looping loop _ pc => (0, pcRemaining pc + (8 * loop.rest.length + 3))
  | .concluding _ _ todo => (0, todo.length + 1)

abbrev Nearer (progress' progress : Progress) : Prop := Prod.Lex (· < ·) (· < ·) (rank progress') (rank progress)

theorem plan_length {action : BreakGlass} {assembled : Bool} {found : Option Document} {todo : List Write}
    (h : action.plan assembled found = .ok todo) : todo.length ≤ 4 := by
  cases action with
  | forceRedrive docId reason actor =>
    cases found with
    | none => cases h
    | some row =>
      change (Operator.redriveTargetState docId row assembled).map _ = _ at h
      cases htarget : Operator.redriveTargetState docId row assembled with
      | error e =>
        rw [htarget] at h
        cases h
      | ok target =>
        rw [htarget] at h
        cases h
        exact Nat.le_succ 3
  | acceptReview docId reason actor =>
    cases found with
    | none => cases h
    | some row =>
      simp only [BreakGlass.plan] at h
      split at h <;> cases h
      exact le_rfl
  | setKillSwitch enabled reason actor =>
    cases h
    show 2 ≤ 4
    omega

theorem writeStep_length {w : World} {pending todo todo' : List Write}
    (h : (writeStep site w pending todo).2.2 = .goto todo') : todo.length = todo'.length + 1 := by
  cases todo with
  | nil =>
    simp only [writeStep] at h
    split at h <;> cases h
  | cons write rest =>
    simp only [writeStep] at h
    split at h <;> cases h
    rfl

theorem pc_nearer {w : World} {pending : List Write} {action : BreakGlass} {pc pc' : Pc}
    (h : (pc.step site action w pending).2.2 = .goto pc') : pcRemaining pc' < pcRemaining pc := by
  cases pc with
  | requiring =>
    simp only [Pc.step] at h
    split at h <;> cases h
    decide
  | selecting =>
    cases action <;> cases h <;> exact Nat.lt_succ_self 6
  | planning found =>
    simp only [Pc.step] at h
    split at h
    · cases h
    · next todo hplan =>
      cases h
      have hlen := plan_length hplan
      simp only [pcRemaining]
      omega
  | writing todo =>
    simp only [Pc.step] at h
    split at h <;> cases h
    next hnext =>
    have hlen := writeStep_length hnext
    simp only [pcRemaining]
    omega

theorem next_near {loop : Loop} {progress : Progress} (h : loop.next = .goto progress) :
    (rank progress).1 = 0 ∧ (rank progress).2 ≤ 8 * loop.rest.length + 3 := by
  unfold Loop.next at h
  split at h
  · next docId rest hrest =>
    cases h
    rw [hrest, List.length_cons]
    simp only [rank, pcRemaining, true_and]
    omega
  · split at h <;> cases h
    exact ⟨rfl, by simp [rank]⟩

/-- Every statement brings its call nearer to the end. -/
theorem statement_nearer {w : World} {found : List DocId} {pending : List Write} {progress progress' : Progress}
    {r : Desk.Outcome Progress Result} (hr : progress.step site w found pending = some r)
    (hnext : r.2.2 = .goto progress') : Nearer progress' progress := by
  have hlex : ∀ {p q : Nat × Nat}, p.1 < q.1 ∨ (p.1 = q.1 ∧ p.2 < q.2) → Prod.Lex (· < ·) (· < ·) p q := by
    intro p q h
    rw [Prod.lex_def]
    exact h
  have hselected : ∀ {loop : Loop}, loop.next = .goto progress' → ∀ {p : Progress}, (rank p).1 = 1 → Nearer progress' p :=
    fun h p hp => hlex (Or.inl (by rw [(next_near h).1, hp]; exact Nat.one_pos))
  cases progress with
  | acting action pc =>
    cases hr
    simp only at hnext
    split at hnext <;> cases hnext
    next hpc => exact hlex (Or.inr ⟨rfl, pc_nearer hpc⟩)
  | requiring bulk =>
    cases hr
    simp only at hnext
    split at hnext <;> cases hnext
    exact hlex (Or.inl (Nat.lt_succ_self 1))
  | matching bulk =>
    simp only [Progress.step] at hr
    split at hr <;> cases hr
    simp only at hnext
    split at hnext
    · cases hnext
    · exact hselected hnext rfl
  | finding actor dryRun =>
    simp only [Progress.step] at hr
    split at hr <;> cases hr
    simp only at hnext
    split at hnext
    · cases hnext
    · exact hselected hnext rfl
  | looping loop docId pc =>
    cases hr
    have hpos : 0 < pcRemaining pc := by cases pc <;> exact Nat.succ_pos _
    have hother : ∀ loop' : Loop, loop'.rest = loop.rest → loop'.next = .goto progress' →
        Nearer progress' (.looping loop docId pc) := by
      intro loop' hrest h
      obtain ⟨hzero, hle⟩ := next_near h
      rw [hrest] at hle
      refine hlex (Or.inr ⟨hzero, hle.trans_lt ?_⟩)
      exact Nat.lt_add_of_pos_left hpos
    change loop.after docId (pc.step site (loop.job.redrive site docId) w pending).2.2 = .goto progress' at hnext
    generalize hout : (pc.step site (loop.job.redrive site docId) w pending).2.2 = out at hnext
    cases out with
    | goto pc' =>
      cases hnext
      exact hlex (Or.inr ⟨rfl, Nat.add_lt_add_right (pc_nearer hout) _⟩)
    | returned => exact hother { loop with redriven := loop.redriven ++ [docId] } rfl hnext
    | raised e =>
      cases e with
      | breakGlass message => exact hother { loop with failed := loop.failed ++ [(docId, message)] } rfl hnext
      | illegalTransition | uniqueViolation | foreignKeyViolation | typeError | valueError => cases hnext
  | concluding bulk loop todo =>
    cases hr
    simp only at hnext
    split at hnext <;> cases hnext
    next htodo =>
    have hlen := writeStep_length htodo
    refine hlex (Or.inr ⟨rfl, ?_⟩)
    simp only [rank]
    omega

/-! ## The statements of a bulk call -/

/-- The statement by which the call has selected these documents. -/
def selectedBy (site : Deployment) (cid : Nat) (matched : List DocId) (k : Desk) (a : Desk.Action) : Prop :=
  a = .statement cid matched ∧ ∃ progress next, k.calls.lookup cid = some ⟨progress, []⟩ ∧
    Selects site k.db matched progress next

/-- How a statement of a bulk call may go: on, back before anything is re-driven, or to an
end with both lists complete. -/
inductive BulkWent (site : Deployment) (Selected : List DocId → Prop) (db db' : Db) (found : List DocId) :
    Progress → Next Progress Result → Prop
  | goesOn {progress progress' : Progress} : Nearer progress' progress →
      BulkWent site Selected db db' found progress (.goto progress')
  | noReason {bulk : Bulk} {e : LedgerError} : Operator.blank site bulk.reason = true →
      BulkWent site Selected db db' found (.requiring bulk) (.raised e)
  | exceeded {bulk : Bulk} {e : LedgerError} : bulk.cap < found.length → bulk.approved = false →
      BulkWent site Selected db db' found (.matching bulk) (.raised e)
  | dryRun {actor : String} : BulkWent site Selected db db' found (.finding actor true) (.returned (.wouldReplay found))
  | replayed {progress : Progress} {matched redriven : List DocId} {failed : List (DocId × String)} :
      Selected matched → Partition matched redriven failed →
      BulkWent site Selected db db' found progress (.returned (.replayed redriven failed))
  | redriven {bulk : Bulk} {loop : Loop} {matched redriven : List DocId} {failed : List (DocId × String)} :
      Selected matched → Partition matched redriven failed →
      db'.breakGlassAudit = db.breakGlassAudit ++ [⟨none, "bulk_redrive", bulk.reason, bulk.actor,
        some (.bulk bulk.predicateSql matched.length redriven.length failed)⟩] →
      BulkWent site Selected db db' found (.concluding bulk loop [])
        (.returned (.redriven matched.length redriven failed))

theorem no_call (sys : Sys) {o : Open} : ({ sys := sys } : Desk).calls.lookup cid ≠ some o := fun h => nomatch h

theorem sorted_initial (sys : Sys) : Sorted site { sys := sys } :=
  ⟨fun _ _ ho => absurd ho (no_call sys), fun _ _ _ _ _ ho => absurd ho (no_call sys),
    fun _ _ _ ho => absurd ho (no_call sys), fun _ _ ho => absurd ho (no_call sys)⟩

theorem next_not_redriven {loop : Loop} {n : Nat} {redriven : List DocId} {failed : List (DocId × String)} :
    loop.next ≠ .returned (.redriven n redriven failed) := by
  unfold Loop.next
  split
  · exact nofun
  · split <;> exact nofun

theorem after_not_redriven {loop : Loop} {next : Next Pc Unit} {n : Nat} {redriven : List DocId}
    {failed : List (DocId × String)} : loop.after docId next ≠ .returned (.redriven n redriven failed) := by
  unfold Loop.after
  split
  · exact nofun
  · exact next_not_redriven
  · exact next_not_redriven
  · exact nofun

/-- In every run whose re-drives are admitted the calls are sorted, and what each is to
re-drive was selected by a statement of its own. -/
theorem sorted_run {sys : Sys} {as : List Desk.Action}
    (h : GuardedRun site (fun k a => redrivesAdmitted k a = true) { sys := sys } as k) :
    Sorted site k ∧ ∀ cid o matched, k.calls.lookup cid = some o → selection o.progress = some matched →
      Fired (Step site) (fun k a => redrivesAdmitted k a = true) { sys := sys } as (selectedBy site cid matched) k := by
  induction h with
  | nil => exact ⟨sorted_initial sys, fun _ _ _ ho => absurd ho (no_call sys)⟩
  | @snoc k k' as a hrun hg hs ih =>
    obtain ⟨hi, hfired⟩ := ih
    refine ⟨sorted_step hi hg hs, fun cid o matched ho hm => ?_⟩
    rcases open_of_step hs ho with ⟨_, ho⟩ | ⟨call, rfl⟩ | ⟨found, before, r, rfl, hbefore, hr, hnext, _, _⟩
    · exact (hfired cid o matched ho hm).snoc hg hs
    · cases call <;> cases hm
    · cases hsel : selection before.progress with
      | none =>
        obtain ⟨hpending, hselects⟩ := selects_of_step (hi.sound _ _ hbefore) hr hnext hsel hm
        have hcovers := hselects.covers
        rw [hnext] at hcovers
        cases hcovers.selection.symm.trans hm
        obtain ⟨progress, pending⟩ := before
        subst hpending
        exact Fired.last hrun ⟨rfl, progress, _, hbefore, hselects⟩ hs
      | some matched' =>
        have hcovers := statement_covers hi hg hbefore hr hsel
        rw [hnext] at hcovers
        cases hcovers.selection.symm.trans hm
        exact (hfired cid before matched hbefore hsel).snoc hg hs

/-- How a statement of a bulk call goes whose match is sorted and was selected. -/
theorem bulkWent_of_step {w : World} {found : List DocId} {progress : Progress} {pending : List Write}
    {r : Desk.Outcome Progress Result} {Selected : List DocId → Prop} (hsound : progress.Sound site pending)
    (hr : progress.step site w found pending = some r) (hbulk : ∀ action pc, progress ≠ .acting action pc)
    (hcovers : ∀ matched, selection progress = some matched → Covers matched r.2.2 ∧ Selected matched)
    (hfinding : ∀ actor, progress = .finding actor false → pending = [] → found.Perm (findReplayable site w.db) →
      Selected found) : BulkWent site Selected w.db r.1.db found progress r.2.2 := by
  have hnearer : ∀ progress', r.2.2 = .goto progress' → Nearer progress' progress := fun _ hnext => statement_nearer hr hnext
  cases progress with
  | acting action pc => exact absurd rfl (hbulk action pc)
  | requiring bulk =>
    cases hr
    by_cases hblank : Operator.blank site bulk.reason = true
    · rw [if_pos hblank]
      exact .noReason hblank
    · rw [if_neg hblank] at hnearer ⊢
      exact .goesOn (hnearer _ rfl)
  | matching bulk =>
    simp only [Progress.step] at hr
    split at hr <;> cases hr
    by_cases hcap : bulk.cap < found.length ∧ bulk.approved = false
    · rw [if_pos hcap]
      exact .exceeded hcap.1 hcap.2
    · rw [if_neg hcap] at hnearer ⊢
      cases found <;> exact .goesOn (hnearer _ rfl)
  | finding actor dryRun =>
    obtain rfl : pending = [] := hsound
    simp only [Progress.step] at hr
    split at hr
    · next hperm =>
      cases hr
      cases dryRun with
      | true => exact .dryRun
      | false =>
        cases found with
        | cons docId rest => exact .goesOn (hnearer _ rfl)
        | nil => exact .replayed (hfinding actor rfl rfl hperm) ⟨List.nodup_nil, List.Perm.nil⟩
    · cases hr
  | looping loop docId pc =>
    obtain ⟨hwent, hselected⟩ := hcovers loop.matched rfl
    cases hr
    generalize hnext : loop.after docId (pc.step site (loop.job.redrive site docId) w pending).2.2 = next at hwent hnearer ⊢
    cases hwent with
    | looping | concluding => exact .goesOn (hnearer _ rfl)
    | replayed hpartition => exact .replayed hselected hpartition
    | redriven => exact absurd hnext after_not_redriven
  | concluding bulk loop todo =>
    obtain ⟨hwent, hselected⟩ := hcovers loop.matched rfl
    have htodo : pending ++ todo = [.audit (bulk.concluded loop)] := hsound.2.2
    cases hr
    cases todo with
    | nil =>
      rw [List.append_nil] at htodo
      subst htodo
      cases hwent with
      | redriven hpartition => exact .redriven hselected hpartition rfl
    | cons write rest =>
      obtain rfl : pending = [] := by
        cases pending with
        | nil => rfl
        | cons first others => simp at htodo
      rw [List.nil_append] at htodo
      cases htodo
      exact .goesOn (hnearer _ rfl)

/-- In every run whose guarded re-drives are admitted, from any table: a statement of a bulk
call goes on towards its end or ends the call with every match in exactly one list. -/
theorem bulk_covers_matched {sys : Sys} {as : List Desk.Action} {found : List DocId}
    (h : GuardedRun site (fun k a => redrivesAdmitted k a = true) { sys := sys } as k)
    (hg : redrivesAdmitted k (.statement cid found) = true) (hs : Step site k (.statement cid found) k') :
    ∃ o r, k.calls.lookup cid = some o ∧ o.progress.step site k.sys.world found o.pending = some r ∧
      k'.sys.world = r.1 ∧ k'.calls = k.goOn cid r.2.1 r.2.2 ∧
      ((∀ action pc, o.progress ≠ .acting action pc) →
        BulkWent site (fun matched => Fired (Step site) (fun k a => redrivesAdmitted k a = true) { sys := sys }
          (as ++ [.statement cid found]) (selectedBy site cid matched) k') k.db k'.db found o.progress r.2.2) := by
  obtain ⟨hi, hfired⟩ := sorted_run h
  have hstep := hs
  obtain ⟨o, r, ho, hr, rfl⟩ := runStatement_inv hs
  refine ⟨o, r, ho, hr, rfl, rfl, fun hbulk => ?_⟩
  refine bulkWent_of_step (hi.sound cid o ho) hr hbulk
    (fun matched hm => ⟨statement_covers hi hg ho hr hm, (hfired cid o matched ho hm).snoc hg hstep⟩) ?_
  obtain ⟨progress, pending⟩ := o
  rintro actor rfl rfl hperm
  exact Fired.last h ⟨rfl, _, _, ho, .finding hperm⟩ hstep

/-- The call is at the commit of its audit row. -/
def atConclusion (k : Desk) : Bool :=
  match k.calls.lookup 0 with
  | some ⟨.concluding _ _ [], _⟩ => true
  | _ => false

/-- The re-drive commits, and the loop has nothing left. -/
def bulkAtConclusion : List Desk.Action := bulkAtCommit ++ statements 0 2

theorem bulk_of_one_covers :
    ∃ k k' o r, GuardedRun oneInvoice (fun k a => redrivesAdmitted k a = true) {} bulkAtConclusion k ∧
      Step oneInvoice k (.statement 0 []) k' ∧ k.calls.lookup 0 = some o ∧
      o.progress.step oneInvoice k.sys.world [] o.pending = some r ∧ (∀ action pc, o.progress ≠ .acting action pc) ∧
      BulkWent oneInvoice (fun matched => Fired (Step oneInvoice) (fun k a => redrivesAdmitted k a = true) {}
        (bulkAtConclusion ++ [.statement 0 []]) (selectedBy oneInvoice 0 matched) k') k.db k'.db [] o.progress r.2.2 := by
  obtain ⟨k, hrun, hk⟩ := Desk.exists_guardedRun oneInvoice redrivesAdmitted bulkAtConclusion
    (fun k => atConclusion k && (k.step oneInvoice (.statement 0 [])).isSome) (by decide +kernel)
  rw [Bool.and_eq_true, Option.isSome_iff_exists] at hk
  obtain ⟨hat, k', hs⟩ := hk
  have hguard : redrivesAdmitted k (.statement 0 []) = true := by
    unfold atConclusion at hat
    split at hat
    · next hlookup => simp only [redrivesAdmitted, hlookup]
    · cases hat
  obtain ⟨o, r, ho, hr, _, _, hwent⟩ := bulk_covers_matched hrun hguard hs
  have hbulk : ∀ action pc, o.progress ≠ .acting action pc := by
    intro action pc he
    obtain ⟨progress, pending⟩ := o
    subst he
    simp [atConclusion, ho] at hat
  exact ⟨k, k', o, r, hrun, hs, ho, hr, hbulk, hwent hbulk⟩

/-! ## A match that moves in the middle -/

/-- The document is in review when the loop reads it, and an operator accepts it before the
UPDATE. -/
def acceptedMidway : List Desk.Action :=
  pipeline exhausted ++ [.call 0 (.bulkRedrive everything)] ++ statements 0 1 ++ [.statement 0 ["crc32c-a"]] ++
    statements 0 3 ++ pipeline (Schedule.acceptReview 1 "crc32c-a")

/-- The loop is about to be ended by an exception it does not catch. -/
def escaping (site : Deployment) (k : Desk) : Bool :=
  match k.calls.lookup 0 with
  | some ⟨.looping loop docId pc, pending⟩ =>
    match loop.after docId (pc.step site (loop.job.redrive site docId) k.sys.world pending).2.2 with
    | .raised _ => true
    | _ => false
  | _ => false

theorem accepted_midway_escapes :
    ¬ ∀ (site : Deployment) (as : List Desk.Action) (k k' : Desk) (cid : Nat) (found : List DocId),
      FreeRun site {} as k → Step site k (.statement cid found) k' →
      ∃ o r, k.calls.lookup cid = some o ∧ o.progress.step site k.sys.world found o.pending = some r ∧
        ((∀ action pc, o.progress ≠ .acting action pc) →
          BulkWent site (fun _ => True) k.db k'.db found o.progress r.2.2) := by
  intro hclaim
  obtain ⟨k, hrun, hk⟩ := Desk.exists_guardedRun oneInvoice (fun _ _ => true) acceptedMidway
    (fun k => escaping oneInvoice k && (k.step oneInvoice (.statement 0 [])).isSome) (by decide +kernel)
  rw [Bool.and_eq_true, Option.isSome_iff_exists] at hk
  obtain ⟨hescaping, k', hs⟩ := hk
  obtain ⟨o, r, ho, hr, hwent⟩ := hclaim oneInvoice acceptedMidway k k' 0 [] hrun.unguarded hs
  unfold escaping at hescaping
  rw [ho] at hescaping
  obtain ⟨progress, pending⟩ := o
  cases progress with
  | looping loop docId pc =>
    have hbulk := hwent fun _ _ he => nomatch he
    cases hr
    simp only at hescaping
    split at hescaping
    · next hnext =>
      simp only [hnext] at hbulk
      cases hbulk
    · cases hescaping
  | acting | requiring | matching | finding | concluding => cases hescaping

end DocPipeline.Audit

import DocPipeline.Audit.Coverage
import DocPipeline.Audit.Replay
import DocPipeline.Reconciliation.TerminalReport

/-!
# Is the stuck-for-good count right?

The report counts the failed documents whose stamps are current. A replay at these stamps
reads the others and re-drives them, except those that triage failed before it knew their
page count: these it refuses. So the count is right exactly when there are none of them.
-/
namespace DocPipeline.Audit

set_option autoImplicit false

open Lib Lib.Transaction Ledger Desk TerminalReport

variable {site : Deployment} {d docId : DocId} {db db₀ db' : Db} {k k' : Desk} {row : Document} {sys : Sys}
  {actor : String} {found : List DocId}

/-! ## A replay with nothing else running -/

/-- A new call of `dlq_replay.run`, and nothing else at the desk. -/
def alone (sys : Sys) (actor : String) : Desk :=
  { sys := sys, calls := (∅ : Table Nat Open).insert 0 ⟨(Call.dlqReplay actor false).start, []⟩ }

def onlyReplay (_ : Desk) : Desk.Action → Bool
  | .statement cid _ => cid = 0
  | .pipeline _ | .call _ _ | .fault _ => false

/-- The call has run to its end, with nothing else running. -/
def LoneReplay (site : Deployment) (sys : Sys) (actor : String) (as : List Desk.Action) (k : Desk) : Prop :=
  GuardedRun site (fun k a => onlyReplay k a = true) (alone sys actor) as k ∧ k.calls.lookup 0 = none

/-- What has become of the table so far: the re-driven documents have left `failed`, those
listed as failed have no page count, and no other row has changed. -/
structure Settled (db₀ db : Db) (redriven refused : List DocId) : Prop where
  moved : ∀ d, d ∈ redriven → (∃ row, db₀.documents.lookup d = some row ∧ row.pageCount ≠ none) ∧
    ∃ row, db.documents.lookup d = some row ∧ row.state ≠ .failed
  refused : ∀ d, d ∈ refused → ∃ row, db₀.documents.lookup d = some row ∧ row.pageCount = none
  kept : ∀ d, d ∉ redriven → db.documents.lookup d = db₀.documents.lookup d

/-- What the re-drive of `docId` has read and written so far. -/
def ReadsSoFar (site : Deployment) (db₀ : Db) (docId : DocId) (actor : String) (pending : List Write) : Pc → Prop
  | .requiring | .selecting => pending = []
  | .planning found => pending = [] ∧ found = db₀.documents.lookup docId
  | .writing todo => ∃ row assembled target, db₀.documents.lookup docId = some row ∧
      Operator.redriveTargetState docId row assembled = .ok target ∧
      pending ++ todo = BreakGlass.redriveWrites docId row target (dlqReason site) actor

/-- Where a lone replay is. -/
inductive Replaying (site : Deployment) (db₀ : Db) (k : Desk) : Prop
  | finding {actor : String} : k.calls.lookup 0 = some ⟨.finding actor false, []⟩ → k.db = db₀ → Replaying site db₀ k
  | looping {loop : Loop} {docId : DocId} {pc : Pc} {pending : List Write} {actor : String} :
      k.calls.lookup 0 = some ⟨.looping loop docId pc, pending⟩ → loop.job = .dlqReplay actor → Covered loop [docId] →
      loop.matched.Perm (findReplayable site db₀) → Settled db₀ k.db loop.redriven (loop.failed.map Prod.fst) →
      ReadsSoFar site db₀ docId actor pending pc → Replaying site db₀ k
  | ended {matched redriven : List DocId} {failed : List (DocId × String)} : k.calls.lookup 0 = none →
      matched.Perm (findReplayable site db₀) → Partition matched redriven failed →
      Settled db₀ k.db redriven (failed.map Prod.fst) → Replaying site db₀ k

theorem goOn_self {cid : Nat} {pending : List Write} {next : Next Progress Result} :
    (k.goOn cid pending next).lookup cid = match next with
      | .goto progress => some ⟨progress, pending⟩
      | .returned _ | .raised _ => none := by
  unfold goOn
  cases next with
  | goto => exact AList.lookup_insert _
  | returned | raised => exact AList.lookup_erase _ _

/-- The loop goes on to its next document, or ends. -/
theorem replaying_next {loop : Loop} (hcalls : k.calls.lookup 0 = match loop.next with
      | .goto progress => some ⟨progress, []⟩
      | .returned _ | .raised _ => none)
    (hjob : loop.job = .dlqReplay actor) (hcovered : Covered loop []) (hmatched : loop.matched.Perm (findReplayable site db₀))
    (hsettled : Settled db₀ k.db loop.redriven (loop.failed.map Prod.fst)) : Replaying site db₀ k := by
  have hcovers := next_covers hcovered
  cases hrest : loop.rest with
  | nil =>
    have hnext : loop.next = .returned (.replayed loop.redriven loop.failed) := by
      simp only [Loop.next, hrest, hjob]
    rw [hnext] at hcalls
    exact .ended hcalls hmatched (hcovered.partition hrest) hsettled
  | cons docId rest =>
    have hnext : loop.next = .goto (.looping { loop with rest := rest } docId .requiring) := by
      simp only [Loop.next, hrest]
    rw [hnext] at hcalls hcovers
    cases hcovers with
    | looping _ hcovered' => exact .looping hcalls hjob hcovered' hmatched hsettled rfl

theorem Covered.fresh {loop : Loop} (h : Covered loop [docId]) : docId ∉ loop.redriven := by
  have hnodup := h.perm.nodup_iff.mp h.nodup
  rw [List.append_assoc, List.nodup_append] at hnodup
  exact fun hmem => hnodup.2.2 docId hmem docId (List.mem_append_right _ (List.mem_append_left _ List.mem_cons_self)) rfl

theorem Covered.current_mem {loop : Loop} (h : Covered loop [docId]) : docId ∈ loop.matched :=
  h.perm.mem_iff.mpr (List.mem_append_right _ List.mem_cons_self)

/-- What a committed re-drive leaves of the table. -/
theorem redrive_leaves {target : Operator.RedriveTarget} {reason : String} {u : Unit}
    (h : Commits (transaction site (BreakGlass.redriveWrites docId row target reason actor)) db u db') :
    (∃ current : Document, db'.documents.lookup docId = some (current.moved target.state db.now)) ∧
      ∀ d, d ≠ docId → db'.documents.lookup d = db.documents.lookup d := by
  refine ⟨?_, fun d hd => ?_⟩
  · rw [redrive_transaction, Operator.forceRedriveTx] at h
    simp only [commits_bind, transition_default_commits, audit, commits_modify] at h
    obtain ⟨_, _, ⟨current, _, _, rfl, rfl⟩, _, m, hredrive, rfl⟩ := h
    refine ⟨current, ?_⟩
    change m.documents.lookup docId = _
    rw [(Sweeper.redriveDocument_kept hredrive).1, Db.write_lookup_self]
  · refine transaction_elsewhere ?_ h
    simpa [BreakGlass.redriveWrites, Write.locks] using hd

theorem Settled.redrive {redriven refused : List DocId} {target : Operator.RedriveTarget} (h : Settled db₀ db redriven refused)
    (hrow : db₀.documents.lookup docId = some row) (hpages : row.pageCount ≠ none)
    (hmoved : ∃ current : Document, db'.documents.lookup docId = some (current.moved target.state db.now))
    (hkept : ∀ d, d ≠ docId → db'.documents.lookup d = db.documents.lookup d) :
    Settled db₀ db' (redriven ++ [docId]) refused := by
  refine ⟨fun d hd => ?_, h.refused, fun d hd => ?_⟩
  · by_cases hdoc : d = docId
    · subst hdoc
      obtain ⟨current, hcurrent⟩ := hmoved
      exact ⟨⟨row, hrow, hpages⟩, _, hcurrent, by cases target <;> nofun⟩
    · rw [hkept d hdoc]
      exact h.moved d ((List.mem_append.mp hd).resolve_right fun he => hdoc (List.mem_singleton.mp he))
  · rw [List.mem_append, List.mem_singleton, not_or] at hd
    rw [hkept d hd.2]
    exact h.kept d hd.1

/-- A candidate is failed, and its stamps are not both current. -/
theorem candidate_of_mem (h : d ∈ findReplayable site db₀) :
    ∃ row, db₀.documents.lookup d = some row ∧ row.state = .failed ∧ replayable site row = true := by
  obtain ⟨row, hrow, hreplayable⟩ := mem_findReplayable.mp h
  have hstate : row.state = .failed := by
    rw [replayable, Bool.and_eq_true, decide_eq_true_eq] at hreplayable
    exact hreplayable.1
  exact ⟨row, hrow, hstate, hreplayable⟩

theorem dlqReason_not_blank (hspace : site.unicode.isSpace 'd' = false) : Operator.blank site (dlqReason site) = false := by
  have hliteral : 'd' ∈ "dlq_replay: build_sha/prompt_version changed since last attempt (now build_sha=".toList := by
    decide +kernel
  have hmem : 'd' ∈ (dlqReason site).toList := by
    unfold dlqReason
    rw [String.toList_append, String.toList_append, String.toList_append, String.toList_append]
    exact List.mem_append_left _ (List.mem_append_left _ (List.mem_append_left _ (List.mem_append_left _ hliteral)))
  rw [Operator.blank, List.all_eq_false]
  exact ⟨'d', hmem, by rw [hspace]; exact Bool.false_ne_true⟩

/-- Every write of a re-drive of a failed document is executed. -/
theorem failed_redrive_commits {target : Operator.RedriveTarget} {assembled : Bool} {reason : String}
    (hrow : db.documents.lookup docId = some row) (hstate : row.state = .failed)
    (htarget : Operator.redriveTargetState docId row assembled = .ok target) :
    ∃ db', Commits (transaction site (BreakGlass.redriveWrites docId row target reason actor)) db ⟨⟩ db' := by
  refine redriveWrites_commits (Operator.redriveTarget_pages htarget) ?_
  rw [admitsMove, hrow, Option.any_some, hstate]
  cases target <;> rfl

/-- One statement of a lone replay. -/
theorem replaying_statement (hspace : site.unicode.isSpace 'd' = false) (hi : Replaying site db₀ k)
    (hs : k.runStatement site 0 found = some k') : Replaying site db₀ k' := by
  obtain ⟨o, r, ho, hr, rfl⟩ := runStatement_inv hs
  cases hi with
  | ended hnone =>
    rw [hnone] at ho
    cases ho
  | @finding actor' hlookup hdb =>
    rw [hlookup] at ho
    cases ho
    simp only [Progress.step, Bool.false_eq_true, if_false] at hr
    split at hr
    · next hperm =>
      cases hr
      have hcandidates : found.Perm (findReplayable site db₀) := by
        rw [← hdb]
        exact hperm
      have hall : Covered { job := .dlqReplay actor', matched := found, rest := found } [] :=
        ⟨hcandidates.nodup_iff.mpr (nodup_findReplayable site db₀), List.Perm.refl _⟩
      refine replaying_next goOn_self rfl hall hcandidates ⟨fun _ hd => (by cases hd), fun _ hd => (by cases hd), fun d _ => ?_⟩
      exact congrArg (fun db => db.documents.lookup d) hdb
    · cases hr
  | @looping loop docId pc pending actor' hlookup hjob hcovered hmatched hsettled hreads =>
    rw [hlookup] at ho
    cases ho
    cases hr
    have hcurrent : k.db.documents.lookup docId = db₀.documents.lookup docId := hsettled.kept docId hcovered.fresh
    obtain ⟨row, hrow, hfailed, hreplayable⟩ := candidate_of_mem (hmatched.mem_iff.mp hcovered.current_mem)
    rw [hrow] at hcurrent
    have haction : loop.job.redrive site docId = .forceRedrive docId (dlqReason site) actor' := by rw [hjob]; rfl
    simp only [haction]
    cases pc with
    | requiring =>
      obtain rfl : pending = [] := hreads
      have hblank : Operator.blank site (BreakGlass.forceRedrive docId (dlqReason site) actor').reason = false :=
        dlqReason_not_blank hspace
      simp only [Pc.step, hblank, Bool.false_eq_true, if_false]
      exact .looping goOn_self hjob hcovered hmatched hsettled rfl
    | selecting =>
      obtain rfl : pending = [] := hreads
      exact .looping goOn_self hjob hcovered hmatched hsettled ⟨rfl, hcurrent.trans hrow.symm⟩
    | planning read =>
      obtain ⟨rfl, rfl⟩ := hreads
      simp only [Pc.step, hrow, BreakGlass.plan]
      cases htarget : Operator.redriveTargetState docId row (k.sys.world.bucket.assembled docId).isSome with
      | ok target => exact .looping goOn_self hjob hcovered hmatched hsettled ⟨row, _, target, hrow, htarget, rfl⟩
      | error e =>
        have hrefused : row.pageCount = none ∧ ∃ message, e = .breakGlass message := by
          rcases Operator.redriveTarget_failed hfailed with ⟨-, target, hok⟩ | ⟨hnone, message, herror⟩
          · rw [htarget] at hok
            cases hok
          · rw [htarget] at herror
            exact ⟨hnone, message, Except.error.inj herror⟩
        obtain ⟨hnone, message, rfl⟩ := hrefused
        refine replaying_next goOn_self hjob (covered_failed hcovered) hmatched
          ⟨hsettled.moved, fun d hd => ?_, hsettled.kept⟩
        rw [List.map_append, List.mem_append] at hd
        rcases hd with hold | hnew
        · exact hsettled.refused d hold
        · rw [List.map_singleton, List.mem_singleton] at hnew
          exact ⟨row, hnew ▸ hrow, hnone⟩
    | writing todo =>
      obtain ⟨row', assembled, target, hrow', htarget, hwrites⟩ := hreads
      rw [hrow] at hrow'
      cases hrow'
      have hredrives : ∃ db, Commits (transaction site (BreakGlass.redriveWrites docId row target (dlqReason site) actor'))
          k.db ⟨⟩ db := failed_redrive_commits hcurrent hfailed htarget
      obtain ⟨db, hc⟩ := hredrives
      cases todo with
      | cons write rest =>
        rw [← hwrites] at hc
        simp only [Pc.step, writeStep_of_whole (w := k.sys.world) hc]
        refine .looping goOn_self hjob hcovered hmatched hsettled ⟨row, assembled, target, hrow, htarget, ?_⟩
        rw [List.append_assoc, List.singleton_append, hwrites]
      | nil =>
        rw [List.append_nil] at hwrites
        have hpending : Commits (transaction site pending) k.sys.world.db ⟨⟩ db := by
          rw [hwrites]
          exact hc
        obtain ⟨hmoved, hkept⟩ := redrive_leaves hc
        have hpages : row.pageCount ≠ none := by
          rcases Operator.redriveTarget_failed hfailed with ⟨hpages, -⟩ | ⟨-, _, herror⟩
          · exact hpages
          · rw [htarget] at herror
            cases herror
        simp only [Pc.step, writeStep_of_commits hpending]
        exact replaying_next goOn_self hjob (covered_redriven hcovered) hmatched (hsettled.redrive hrow hpages hmoved hkept)

theorem replaying_step {a : Desk.Action} (hspace : site.unicode.isSpace 'd' = false) (hi : Replaying site db₀ k)
    (hg : onlyReplay k a = true) (hs : Step site k a k') : Replaying site db₀ k' := by
  cases a with
  | statement cid found =>
    obtain rfl : cid = 0 := of_decide_eq_true hg
    exact replaying_statement hspace hi hs
  | pipeline | call | fault => cases hg

theorem replaying_run {as : List Desk.Action} (hspace : site.unicode.isSpace 'd' = false)
    (h : GuardedRun site (fun k a => onlyReplay k a = true) (alone sys actor) as k) : Replaying site sys.db k :=
  h.invariant (.finding (AList.lookup_insert _) rfl) fun _ _ _ hi hg hs => replaying_step hspace hi hg hs

/-! ## It ends -/

/-- The call is the only one. -/
def OnlyCall (k : Desk) : Prop := ∀ i o, k.calls.lookup i = some o → i = 0

theorem onlyCall_step {a : Desk.Action} (hi : OnlyCall k) (hg : onlyReplay k a = true) (hs : Step site k a k') :
    OnlyCall k' := by
  intro i o ho
  rcases open_of_step hs ho with ⟨_, ho⟩ | ⟨_, _⟩ | ⟨_, before, _, _, hbefore, _⟩
  · exact hi i o ho
  · cases a with
    | statement cid found =>
      obtain ⟨_, r, _, _, rfl⟩ := runStatement_inv hs
      rcases goOn_lookup ho with ⟨_, ho⟩ | ⟨rfl, _⟩
      · exact hi i o ho
      · exact of_decide_eq_true hg
    | pipeline | call | fault => cases hg
  · exact hi i before hbefore

/-- The only call waits for nobody. -/
theorem lone_goes_on {o : Open} (hi : Replaying site db₀ k) (honly : OnlyCall k) (ho : k.calls.lookup 0 = some o) :
    ∃ found k', k.runStatement site 0 found = some k' := by
  have hfree : k.locked (some 0) = [] := by
    rw [List.eq_nil_iff_forall_not_mem]
    intro d hd
    obtain ⟨i, p, hne, hp, _⟩ := mem_locked.mp hd
    exact hne (congrArg some (honly i p hp))
  have hstep : ∃ found r, o.progress.step site k.sys.world found o.pending = some r := by
    cases hi with
    | ended hnone =>
      rw [hnone] at ho
      cases ho
    | finding hlookup =>
      rw [hlookup] at ho
      cases ho
      refine ⟨findReplayable site (view site k.db []), ?_⟩
      simp only [Progress.step]
      rw [if_pos (List.Perm.refl _)]
      exact ⟨_, rfl⟩
    | looping hlookup =>
      rw [hlookup] at ho
      cases ho
      exact ⟨[], _, rfl⟩
  obtain ⟨found, r, hr⟩ := hstep
  refine ⟨found, ?_⟩
  unfold runStatement
  rw [ho]
  simp only [hfree, List.not_mem_nil, decide_false, Option.any_false, Bool.false_eq_true, if_false, hr, Option.map_some]
  exact ⟨_, rfl⟩

theorem lone_ends (hspace : site.unicode.isSpace 'd' = false) (bound : Nat × Nat) : ∀ k, Replaying site db₀ k → OnlyCall k →
    (∀ o, k.calls.lookup 0 = some o → rank o.progress = bound) →
    ∃ as k', GuardedRun site (fun k a => onlyReplay k a = true) k as k' ∧ k'.calls.lookup 0 = none := by
  have hwf : WellFounded (Prod.Lex (· < ·) (· < ·) : Nat × Nat → Nat × Nat → Prop) :=
    WellFounded.prod_lex wellFounded_lt wellFounded_lt
  induction bound using hwf.induction with | _ bound ih => ?_
  intro k hi honly hbound
  cases ho : k.calls.lookup 0 with
  | none => exact ⟨[], k, .nil, ho⟩
  | some o =>
    obtain ⟨found, k', hs⟩ := lone_goes_on hi honly ho
    have hfirst : GuardedRun site (fun k a => onlyReplay k a = true) k [.statement 0 found] k' := .single rfl hs
    cases ho' : k'.calls.lookup 0 with
    | none => exact ⟨_, k', hfirst, ho'⟩
    | some o' =>
      have hnearer : Nearer o'.progress o.progress := by
        obtain ⟨before, r, hbefore, hr, rfl⟩ := runStatement_inv hs
        rw [ho] at hbefore
        cases hbefore
        rcases goOn_lookup ho' with ⟨hne, _⟩ | ⟨_, progress, hnext, rfl⟩
        · exact absurd rfl hne
        · exact statement_nearer hr hnext
      have hless : Prod.Lex (· < ·) (· < ·) (rank o'.progress) bound := hbound o ho ▸ hnearer
      obtain ⟨as, k'', hrest, hover⟩ := ih _ hless k' (replaying_statement hspace hi hs)
        (onlyCall_step (a := .statement 0 found) honly rfl hs)
        fun p hp => by rw [ho'] at hp; cases hp; rfl
      exact ⟨_, k'', hfirst.trans hrest, hover⟩

theorem replay_over (sys : Sys) (actor : String) (hspace : site.unicode.isSpace 'd' = false) :
    ∃ as k, LoneReplay site sys actor as k := by
  have honly : OnlyCall (alone sys actor) := by
    intro i o ho
    rcases eq_or_ne i 0 with h | hne
    · exact h
    · rw [alone, Table.lookup_insert_ite, if_neg hne] at ho
      cases ho
  obtain ⟨as, k, hrun, hover⟩ := lone_ends hspace _ _ (.finding (AList.lookup_insert _) rfl) honly
    fun o ho => (congrArg (fun o => rank o.progress) (Option.some.inj ho)).symm
  exact ⟨as, k, hrun, hover⟩

/-! ## The figure -/

def failedIds (db : Db) : List DocId := (parked db .failed).map Prod.fst

/-- The documents that the figure counts. -/
def stuckIds (site : Deployment) (db : Db) : List DocId :=
  (db.documents.rows.filter fun r => notReplayable site r.2).map Prod.fst

theorem nodup_filtered (db : Db) (p : DocId × Document → Bool) : ((db.documents.rows.filter p).map Prod.fst).Nodup :=
  (Table.nodup_rows db.documents).sublist (List.filter_sublist.map _)

theorem mem_filtered {p : Document → Bool} :
    d ∈ (db₀.documents.rows.filter fun r => p r.2).map Prod.fst ↔ ∃ row, db₀.documents.lookup d = some row ∧ p row = true := by
  simp only [List.mem_map, List.mem_filter, Prod.exists, exists_and_right, exists_eq_right, Table.mem_rows]

theorem mem_failedIds : d ∈ failedIds db ↔ ∃ row, db.documents.lookup d = some row ∧ row.state = .failed := by
  have h : d ∈ failedIds db ↔ ∃ row, db.documents.lookup d = some row ∧ decide (row.state = .failed) = true :=
    mem_filtered (p := fun row => decide (row.state = .failed))
  simpa only [decide_eq_true_eq] using h

/-- A failed document is counted, or is a candidate of the replay. -/
theorem failed_iff_stuck_or_replayable (site : Deployment) :
    row.state = .failed ↔ (notReplayable site row = true ∨ replayable site row = true) := by
  simp only [notReplayable, replayable, Bool.and_eq_true, Bool.or_eq_true, decide_eq_true_eq]
  tauto

theorem not_stuck_of_replayable (h : replayable site row = true) : ¬notReplayable site row = true := by
  simp only [notReplayable, replayable, Bool.and_eq_true, Bool.or_eq_true, decide_eq_true_eq] at h ⊢
  tauto

/-- What a lone replay leaves in `failed`: the counted documents and those it has refused. -/
theorem left_failed {matched redriven : List DocId} {failed : List (DocId × String)}
    (hmatched : matched.Perm (findReplayable site db₀)) (hpartition : Partition matched redriven failed)
    (hsettled : Settled db₀ db redriven (failed.map Prod.fst)) :
    (failedIds db).Perm (stuckIds site db₀ ++ failed.map Prod.fst) := by
  have hnodup : (redriven ++ failed.map Prod.fst).Nodup := hpartition.2.nodup_iff.mp hpartition.1
  have hmem : ∀ d, d ∈ findReplayable site db₀ ↔ d ∈ redriven ∨ d ∈ failed.map Prod.fst := fun d => by
    rw [← hmatched.mem_iff, hpartition.2.mem_iff, List.mem_append]
  have hrefused : ∀ d, d ∈ failed.map Prod.fst → d ∉ stuckIds site db₀ := fun d hd hstuck => by
    obtain ⟨row, hrow, _, hreplayable⟩ := candidate_of_mem ((hmem d).mpr (.inr hd))
    obtain ⟨row', hrow', hnot⟩ := mem_filtered.mp hstuck
    rw [hrow] at hrow'
    cases hrow'
    exact not_stuck_of_replayable hreplayable hnot
  refine (List.perm_ext_iff_of_nodup (nodup_filtered _ _) ?_).mpr fun d => ?_
  · refine List.nodup_append.mpr ⟨nodup_filtered _ _, (List.nodup_append.mp hnodup).2.1, fun a ha b hb hab => ?_⟩
    subst hab
    exact hrefused a hb ha
  · refine mem_failedIds.trans ?_
    rw [List.mem_append]
    by_cases hredriven : d ∈ redriven
    · -- it has left failed
      obtain ⟨_, current, hcurrent, hstate⟩ := hsettled.moved d hredriven
      obtain ⟨row, hrow, _, hreplayable⟩ := candidate_of_mem ((hmem d).mpr (.inl hredriven))
      constructor
      · rintro ⟨current', hcurrent', hfailed⟩
        rw [hcurrent] at hcurrent'
        cases hcurrent'
        exact absurd hfailed hstate
      · rintro (hstuck | hfailed)
        · obtain ⟨row', hrow', hnot⟩ := mem_filtered.mp hstuck
          rw [hrow] at hrow'
          cases hrow'
          exact absurd hnot (not_stuck_of_replayable hreplayable)
        · exact absurd rfl ((List.nodup_append.mp hnodup).2.2 d hredriven d hfailed)
    · rw [hsettled.kept d hredriven]
      constructor
      · rintro ⟨row, hrow, hfailed⟩
        rcases (failed_iff_stuck_or_replayable site).mp hfailed with hstuck | hreplayable
        · exact .inl (mem_filtered.mpr ⟨row, hrow, hstuck⟩)
        · exact .inr (((hmem d).mp (mem_filtered.mpr ⟨row, hrow, hreplayable⟩)).resolve_left hredriven)
      · rintro (hstuck | hfailed)
        · obtain ⟨row, hrow, hnot⟩ := mem_filtered.mp hstuck
          exact ⟨row, hrow, (failed_iff_stuck_or_replayable site).mpr (.inl hnot)⟩
        · obtain ⟨row, hrow, hstate, _⟩ := candidate_of_mem ((hmem d).mpr (.inr hfailed))
          exact ⟨row, hrow, hstate⟩

/-- The figure is the number left in `failed` exactly when every document that the replay
tries has a page count. -/
theorem figure_right_iff {as : List Desk.Action} (hspace : site.unicode.isSpace 'd' = false)
    (h : LoneReplay site sys actor as k) :
    (collectState site sys.db .failed).notReplayableByDlq = some (collectState site k.db .failed).total ↔
      ∀ d row, sys.document d = some row → row.state = .failed →
        (row.buildSha ≠ some site.buildSha ∨ row.promptVersion ≠ some site.promptVersion) → row.pageCount ≠ none := by
  obtain ⟨hrun, hover⟩ := h
  cases replaying_run hspace hrun with
  | finding hlookup | looping hlookup =>
    rw [hover] at hlookup
    cases hlookup
  | @ended matched redriven failed _ hmatched hpartition hsettled =>
    have hlength := (left_failed hmatched hpartition hsettled).length_eq
    have hfigure : (collectState site sys.db .failed).notReplayableByDlq = some (collectState site k.db .failed).total ↔
        failed = [] := by
      rw [List.length_append, List.length_map] at hlength
      simp only [failedIds, stuckIds, List.length_map] at hlength
      simp only [collectState, if_true, Option.some_inj, countNotReplayable]
      rw [← List.length_eq_zero_iff]
      omega
    rw [hfigure]
    constructor
    · rintro rfl d row hrow hstate hstamps
      have hreplayable : replayable site row = true := by
        simp only [replayable, hstate, decide_true, Bool.true_and, Bool.or_eq_true, decide_eq_true_eq]
        exact hstamps
      have hd : d ∈ redriven := by
        have hmem := hmatched.mem_iff.mpr (mem_filtered.mpr ⟨row, hrow, hreplayable⟩)
        rw [hpartition.2.mem_iff, List.map_nil, List.append_nil] at hmem
        exact hmem
      obtain ⟨⟨row', hrow', hpages⟩, _⟩ := hsettled.moved d hd
      have hsame : row' = row := Option.some.inj (hrow'.symm.trans hrow)
      exact hsame ▸ hpages
    · intro hpages
      rw [List.eq_nil_iff_forall_not_mem]
      intro refusal hrefusal
      have hd : refusal.1 ∈ failed.map Prod.fst := List.mem_map_of_mem hrefusal
      obtain ⟨row, hrow, hnone⟩ := hsettled.refused _ hd
      have hcandidate : refusal.1 ∈ findReplayable site sys.db :=
        hmatched.mem_iff.mp (hpartition.2.mem_iff.mpr (List.mem_append_right _ hd))
      obtain ⟨row', hrow', hstate, hreplayable⟩ := candidate_of_mem hcandidate
      rw [hrow] at hrow'
      cases hrow'
      simp only [replayable, hstate, decide_true, Bool.true_and, Bool.or_eq_true, decide_eq_true_eq] at hreplayable
      exact hpages _ row hrow hstate hreplayable hnone

/-- At any stamps, a lone replay ends, and however it runs the figure is right exactly when
every document it tries has a page count. -/
theorem stuck_count_right_iff (site : Deployment) (sys : Sys) (actor : String) (hspace : site.unicode.isSpace 'd' = false) :
    (∃ as k, LoneReplay site sys actor as k) ∧ ∀ as k, LoneReplay site sys actor as k →
      ((collectState site sys.db .failed).notReplayableByDlq = some (collectState site k.db .failed).total ↔
        ∀ d row, sys.document d = some row → row.state = .failed →
          (row.buildSha ≠ some site.buildSha ∨ row.promptVersion ≠ some site.promptVersion) → row.pageCount ≠ none) :=
  ⟨replay_over sys actor hspace, fun _ _ h => figure_right_iff hspace h⟩

/-- The run of an invoice dies at the cap; every document has its page count. -/
def invoiceFailed : List Sys.Action :=
  Schedule.intake ["a.pdf"] ++ Schedule.textLayer 0 ++ [.receive 0 .ocrCompleted 0 0] ++ Schedule.turns 0 1 ++
    [.crash 0, .tick 31 0] ++ Schedule.sweep 1 ++ Schedule.publish 1 ++ [.receive 0 .ocrCompleted 0 1] ++
    Schedule.turns 0 1 ++ diesAtCap

def failedWithPages (s : Sys) : Bool :=
  ((s.document "crc32c-a").any fun row => row.state = .failed) && s.db.documents.rows.all fun r => r.2.pageCount.isSome

theorem failed_invoice_counted :
    ∃ sys as k, (sys.document "crc32c-a").any (fun row => row.state = .failed) = true ∧
      LoneReplay (oneAttempt oneInvoice) sys "dlq-replay-cron" as k ∧
      (collectState (oneAttempt oneInvoice) sys.db .failed).notReplayableByDlq =
        some (collectState (oneAttempt oneInvoice) k.db .failed).total := by
  obtain ⟨sys, _, hsys⟩ := Sys.exists_freeRun (oneAttempt oneInvoice) invoiceFailed failedWithPages (by decide +kernel)
  rw [failedWithPages, Bool.and_eq_true, List.all_eq_true] at hsys
  obtain ⟨hfailed, hpages⟩ := hsys
  obtain ⟨⟨as, k, hrun⟩, hright⟩ := stuck_count_right_iff (oneAttempt oneInvoice) sys "dlq-replay-cron" (by decide +kernel)
  refine ⟨sys, as, k, hfailed, hrun, (hright as k hrun).mpr fun d row hrow _ _ => ?_⟩
  exact Option.isSome_iff_ne_none.mp (hpages (d, row) (Table.mem_rows.mpr hrow))

def emptyUpload : Deployment :=
  .defaults fun path => if path = "a.pdf" then some ⟨"a", 0, some Pdf.pdfType, .corrupt "empty"⟩ else none

def triageEmpty : List Sys.Action :=
  [.spawn 0 (.orphanScan ["a.pdf"])] ++ Schedule.turns 0 3 ++ Schedule.publish 1 ++ [.receive 0 .triageRequests 0 0] ++
    Schedule.turns 0 1

/-- Triage has failed an empty object; a replay leaves it in `failed`, and no figure counts it. -/
theorem empty_upload_not_counted :
    ∃ sys, Sys.FreeRun emptyUpload Sys.initial triageEmpty sys ∧
      ¬∀ as k, LoneReplay emptyUpload sys "dlq-replay-cron" as k →
        (collectState emptyUpload sys.db .failed).notReplayableByDlq = some (collectState emptyUpload k.db .failed).total := by
  obtain ⟨sys, hrun, hsys⟩ := Sys.exists_freeRun emptyUpload triageEmpty
    (fun s => (s.document "crc32c-a").any fun row => row.state = .failed && row.buildSha = none && row.pageCount = none)
    (by decide +kernel)
  refine ⟨sys, hrun, fun hclaim => ?_⟩
  have hspace : emptyUpload.unicode.isSpace 'd' = false := by decide +kernel
  obtain ⟨as, k, hreplay⟩ := replay_over sys "dlq-replay-cron" hspace
  obtain ⟨row, hrow, htest⟩ := (Option.any_eq_true ..).mp hsys
  simp only [Bool.and_eq_true, decide_eq_true_eq] at htest
  obtain ⟨⟨hfailed, hsha⟩, hpages⟩ := htest
  exact (figure_right_iff hspace hreplay).mp (hclaim as k hreplay) _ row hrow hfailed
    (.inl (by rw [hsha]; exact (Option.some_ne_none _).symm)) hpages

end DocPipeline.Audit

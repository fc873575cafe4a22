import DocPipeline.Audit.Join
import DocPipeline.Effects.Desk

/-!
# Does DLQ replay repeat itself at one version?

`find_replayable` reads the version that the extraction worker stamps on a row when it
opens it. A document that fails before it gets there carries no stamp of the version that
has just failed on it, and is found again. And the list is read once: a document may have
moved on by the time its turn comes. Replay is at most once a version exactly as long as
neither happens.
-/
namespace DocPipeline.Audit

set_option autoImplicit false

open Lib Lib.Transaction Ledger Desk

variable {site : Deployment} {d docId : DocId} {db db' : Db} {row row' : Document}

theorem mem_findReplayable : d ∈ findReplayable site db ↔
    ∃ row, db.documents.lookup d = some row ∧ replayable site row = true := by
  simp only [findReplayable, List.mem_map, List.mem_filter, Prod.exists, exists_and_right, exists_eq_right,
    Table.mem_rows]

/-- The document is there, and `find_replayable` does not select it. -/
def Spent (site : Deployment) (d : DocId) (db : Db) : Prop :=
  (db.documents.lookup d).map (replayable site) = some false

theorem Spent.not_mem (h : Spent site d db) : d ∉ findReplayable site db := by
  intro hmem
  obtain ⟨row, hrow, hcandidate⟩ := mem_findReplayable.mp hmem
  rw [Spent, hrow, Option.map_some, hcandidate] at h
  cases h

theorem Spent.of_lookup (h : Spent site d db) (hdocs : db'.documents.lookup d = db.documents.lookup d) :
    Spent site d db' := by
  rw [Spent, hdocs]
  exact h

/-- The row's stamp is of this version. -/
def stamped (site : Deployment) (row : Document) : Bool :=
  row.buildSha = some site.buildSha && row.promptVersion = some site.promptVersion

theorem replayable_of_stamped (h : stamped site row = true) : replayable site row = false := by
  rw [stamped, Bool.and_eq_true, decide_eq_true_eq, decide_eq_true_eq] at h
  simp [replayable, h.1, h.2]

theorem replayable_of_state (h : row.state ≠ .failed) : replayable site row = false := by
  simp [replayable, h]

/-- An update of one row keeps every document spent, if it keeps its own so. -/
theorem Spent.write (h : Spent site d db) (hrow : db.documents.lookup docId = some row)
    (hkept : replayable site row = false → replayable site row' = false) :
    Spent site d (db.write docId row row') := by
  unfold Spent at h ⊢
  rw [Db.write_lookup]
  by_cases hd : d = docId
  · subst hd
    rw [hrow, Option.map_some, Option.some.injEq] at h
    rw [if_pos rfl, Option.map_some, hkept h]
  · rwa [if_neg hd]

/-- Only a move to `failed` and the bookkeeping can make a candidate. -/
theorem spent_of_operation {op : Operation} (h : Operation.Step db op db') (hmove : op ≠ .move d .failed)
    (hnote : ∀ notes, op ≠ .note d notes) (hi : Spent site d db) : Spent site d db' := by
  by_cases hw : op.writes = some d
  · cases h with
    | insert hnone =>
      cases hw
      rw [Spent, hnone] at hi
      cases hi
    | move hrow _ _ _ =>
      cases hw
      exact hi.write hrow fun _ => replayable_of_state fun he => hmove (congrArg _ he)
    | note =>
      cases hw
      exact absurd rfl (hnote _)
    | fallThrough hrow | split hrow | rekey hrow => exact hi.write hrow id
    | @recordShard docId row shardIdx hrow _ =>
      have hclaimed : Spent site d { db with documentShards := (docId, shardIdx) :: db.documentShards } := hi
      exact hclaimed.write hrow id
    | route hrow | settle hrow | post hrow | accept hrow =>
      exact hi.write hrow fun _ => replayable_of_state fun he => nomatch he
    | send | aside => cases hw
  · exact hi.of_lookup (h.elsewhere hw).1

theorem spent_of_performs {May : Db → Operation → Prop} (h : Performs May db db')
    (hmay : ∀ m op, May m op → op ≠ .move d .failed ∧ ∀ notes, op ≠ .note d notes) (hi : Spent site d db) :
    Spent site d db' :=
  h.invariant (P := Spent site d) hi fun _ _ _ hm hop hs => spent_of_operation hs (hmay _ _ hop).1 (hmay _ _ hop).2 hm

/-- The steps that fail a document or write its bookkeeping. -/
def marks : Task → Bool
  | .sweep (.claiming _ _) | .extraction _ (.stamping _) | .extraction _ (.counting _ _)
  | .extraction _ (.extracting _ _) => true
  | _ => false

theorem unmarked_of_does {start m : Db} {task : Task} {op : Operation} (h : task.Does site start m op)
    (hmarks : marks task = false) : op ≠ .move d .failed ∧ ∀ notes, op ≠ .note d notes := by
  cases task with
  | orphanScan | triage | acceptReview =>
    cases h <;> exact ⟨nofun, nofun⟩
  | killSwitch =>
    obtain rfl := h
    exact ⟨nofun, nofun⟩
  | textEmbedded =>
    obtain ⟨_, _, _, h⟩ := h
    cases h <;> exact ⟨nofun, nofun⟩
  | ocrSplit | ocrShard =>
    cases h <;> exact ⟨nofun, nofun⟩
  | extraction =>
    cases h with
    | stamping | counting | funnel | logging => cases hmarks
    | opening | routing | exhausted | holding | posting | losing =>
      exact ⟨nofun, nofun⟩
  | sweep =>
    cases h with
    | claim | note => cases hmarks
    | redrive => exact ⟨nofun, nofun⟩
  | forceRedrive =>
    cases h with
    | @move _ row target =>
      refine ⟨fun he => ?_, nofun⟩
      cases target <;> cases he
    | redrive | audit => exact ⟨nofun, nofun⟩

/-! ## The steps that mark a document -/

/-- The claim of a sweep that fails a document this version has stamped, or none of `replayed`. -/
def stampedAtCap (site : Deployment) (replayed : List DocId) (s : Sys) : Sys.Action → Bool
  | .run tid _ =>
    match s.tasks tid with
    | some (.sweep (.claiming cap locked)) =>
      (Sweeper.claimStuckBatch site s.db cap locked).all fun r =>
        r.1 ∉ replayed || !Sweeper.capped site r.2 || stamped site r.2
    | _ => true
  | _ => true

/-- What a step that marks makes of the row of `d`. -/
inductive Marked (site : Deployment) (db : Db) (d : DocId) (row : Document) : Task → Document → Prop
  | stamped {doc : Option Document} : Marked site db d row (.extraction d (.stamping doc))
      { row with buildSha := some site.buildSha, promptVersion := some site.promptVersion }
  | counted {doc : Document} {assembled : Artifact} : Marked site db d row (.extraction d (.counting doc assembled))
      { AttemptColumn.bump .extractAttempts 1 row with repairAttempts := 0 }
  | repaired {assembled : Artifact} {attemptNo n : Nat} :
      Marked site db d row (.extraction d (.extracting assembled attemptNo)) (AttemptColumn.bump .repairAttempts n row)
  | swept {cap : Nat} {locked : List DocId} : (d, row) ∈ Sweeper.claimStuckBatch site db cap locked →
      Marked site db d row (.sweep (.claiming cap locked)) (Sweeper.swept site row db.now)

theorem claimBatch_marks {cap : Nat} {locked : List DocId} {claimed : List (DocId × Document)}
    (h : Commits (Sweeper.claimBatch site cap locked) db claimed db') (d : DocId) :
    db'.documents.lookup d = db.documents.lookup d ∨
      ∃ row, (d, row) ∈ Sweeper.claimStuckBatch site db cap locked ∧ db.documents.lookup d = some row ∧
        db'.documents.lookup d = some (Sweeper.swept site row db.now) := by
  simp only [Sweeper.claimBatch, commits_bind, commits_get] at h
  obtain ⟨_, _, ⟨rfl, rfl⟩, h⟩ := h
  have hrows : ∀ r, r ∈ Sweeper.claimStuckBatch site db cap locked → db.documents.lookup r.1 = some r.2 :=
    fun r hr => (Sweeper.claimStuckBatch_current r hr).1
  by_cases hmem : d ∈ (Sweeper.claimStuckBatch site db cap locked).map Prod.fst
  · obtain ⟨⟨_, row⟩, hr, rfl⟩ := List.mem_map.mp hmem
    obtain ⟨db'', hall, hswept⟩ := Sweeper.claimRows_succeeds site hrows Sweeper.claimStuckBatch_nodup
    have hsame : db'' = db' := (Prod.mk.inj (Except.ok.inj (hall.symm.trans h))).2
    exact Or.inr ⟨row, hr, hrows _ hr, hsame ▸ hswept _ hr⟩
  · exact Or.inl ((Sweeper.claimRows_elsewhere hrows Sweeper.claimStuckBatch_nodup h).1 hmem)

theorem updateDocument_lookup {f : Document → Document} {u : Unit} (h : Commits (updateDocument docId f) db u db')
    (d : DocId) : db'.documents.lookup d =
      if d = docId then (db.documents.lookup d).map f else db.documents.lookup d := by
  rcases updateDocument_commits.mp h with ⟨row, hrow, rfl⟩ | ⟨hnone, rfl⟩
  · rw [Db.write_lookup]
    split
    · next hd => rw [hd, hrow, Option.map_some]
    · rfl
  · split
    · next hd => rw [hd, hnone, Option.map_none]
    · rfl

/-- A step that marks leaves the row of any document alone, or marks it. -/
theorem marked_of_task {w : World} {input : Input} {task : Task} {r : World × Option Task}
    (hr : task.step site w input = some r) (hmarks : marks task = true) (d : DocId) :
    r.1.db.documents.lookup d = w.db.documents.lookup d ∨
      ∃ row row', w.db.documents.lookup d = some row ∧ r.1.db.documents.lookup d = some row' ∧
        Marked site w.db d row task row' := by
  cases task with
  | sweep pc =>
    cases pc with
    | claiming cap locked =>
      cases hr
      simp only [Sweeper.step]
      rcases w.transact_cases (Sweeper.claimBatch site cap locked)
        (fun rows => (.goto (.redriving rows) : Next Sweeper.Pc Unit)) .raised with ⟨_, db, hc, he⟩ | ⟨_, he⟩
      · rw [he]
        rcases claimBatch_marks hc d with hkept | ⟨row, hmem, hrow, hrow'⟩
        · exact Or.inl hkept
        · exact Or.inr ⟨row, _, hrow, hrow', .swept hmem⟩
      · rw [he]
        exact Or.inl rfl
    | redriving => cases hmarks
  | extraction docId pc =>
    cases hr
    -- the rows of other documents stay, and so does a document that is not there
    have hmarked : ∀ {db : Db} {f : Document → Document},
        (db.documents.lookup d = if d = docId then (w.db.documents.lookup d).map f else w.db.documents.lookup d) →
        (∀ row, Marked site w.db docId row (.extraction docId pc) (f row)) →
        db.documents.lookup d = w.db.documents.lookup d ∨ ∃ row row', w.db.documents.lookup d = some row ∧
          db.documents.lookup d = some row' ∧ Marked site w.db d row (.extraction docId pc) row' := by
      intro db f hlookup hf
      split at hlookup
      · next hd =>
        subst hd
        cases hrow : w.db.documents.lookup d with
        | none => exact Or.inl (by rw [hlookup, hrow, Option.map_none])
        | some row => exact Or.inr ⟨row, f row, rfl, by rw [hlookup, hrow, Option.map_some], hf row⟩
      · exact Or.inl hlookup
    cases pc with
    | stamping doc =>
      cases doc with
      | none => exact Or.inl rfl
      | some doc =>
        simp only [Extraction.step]
        rcases w.transact_cases (stampBuildInfo docId site.buildSha site.promptVersion)
          (fun _ => (.goto (.looking doc) : Next Extraction.Pc Extraction.Result)) .raised with ⟨_, db, hc, he⟩ | ⟨_, he⟩
        · rw [he]
          exact hmarked (updateDocument_lookup hc d) fun _ => .stamped
        · rw [he]
          exact Or.inl rfl
    | counting doc assembled =>
      simp only [Extraction.step]
      rcases w.transact_cases (Extraction.countAttempt docId)
        (fun attemptNo => (.goto (.extracting assembled attemptNo) : Next Extraction.Pc Extraction.Result)) .raised with
        ⟨_, db, hc, he⟩ | ⟨_, he⟩
      · rw [he]
        simp only [Extraction.countAttempt, commits_bind, commits_pure, incrementAttempts_commits] at hc
        obtain ⟨_, _, ⟨row, hrow, _, rfl⟩, _, _, hreset, _, rfl⟩ := hc
        refine hmarked ?_ fun _ => .counted
        rw [updateDocument_lookup hreset, Db.write_lookup]
        split
        · next hd =>
          rw [hd, hrow]
          rfl
        · rfl
      · rw [he]
        exact Or.inl rfl
    | extracting assembled attemptNo =>
      simp only [Extraction.step]
      rcases w.transact_cases (Extraction.funnelWrites docId input.verdict) _ _ with ⟨_, db, hc, he⟩ | ⟨_, he⟩
      · rw [he]
        simp only [Extraction.funnelWrites, commits_bind, logAttempts, commits_modify] at hc
        obtain ⟨_, m, hbump, rfl⟩ := hc
        exact hmarked (updateDocument_lookup hbump d) fun _ => .repaired
      · rw [he]
        exact Or.inl rfl
    | opening | selecting | looking | gathering | readingBack | routing | exhausted | checkingFlag | holding | posting =>
      cases hmarks
  | orphanScan | triage | textEmbedded | ocrSplit | ocrShard | forceRedrive | acceptReview | killSwitch => cases hmarks

/-- The stamp ends a candidacy, the counters leave it as it is, and a sweep makes candidates
only of what it fails. -/
theorem replayable_of_marked {task : Task} (h : Marked site db d row task row')
    (hcap : ∀ cap locked, task = .sweep (.claiming cap locked) → (d, row) ∈ Sweeper.claimStuckBatch site db cap locked →
      Sweeper.capped site row = true → stamped site row = true)
    (hi : replayable site row = false) : replayable site row' = false := by
  cases h with
  | stamped => exact replayable_of_stamped (by simp [stamped])
  | counted | repaired => exact hi
  | @swept cap locked hmem =>
    have hflight : row.state.inFlight = true := (Sweeper.claimStuckBatch_current _ hmem).2
    unfold Sweeper.swept
    split
    · next hcapped =>
      have hstamped : stamped site (Sweeper.retired site row db.now) = true := hcap cap locked rfl hmem hcapped
      exact replayable_of_stamped hstamped
    · refine replayable_of_state fun he => ?_
      cases hstate : row.state <;> simp [hstate, Sweeper.reset, DocState.inFlight, DocState.toPending,
        Document.moved] at he hflight

theorem spent_of_task {w : World} {input : Input} {task : Task} {r : World × Option Task}
    (hr : task.step site w input = some r)
    (hcap : ∀ cap locked, task = .sweep (.claiming cap locked) → ∀ row,
      (d, row) ∈ Sweeper.claimStuckBatch site w.db cap locked → Sweeper.capped site row = true → stamped site row = true)
    (hi : Spent site d w.db) : Spent site d r.1.db := by
  by_cases hmarks : marks task = true
  · rcases marked_of_task hr hmarks d with hkept | ⟨row, row', hrow, hrow', hmarked⟩
    · exact hi.of_lookup hkept
    · rw [Spent, hrow, Option.map_some, Option.some.injEq] at hi
      have hspent : replayable site row' = false :=
        replayable_of_marked hmarked (fun cap locked he => hcap cap locked he row) hi
      rw [Spent, hrow', Option.map_some, hspent]
  · exact spent_of_performs (Task.step_performs hr)
      (fun _ _ hdoes => unmarked_of_does hdoes (Bool.eq_false_iff.mpr hmarks)) hi

theorem spent_of_step {s t : Sys} {act : Sys.Action} {replayed : List DocId} (hs : Sys.Step site s act t)
    (hg : stampedAtCap site replayed s act = true) (hd : d ∈ replayed) (hi : Spent site d s.db) : Spent site d t.db := by
  cases Sys.step_kind hs with
  | idle => exact hi
  | @ran tid input task r htask hr =>
    refine spent_of_task hr (fun cap locked he row hrow hcapped => ?_) hi
    subst he
    simp only [stampedAtCap, htask, List.all_eq_true, Bool.or_eq_true, Bool.not_eq_true'] at hg
    rcases hg (d, row) hrow with (hnot | hnot) | hstamped
    · exact absurd hd (of_decide_eq_true hnot)
    · rw [hcapped] at hnot
      cases hnot
    · exact hstamped
  | relayed hrelay => exact hi.of_lookup (by rw [(Sys.relay_keeps hrelay).1.documents])
  | sunk hsink =>
    rcases Sys.sink_posts hsink with hdb | ⟨_, _, _, _, _, hdb⟩
    · rwa [hdb]
    · exact hi.of_lookup (by rw [hdb])

/-! ## The desk -/

variable {action : BreakGlass} {k k' : Desk} {a : Desk.Action}

theorem forceRedrive_lookup {reason actor : String} (h : (BreakGlass.forceRedrive docId reason actor).Makes site db db') :
    ∃ current state, db.documents.lookup docId = some current ∧ state ≠ .failed ∧
      ∀ d, db'.documents.lookup d = if d = docId then some (current.moved state db.now) else db.documents.lookup d := by
  cases h with
  | @forceRedrive _ _ _ _ _ target _ hc =>
    simp only [Operator.forceRedriveTx, commits_bind, transition_default_commits] at hc
    obtain ⟨_, _, ⟨current, hrow, _, _, rfl⟩, _, m, hsend, haudit⟩ := hc
    refine ⟨current, target.state, hrow, fun he => ?_, fun d => ?_⟩
    · cases target <;> cases he
    · rw [audit_commits.mp haudit]
      change m.documents.lookup d = _
      rw [(Sweeper.redriveDocument_kept hsend).1, Db.write_lookup]

theorem spent_of_redrive {reason actor : String}
    (h : (BreakGlass.forceRedrive docId reason actor).Makes site db db') : Spent site docId db' := by
  obtain ⟨current, state, _, hstate, hlookup⟩ := forceRedrive_lookup h
  have hmoved : (current.moved state db.now).state ≠ .failed := hstate
  rw [Spent, hlookup, if_pos rfl, Option.map_some, replayable_of_state hmoved]

/-- No action of the desk makes a candidate. -/
theorem spent_of_makes (h : action.Makes site db db') (hi : Spent site d db) : Spent site d db' := by
  cases action with
  | forceRedrive docId reason actor =>
    by_cases hd : d = docId
    · subst hd
      exact spent_of_redrive h
    · obtain ⟨_, _, _, _, hlookup⟩ := forceRedrive_lookup h
      exact hi.of_lookup (by rw [hlookup, if_neg hd])
  | acceptReview docId reason actor =>
    cases h with
    | @acceptReview _ _ _ row _ hc =>
      obtain ⟨current, m, hrow, _, rfl, hsame⟩ := Operator.acceptReviewTx_commits hc
      let accepted := current.accepted (Operator.overridden row.gateResults reason actor) db.now
      have hwritten : Spent site d (db.write docId current accepted) :=
        hi.write hrow fun _ => replayable_of_state nofun
      exact hwritten.of_lookup (by rw [hsame.documents]; rfl)
  | setKillSwitch enabled reason actor =>
    cases h with
    | setKillSwitch hc =>
      obtain ⟨_, rfl⟩ := Operator.setKillSwitch_commits.mp hc
      exact hi

/-- A sweep fails no replayed document without the stamp of this version, and a replay
commits only on a document that is still a candidate. -/
def replaysCurrent (site : Deployment) (k : Desk) : Desk.Action → Bool
  | .pipeline act => stampedAtCap site k.replayed k.sys act
  | .statement cid _ =>
    match k.calls.lookup cid with
    | some ⟨.looping ⟨.dlqReplay _, _, _, _, _⟩ docId (.writing []), _⟩ => docId ∈ findReplayable site k.db
    | _ => true
  | .call _ _ | .fault _ => true

/-- What has been replayed is replayed no more. -/
structure Once (site : Deployment) (k : Desk) : Prop where
  nodup : k.replayed.Nodup
  spent : ∀ d, d ∈ k.replayed → Spent site d k.db

theorem once_step (hi : Once site k) (hsound : k.Sound site) (hg : replaysCurrent site k a = true)
    (hs : Step site k a k') : Once site k' := by
  unfold Step step at hs
  cases a with
  | pipeline act =>
    obtain ⟨sys, hsys, hs⟩ := Option.bind_eq_some_iff.mp hs
    split at hs <;> cases hs
    exact ⟨hi.nodup, fun d hd => spent_of_step hsys hg hd (hi.spent d hd)⟩
  | call cid call =>
    dsimp only at hs
    split at hs <;> cases hs
    exact ⟨hi.nodup, hi.spent⟩
  | fault cid =>
    obtain ⟨_, _, rfl⟩ := Option.map_eq_some_iff.mp hs
    exact ⟨hi.nodup, hi.spent⟩
  | statement cid found =>
    obtain ⟨⟨progress, pending⟩, r, ho, hr, rfl⟩ := runStatement_inv hs
    have hprogress : progress.Sound site pending := hsound cid _ ho
    have hkept : ∀ d, Spent site d k.db → Spent site d r.1.db := by
      intro d hd
      cases Progress.step_went hprogress hr with
      | kept => exact hd
      | acted _ _ hmakes => exact spent_of_makes hmakes hd
      | concluded _ hc =>
        rw [audit_commits.mp hc]
        exact hd
    cases hreplays : progress.replays site k.sys.world pending with
    | none => exact ⟨hi.nodup, fun d hd => hkept d (hi.spent d hd)⟩
    | some docId =>
      obtain ⟨loop, actor, rfl, hjob, hmakes⟩ := Progress.replays_makes hprogress hr hreplays
      obtain ⟨_, matched, rest, redriven, failed⟩ := loop
      obtain rfl := hjob
      have hcandidate : docId ∈ findReplayable site k.db := by simpa [replaysCurrent, ho] using hg
      refine ⟨List.nodup_cons.mpr ⟨fun hmem => (hi.spent docId hmem).not_mem hcandidate, hi.nodup⟩, fun d hd => ?_⟩
      rcases List.mem_cons.mp hd with rfl | hd
      · exact spent_of_redrive hmakes
      · exact hkept d (hi.spent d hd)

/-- In every run at one version in which replays are current and fail after their stamp,
each document is replayed at most once, and is no candidate from then on. -/
theorem replayed_once {sys : Sys} {as : List Desk.Action}
    (h : GuardedRun site (fun k a => replaysCurrent site k a = true) { sys := sys } as k) :
    k.replayed.Nodup ∧ ∀ d, d ∈ k.replayed → d ∉ findReplayable site k.db := by
  have honce : Once site k ∧ k.Sound site :=
    h.invariant (P := fun k => Once site k ∧ k.Sound site) ⟨⟨List.nodup_nil, nofun⟩, fun _ _ ho => nomatch ho⟩
      fun _ _ _ hi hg hs => ⟨once_step hi.1 hi.2 hg hs, sound_step hi.2 hs⟩
  exact ⟨honce.1.nodup, fun d hd => (honce.1.spent d hd).not_mem⟩

/-! ## Two failures -/

/-- A budget of one attempt in each stage. -/
def oneAttempt (site : Deployment) : Deployment := { site with maxTextAttempts := 1, maxExtractAttempts := 1 }

/-- The run in slot 0 dies, and the sweeper finds the budget of its document spent. -/
def diesAtCap : List Sys.Action := [.crash 0, .tick 31 0, .spawn 1 (.sweep 50 [])] ++ Schedule.turns 1 2

/-- One invocation of `dlq_replay.run` that finds these documents. -/
def replay (found : List DocId) : List Desk.Action :=
  [.call 0 (.dlqReplay "dlq-replay-cron" false), .statement 0 found] ++ statements 0 (7 * found.length)

/-- Two extraction runs die before the stamp; the replayed one dies after it, and the next
invocation finds nothing. -/
def failsAfterStamp : List Desk.Action :=
  pipeline (Schedule.intake ["a.pdf"] ++ Schedule.textLayer 0 ++ [.receive 0 .ocrCompleted 0 0] ++
    Schedule.turns 0 1 ++ [.crash 0, .tick 31 0] ++ Schedule.sweep 1 ++ Schedule.publish 1 ++
    [.receive 0 .ocrCompleted 0 1] ++ Schedule.turns 0 1 ++ diesAtCap) ++
  replay ["crc32c-a"] ++
  pipeline (Schedule.publish 1 ++ [.receive 0 .ocrCompleted 0 2] ++ Schedule.turns 0 3 ++ diesAtCap) ++ replay []

def failedAgain (k : Desk) : Bool :=
  k.replayed = ["crc32c-a"] && (k.sys.document "crc32c-a").any fun row => row.state = .failed

theorem stamped_failure_stays :
    ∃ k, GuardedRun (oneAttempt oneInvoice) (fun k a => replaysCurrent (oneAttempt oneInvoice) k a = true) {}
        failsAfterStamp k ∧ failedAgain k = true ∧ "crc32c-a" ∉ findReplayable (oneAttempt oneInvoice) k.db := by
  obtain ⟨k, hrun, hk⟩ := Desk.exists_guardedRun (oneAttempt oneInvoice) (replaysCurrent (oneAttempt oneInvoice))
    failsAfterStamp failedAgain (by decide +kernel)
  refine ⟨k, hrun, hk, (replayed_once hrun).2 "crc32c-a" ?_⟩
  rw [failedAgain, Bool.and_eq_true, decide_eq_true_eq] at hk
  rw [hk.1]
  exact List.mem_singleton_self _

/-- The worker dies over a page twice, and over the split of the replayed document. -/
def failsInText : List Desk.Action :=
  pipeline (splitInTwo ++ [.tick 31 0] ++ Schedule.sweep 1 ++ Schedule.publish 2 ++ [.receive 0 .ocrShard 0 0] ++
    Schedule.turns 0 1 ++ diesAtCap) ++
  replay ["crc32c-a"] ++
  pipeline (Schedule.publish 1 ++ [.receive 0 .ocrSplit 0 1] ++ Schedule.turns 0 1 ++ diesAtCap) ++
  replay ["crc32c-a"]

/-- No stage before extraction stamps the row: the document is replayed again at once. -/
theorem text_failure_replayed_twice :
    ¬ ∀ (site : Deployment) (as : List Desk.Action) (k : Desk), FreeRun site {} as k →
      k.replayed.Nodup ∧ ∀ d, d ∈ k.replayed → d ∉ findReplayable site k.db := by
  intro hclaim
  obtain ⟨k, hrun, hk⟩ := Desk.exists_guardedRun (oneAttempt oneScan) (fun _ _ => true) failsInText
    (fun k => k.replayed = ["crc32c-a", "crc32c-a"]) (by decide +kernel)
  have hnodup := (hclaim (oneAttempt oneScan) _ k hrun.unguarded).1
  rw [of_decide_eq_true hk] at hnodup
  exact absurd hnodup (by decide)

end DocPipeline.Audit

import DocPipeline.Core.Operation
import DocPipeline.Reconciliation.Operator
import DocPipeline.Effects.TextProduction

/-!
# What the sweeper and the operator do to the ledger

The sweep's claim reads its rows and moves them in one transaction, so it moves a row
out of an in-flight state only. Its messages, and those of a forced re-drive, are built
from a row that may be old by then.
-/
namespace DocPipeline

set_option autoImplicit false

open Lib Lib.Transaction Ledger

/-- The states the sweeper looks at. -/
def DocState.inFlight : DocState → Bool
  | .textPending | .textRunning | .extractPending | .extractRunning => true
  | _ => false

namespace Sweeper

variable {site : Deployment} {docId : DocId} {row : Document} {db db' : Db}

/-- What `redrive_document` sends for a row. -/
inductive Redrives (site : Deployment) (docId : DocId) (row : Document) : Topic → Payload → Prop
  | dispatch {topic : Topic} {total : Nat} : row.state.isText = true → row.shardsTotal ≤ 1 →
      routeTextProduction site row.hasTextLayer row.pageCount = .ok (topic, total) →
      Redrives site docId row topic (buildDispatchPayload topic docId row.gcsPath row.pageCount)
  | shard {n idx : Nat} : row.state = .textRunning → 1 < row.shardsTotal → row.pageCount = some n →
      idx < row.shardsTotal →
      Redrives site docId row .ocrShard (.shard (missingShardPayload site docId row n idx))
  | split : row.state = .textPending → 1 < row.shardsTotal →
      Redrives site docId row .ocrSplit (.dispatch docId row.gcsPath row.pageCount)
  | completed : row.state = .extractPending ∨ row.state = .extractRunning →
      Redrives site docId row .ocrCompleted (.completed docId)

theorem Redrives.topic {topic : Topic} {payload : Payload} (h : Redrives site docId row topic payload) :
    topic ≠ .documentExtracted := by
  cases h with
  | dispatch _ _ hroute => rcases PdfWorker.route_topic hroute with rfl | rfl | rfl <;> decide
  | shard | split | completed => decide

inductive Does (site : Deployment) : Pc → Db → Operation → Prop
  | claim {db : Db} {cap : Nat} {locked : List DocId} {docId : DocId} {row : Document} {toState : DocState} :
      db.documents.lookup docId = some row → row.state.inFlight = true →
      Does site (.claiming cap locked) db (.move docId toState)
  | note {db : Db} {cap : Nat} {locked : List DocId} {docId : DocId} {notes : Notes} :
      Does site (.claiming cap locked) db (.note docId notes)
  | redrive {db : Db} {docId : DocId} {row : Document} {rest : List (DocId × Document)} {topic : Topic}
      {payload : Payload} : Redrives site docId row topic payload →
      Does site (.redriving ((docId, row) :: rest)) db (.send docId topic payload)

theorem stuck_inFlight {now : Nat} (h : stuck site now row = true) : row.state.inFlight = true := by
  unfold stuck textStates extractStates at h
  cases hs : row.state <;> simp [hs, DocState.inFlight] at h ⊢

/-- Only messages are sent, all of them for the row's stage. -/
theorem redriveDocument_performs {May : Db → Operation → Prop} {u : Unit}
    (hmay : ∀ db₁ topic payload, db₁.documents = db.documents →
      Redrives site docId row topic payload → May db₁ (.send docId topic payload))
    (h : Commits (redriveDocument site docId row) db u db') : Performs May db db' := by
  have hsend : ∀ topic payload, Redrives site docId row topic payload →
      Performs May db (db.insertOutbox docId topic payload) := fun topic payload hr =>
    Reaches.single (hmay db topic payload rfl hr) (.send hr.topic)
  unfold redriveDocument at h
  rw [commits_ite] at h
  rcases h with ⟨⟨htext, hone⟩, h⟩ | ⟨hnot, h⟩
  · unfold redriveDispatch at h
    split at h
    · exact absurd h commits_throw
    · next topic total hroute =>
      rw [enqueue_commits.mp h]
      exact hsend _ _ (.dispatch htext hone hroute)
  · have hmany : row.state.isText = true → 1 < row.shardsTotal := fun ht =>
      Nat.lt_of_not_le fun hle => hnot ⟨ht, hle⟩
    split at h
    · next hstate =>
      have htotal := hmany (by rw [hstate]; rfl)
      simp only [redriveShards, commits_bind, commits_get] at h
      obtain ⟨_, _, ⟨rfl, rfl⟩, h⟩ := h
      split at h
      · next n hn =>
        refine performs_enqueueMany h ?_ ?_
        · intro r hr
          obtain ⟨idx, _, rfl⟩ := List.mem_map.mp hr
          intro htopic
          cases htopic
        · intro db₁ r hr hd
          obtain ⟨idx, hidx, rfl⟩ := List.mem_map.mp hr
          have hlt : idx < row.shardsTotal := List.mem_range.mp (List.mem_of_mem_filter hidx)
          exact hmay db₁ _ _ hd (.shard hstate htotal hn hlt)
      · rw [commits_ite] at h
        rcases h with ⟨_, h⟩ | ⟨_, h⟩
        · rw [(commits_pure.mp h).2]
          exact Reaches.refl _
        · exact absurd h commits_throw
    · next hstate =>
      rw [enqueue_commits.mp h]
      exact hsend _ _ (.split hstate (hmany (by rw [hstate]; rfl)))
    · next hstate =>
      rw [enqueue_commits.mp h]
      exact hsend _ _ (.completed (Or.inl hstate))
    · next hstate =>
      rw [enqueue_commits.mp h]
      exact hsend _ _ (.completed (Or.inr hstate))
    · rw [(commits_pure.mp h).2]
      exact Reaches.refl _

/-- A re-drive only sends. -/
theorem redriveDocument_kept {u : Unit} (h : Commits (redriveDocument site docId row) db u db') :
    db'.documents = db.documents ∧ db'.documentShards = db.documentShards := by
  have hsends : Performs (fun _ op => ∃ d topic payload, op = .send d topic payload) db db' :=
    redriveDocument_performs (fun _ topic payload _ _ => ⟨docId, topic, payload, rfl⟩) h
  refine hsends.invariant (P := fun m => m.documents = db.documents ∧ m.documentShards = db.documentShards)
    ⟨rfl, rfl⟩ fun _ _ _ hi hd hs => ?_
  obtain ⟨_, _, _, rfl⟩ := hd
  cases hs
  exact hi

/-- The row a sweep leaves when the attempt budget is spent. -/
def retired (site : Deployment) (row : Document) (now : Nat) : Document :=
  { row.moved .failed now with
    lastError := some (capMessage row (stageAttempts site row).2.1 (stageAttempts site row).2.2) }

/-- The row a sweep leaves when it re-drives: one more attempt if it was running. -/
def reset (site : Deployment) (row : Document) (now : Nat) : Document :=
  (if row.state.isRunning then (stageAttempts site row).1.bump 1 row else row).moved row.state.toPending now

theorem bump_state (column : AttemptColumn) (row : Document) : (column.bump 1 row).state = row.state := by
  cases column <;> rfl

theorem reset_pageCount (site : Deployment) (row : Document) (now : Nat) :
    (reset site row now).pageCount = row.pageCount := by
  unfold reset
  split
  · cases (stageAttempts site row).1 <;> rfl
  · rfl

theorem toPending_allowed (state : DocState) :
    (state, state.toPending) ∈ allowedTransitions ∨ state = state.toPending := by
  cases state <;> decide

/-- The claim of one row that is still as it was read. -/
theorem claimRow_commits {redriven : Bool} (hrow : db.documents.lookup docId = some row) :
    Commits (claimRow site docId row) db redriven db' ↔
    (capped site row = true ∧ redriven = false ∧ db' = db.write docId row (retired site row db.now)) ∨
    (capped site row = false ∧ redriven = true ∧ db' = db.write docId row (reset site row db.now)) := by
  unfold claimRow
  simp only [commits_ite, commits_bind, transition_default_commits, incrementAttempts_commits, commits_pure]
  constructor
  · rintro (⟨hcap, _, m, ⟨row', hrow', _, _, rfl⟩, _, m', hnote, rfl, rfl⟩ |
      ⟨hcap, ⟨hrun, _, m, ⟨row₁, hrow₁, _, rfl⟩, _, m', ⟨row₂, hrow₂, _, _, rfl⟩, rfl, rfl⟩ |
        ⟨hrun, _, m, ⟨row₁, hrow₁, _, _, rfl⟩, rfl, rfl⟩⟩)
    · rw [hrow] at hrow'
      cases hrow'
      rcases updateDocument_commits.mp hnote with ⟨row', hrow', rfl⟩ | ⟨hnone, _⟩
      · rw [Db.write_lookup_self] at hrow'
        cases hrow'
        exact Or.inl ⟨hcap, rfl, Db.write_write_of_kept db docId row (row.moved .failed db.now) _ rfl⟩
      · rw [Db.write_lookup_self] at hnone
        cases hnone
    · rw [hrow] at hrow₁
      cases hrow₁
      rw [Db.write_lookup_self] at hrow₂
      cases hrow₂
      refine Or.inr ⟨by simpa using hcap, rfl, ?_⟩
      rw [reset, if_pos hrun, Db.write_now, Db.write_write db docId row _ _ (bump_state _ row)]
    · rw [hrow] at hrow₁
      cases hrow₁
      refine Or.inr ⟨by simpa using hcap, rfl, ?_⟩
      rw [reset, if_neg hrun]
  · rintro (⟨hcap, rfl, rfl⟩ | ⟨hcap, rfl, rfl⟩)
    · refine Or.inl ⟨hcap, _, _, ⟨row, hrow, Or.inl ?_, rfl, rfl⟩, ⟨⟩, _, ?_, rfl, rfl⟩
      · simp only [capped, Bool.and_eq_true] at hcap
        cases hs : row.state <;> simp [hs, DocState.isRunning] at hcap ⊢ <;> decide
      · exact updateDocument_commits.mpr (Or.inl ⟨row.moved .failed db.now, Db.write_lookup_self ..,
          (Db.write_write_of_kept db docId row (row.moved .failed db.now) (retired site row db.now) rfl).symm⟩)
    · refine Or.inr ⟨by simp [hcap], ?_⟩
      by_cases hrun : row.state.isRunning = true
      · refine Or.inl ⟨hrun, _, _, ⟨row, hrow, rfl, rfl⟩, _, _,
          ⟨_, Db.write_lookup_self .., ?_, rfl, rfl⟩, rfl, ?_⟩
        · rw [bump_state]
          exact toPending_allowed row.state
        · rw [reset, if_pos hrun, Db.write_now, Db.write_write db docId row _ _ (bump_state _ row)]
      · refine Or.inr ⟨hrun, _, _, ⟨row, hrow, toPending_allowed row.state, rfl, rfl⟩, rfl, ?_⟩
        rw [reset, if_neg hrun]

theorem claimRow_performs {cap : Nat} {locked : List DocId} {redriven : Bool}
    (hrow : db.documents.lookup docId = some row) (hflight : row.state.inFlight = true)
    (h : Commits (claimRow site docId row) db redriven db') :
    Performs (Does site (.claiming cap locked)) db db' ∧
      ∀ d, d ≠ docId → db'.documents.lookup d = db.documents.lookup d := by
  rcases (claimRow_commits hrow).mp h with ⟨hcap, _, rfl⟩ | ⟨_, _, rfl⟩
  · refine ⟨?_, fun d hd => by rw [Db.write_lookup, if_neg hd]⟩
    have hmove : Operation.Step db (.move docId .failed) (db.write docId row (row.moved .failed db.now)) := by
      refine .move hrow (Or.inl ?_) (by decide) (by decide)
      simp only [capped, Bool.and_eq_true] at hcap
      cases hs : row.state <;> simp [hs, DocState.isRunning] at hcap ⊢ <;> decide
    rw [← Db.write_write_of_kept db docId row (row.moved .failed db.now) (retired site row db.now) rfl]
    exact (Reaches.single (.claim hrow hflight) hmove).trans
      (Reaches.single (a := .note docId (retired site row db.now).notes) .note (.note (Db.write_lookup_self ..)))
  · refine ⟨?_, fun d hd => by rw [Db.write_lookup, if_neg hd]⟩
    have hpending : row.state.toPending ≠ .complete ∧ row.state.toPending ≠ .review := by
      cases hs : row.state <;> simp [hs, DocState.inFlight] at hflight <;> decide
    by_cases hrun : row.state.isRunning = true
    · have hstate := bump_state (stageAttempts site row).1 row
      rw [reset, if_pos hrun, ← Db.write_write db docId row _ _ hstate]
      refine (Reaches.single (a := .note docId ((stageAttempts site row).1.bump 1 row).notes) .note ?_).trans
        (Reaches.single (.claim (Db.write_lookup_self ..) (by rw [hstate]; exact hflight))
          (.move (Db.write_lookup_self ..) ?_ hpending.1 hpending.2))
      · rw [show (stageAttempts site row).1.bump 1 row =
          row.noted ((stageAttempts site row).1.bump 1 row).notes by cases (stageAttempts site row).1 <;> rfl]
        exact .note hrow
      · rw [hstate]
        exact toPending_allowed row.state
    · rw [reset, if_neg hrun]
      exact Reaches.single (.claim hrow hflight)
        (.move hrow (toPending_allowed row.state) hpending.1 hpending.2)

/-- The rows are distinct and locked, so each is as it was read when its turn comes. -/
theorem claimRows_performs {cap : Nat} {locked : List DocId} {rows claimed : List (DocId × Document)}
    (hrows : ∀ r, r ∈ rows → db.documents.lookup r.1 = some r.2 ∧ r.2.state.inFlight = true)
    (hnodup : (rows.map Prod.fst).Nodup) (h : Commits (claimRows site rows) db claimed db') :
    Performs (Does site (.claiming cap locked)) db db' := by
  induction rows generalizing db claimed with
  | nil =>
    rw [claimRows, commits_pure] at h
    rw [h.2]
    exact Reaches.refl _
  | cons r rest ih =>
    simp only [claimRows, commits_bind, commits_pure] at h
    obtain ⟨redriven, m, hr, others, m', hrest, _, rfl⟩ := h
    obtain ⟨hrow, hflight⟩ := hrows r List.mem_cons_self
    rw [List.map_cons, List.nodup_cons] at hnodup
    obtain ⟨hp, hkept⟩ := claimRow_performs hrow hflight hr
    refine hp.trans (ih (fun r' hr' => ?_) hnodup.2 hrest)
    have hne : r'.1 ≠ r.1 := fun he => hnodup.1 (he ▸ List.mem_map_of_mem hr')
    rw [hkept r'.1 hne]
    exact hrows r' (List.mem_cons_of_mem _ hr')

/-- What the claim returns are rows it was given. -/
theorem claimRows_subset {rows claimed : List (DocId × Document)} (h : Commits (claimRows site rows) db claimed db') :
    ∀ r, r ∈ claimed → r ∈ rows := by
  induction rows generalizing db db' claimed with
  | nil =>
    rw [claimRows, commits_pure] at h
    rw [← h.1]
    exact fun _ hr => hr
  | cons r rest ih =>
    simp only [claimRows, commits_bind, commits_pure] at h
    obtain ⟨redriven, _, _, others, _, hrest, rfl, _⟩ := h
    intro r' hr'
    split at hr'
    · rcases List.mem_cons.mp hr' with rfl | hr'
      · exact List.mem_cons_self
      · exact List.mem_cons_of_mem _ (ih hrest r' hr')
    · exact List.mem_cons_of_mem _ (ih hrest r' hr')

theorem claimStuckBatch_current {cap : Nat} {locked : List DocId} :
    ∀ r, r ∈ claimStuckBatch site db cap locked →
      db.documents.lookup r.1 = some r.2 ∧ r.2.state.inFlight = true := by
  intro r hr
  have hsorted := List.mem_of_mem_take hr
  rw [List.mem_insertionSort, List.mem_filter, Bool.and_eq_true] at hsorted
  exact ⟨Table.mem_rows.mp hsorted.1, stuck_inFlight hsorted.2.1⟩

theorem claimStuckBatch_nodup {cap : Nat} {locked : List DocId} :
    ((claimStuckBatch site db cap locked).map Prod.fst).Nodup := by
  refine List.Nodup.sublist ((List.take_sublist _ _).map _) ?_
  rw [((List.perm_insertionSort before _).map Prod.fst).nodup_iff]
  exact (Table.nodup_rows db.documents).sublist (List.filter_sublist.map _)

/-- After the claim of its first row, the rest of a batch is still as it was read. -/
theorem current_of_write {r : DocId × Document} {rest : List (DocId × Document)} (row' : Document)
    (hrows : ∀ r', r' ∈ r :: rest → db.documents.lookup r'.1 = some r'.2) (hr : r.1 ∉ rest.map Prod.fst) :
    ∀ r', r' ∈ rest → (db.write r.1 r.2 row').documents.lookup r'.1 = some r'.2 := by
  intro r' hr'
  have hne : r'.1 ≠ r.1 := fun he => hr (he ▸ List.mem_map_of_mem hr')
  rw [Db.write_lookup, if_neg hne]
  exact hrows r' (List.mem_cons_of_mem _ hr')

/-- The claim of a batch writes the rows of the batch, and nothing else. -/
theorem claimRows_elsewhere {d : DocId} {rows claimed : List (DocId × Document)}
    (hrows : ∀ r, r ∈ rows → db.documents.lookup r.1 = some r.2) (hnodup : (rows.map Prod.fst).Nodup)
    (h : Commits (claimRows site rows) db claimed db') :
    (d ∉ rows.map Prod.fst → db'.documents.lookup d = db.documents.lookup d) ∧
      db'.documentShards = db.documentShards ∧ db'.sent = db.sent := by
  induction rows generalizing db claimed with
  | nil =>
    rw [claimRows, commits_pure] at h
    rw [h.2]
    exact ⟨fun _ => rfl, rfl, rfl⟩
  | cons r rest ih =>
    simp only [claimRows, commits_bind, commits_pure] at h
    obtain ⟨redriven, m, hr, others, m', hrest, _, rfl⟩ := h
    rw [List.map_cons, List.nodup_cons] at hnodup
    obtain ⟨row', rfl⟩ : ∃ row', m = db.write r.1 r.2 row' := by
      rcases (claimRow_commits (hrows r List.mem_cons_self)).mp hr with ⟨_, _, rfl⟩ | ⟨_, _, rfl⟩
      · exact ⟨_, rfl⟩
      · exact ⟨_, rfl⟩
    obtain ⟨hdocs, hshards, hsent⟩ := ih (current_of_write row' hrows hnodup.1) hnodup.2 hrest
    refine ⟨fun hd => ?_, hshards, hsent⟩
    rw [List.map_cons, List.mem_cons, not_or] at hd
    rw [hdocs hd.2, Db.write_lookup, if_neg hd.1]

/-- The row a sweep leaves of a row it selected. -/
def swept (site : Deployment) (row : Document) (now : Nat) : Document :=
  if capped site row then retired site row now else reset site row now

/-- The claim goes through, takes every row whose budget is not spent, and leaves every
row of the batch as one of the two outcomes has it. -/
theorem claimRows_succeeds (site : Deployment) {rows : List (DocId × Document)}
    (hrows : ∀ r, r ∈ rows → db.documents.lookup r.1 = some r.2) (hnodup : (rows.map Prod.fst).Nodup) :
    ∃ db', Commits (claimRows site rows) db (rows.filter fun r => !capped site r.2) db' ∧
      ∀ r, r ∈ rows → db'.documents.lookup r.1 = some (swept site r.2 db.now) := by
  induction rows generalizing db with
  | nil => exact ⟨db, commits_pure.mpr ⟨rfl, rfl⟩, fun _ hr => nomatch hr⟩
  | cons r rest ih =>
    rw [List.map_cons, List.nodup_cons] at hnodup
    have hrow := hrows r List.mem_cons_self
    have hclaim : Commits (claimRow site r.1 r.2) db (!capped site r.2)
        (db.write r.1 r.2 (swept site r.2 db.now)) := by
      refine (claimRow_commits hrow).mpr ?_
      unfold swept
      cases capped site r.2 with
      | true => exact Or.inl ⟨rfl, rfl, rfl⟩
      | false => exact Or.inr ⟨rfl, rfl, rfl⟩
    have hrest := current_of_write (swept site r.2 db.now) hrows hnodup.1
    obtain ⟨db', hothers, hall⟩ := ih hrest hnodup.2
    refine ⟨db', ?_, fun r' hr' => ?_⟩
    · simp only [claimRows, commits_bind, commits_pure]
      exact ⟨_, _, hclaim, _, db', hothers, by rw [List.filter_cons], rfl⟩
    · rcases List.mem_cons.mp hr' with rfl | hr'
      · rw [(claimRows_elsewhere hrest hnodup.2 hothers).1 hnodup.1, Db.write_lookup_self]
      · exact hall r' hr'

theorem step_performs (site : Deployment) (w : World) (pc : Pc) :
    Performs (Does site pc) w.db (step site w pc).1.db := by
  cases pc with
  | claiming cap locked =>
    refine w.transact_performs _ _ _ fun _ db h => ?_
    simp only [claimBatch, commits_bind, commits_get] at h
    obtain ⟨_, _, ⟨rfl, rfl⟩, h⟩ := h
    exact claimRows_performs claimStuckBatch_current claimStuckBatch_nodup h
  | redriving claimed =>
    cases claimed with
    | nil => exact Reaches.refl _
    | cons r rest =>
      exact w.transact_performs _ _ _ fun _ db h =>
        redriveDocument_performs (fun _ _ _ _ hr => .redrive hr) h

end Sweeper

namespace Operator

variable {site : Deployment} {docId : DocId} {reason actor : String} {db db' : Db}

inductive RedriveDoes (site : Deployment) (docId : DocId) : RedrivePc → Db → Operation → Prop
  | move {db : Db} {row : Document} {target : RedriveTarget} :
      RedriveDoes site docId (.committing row target) db (.move docId target.state)
  | redrive {db : Db} {row : Document} {target : RedriveTarget} {topic : Topic} {payload : Payload} :
      Sweeper.Redrives site docId { row with state := target.state } topic payload →
      RedriveDoes site docId (.committing row target) db (.send docId topic payload)
  | audit {db : Db} {row : Document} {target : RedriveTarget} :
      RedriveDoes site docId (.committing row target) db .aside

inductive AcceptDoes (docId : DocId) (start : Db) : AcceptPc → Db → Operation → Prop
  | accept {row : Document} {gates : GateResults} :
      AcceptDoes docId start (.committing row) start (.accept docId gates (overridePayload docId))
  | audit {db : Db} {row : Document} : AcceptDoes docId start (.committing row) db .aside

theorem audit_sameLedger {row : AuditRow} {u : Unit} (h : Commits (audit row) db u db') : db.SameLedger db' := by
  rw [audit_commits.mp h]
  exact ⟨rfl, rfl, rfl, rfl, rfl, rfl, rfl⟩

theorem redriveStep_performs (w : World) (pc : RedrivePc) :
    Performs (RedriveDoes site docId pc) w.db (redriveStep site docId reason actor w pc).1.db := by
  cases pc with
  | selecting =>
    simp only [redriveStep]
    split
    · exact Reaches.refl _
    · split <;> exact Reaches.refl _
  | targeting row =>
    simp only [redriveStep]
    split <;> exact Reaches.refl _
  | committing row target =>
    refine w.transact_performs _ _ _ fun _ db h => ?_
    simp only [forceRedriveTx, commits_bind, transition_default_commits] at h
    obtain ⟨_, _, ⟨current, hrow, hstate, _, rfl⟩, _, m, hredrive, haudit⟩ := h
    have htarget : target.state ≠ .complete ∧ target.state ≠ .review := by
      cases target <;> decide
    exact (Reaches.single .move (.move hrow hstate htarget.1 htarget.2)).trans
      ((Sweeper.redriveDocument_performs (fun _ _ _ _ hr => .redrive hr) hredrive).trans
        (Reaches.single .audit (.aside (audit_sameLedger haudit))))

/-- `accept_review` on a row that is in `review`, or already in `complete`. -/
theorem acceptReviewTx_commits {row : Document} {u : Unit}
    (h : Commits (acceptReviewTx docId row reason actor) db u db') :
    ∃ current m, db.documents.lookup docId = some current ∧
      (current.state = .review ∨ current.state = .complete) ∧
      m = (db.write docId current (current.accepted (overridden row.gateResults reason actor) db.now)).insertOutbox
        docId .documentExtracted (.extracted (overridePayload docId)) ∧ m.SameLedger db' := by
  simp only [acceptReviewTx, commits_bind, setGateResults, updateDocument_commits, transition_commits,
    enqueue_commits] at h
  obtain ⟨_, _, hgates, _, _, ⟨row', hrow', hmem, _, rfl⟩, _, _, rfl, haudit⟩ := h
  rcases hgates with ⟨current, hrow, rfl⟩ | ⟨hnone, rfl⟩
  · rw [Db.write_lookup_self] at hrow'
    cases hrow'
    refine ⟨current, _, hrow, by simpa using hmem, ?_, audit_sameLedger haudit⟩
    rw [Db.write_now, Db.write_write db docId current
      { current with gateResults := overridden row.gateResults reason actor } _ rfl]
    rfl
  · rw [hnone] at hrow'
    cases hrow'

theorem acceptStep_performs (w : World) (pc : AcceptPc) :
    Performs (AcceptDoes docId w.db pc) w.db (acceptStep site docId reason actor w pc).1.db := by
  cases pc with
  | selecting =>
    simp only [acceptStep]
    split
    · exact Reaches.refl _
    · split
      · exact Reaches.refl _
      · split <;> exact Reaches.refl _
  | committing row =>
    refine w.transact_performs _ _ _ fun _ db h => ?_
    obtain ⟨current, m, hrow, hstate, rfl, haudit⟩ := acceptReviewTx_commits h
    exact (Reaches.single .accept (.accept hrow hstate rfl rfl rfl)).trans
      (Reaches.single .audit (.aside haudit))

theorem setKillSwitch_performs {May : Db → Operation → Prop} (hmay : ∀ db, May db .aside) {enabled : Bool}
    {u : Unit} (h : Commits (setKillSwitch site enabled reason actor) db u db') : Performs May db db' := by
  unfold setKillSwitch at h
  rw [commits_ite] at h
  rcases h with ⟨_, h⟩ | ⟨_, h⟩
  · exact absurd h commits_throw
  · simp only [commits_bind, setFeatureFlag, commits_modify] at h
    obtain ⟨_, m, rfl, haudit⟩ := h
    refine (Reaches.single (hmay _) (.aside ?_)).trans (Reaches.single (hmay _) (.aside (audit_sameLedger haudit)))
    exact ⟨rfl, rfl, rfl, rfl, rfl, rfl, rfl⟩

end Operator
end DocPipeline

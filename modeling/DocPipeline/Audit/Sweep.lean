import DocPipeline.Effects.Reconciliation

/-!
# Does one sweep do exactly what it may?

The query takes the first rows of an order, and the loop moves each of them in the same
transaction. The rows are distinct and locked, so the counters the loop compares are those
of the table. What becomes of a row is said here stage by stage, in the words of the
states, not of the string functions the code applies to their names.
-/
namespace DocPipeline

set_option autoImplicit false

namespace DocState

theorem isText_text (state : DocState) : state.isText = "text_".toList.isPrefixOf state.text.toList := by
  cases state <;> decide

theorem isRunning_text (state : DocState) : state.isRunning = "_running".toList.isSuffixOf state.text.toList := by
  cases state <;> decide

/-- Replacing `_running` in a name is dropping the suffix for `_pending`. -/
theorem toPending_text {state : DocState} (h : state.isRunning = true) :
    ∃ stage, state.text = stage ++ "_running" ∧ state.toPending.text = stage ++ "_pending" := by
  cases state with
  | textRunning => exact ⟨"text", by decide, by decide⟩
  | extractRunning => exact ⟨"extract", by decide, by decide⟩
  | textPending | extractPending | complete | review | failed => cases h

end DocState

namespace Audit

open Lib Lib.Transaction Sweeper

/-- The row is in flight, and has been for longer than its own stage allows. -/
inductive Stuck (site : Deployment) (now : Nat) (row : Document) : Prop
  | text : row.state = .textPending ∨ row.state = .textRunning →
      row.stateUpdatedAt + site.stuckThresholdSeconds < now → Stuck site now row
  | extract : row.state = .extractPending ∨ row.state = .extractRunning →
      row.stateUpdatedAt + site.extractStuckThresholdSeconds < now → Stuck site now row

theorem stuck_iff {site : Deployment} {now : Nat} {row : Document} :
    stuck site now row = true ↔ Stuck site now row := by
  have hcases : Stuck site now row ↔
      ((row.state = .textPending ∨ row.state = .textRunning) ∧
        row.stateUpdatedAt + site.stuckThresholdSeconds < now) ∨
      ((row.state = .extractPending ∨ row.state = .extractRunning) ∧
        row.stateUpdatedAt + site.extractStuckThresholdSeconds < now) := by
    constructor
    · rintro (⟨hs, ht⟩ | ⟨hs, ht⟩)
      · exact Or.inl ⟨hs, ht⟩
      · exact Or.inr ⟨hs, ht⟩
    · rintro (⟨hs, ht⟩ | ⟨hs, ht⟩)
      · exact .text hs ht
      · exact .extract hs ht
  rw [hcases]
  simp only [stuck, Ledger.textStates, Ledger.extractStates, Bool.or_eq_true, Bool.and_eq_true, decide_eq_true_eq,
    List.mem_cons, List.not_mem_nil, or_false]

/-- What one sweep makes of a row it selected. -/
inductive Outcome (site : Deployment) (row row' : Document) : Prop
  | gaveUp {message : String} :
      (row.state = .textRunning ∧ site.maxTextAttempts ≤ row.textAttempts) ∨
        (row.state = .extractRunning ∧ site.maxExtractAttempts ≤ row.extractAttempts) →
      row'.state = .failed → row'.lastError = some message → message ≠ "" → Outcome site row row'
  | textAgain : row.state = .textRunning → row.textAttempts < site.maxTextAttempts →
      row'.state = .textPending → row'.textAttempts = row.textAttempts + 1 →
      row'.extractAttempts = row.extractAttempts → Outcome site row row'
  | extractAgain : row.state = .extractRunning → row.extractAttempts < site.maxExtractAttempts →
      row'.state = .extractPending → row'.extractAttempts = row.extractAttempts + 1 →
      row'.textAttempts = row.textAttempts → Outcome site row row'
  | kept : row.state = .textPending ∨ row.state = .extractPending → row'.state = row.state →
      row'.textAttempts = row.textAttempts → row'.extractAttempts = row.extractAttempts → Outcome site row row'

theorem capMessage_ne_empty (row : Document) (attempts maxAttempts : Nat) :
    capMessage row attempts maxAttempts ≠ "" := by
  intro h
  unfold capMessage at h
  have hclosing : ")" = "" := (String.append_eq_empty_iff.mp h).2
  exact absurd hclosing (by decide)

theorem outcome_swept {site : Deployment} {row : Document} {now : Nat} (hflight : row.state.inFlight = true) :
    Outcome site row (swept site row now) := by
  have hmessage := capMessage_ne_empty row
  cases hs : row.state with
  | textRunning =>
    by_cases hcap : site.maxTextAttempts ≤ row.textAttempts
    · have hswept : swept site row now = retired site row now :=
        if_pos (by simpa [capped, stageAttempts, hs, DocState.isRunning, DocState.isText] using hcap)
      rw [hswept]
      exact .gaveUp (Or.inl ⟨hs, hcap⟩) rfl rfl (hmessage _ _)
    · have hswept : swept site row now = reset site row now :=
        if_neg (by simpa [capped, stageAttempts, hs, DocState.isRunning, DocState.isText] using hcap)
      rw [hswept]
      refine .textAgain hs (Nat.lt_of_not_le hcap) ?_ ?_ ?_ <;>
        simp [reset, stageAttempts, hs, DocState.isRunning, DocState.isText, DocState.toPending, Document.moved,
          Ledger.AttemptColumn.bump]
  | extractRunning =>
    by_cases hcap : site.maxExtractAttempts ≤ row.extractAttempts
    · have hswept : swept site row now = retired site row now :=
        if_pos (by simpa [capped, stageAttempts, hs, DocState.isRunning, DocState.isText] using hcap)
      rw [hswept]
      exact .gaveUp (Or.inr ⟨hs, hcap⟩) rfl rfl (hmessage _ _)
    · have hswept : swept site row now = reset site row now :=
        if_neg (by simpa [capped, stageAttempts, hs, DocState.isRunning, DocState.isText] using hcap)
      rw [hswept]
      refine .extractAgain hs (Nat.lt_of_not_le hcap) ?_ ?_ ?_ <;>
        simp [reset, stageAttempts, hs, DocState.isRunning, DocState.isText, DocState.toPending, Document.moved,
          Ledger.AttemptColumn.bump]
  | textPending | extractPending =>
    have hswept : swept site row now = reset site row now := if_neg (by simp [capped, hs, DocState.isRunning])
    rw [hswept]
    refine .kept (by simp [hs]) ?_ ?_ ?_ <;>
      simp [reset, hs, DocState.isRunning, DocState.toPending, Document.moved]
  | complete | review | failed =>
    rw [hs] at hflight
    cases hflight

/-- The sweep takes the first `cap` unlocked stuck rows in order of priority and age, goes
through, and leaves each as its own stage says and every other row as it was. -/
theorem one_sweep (site : Deployment) (db : Db) (cap : Nat) (locked : List DocId) :
    ∃ ordered : List (DocId × Document),
      (∀ r, r ∈ ordered ↔ db.documents.lookup r.1 = some r.2 ∧ Stuck site db.now r.2 ∧ r.1 ∉ locked) ∧
      (ordered.map Prod.fst).Nodup ∧
      ordered.Pairwise (fun p q => q.2.priority < p.2.priority ∨
        (p.2.priority = q.2.priority ∧ p.2.stateUpdatedAt ≤ q.2.stateUpdatedAt)) ∧
      ∃ claimed db', (claimBatch site cap locked).run db = .ok (claimed, db') ∧
        (∀ r, r ∈ ordered.take cap → ∃ row', db'.documents.lookup r.1 = some row' ∧ Outcome site r.2 row') ∧
        (∀ d, d ∉ (ordered.take cap).map Prod.fst → db'.documents.lookup d = db.documents.lookup d) ∧
        ∀ d row, db.documents.lookup d = some row →
          row.state = .complete ∨ row.state = .review ∨ row.state = .failed → db'.documents.lookup d = some row := by
  let eligible := db.documents.rows.filter fun r => stuck site db.now r.2 && decide (r.1 ∉ locked)
  have hperm : (eligible.insertionSort before).Perm eligible := List.perm_insertionSort before eligible
  have hcurrent : ∀ r, r ∈ claimStuckBatch site db cap locked →
      db.documents.lookup r.1 = some r.2 ∧ r.2.state.inFlight = true := claimStuckBatch_current
  have hrows := fun r hr => (hcurrent r hr).1
  obtain ⟨db', hc, hall⟩ := claimRows_succeeds site hrows claimStuckBatch_nodup
  have hbatch : Commits (claimBatch site cap locked) db
      ((claimStuckBatch site db cap locked).filter fun r => !capped site r.2) db' := by
    simp only [claimBatch, commits_bind, commits_get]
    exact ⟨db, db, ⟨rfl, rfl⟩, hc⟩
  have hothers : ∀ d, d ∉ ((eligible.insertionSort before).take cap).map Prod.fst →
      db'.documents.lookup d = db.documents.lookup d :=
    fun d hd => (claimRows_elsewhere hrows claimStuckBatch_nodup hc).1 hd
  refine ⟨eligible.insertionSort before, fun r => ?_, ?_, ?_, _, db', hbatch, fun r hr => ?_, hothers,
    fun d row hrow hstate => ?_⟩
  · rw [hperm.mem_iff, List.mem_filter, Table.mem_rows, Bool.and_eq_true, decide_eq_true_eq, stuck_iff]
  · rw [(hperm.map Prod.fst).nodup_iff]
    exact (Table.nodup_rows db.documents).sublist (List.filter_sublist.map _)
  · have htotal : ∀ p q, before p q ∨ before q p := by
      intro p q
      unfold before
      omega
    have htrans : ∀ p q r, before p q → before q r → before p r := by
      intro p q r
      unfold before
      omega
    have : Std.Total before := ⟨htotal⟩
    have : IsTrans (DocId × Document) before := ⟨htrans⟩
    exact List.pairwise_insertionSort before eligible
  · exact ⟨_, hall r hr, outcome_swept (hcurrent r hr).2⟩
  · rw [hothers d, hrow]
    intro hd
    obtain ⟨r, hr, rfl⟩ := List.mem_map.mp hd
    obtain ⟨hlookup, hflight⟩ := hcurrent r hr
    rw [hrow] at hlookup
    cases hlookup
    rcases hstate with h | h | h <;> (rw [h] at hflight; cases hflight)

end Audit
end DocPipeline

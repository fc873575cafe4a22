import DocPipeline.Core.LedgerSpec

/-!
# Retention of the attempt log

`prune.py`. The table has a `bigserial` key and no column that says when a row was
inserted, so the job takes the newest id among the rows that carry a timestamp old enough,
and deletes up to it in batches. When a row was inserted is recorded here beside it, and
no statement reads that.
-/
namespace DocPipeline

set_option autoImplicit false

/-- A row of `attempt_log` with its key and, for the record, the time of its insertion. -/
structure StoredAttempt where
  id : Nat
  attempt : AttemptRow
  insertedAt : Nat
  deriving DecidableEq, Repr

/-- The table in the order of its key, and the next value of its sequence. -/
structure AttemptLog where
  rows : List StoredAttempt
  seq : Nat
  ordered : rows.Pairwise fun p q => p.id < q.id
  below : ∀ r, r ∈ rows → r.id < seq

namespace AttemptLog

def empty : AttemptLog := ⟨[], 1, .nil, fun _ hr => nomatch hr⟩

/-- The INSERT of `log_attempt`. -/
def insert (now : Nat) (attempt : AttemptRow) (log : AttemptLog) : AttemptLog where
  rows := log.rows ++ [⟨log.seq, attempt, now⟩]
  seq := log.seq + 1
  ordered := by
    refine List.pairwise_append.mpr ⟨log.ordered, List.pairwise_singleton .., fun p hp q hq => ?_⟩
    rw [List.mem_singleton.mp hq]
    exact log.below p hp
  below := by
    intro r hr
    rcases List.mem_append.mp hr with hold | hnew
    · exact Nat.lt_succ_of_lt (log.below r hold)
    · rw [List.mem_singleton.mp hnew]
      exact Nat.lt_succ_self _

/-- One transaction of the funnel's. -/
def insertMany (now : Nat) (attempts : List AttemptRow) (log : AttemptLog) : AttemptLog :=
  attempts.foldl (fun log attempt => log.insert now attempt) log

/-- The table the job prunes is the one the workers append to. -/
theorem insertMany_stores {db db' : Db} {now : Nat} {attempts : List AttemptRow} {log : AttemptLog} {u : Unit}
    (h : log.rows.map StoredAttempt.attempt = db.attemptLog)
    (hc : Lib.Transaction.Commits (Ledger.logAttempts attempts) db u db') :
    (log.insertMany now attempts).rows.map StoredAttempt.attempt = db'.attemptLog := by
  rw [Ledger.logAttempts, Lib.Transaction.commits_modify] at hc
  rw [← hc]
  change _ = db.attemptLog ++ attempts
  rw [← h]
  clear h hc
  induction attempts generalizing log with
  | nil => exact (List.append_nil _).symm
  | cons attempt rest ih =>
    refine ih.trans ?_
    simp [insert]

/-- A DELETE, with what it keeps. -/
def keep (p : StoredAttempt → Bool) (log : AttemptLog) : AttemptLog where
  rows := log.rows.filter p
  seq := log.seq
  ordered := log.ordered.sublist List.filter_sublist
  below := fun r hr => log.below r (List.mem_of_mem_filter hr)

end AttemptLog

namespace Prune

def batch : Nat := 10000

def secondsPerDay : Nat := 86400

/-- `coalesce(ended_at, started_at) < now() - days`. -/
def datedOld (days now : Nat) (row : StoredAttempt) : Bool :=
  (row.attempt.endedAt.or row.attempt.startedAt).any fun ts => ts + days * secondsPerDay < now

/-- `max(id)` of the rows that are dated, and old. -/
def watermark (days now : Nat) (log : AttemptLog) : Option Nat :=
  ((log.rows.filter (datedOld days now)).map StoredAttempt.id).max?

/-- `SELECT id ... WHERE id <= watermark ORDER BY id LIMIT size`. -/
def nextBatchOf (size watermark : Nat) (log : AttemptLog) : List Nat :=
  ((log.rows.filter fun r => r.id ≤ watermark).take size).map StoredAttempt.id

/-- One batch, with `rowcount`. -/
def deleteBatchOf (size watermark : Nat) (log : AttemptLog) : Nat × AttemptLog :=
  let ids := nextBatchOf size watermark log
  (ids.length, log.keep fun r => !decide (r.id ∈ ids))

/-- One batch of the job. -/
def deleteBatch (watermark : Nat) (log : AttemptLog) : Nat × AttemptLog := deleteBatchOf batch watermark log

/-- The ids of some of the rows select these rows again. -/
theorem filter_ids {chosen rows : List StoredAttempt} (h : chosen.Sublist rows)
    (hordered : rows.Pairwise fun p q => p.id < q.id) :
    rows.filter (fun r => r.id ∈ chosen.map StoredAttempt.id) = chosen := by
  induction h with
  | slnil => rfl
  | @cons chosen rows r hsub ih =>
    obtain ⟨hfirst, hrest⟩ := List.pairwise_cons.mp hordered
    have hout : r.id ∉ chosen.map StoredAttempt.id := by
      intro hmem
      obtain ⟨q, hq, he⟩ := List.mem_map.mp hmem
      exact absurd (hfirst q (hsub.subset hq)) (by omega)
    rw [List.filter_cons_of_neg (by simpa using hout), ih hrest]
  | @cons_cons chosen rows r hsub ih =>
    obtain ⟨hfirst, hrest⟩ := List.pairwise_cons.mp hordered
    rw [List.filter_cons_of_pos (by simp)]
    refine congrArg (r :: ·) (Eq.trans (List.filter_congr fun q hq => ?_) (ih hrest))
    have hne : q.id ≠ r.id := by
      have := hfirst q hq
      omega
    simp [hne]

theorem deleteBatchOf_length (size watermark : Nat) (log : AttemptLog) :
    (deleteBatchOf size watermark log).2.rows.length + (deleteBatchOf size watermark log).1 = log.rows.length := by
  have hchosen : ((log.rows.filter fun r => r.id ≤ watermark).take size).Sublist log.rows :=
    (List.take_sublist _ _).trans List.filter_sublist
  have hsplit := List.length_eq_length_filter_add (l := log.rows)
    fun r => decide (r.id ∈ ((log.rows.filter fun r => r.id ≤ watermark).take size).map StoredAttempt.id)
  rw [filter_ids hchosen log.ordered] at hsplit
  rw [hsplit, Nat.add_comm]
  simp only [deleteBatchOf, nextBatchOf, AttemptLog.keep, List.length_map]
  rfl

/-- The loop, a transaction for each batch. -/
def deleteUpTo (watermark : Nat) (log : AttemptLog) : Nat × AttemptLog :=
  let r := deleteBatch watermark log
  if r.1 < batch then r
  else
    let others := deleteUpTo watermark r.2
    (r.1 + others.1, others.2)
termination_by log.rows.length
decreasing_by
  have hlen : (deleteBatch watermark log).2.rows.length + (deleteBatch watermark log).1 = log.rows.length :=
    deleteBatchOf_length batch watermark log
  have hfull : ¬ (deleteBatch watermark log).1 < batch := ‹_›
  have hpos : 0 < batch := by decide
  omega

/-- `_prune_attempt_log`. -/
def pruneAttemptLog (days now : Nat) (dryRun : Bool) (log : AttemptLog) : Nat × AttemptLog :=
  match watermark days now log with
  | none => (0, log)
  | some watermark =>
    let eligible := log.rows.countP fun r => r.id ≤ watermark
    if dryRun ∨ eligible = 0 then (eligible, log) else deleteUpTo watermark log

/-- What `run` reports, and the table it leaves. -/
structure Report where
  dryRun : Bool
  attemptLogRemoved : Nat
  attemptLogRetentionDays : Nat

/-- `run`; `days` is the argument, or `ATTEMPT_LOG_RETENTION_DAYS`. -/
def run (days now : Nat) (dryRun : Bool) (log : AttemptLog) : Report × AttemptLog :=
  let r := pruneAttemptLog days now dryRun log
  (⟨dryRun, r.1, days⟩, r.2)

/-! ## What a prune leaves -/

theorem le_of_mem_nextBatch {size watermark i : Nat} {log : AttemptLog} (h : i ∈ nextBatchOf size watermark log) :
    i ≤ watermark := by
  obtain ⟨r, hr, rfl⟩ := List.mem_map.mp h
  exact of_decide_eq_true (List.mem_filter.mp (List.mem_of_mem_take hr)).2

/-- A batch that is not full has every row up to the watermark. -/
theorem mem_nextBatch_of_last {watermark : Nat} {log : AttemptLog} (hlast : (deleteBatch watermark log).1 < batch)
    {r : StoredAttempt} (hr : r ∈ log.rows) : r.id ∈ nextBatchOf batch watermark log ↔ r.id ≤ watermark := by
  refine ⟨le_of_mem_nextBatch, fun hle => ?_⟩
  have hshort : (log.rows.filter fun r => r.id ≤ watermark).length ≤ batch := by
    simp only [deleteBatch, deleteBatchOf, nextBatchOf, List.length_map, List.length_take] at hlast
    omega
  rw [nextBatchOf, List.take_of_length_le hshort]
  exact List.mem_map_of_mem (List.mem_filter.mpr ⟨hr, decide_eq_true hle⟩)

/-- Full batches take rows below the watermark only, and the last one takes what is left. -/
theorem deleteUpTo_rows (watermark : Nat) (log : AttemptLog) :
    (deleteUpTo watermark log).2.rows = log.rows.filter fun r => watermark < r.id := by
  induction log using deleteUpTo.induct watermark with
  | case1 log r hlast =>
    rw [deleteUpTo, if_pos hlast]
    refine List.filter_congr fun q hq => ?_
    by_cases hle : q.id ≤ watermark
    · simp [(mem_nextBatch_of_last hlast hq).mpr hle, Nat.not_lt.mpr hle]
    · have hout : q.id ∉ nextBatchOf batch watermark log := mt (mem_nextBatch_of_last hlast hq).mp hle
      simp [hout, Nat.lt_of_not_le hle]
  | case2 log r hfull ih =>
    rw [deleteUpTo, if_neg hfull]
    refine ih.trans ((List.filter_filter ..).trans (List.filter_congr fun q _ => ?_))
    by_cases hin : q.id ∈ nextBatchOf batch watermark log
    · simp [Nat.not_lt.mpr (le_of_mem_nextBatch hin)]
    · simp [hin]

theorem deleteUpTo_removed (watermark : Nat) (log : AttemptLog) :
    (deleteUpTo watermark log).1 + (deleteUpTo watermark log).2.rows.length = log.rows.length := by
  induction log using deleteUpTo.induct watermark with
  | case1 log r hlast =>
    rw [deleteUpTo, if_pos hlast, Nat.add_comm]
    exact deleteBatchOf_length batch watermark log
  | case2 log r hfull ih =>
    rw [deleteUpTo, if_neg hfull]
    have hfirst : r.2.rows.length + r.1 = log.rows.length := deleteBatchOf_length batch watermark log
    change r.1 + (deleteUpTo watermark r.2).1 + (deleteUpTo watermark r.2).2.rows.length = log.rows.length
    omega

theorem watermark_eq_none_iff {days now : Nat} {log : AttemptLog} :
    watermark days now log = none ↔ ∀ r, r ∈ log.rows → datedOld days now r = false := by
  simp [watermark, List.max?_eq_none_iff]

theorem watermark_eq_some {days now w : Nat} {log : AttemptLog} (h : watermark days now log = some w) (i : Nat) :
    w < i ↔ ∀ r, r ∈ log.rows → datedOld days now r = true → r.id < i := by
  obtain ⟨hmem, hmax⟩ := List.max?_eq_some_iff.mp h
  constructor
  · intro hlt r hr hold
    have := hmax r.id (List.mem_map_of_mem (List.mem_filter.mpr ⟨hr, hold⟩))
    omega
  · intro hall
    obtain ⟨r, hr, rfl⟩ := List.mem_map.mp hmem
    obtain ⟨hr, hold⟩ := List.mem_filter.mp hr
    exact hall r hr hold

/-- A prune keeps exactly the rows after the last one that is dated and old. -/
theorem pruneAttemptLog_rows (days now : Nat) (log : AttemptLog) (r : StoredAttempt) :
    r ∈ (pruneAttemptLog days now false log).2.rows ↔
    r ∈ log.rows ∧ ∀ q, q ∈ log.rows → datedOld days now q = true → q.id < r.id := by
  unfold pruneAttemptLog
  cases hw : watermark days now log with
  | none =>
    have hnone := watermark_eq_none_iff.mp hw
    refine ⟨fun hr => ⟨hr, fun q hq hold => ?_⟩, fun hr => hr.1⟩
    rw [hnone q hq] at hold
    cases hold
  | some w =>
    dsimp only
    rw [← watermark_eq_some hw]
    by_cases hzero : log.rows.countP (fun r => r.id ≤ w) = 0
    · rw [if_pos (Or.inr hzero)]
      refine ⟨fun hr => ⟨hr, ?_⟩, fun hr => hr.1⟩
      have := List.countP_eq_zero.mp hzero r hr
      simpa using this
    · rw [if_neg (by simpa using hzero), deleteUpTo_rows, List.mem_filter, decide_eq_true_eq]

/-- The job reports as many rows as are gone. -/
theorem run_removed (days now : Nat) (log : AttemptLog) :
    (run days now false log).1.attemptLogRemoved + (run days now false log).2.rows.length = log.rows.length := by
  simp only [run, pruneAttemptLog]
  split
  · exact Nat.zero_add _
  · split
    · next h => rw [h.resolve_left (by decide), Nat.zero_add]
    · exact deleteUpTo_removed _ log

end Prune
end DocPipeline

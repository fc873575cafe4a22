import DocPipeline.Reconciliation.Prune
import DocPipeline.Lib.Run

/-!
# The prune job among other transactions

`_prune_attempt_log` statement by statement, with a batch of any size. Each statement sees
what is committed when it starts, so between two of them other transactions insert rows:
above the watermark, in any order of their ids.
-/
namespace DocPipeline

set_option autoImplicit false

/-- An INSERT that commits out of the order of its id. -/
def AttemptLog.place (row : StoredAttempt) (log : AttemptLog) : AttemptLog where
  rows := log.rows.filter (fun r => r.id < row.id) ++ row :: log.rows.filter fun r => row.id < r.id
  seq := max log.seq (row.id + 1)
  ordered := by
    refine List.pairwise_append.mpr ⟨log.ordered.sublist List.filter_sublist, List.pairwise_cons.mpr ⟨?_, ?_⟩, ?_⟩
    · exact fun q hq => of_decide_eq_true (List.mem_filter.mp hq).2
    · exact log.ordered.sublist List.filter_sublist
    · intro p hp q hq
      have hlow : p.id < row.id := of_decide_eq_true (List.mem_filter.mp hp).2
      rcases List.mem_cons.mp hq with rfl | hq
      · exact hlow
      · exact hlow.trans (of_decide_eq_true (List.mem_filter.mp hq).2)
  below := by
    intro r hr
    rcases List.mem_append.mp hr with hr | hr
    · have := log.below r (List.mem_of_mem_filter hr)
      omega
    · rcases List.mem_cons.mp hr with rfl | hr
      · omega
      · have := log.below r (List.mem_of_mem_filter hr)
        omega

namespace Prune

inductive Phase where
  | counting
  | deleting (removed : Nat)
  | returned (total : Nat)
  deriving DecidableEq, Repr

/-- The table, and where the job stands. -/
structure Job where
  log : AttemptLog
  watermark : Option Nat
  phase : Phase

inductive Event where
  | insert (row : StoredAttempt)
  | statement
  deriving DecidableEq, Repr

/-- The first SELECT. -/
def begin (days now : Nat) (log : AttemptLog) : Job :=
  let watermark := watermark days now log
  ⟨log, watermark, if watermark.isNone then .returned 0 else .counting⟩

/-- The next statement: the count, or one turn of the loop. -/
def Job.next (size : Nat) (dryRun : Bool) (j : Job) : Job :=
  match j.watermark, j.phase with
  | some watermark, .counting =>
    let eligible := j.log.rows.countP fun r => r.id ≤ watermark
    { j with phase := if dryRun ∨ eligible = 0 then .returned eligible else .deleting 0 }
  | some watermark, .deleting removed =>
    let r := deleteBatchOf size watermark j.log
    { j with
      log := r.2
      phase := if r.1 < size then .returned (removed + r.1) else .deleting (removed + r.1) }
  | _, _ => j

/-- Other transactions insert rows of new ids, above the watermark. -/
inductive Step (size : Nat) (dryRun : Bool) (j : Job) : Event → Job → Prop
  | insert (row : StoredAttempt) (hfresh : ∀ r, r ∈ j.log.rows → r.id ≠ row.id)
      (hlarger : ∀ w, j.watermark = some w → w < row.id) : Step size dryRun j (.insert row) { j with log := j.log.place row }
  | statement : Step size dryRun j .statement (j.next size dryRun)

/-- The rows up to the watermark. -/
def upTo (watermark : Nat) (log : AttemptLog) : List StoredAttempt := log.rows.filter fun r => r.id ≤ watermark

theorem upTo_place {watermark : Nat} {row : StoredAttempt} {log : AttemptLog} (h : watermark < row.id) :
    upTo watermark (log.place row) = upTo watermark log := by
  have hbelow : (log.rows.filter fun r => r.id < row.id).filter (fun r => r.id ≤ watermark) =
      log.rows.filter fun r => r.id ≤ watermark := by
    rw [List.filter_filter]
    refine List.filter_congr fun r _ => ?_
    by_cases hr : r.id ≤ watermark
    · have hlt : r.id < row.id := by omega
      simp [hr, hlt]
    · simp [hr]
  have habove : (log.rows.filter fun r => row.id < r.id).filter (fun r => r.id ≤ watermark) = [] := by
    rw [List.filter_filter, List.filter_eq_nil_iff]
    intro r _
    simp only [Bool.and_eq_true, decide_eq_true_eq, not_and]
    omega
  have hrow : decide (row.id ≤ watermark) = false := decide_eq_false (by omega)
  rw [upTo, AttemptLog.place, List.filter_append, List.filter_cons, hrow, hbelow, if_neg Bool.false_ne_true, habove,
    List.append_nil, upTo]

theorem mem_place {row r : StoredAttempt} {log : AttemptLog} (hfresh : ∀ r, r ∈ log.rows → r.id ≠ row.id) :
    r ∈ (log.place row).rows ↔ r ∈ log.rows ∨ r = row := by
  simp only [AttemptLog.place, List.mem_append, List.mem_cons, List.mem_filter, decide_eq_true_eq]
  constructor
  · rintro (⟨hr, -⟩ | rfl | ⟨hr, -⟩)
    · exact Or.inl hr
    · exact Or.inr rfl
    · exact Or.inl hr
  · rintro (hr | rfl)
    · rcases Nat.lt_or_gt_of_ne (hfresh r hr) with hlt | hgt
      · exact Or.inl ⟨hr, hlt⟩
      · exact Or.inr (Or.inr ⟨hr, hgt⟩)
    · exact Or.inr (Or.inl rfl)

/-- Without the ids of the first rows, the others are left. -/
theorem filter_without {rows : List StoredAttempt} (h : rows.Pairwise fun p q => p.id < q.id) (size : Nat) :
    rows.filter (fun r => !decide (r.id ∈ (rows.take size).map StoredAttempt.id)) = rows.drop size := by
  have htaken : (rows.take size).filter (fun r => !decide (r.id ∈ (rows.take size).map StoredAttempt.id)) = [] := by
    rw [List.filter_eq_nil_iff]
    intro r hr
    rw [Bool.not_eq_true, Bool.not_eq_false', decide_eq_true_eq]
    exact List.mem_map_of_mem hr
  have hleft : (rows.drop size).filter (fun r => !decide (r.id ∈ (rows.take size).map StoredAttempt.id)) = rows.drop size := by
    rw [List.filter_eq_self]
    intro r hr
    rw [Bool.not_eq_true', decide_eq_false_iff_not]
    intro hmem
    obtain ⟨q, hq, he⟩ := List.mem_map.mp hmem
    rw [← List.take_append_drop size rows] at h
    have hlt := (List.pairwise_append.mp h).2.2 q hq r hr
    omega
  conv_lhs =>
    arg 2
    rw [← List.take_append_drop size rows]
  rw [List.filter_append, htaken, hleft, List.nil_append]

/-- A batch takes the first of the rows up to the watermark. -/
theorem deleteBatchOf_rowcount (size watermark : Nat) (log : AttemptLog) :
    (deleteBatchOf size watermark log).1 = min size (upTo watermark log).length := by
  rw [deleteBatchOf, nextBatchOf, List.length_map, List.length_take]
  rfl

theorem upTo_deleteBatchOf (size watermark : Nat) (log : AttemptLog) :
    upTo watermark (deleteBatchOf size watermark log).2 = (upTo watermark log).drop size := by
  have hordered : (upTo watermark log).Pairwise fun p q => p.id < q.id := log.ordered.sublist List.filter_sublist
  rw [← filter_without hordered size]
  simp only [upTo, deleteBatchOf, AttemptLog.keep, List.filter_filter, Bool.and_comm]
  rfl

theorem mem_deleteBatchOf {size watermark : Nat} {log : AttemptLog} {r : StoredAttempt} (h : watermark < r.id) :
    r ∈ (deleteBatchOf size watermark log).2.rows ↔ r ∈ log.rows := by
  have hout : r.id ∉ nextBatchOf size watermark log := fun hmem => by
    have hle := le_of_mem_nextBatch hmem
    omega
  change r ∈ log.rows.filter _ ↔ _
  rw [List.mem_filter, decide_eq_false hout, Bool.not_false, and_iff_left rfl]

end Prune
end DocPipeline

import DocPipeline.Reconciliation.PruneJob

/-!
# Does the deletion loop drain the table?

What is up to the watermark only the job changes, so a full batch takes its size from it and
a short one takes the rest. The count before the loop, the number of its turns and the total
it returns follow from that, whatever is inserted above.
-/
namespace DocPipeline.Audit

set_option autoImplicit false

open Prune Lib

section Drain

variable {size days now w : Nat} {log : AttemptLog} {events : List Event} {j : Job}

/-- Where a job stands that found a watermark: the rows above it are those of the table and those
inserted, and what is below it and what is removed make up what was to be removed. -/
structure Draining (size w : Nat) (log : AttemptLog) (events : List Event) (j : Job) : Prop where
  watermark : j.watermark = some w
  above : ∀ r, w < r.id → (r ∈ j.log.rows ↔ r ∈ log.rows ∨ .insert r ∈ events)
  inserted : ∀ r, .insert r ∈ events → w < r.id
  counting : j.phase = .counting → upTo w j.log = upTo w log ∧ events.count .statement = 0
  deleting : ∀ removed, j.phase = .deleting removed → removed + (upTo w j.log).length = (upTo w log).length ∧
    1 ≤ events.count .statement ∧ removed = size * (events.count .statement - 1)
  returned : ∀ total, j.phase = .returned total → total = (upTo w log).length ∧ upTo w j.log = []

theorem draining_insert {row : StoredAttempt} (h : Draining size w log events j)
    (hfresh : ∀ r, r ∈ j.log.rows → r.id ≠ row.id) (hlarger : w < row.id) :
    Draining size w log (events ++ [.insert row]) { j with log := j.log.place row } := by
  have hcount : (events ++ [Event.insert row]).count .statement = events.count .statement := by simp
  have hmem : ∀ r, .insert r ∈ events ++ [Event.insert row] ↔ .insert r ∈ events ∨ r = row := by simp
  refine ⟨h.watermark, fun r hr => ?_, fun r hr => ?_, ?_, ?_, ?_⟩
  · rw [mem_place hfresh, h.above r hr, hmem, or_assoc]
  · rcases (hmem r).mp hr with hold | rfl
    · exact h.inserted r hold
    · exact hlarger
  · rw [upTo_place hlarger, hcount]
    exact h.counting
  · rw [upTo_place hlarger, hcount]
    exact h.deleting
  · rw [upTo_place hlarger]
    exact h.returned

/-- What a statement leaves above the watermark, it leaves as it was. -/
theorem above_statement (h : Draining size w log events j) {r : StoredAttempt} (hr : w < r.id) :
    r ∈ j.log.rows ↔ r ∈ log.rows ∨ Event.insert r ∈ events ++ [.statement] := by
  rw [h.above r hr]
  simp

theorem inserted_statement (h : Draining size w log events j) {r : StoredAttempt}
    (hr : Event.insert r ∈ events ++ [.statement]) : w < r.id := by
  refine h.inserted r ?_
  simpa using hr

theorem count_statement : (events ++ [Event.statement]).count .statement = events.count .statement + 1 := by
  simp

/-- The count finds what was to be removed. -/
theorem draining_count (h : Draining size w log events j) (hphase : j.phase = .counting) :
    Draining size w log (events ++ [.statement]) (j.next size false) := by
  obtain ⟨hsame, hnone⟩ := h.counting hphase
  have heligible : j.log.rows.countP (fun r => r.id ≤ w) = (upTo w log).length := by
    rw [List.countP_eq_length_filter, ← hsame]
    rfl
  simp only [Job.next, h.watermark, hphase, heligible]
  refine ⟨rfl, fun r hr => above_statement h hr, fun r hr => inserted_statement h hr, ?_, ?_, ?_⟩
  · intro hp
    split at hp <;> cases hp
  · intro removed hp
    split at hp
    · cases hp
    · cases hp
      rw [count_statement, hnone, hsame]
      exact ⟨Nat.zero_add _, Nat.le_refl 1, rfl⟩
  · intro total hp
    split at hp
    · next hzero =>
      cases hp
      have hempty : (upTo w log).length = 0 := hzero.resolve_left (by decide)
      exact ⟨rfl, by rw [hsame]; exact List.eq_nil_of_length_eq_zero hempty⟩
    · cases hp

/-- A full batch takes its size from what is left, a short one takes the rest. -/
theorem draining_turn (h : Draining size w log events j) {removed : Nat} (hphase : j.phase = .deleting removed) :
    Draining size w log (events ++ [.statement]) (j.next size false) := by
  obtain ⟨hsum, hstarted, hremoved⟩ := h.deleting removed hphase
  have hrowcount := deleteBatchOf_rowcount size w j.log
  have hleft := upTo_deleteBatchOf size w j.log
  have hlength := congrArg List.length hleft
  rw [List.length_drop] at hlength
  simp only [Job.next, h.watermark, hphase]
  refine ⟨rfl, fun r hr => ?_, fun r hr => inserted_statement h hr, ?_, ?_, ?_⟩
  · rw [mem_deleteBatchOf hr]
    exact above_statement h hr
  · intro hp
    split at hp <;> cases hp
  · intro total hp
    split at hp
    · cases hp
    · next hfull =>
      cases hp
      have htaken : (deleteBatchOf size w j.log).1 = size := by omega
      have hturn : size * (events.count .statement + 1 - 1) = size * (events.count .statement - 1) + size := by
        rw [← Nat.mul_succ]
        congr 1
        omega
      rw [count_statement, hturn, htaken, hlength, ← hremoved]
      refine ⟨?_, by omega, rfl⟩
      omega
  · intro total hp
    split at hp
    · next hlast =>
      cases hp
      have hall : (upTo w j.log).length ≤ size := by omega
      refine ⟨by omega, ?_⟩
      rw [hleft]
      exact List.drop_of_length_le hall
    · cases hp

theorem draining_statement (h : Draining size w log events j) :
    Draining size w log (events ++ [.statement]) (j.next size false) := by
  cases hphase : j.phase with
  | counting => exact draining_count h hphase
  | deleting removed => exact draining_turn h hphase
  | returned total =>
    have hnext : j.next size false = j := by simp only [Job.next, h.watermark, hphase]
    rw [hnext]
    refine ⟨h.watermark, fun r hr => above_statement h hr, fun r hr => inserted_statement h hr, ?_, ?_, h.returned⟩
    · intro hp
      rw [hphase] at hp
      cases hp
    · intro removed hp
      rw [hphase] at hp
      cases hp

theorem draining_of_run (hw : watermark days now log = some w)
    (h : Run (Step size false) Always (begin days now log) events j) : Draining size w log events j := by
  induction h with
  | nil =>
    have hbegin : begin days now log = ⟨log, some w, .counting⟩ := by
      rw [begin, hw]
      rfl
    rw [hbegin]
    exact ⟨rfl, by simp, nofun, fun _ => ⟨rfl, rfl⟩, nofun, nofun⟩
  | snoc _ _ hstep ih =>
    cases hstep with
    | insert row hfresh hlarger => exact draining_insert ih hfresh (hlarger w ih.watermark)
    | statement => exact draining_statement ih

/-- Without a row that is dated and old the job has returned before its first turn. -/
theorem idle_of_run (hw : watermark days now log = none)
    (h : Run (Step size false) Always (begin days now log) events j) :
    j.watermark = none ∧ j.phase = .returned 0 ∧ ∀ r, r ∈ j.log.rows ↔ r ∈ log.rows ∨ .insert r ∈ events := by
  induction h with
  | nil =>
    have hbegin : begin days now log = ⟨log, none, .returned 0⟩ := by
      rw [begin, hw]
      rfl
    rw [hbegin]
    exact ⟨rfl, rfl, by simp⟩
  | @snoc t u as a _ _ hstep ih =>
    obtain ⟨hnone, hphase, hrows⟩ := ih
    cases hstep with
    | insert row hfresh hlarger =>
      refine ⟨hnone, hphase, fun r => ?_⟩
      rw [mem_place hfresh, hrows, or_assoc]
      simp
    | statement =>
      have hnext : t.next size false = t := by
        unfold Job.next
        rw [hnone]
      rw [hnext]
      refine ⟨hnone, hphase, fun r => ?_⟩
      rw [hrows]
      simp

/-- A statement deletes a batch at most. -/
theorem next_deletes_le (size : Nat) (dryRun : Bool) (j : Job) :
    j.log.rows.length ≤ (j.next size dryRun).log.rows.length + size := by
  unfold Job.next
  split
  · exact Nat.le_add_right _ _
  · next w removed _ _ =>
    have hlength := deleteBatchOf_length size w j.log
    have hrowcount := deleteBatchOf_rowcount size w j.log
    dsimp only
    omega
  · exact Nat.le_add_right _ _

theorem dryRun_number (hw : watermark days now log = some w) :
    (pruneAttemptLog days now true log).1 = (upTo w log).length := by
  rw [pruneAttemptLog, hw]
  dsimp only
  rw [if_pos (Or.inl rfl), List.countP_eq_length_filter]
  rfl

/-- While the loop goes on, all its turns were full. -/
theorem returned_of_turns (hsize : 1 ≤ size) (h : Draining size w log events j)
    (hturns : (upTo w log).length / size + 2 ≤ events.count .statement) : ∃ total, j.phase = .returned total := by
  cases hphase : j.phase with
  | counting =>
    obtain ⟨-, hnone⟩ := h.counting hphase
    rw [hnone] at hturns
    exact absurd hturns (Nat.not_succ_le_zero _)
  | deleting removed =>
    obtain ⟨hsum, -, hremoved⟩ := h.deleting removed hphase
    have hmore : (upTo w log).length / size + 1 ≤ events.count .statement - 1 := Nat.le_sub_of_add_le hturns
    have hfull : size * ((upTo w log).length / size + 1) ≤ removed := by
      rw [hremoved]
      exact Nat.mul_le_mul_left size hmore
    have hlt : (upTo w log).length < size * ((upTo w log).length / size + 1) := Nat.lt_mul_div_succ _ hsize
    omega
  | returned total => exact ⟨total, rfl⟩

/-- What the job returns and leaves. -/
theorem drained_of_run (h : Run (Step size false) Always (begin days now log) events j) {total : Nat}
    (ht : j.phase = .returned total) : total = (pruneAttemptLog days now true log).1 ∧
      ∀ r, r ∈ j.log.rows ↔
        (r ∈ log.rows ∨ .insert r ∈ events) ∧ ∀ w, watermark days now log = some w → w < r.id := by
  cases hw : watermark days now log with
  | none =>
    obtain ⟨-, hphase, hrows⟩ := idle_of_run hw h
    have hdry : (pruneAttemptLog days now true log).1 = 0 := by rw [pruneAttemptLog, hw]
    rw [hphase] at ht
    cases ht
    refine ⟨hdry.symm, fun r => ?_⟩
    rw [hrows]
    exact (and_iff_left fun _ he => by cases he).symm
  | some w =>
    have hdrain := draining_of_run hw h
    obtain ⟨htotal, hempty⟩ := hdrain.returned total ht
    refine ⟨htotal.trans (dryRun_number hw).symm, fun r => ?_⟩
    have hlarger : (∀ w', some w = some w' → w' < r.id) ↔ w < r.id :=
      ⟨fun hall => hall w rfl, fun hlt w' he => Option.some.inj he ▸ hlt⟩
    rw [hlarger]
    constructor
    · intro hr
      have hlt : w < r.id := by
        by_contra hle
        have hmem : r ∈ upTo w j.log := List.mem_filter.mpr ⟨hr, decide_eq_true (Nat.le_of_not_lt hle)⟩
        rw [hempty] at hmem
        cases hmem
      exact ⟨(hdrain.above r hlt).mp hr, hlt⟩
    · exact fun hr => (hdrain.above r hr.2).mpr hr.1

/-- Alone, the job is the loop it was taken apart from. -/
theorem drained_alone (h : Run (Step size false) Always (begin days now log) events j)
    (halone : ∀ row, .insert row ∉ events) {total : Nat} (ht : j.phase = .returned total) (r : StoredAttempt) :
    r ∈ j.log.rows ↔ r ∈ (pruneAttemptLog days now false log).2.rows := by
  rw [(drained_of_run h ht).2 r, pruneAttemptLog_rows, or_iff_left (halone r)]
  refine and_congr_right fun _ => ?_
  cases hw : watermark days now log with
  | none =>
    refine iff_of_true nofun fun q hq hold => ?_
    rw [watermark_eq_none_iff.mp hw q hq] at hold
    cases hold
  | some w =>
    rw [← watermark_eq_some hw]
    exact ⟨fun hall => hall w rfl, fun hlt w' he => Option.some.inj he ▸ hlt⟩

/-- Whatever is inserted above the watermark in the meantime, the loop returns after one turn
for each full batch and one more, with the number of the dry run, and leaves the rows above. -/
theorem prune_drains (hsize : 1 ≤ size) (h : Run (Step size false) Always (begin days now log) events j) :
    j.log.rows.length ≤ (j.next size false).log.rows.length + size ∧
    ((pruneAttemptLog days now true log).1 / size + 2 ≤ events.count .statement → ∃ total, j.phase = .returned total) ∧
    ∀ total, j.phase = .returned total → total = (pruneAttemptLog days now true log).1 ∧
      ∀ r, r ∈ j.log.rows ↔
        (r ∈ log.rows ∨ .insert r ∈ events) ∧ ∀ w, watermark days now log = some w → w < r.id := by
  refine ⟨next_deletes_le size false j, fun hturns => ?_, fun total ht => drained_of_run h ht⟩
  cases hw : watermark days now log with
  | none => exact ⟨0, (idle_of_run hw h).2.1⟩
  | some w =>
    rw [dryRun_number hw] at hturns
    exact returned_of_turns hsize (draining_of_run hw h) hturns

/-- Four rows that are dated and old. -/
def fourOld : AttemptLog :=
  AttemptLog.empty.insertMany 0
    (List.replicate 4 { docId := "crc32c-a", stage := "extraction", attemptNo := 1, endedAt := some 0 })

/-- A row that is inserted while the job runs. -/
def lateRow : StoredAttempt := ⟨9, { docId := "crc32c-b", stage := "extraction", attemptNo := 1 }, 0⟩

/-- In batches of two the third turn finds nothing, and the row inserted before it stays. -/
theorem four_in_twos : ∃ j, Run (Step 2 false) Always (begin 1 100000 fourOld)
    [.statement, .statement, .insert lateRow, .statement, .statement] j ∧
    ∃ total, j.phase = .returned total ∧ total = (pruneAttemptLog 1 100000 true fourOld).1 ∧
      ∀ r, r ∈ j.log.rows ↔ (r ∈ fourOld.rows ∨
        .insert r ∈ ([.statement, .statement, .insert lateRow, .statement, .statement] : List Event)) ∧
        ∀ w, watermark 1 100000 fourOld = some w → w < r.id := by
  let second : Job := ((begin 1 100000 fourOld).next 2 false).next 2 false
  have hfresh : ∀ r, r ∈ second.log.rows → r.id ≠ lateRow.id := by decide +kernel
  have hlarger : ∀ w, second.watermark = some w → w < lateRow.id := by
    intro w hw
    have hfour : second.watermark = some 4 := by decide +kernel
    rw [hfour] at hw
    cases hw
    decide
  have hrun : Run (Step 2 false) Always (begin 1 100000 fourOld)
      [.statement, .statement, .insert lateRow, .statement, .statement] _ :=
    ((((Run.nil.snoc trivial .statement).snoc trivial .statement).snoc trivial (.insert lateRow hfresh hlarger)).snoc
      trivial .statement).snoc trivial .statement
  obtain ⟨-, hreturns, hdrained⟩ := prune_drains (by decide) hrun
  obtain ⟨total, ht⟩ := hreturns (by decide +kernel)
  exact ⟨_, hrun, total, ht, hdrained total ht⟩

end Drain

end DocPipeline.Audit

import DocPipeline.Effects.Funnel
import DocPipeline.Reconciliation.Prune
import DocPipeline.Schedule

/-!
# Does retention hold for what the pipeline writes?

The job takes its watermark from rows that carry a timestamp. `log_attempt` takes two, and
its one caller, the funnel, passes neither. So a table that only the funnel writes has no
watermark, the job removes nothing, and it keeps its promise exactly when no row is old.
-/
namespace DocPipeline.Audit

set_option autoImplicit false

open Prune Funnel

/-- The clock and the table. -/
structure Journal where
  now : Nat := 0
  log : AttemptLog := .empty

/-- What happens to the table: time passes, a funnel run commits, the job runs. -/
inductive Journal.Event where
  | tick (seconds : Nat)
  | funnel (config : GateConfig) (ledger : Tier → Db) (source : Source) (attemptNo : Nat) (replies : Tier → Nat → Reply)
  | prune (days : Nat) (dryRun : Bool)

namespace Journal

/-- A funnel run that raises is rolled back. -/
def after (j : Journal) : Event → Journal
  | .tick seconds => { j with now := j.now + seconds }
  | .funnel config ledger source attemptNo replies =>
    match runFunnel config ledger source attemptNo replies with
    | .ok (verdict, _) => { j with log := j.log.insertMany j.now verdict.attempts }
    | .error _ => j
  | .prune days dryRun => { j with log := (run days j.now dryRun j.log).2 }

def history (events : List Event) : Journal := events.foldl after {}

end Journal

/-- Inserted more than `days` days before `now`. -/
def Expired (days now : Nat) (r : StoredAttempt) : Prop := r.insertedAt + days * secondsPerDay < now

instance (days now : Nat) (r : StoredAttempt) : Decidable (Expired days now r) := by unfold Expired; infer_instance

/-- The row carries no timestamp. -/
def Undated (r : StoredAttempt) : Prop := r.attempt.startedAt = none ∧ r.attempt.endedAt = none

variable {j : Journal} {days now : Nat}

theorem insertMany_undated {log : AttemptLog} {attempts : List AttemptRow} (h : ∀ r, r ∈ log.rows → Undated r)
    (hnew : ∀ row, row ∈ attempts → row.startedAt = none ∧ row.endedAt = none) :
    ∀ r, r ∈ (log.insertMany now attempts).rows → Undated r := by
  induction attempts generalizing log with
  | nil => exact h
  | cons row rest ih =>
    refine ih (fun r hr => ?_) fun row' hr => hnew row' (List.mem_cons_of_mem _ hr)
    rcases List.mem_append.mp hr with hold | hfirst
    · exact h r hold
    · rw [List.mem_singleton.mp hfirst]
      exact hnew row List.mem_cons_self

theorem datedOld_of_undated {r : StoredAttempt} (h : Undated r) : datedOld days now r = false := by
  rw [datedOld, h.1, h.2]
  rfl

/-- With no row dated, the job leaves the table as it is. -/
theorem prune_undated {log : AttemptLog} {dryRun : Bool} (h : ∀ r, r ∈ log.rows → Undated r) :
    (run days now dryRun log).2 = log := by
  have hnone : watermark days now log = none := watermark_eq_none_iff.mpr fun r hr => datedOld_of_undated (h r hr)
  simp only [run, pruneAttemptLog, hnone]

theorem history_undated (events : List Journal.Event) : ∀ r, r ∈ (Journal.history events).log.rows → Undated r := by
  have hrun : Lib.Run (fun j e j' => Journal.after j e = j') Lib.Always {} events (Journal.history events) :=
    @Lib.Run.foldl Journal Journal.Event Lib.Always Journal.after events (fun _ _ _ => trivial) {}
  refine hrun.invariant (P := fun j => ∀ r, r ∈ j.log.rows → Undated r) (fun _ hr => nomatch hr) ?_
  rintro j e _ hi _ rfl
  cases e with
  | tick seconds => exact hi
  | funnel config ledger source attemptNo replies =>
    simp only [Journal.after]
    split
    · next verdict calls hf => exact insertMany_undated hi (runFunnel_undated hf)
    · exact hi
  | prune days dryRun =>
    simp only [Journal.after]
    rw [prune_undated hi]
    exact hi

/-- Of what the funnel has written, the job leaves no expired row exactly when there was none. -/
theorem retention_holds_iff (events : List Journal.Event) (days : Nat) :
    (∀ r, r ∈ (run days (Journal.history events).now false (Journal.history events).log).2.rows →
      ¬ Expired days (Journal.history events).now r) ↔
    ∀ r, r ∈ (Journal.history events).log.rows → ¬ Expired days (Journal.history events).now r := by
  rw [prune_undated (history_undated events)]

/-- The cheap model times out once and then refuses. -/
def timesOutOnce : Tier → Nat → Reply :=
  fun _ i => if i = 0 then .error .transient "timeout" else .error .refusal "no"

/-- One funnel run, and two days. -/
def twoDaysLater : List Journal.Event :=
  [.funnel .defaults (fun _ => {}) ⟨"crc32c-a", .invoice, ""⟩ 1 timesOutOnce, .tick (2 * secondsPerDay)]

/-- The row is older than the retention of one day, and stays. -/
theorem expired_row_stays : ¬ ∀ (events : List Journal.Event) (days : Nat),
    ∀ r, r ∈ (run days (Journal.history events).now false (Journal.history events).log).2.rows →
      ¬ Expired days (Journal.history events).now r := by
  intro hclaim
  have hrow : ((Journal.history twoDaysLater).log.rows.any fun r =>
      decide (Expired 1 (Journal.history twoDaysLater).now r)) = true := by decide +kernel
  obtain ⟨r, hr, hexpired⟩ := List.any_eq_true.mp hrow
  refine hclaim twoDaysLater 1 r ?_ (of_decide_eq_true hexpired)
  rwa [prune_undated (history_undated twoDaysLater)]

end DocPipeline.Audit

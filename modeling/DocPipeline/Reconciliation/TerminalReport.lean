import Mathlib.Data.List.Sort
import DocPipeline.Reconciliation.Desk

/-!
# The terminal report

`terminal_report.collect_state`: counts, ages and reasons of the documents parked in one
state, and for `failed` the number that DLQ replay will not pick up.
-/
namespace DocPipeline

set_option autoImplicit false

namespace TerminalReport

def topErrors : Nat := 5

def errorPrefixChars : Nat := 80

/-- The dictionary that `collect_state` returns. -/
structure StateReport where
  state : DocState
  total : Nat
  last24h : Nat
  oldest : Option Nat
  newest : Option Nat
  topReasons : List (String × Nat)
  notReplayableByDlq : Option Nat

/-- The rows in a state. -/
def parked (db : Db) (state : DocState) : List (DocId × Document) := db.documents.rows.filter fun r => r.2.state = state

/-- `left(coalesce(last_error, '(none)'), 80)`. -/
def reasonOf (row : Document) : String := String.ofList ((row.lastError.getD "(none)").toList.take errorPrefixChars)

/-- GROUP BY reason ORDER BY n DESC LIMIT 5; SQL leaves the order of equal counts open. -/
def topReasons (db : Db) (state : DocState) : List (String × Nat) :=
  let reasons := (parked db state).map fun r => reasonOf r.2
  ((reasons.dedup.map fun reason => (reason, reasons.count reason)).insertionSort fun p q => q.2 ≤ p.2).take topErrors

/-- The WHERE clause of `count_not_replayable`: `IS NOT DISTINCT FROM` twice. -/
def notReplayable (site : Deployment) (row : Document) : Bool :=
  row.state = .failed && row.buildSha = some site.buildSha && row.promptVersion = some site.promptVersion

def countNotReplayable (site : Deployment) (db : Db) : Nat :=
  (db.documents.rows.filter fun r => notReplayable site r.2).length

def collectState (site : Deployment) (db : Db) (state : DocState) : StateReport where
  state := state
  total := (parked db state).length
  last24h := ((parked db state).filter fun r => decide (db.now < r.2.stateUpdatedAt + 24 * 60 * 60)).length
  oldest := ((parked db state).map fun r => r.2.stateUpdatedAt).min?
  newest := ((parked db state).map fun r => r.2.stateUpdatedAt).max?
  topReasons := topReasons db state
  notReplayableByDlq := if state = .failed then some (countNotReplayable site db) else none

end TerminalReport
end DocPipeline

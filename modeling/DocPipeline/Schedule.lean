import DocPipeline.Reconciliation.Desk
import DocPipeline.Reconciliation.ReadOnlyLane

/-!
# Schedules

A deployment with the defaults of `config.py`, and the action lists that one process
takes to do one thing. Running a list, with or without a guard on its steps, gives a
run of the pipeline.
-/
namespace DocPipeline

set_option autoImplicit false

/-- Python's tables on ASCII text. -/
def UnicodeTables.ascii : UnicodeTables := ⟨Char.isDigit, Char.isWhitespace, String.map Char.toLower⟩

/-- `config.py` without environment variables, on one partition a topic. -/
def Deployment.defaults (objects : String → Option Blob) : Deployment where
  shardSizePages := 1
  shardSizePages_pos := Nat.zero_lt_one
  hardPageCeiling := 20
  stuckThresholdSeconds := 30
  extractStuckThresholdSeconds := 30
  maxTextAttempts := 5
  maxExtractAttempts := 5
  funnelVersion := 1
  buildSha := "local-dev"
  promptVersion := "invoice-extract@v3"
  ocrEngine := "deterministic"
  gcsBucket := "docpipeline-local"
  unicode := .ascii
  objects := objects
  partitioner := fun _ _ => 0

/-- The gates with the same tables and the defaults of `config.py`. -/
def GateConfig.defaults : GateConfig where
  unicode := .ascii
  upper := String.map Char.toUpper
  decimal := fun c => if c.isDigit then some (c.toNat - '0'.toNat) else none
  plausibleTotalCeilingCents := 1000000000
  maxRepairAttempts := 2

namespace Sys

/-- A guarded schedule that ends in a state satisfying a test. -/
theorem exists_guardedRun (site : Deployment) (guard : Sys → Action → Bool) (as : List Action) (test : Sys → Bool)
    (h : (Lib.execWhile (step site) guard initial as).any test = true) :
    ∃ t, GuardedRun site (fun s a => guard s a = true) initial as t ∧ test t = true := by
  obtain ⟨t, ht, htest⟩ := (Option.any_eq_true ..).mp h
  exact ⟨t, Lib.run_of_execWhile ht, htest⟩

/-- A run that records a verdict is given the funnel's, on the text in hand and the ledger of
the moment, with these replies to its slot. -/
def judgedBy (config : GateConfig) (replies : Nat → Funnel.Source → Nat → Tier → Nat → Funnel.Reply) (s : Sys) :
    Action → Bool
  | .run tid input =>
    match s.tasks tid with
    | some (.extraction d (.extracting assembled attemptNo)) =>
      (s.document d).any fun row =>
        (Funnel.runFunnel config (fun _ => s.db) ⟨d, row.docType, Operator.sourceText assembled⟩ attemptNo
          (replies tid ⟨d, row.docType, Operator.sourceText assembled⟩ attemptNo)).toOption.any
          fun r => decide (r.1 = input.verdict)
    | _ => true
  | _ => true

theorem exists_freeRun (site : Deployment) (as : List Action) (test : Sys → Bool)
    (h : (exec site initial as).any test = true) : ∃ t, FreeRun site initial as t ∧ test t = true := by
  obtain ⟨t, ht, htest⟩ := (Option.any_eq_true ..).mp h
  exact ⟨t, freeRun_of_exec ht, htest⟩

/-- A schedule whose verdicts are the funnel's, each slot's model answering every call alike. -/
theorem exists_judgedRun (site : Deployment) (replies : Nat → Funnel.Reply) (as : List Action) (test : Sys → Bool)
    (h : (Lib.execWhile (step site) (judgedBy .defaults fun tid _ _ _ _ => replies tid) initial as).any test = true) :
    ∃ t, FreeRun site initial as t ∧ test t = true := by
  obtain ⟨t, ht, htest⟩ := (Option.any_eq_true ..).mp h
  exact ⟨t, (Lib.run_of_execWhile ht).unguarded, htest⟩

/-- The slot whose run an action starts, steps or ends. -/
def Action.slot : Action → Option Nat
  | .spawn tid _ | .receive tid _ _ _ | .run tid _ | .crash tid => some tid
  | _ => none

theorem tasks_frame {site : Deployment} {s t : Sys} {a : Action} {tid : Nat} (h : Step site s a t)
    (hslot : a.slot ≠ some tid) : t.tasks tid = s.tasks tid := by
  have hother : ∀ {i : Nat}, a.slot = some i → tid ≠ i := by
    intro i hi he
    exact hslot (he ▸ hi)
  have hstart : ∀ {i : Nat} {task : Task}, a.slot = some i → s.startTask i task = some t →
      t.tasks tid = s.tasks tid := by
    intro i task hi h
    unfold startTask at h
    split at h <;> cases h
    exact if_neg (hother hi)
  unfold Step at h
  cases a with
  | tick =>
    cases h
    rfl
  | spawn i job => exact hstart rfl h
  | receive i topic partition offset =>
    obtain ⟨_, _, h⟩ := Option.bind_eq_some_iff.mp h
    exact hstart rfl h
  | run i input =>
    simp only [Sys.step, runTask] at h
    split at h
    · cases h
    · obtain ⟨_, _, rfl⟩ := Option.map_eq_some_iff.mp h
      exact if_neg (hother rfl)
  | crash i =>
    cases h
    exact if_neg (hother rfl)
  | relay | sink =>
    obtain ⟨_, _, rfl⟩ := Option.map_eq_some_iff.mp h
    rfl

theorem task_started {s t : Sys} {tid : Nat} {task : Task} (h : s.startTask tid task = some t) : t.tasks tid = some task := by
  unfold startTask at h
  split at h <;> cases h
  exact if_pos rfl

/-- A run in progress stays as it is, but for its own step and its crash. -/
theorem task_kept {site : Deployment} {s t : Sys} {a : Action} {tid : Nat} {task : Task} (h : Step site s a t)
    (htask : s.tasks tid = some task) (hrun : ∀ input, a ≠ .run tid input) (hcrash : a ≠ .crash tid) :
    t.tasks tid = some task := by
  by_cases hslot : a.slot = some tid
  · have hbusy : ∀ started, s.startTask tid started ≠ some t := by
      intro started h
      unfold startTask at h
      rw [htask] at h
      cases h
    cases a with
    | spawn i job =>
      cases hslot
      exact absurd h (hbusy _)
    | receive i topic partition offset =>
      cases hslot
      obtain ⟨started, _, h⟩ := Option.bind_eq_some_iff.mp h
      exact absurd h (hbusy started)
    | run i input =>
      cases hslot
      exact absurd rfl (hrun input)
    | crash i =>
      cases hslot
      exact absurd rfl hcrash
    | tick | relay | sink => cases hslot
  · rw [tasks_frame h hslot]
    exact htask

/-- A slot no action names stays empty. -/
theorem idle_of_freeRun {site : Deployment} {s : Sys} {as : List Action} (h : FreeRun site initial as s)
    {tid : Nat} (hidle : ∀ a, a ∈ as → a.slot ≠ some tid) : s.tasks tid = none := by
  induction h with
  | nil => rfl
  | @snoc t u as a _ _ hs ih =>
    have hlast : u.tasks tid = t.tasks tid := tasks_frame hs (hidle a (by simp))
    rw [hlast, ih fun b hb => hidle b (List.mem_append_left _ hb)]

end Sys

/-! ## What one process does -/
namespace Schedule

open Sys

/-- One relay call that publishes the `n` rows that are waiting. -/
def publish (n : Nat) : List Action :=
  [.relay 0 (.claim 50)] ++ List.replicate n (.relay 0 .produce) ++ List.replicate n (.relay 0 (.store 0 true)) ++
    [.relay 0 .finish]

/-- `n` steps of a run that nothing outside answers. -/
def turns (tid n : Nat) : List Action := List.replicate n (.run tid {})

/-- The detector finds the objects, and triage takes one message after another. -/
def intake (paths : List String) : List Action :=
  [.spawn 0 (.orphanScan paths)] ++ turns 0 3 ++ publish paths.length ++
    (List.range paths.length).flatMap (fun i => [.receive 0 .triageRequests 0 i] ++ turns 0 1) ++
    publish paths.length

/-- The worker reads the text layer that triage saw. -/
def textLayer (offset : Nat) : List Action := [.receive 0 .textEmbedded 0 offset] ++ turns 0 2 ++ publish 1

/-- An extraction run up to the funnel's verdict. -/
def extract (tid offset : Nat) (verdict : Extraction.Verdict) : List Action :=
  [.receive tid .ocrCompleted 0 offset] ++ turns tid 5 ++ [.run tid { verdict := verdict }]

/-- A sweep that claims one row, re-drives it, and returns. -/
def sweep (tid : Nat) : List Action := [.spawn tid (.sweep 50 [])] ++ turns tid 3

def forceRedrive (tid : Nat) (docId : DocId) : List Action :=
  [.spawn tid (.forceRedrive docId "retry" "ops")] ++ turns tid 3

def acceptReview (tid : Nat) (docId : DocId) : List Action :=
  [.spawn tid (.acceptReview docId "checked" "ops")] ++ turns tid 2

def killSwitch (tid : Nat) (enabled : Bool) : List Action :=
  [.spawn tid (.killSwitch enabled "incident" "ops")] ++ turns tid 1

end Schedule

/-! ## At the desk -/
namespace Desk

/-- A guarded schedule at a new desk that ends in a state satisfying a test. -/
theorem exists_guardedRun (site : Deployment) (guard : Desk → Action → Bool) (as : List Action) (test : Desk → Bool)
    (h : (Lib.execWhile (step site) guard {} as).any test = true) :
    ∃ k, GuardedRun site (fun k a => guard k a = true) {} as k ∧ test k = true := by
  obtain ⟨k, hk, htest⟩ := (Option.any_eq_true ..).mp h
  exact ⟨k, Lib.run_of_execWhile hk, htest⟩

def pipeline (as : List Sys.Action) : List Action := as.map .pipeline

/-- `n` statements of a call that select nothing. -/
def statements (cid n : Nat) : List Action := List.replicate n (.statement cid [])

end Desk
end DocPipeline

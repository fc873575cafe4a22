import DocPipeline.Gather.Desk
import DocPipeline.Audit.Replay

/-!
# Is a page count there when it is needed?

Triage rejects some uploads before it has counted their pages, and operators may bring
such documents back. They come back as `extract_pending` only: for the text states a page
count is asked for first, and no artifact is ever written for a document without one.
-/
namespace DocPipeline

set_option autoImplicit false

open Lib Lib.Transaction

/-- The next step of a run calls `route_text_production` with this page count, unless it
raises before. -/
inductive Task.Routes (site : Deployment) (w : World) : Task → Option Nat → Prop
  | triage {gcsPath : String} {blob : Blob} {n : Nat} : site.objects gcsPath = some blob →
      Pdf.readPageCount blob.data (Triage.contentType blob) = .ok n → Routes site w (.triage gcsPath) (some n)
  | fallThrough {docId : DocId} {gcsPath : String} {pages : List String} :
      PdfWorker.pagesText site gcsPath = some pages →
      Routes site w (.textEmbedded docId gcsPath .committing) (some pages.length)
  | sweep {docId : DocId} {row : Document} {rest : List (DocId × Document)} :
      row.state.isText = true → row.shardsTotal ≤ 1 →
      Routes site w (.sweep (.redriving ((docId, row) :: rest))) row.pageCount
  | forceRedrive {docId : DocId} {reason actor : String} {row : Document} {target : Operator.RedriveTarget} :
      target.state.isText = true → row.shardsTotal ≤ 1 →
      Routes site w (.forceRedrive docId reason actor (.committing row target)) row.pageCount

/-- The next step of a run calls `completeness` with this page count. -/
inductive Task.Completes (w : World) : Task → Option Nat → Prop
  | looking {docId : DocId} {doc : Document} {assembled : Artifact} : w.bucket.assembled docId = some assembled →
      Completes w (.extraction docId (.looking doc)) doc.pageCount
  | readingBack {docId : DocId} {doc : Document} {assembled : Artifact} : w.bucket.assembled docId = some assembled →
      Completes w (.extraction docId (.readingBack doc)) doc.pageCount

namespace Desk

/-- Some next step of a run or statement of a call routes with this page count; among the
calls are those of `dlq_replay.run` and `bulk_redrive`. -/
inductive Routes (site : Deployment) (k : Desk) : Option Nat → Prop
  | run {tid : Nat} {task : Task} {pages : Option Nat} : k.sys.tasks tid = some task →
      task.Routes site k.sys.world pages → Routes site k pages
  | statement {cid : Nat} {o : Open} {docId : DocId} {row : Document} : k.calls.lookup cid = some o →
      o.progress.upcoming = some (.redrive docId row) → row.state.isText = true → row.shardsTotal ≤ 1 →
      Routes site k row.pageCount

def Completes (k : Desk) (pages : Option Nat) : Prop :=
  ∃ tid task, k.sys.tasks tid = some task ∧ task.Completes k.sys.world pages

end Desk

namespace Audit

open Desk Gather

variable {site : Deployment} {k : Desk}

theorem task_routes {s : Sys} {tid : Nat} {task : Task} {pages : Option Nat} (h : Provided site s)
    (htask : s.tasks tid = some task) (hr : task.Routes site s.world pages) : pages ≠ none := by
  have hi := h.informed tid task htask
  have ht := h.sound.tasks tid task htask
  cases hr with
  | triage | fallThrough => exact Option.some_ne_none _
  | sweep htext => exact hi _ List.mem_cons_self htext
  | @forceRedrive _ _ _ row target htext =>
    obtain ⟨_, hknown⟩ := ht
    cases target with
    | textPending => exact hknown rfl
    | extractPending => cases htext

theorem task_completes {s : Sys} {tid : Nat} {task : Task} {pages : Option Nat} (h : Provided site s)
    (htask : s.tasks tid = some task) (hc : task.Completes s.world pages) : pages ≠ none := by
  have hi := h.informed tid task htask
  cases hc with
  | @looking d doc assembled hart | @readingBack d doc assembled hart =>
    exact Snapshot.paged hi (h.stocked.assembled d (hart ▸ Option.some_ne_none _))

/-- A re-drive among the writes of an action. -/
theorem redrive_pages {action : BreakGlass} {pending todo : List Write} {docId : DocId} {row : Document}
    (h : Recalls site k.db action pending (.writing todo)) (hsound : Pc.Sound site action pending (.writing todo))
    (hmem : Write.redrive docId row ∈ pending ++ todo) (htext : row.state.isText = true) : row.pageCount ≠ none := by
  cases action with
  | forceRedrive docId' reason actor =>
    obtain ⟨found, assembled, target, _, htarget, hwrites⟩ := h docId' reason actor rfl
    simp only [hwrites, BreakGlass.redriveWrites, List.mem_cons, Write.redrive.injEq, List.not_mem_nil, or_false,
      reduceCtorEq, false_or] at hmem
    obtain ⟨_, rfl⟩ := hmem
    cases target with
    | textPending =>
      have hpages : found.pageCount ≠ none := Operator.textPending_pages htarget
      exact hpages
    | extractPending => cases htext
  | acceptReview docId' reason actor =>
    obtain ⟨_, assembled, found, hplan⟩ := hsound
    cases found with
    | none => cases hplan
    | some found =>
      simp only [BreakGlass.plan] at hplan
      split at hplan
      · cases hplan
      · rw [← Except.ok.inj hplan] at hmem
        simp [BreakGlass.acceptWrites] at hmem
  | setKillSwitch enabled reason actor =>
    obtain ⟨_, assembled, found, hplan⟩ := hsound
    rw [← Except.ok.inj hplan] at hmem
    simp [BreakGlass.killSwitchWrites] at hmem

/-- The row of a re-drive that is about to be executed. -/
theorem upcoming_redrive {progress : Progress} {pending : List Write} {docId : DocId} {row : Document}
    (h : CallRecalls site k.db progress pending) (hsound : progress.Sound site pending)
    (hup : progress.upcoming = some (.redrive docId row)) (htext : row.state.isText = true) : row.pageCount ≠ none := by
  have hmem : ∀ todo : List Write, Write.redrive docId row ∈ pending ++ Write.redrive docId row :: todo := fun _ =>
    List.mem_append_right _ List.mem_cons_self
  have hwriting : ∀ {action : BreakGlass} {pc : Pc}, progress.at site = some (action, pc) → pc.Sound site action pending →
      ∀ todo, pc = .writing (.redrive docId row :: todo) → row.pageCount ≠ none := by
    rintro action pc hat hpc todo rfl
    exact redrive_pages (h action _ hat) hpc (hmem todo) htext
  cases progress with
  | acting action pc =>
    cases pc with
    | writing todo =>
      cases todo with
      | nil => cases hup
      | cons write todo =>
        cases hup
        exact hwriting rfl hsound todo rfl
    | requiring | selecting | planning => cases hup
  | looping loop docId' pc =>
    cases pc with
    | writing todo =>
      cases todo with
      | nil => cases hup
      | cons write todo =>
        cases hup
        exact hwriting rfl hsound.2.2 todo rfl
    | requiring | selecting | planning => cases hup
  | concluding bulk loop todo =>
    cases todo with
    | nil => cases hup
    | cons write todo =>
      cases hup
      obtain ⟨_, _, htodo⟩ := hsound
      have hnot := hmem todo
      rw [htodo, List.mem_singleton] at hnot
      cases hnot
  | requiring | matching | finding => cases hup

/-- In every state that the pipeline and the desk reach, whatever the order of their steps:
a document that waits for text or whose text is being produced has a page count, so has one
with an assembled artifact, and no next step routes or checks completeness without one. -/
theorem routing_data_present {as : List Desk.Action} (h : Desk.FreeRun site {} as k) :
    (∀ d row, k.sys.document d = some row → row.state = .textPending ∨ row.state = .textRunning → row.pageCount ≠ none) ∧
    (∀ d, k.sys.world.bucket.assembled d ≠ none → ∃ row, k.sys.document d = some row ∧ row.pageCount ≠ none) ∧
    (∀ pages, k.Routes site pages → pages ≠ none) ∧ ∀ pages, k.Completes pages → pages ≠ none := by
  have hk := equipped_run h
  refine ⟨fun d row hrow hstate => ?_, hk.pipeline.stocked.assembled, fun pages hroutes => ?_, fun pages hc => ?_⟩
  · refine hk.pipeline.sound.ledger.text d row hrow ?_
    rcases hstate with h | h <;> rw [h] <;> rfl
  · cases hroutes with
    | run htask hr => exact task_routes hk.pipeline htask hr
    | @statement cid _ _ _ ho hup htext => exact upcoming_redrive (hk.calls cid _ ho) (hk.connections cid _ ho) hup htext
  · obtain ⟨tid, task, htask, hcompletes⟩ := hc
    exact task_completes hk.pipeline htask hcompletes

/-- The worker dies over the split of a scan twice, and `dlq_replay.run` is about to send
the document back for its text. -/
def replayedForText : List Desk.Action :=
  pipeline (Schedule.intake ["a.pdf"] ++ Schedule.textLayer 0 ++ [.receive 0 .ocrSplit 0 0] ++ Schedule.turns 0 1 ++
    [.crash 0, .tick 31 0] ++ Schedule.sweep 1 ++ Schedule.publish 1 ++ [.receive 0 .ocrSplit 0 1] ++ Schedule.turns 0 1 ++
    diesAtCap) ++
  [.call 0 (.dlqReplay "dlq-replay-cron" false), .statement 0 ["crc32c-a"]] ++ statements 0 4

def redrivesNext (k : Desk) : Bool :=
  match (k.calls.lookup 0).bind fun o => o.progress.upcoming with
  | some (.redrive _ row) => row.state = .textPending && decide (row.shardsTotal ≤ 1)
  | _ => false

theorem replay_has_pages :
    ∃ k, Desk.FreeRun (oneAttempt oneScan) {} replayedForText k ∧ redrivesNext k = true ∧
      ∀ pages, k.Routes (oneAttempt oneScan) pages → pages ≠ none := by
  obtain ⟨k, hrun, hk⟩ := Desk.exists_guardedRun (oneAttempt oneScan) (fun _ _ => true) replayedForText redrivesNext
    (by decide +kernel)
  exact ⟨k, hrun.unguarded, hk, (routing_data_present hrun.unguarded).2.2.1⟩

end Audit
end DocPipeline

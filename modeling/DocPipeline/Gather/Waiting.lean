import DocPipeline.Gather.Invariant
import DocPipeline.Gather.TextRun
import DocPipeline.Schedule

/-!
# Messages that wait

Which steps leave a document alone, and which messages sent from some moment on no run has
been started for. What is pending for a document stays so until its own step.
-/
namespace DocPipeline

set_option autoImplicit false

open Lib Lib.Transaction

/-! ## Runs that leave a document alone -/

/-- The next step of the task may move the document, without being a text worker's. -/
def Task.disturbs (site : Deployment) (db : Db) (d : DocId) : Task → Bool
  | .extraction docId _ => decide (docId = d)
  | .forceRedrive docId _ _ (.committing _ _) => decide (docId = d)
  | .sweep (.claiming cap locked) => (Sweeper.claimStuckBatch site db cap locked).any fun r => decide (r.1 = d)
  | _ => false

/-- A sweep that has claimed the document and has yet to re-drive it. -/
def Task.redrives (d : DocId) : Task → Bool
  | .sweep (.redriving claimed) => claimed.any fun r => decide (r.1 = d)
  | _ => false

/-- Who writes a document: triage and `accept_review` apart, its own workers and the re-drives. -/
theorem Task.Does.writing {site : Deployment} {start db : Db} {task : Task} {op : Operation} {d : DocId}
    (h : task.Does site start db op) (hop : op.writes = some d) :
    (∃ row, op = .insert d row) ∨ (∃ gates payload, op = .accept d gates payload) ∨ task.isTextOf d = true ∨
      (∃ pc, task = .extraction d pc) ∨
      (∃ reason actor row target, task = .forceRedrive d reason actor (.committing row target)) ∨
      ∃ cap locked, task = .sweep (.claiming cap locked) := by
  cases task with
  | orphanScan => cases h; cases hop
  | killSwitch => cases h; cases hop
  | triage =>
    cases h with
    | insert =>
      cases hop
      exact Or.inl ⟨_, rfl⟩
    | dispatch => cases hop
  | acceptReview =>
    cases h with
    | accept =>
      cases hop
      exact Or.inr (Or.inl ⟨_, _, rfl⟩)
    | audit => cases hop
  | textEmbedded docId path pc =>
    obtain ⟨_, _, _, h⟩ := h
    refine Or.inr (Or.inr (Or.inl (decide_eq_true ?_)))
    cases h with
    | completed | dispatch => cases hop
    | begin | tier0 | fallThrough | back => exact Option.some.inj hop
  | ocrSplit docId path pc =>
    refine Or.inr (Or.inr (Or.inl (decide_eq_true ?_)))
    cases h with
    | shard => cases hop
    | begin | split => exact Option.some.inj hop
  | ocrShard payload pc =>
    refine Or.inr (Or.inr (Or.inl (decide_eq_true ?_)))
    cases h with
    | completed => cases hop
    | begin | record | join => exact Option.some.inj hop
  | extraction docId pc =>
    refine Or.inr (Or.inr (Or.inr (Or.inl ⟨pc, ?_⟩)))
    have hdoc : docId = d := by
      cases h with
      | logging => cases hop
      | opening | stamping | counting | funnel | routing | exhausted | holding | posting | losing =>
        exact Option.some.inj hop
    rw [hdoc]
  | forceRedrive docId reason actor pc =>
    cases h with
    | move =>
      cases hop
      exact Or.inr (Or.inr (Or.inr (Or.inr (Or.inl ⟨reason, actor, _, _, rfl⟩))))
    | redrive | audit => cases hop
  | sweep pc =>
    cases h with
    | claim | note => exact Or.inr (Or.inr (Or.inr (Or.inr (Or.inr ⟨_, _, rfl⟩))))
    | redrive => cases hop

/-- The claim of a sweep leaves a document outside its batch alone. -/
theorem Sweeper.claim_elsewhere {site : Deployment} {w : World} {cap : Nat} {locked : List DocId} {d : DocId}
    (h : d ∉ (claimStuckBatch site w.db cap locked).map Prod.fst) :
    (step site w (.claiming cap locked)).1.db.documents.lookup d = w.db.documents.lookup d ∧
      (step site w (.claiming cap locked)).1.db.documentShards = w.db.documentShards := by
  rw [step]
  rcases w.transact_cases (claimBatch site cap locked) (fun rows => (.goto (.redriving rows) : Next Pc Unit)) .raised
    with ⟨claimed, db', hc, he⟩ | ⟨_, he⟩
  · simp only [claimBatch, commits_bind, commits_get] at hc
    obtain ⟨_, _, ⟨rfl, rfl⟩, hc⟩ := hc
    obtain ⟨hdocs, hshards, _⟩ := claimRows_elsewhere (d := d) (fun r hr => (claimStuckBatch_current r hr).1)
      claimStuckBatch_nodup hc
    rw [he]
    exact ⟨hdocs h, hshards⟩
  · rw [he]
    exact ⟨rfl, rfl⟩

/-- A step that does not disturb a document in flight, nor is a text worker's, leaves it alone. -/
theorem Task.undisturbed {site : Deployment} {w : World} {input : Input} {task : Task} {r : World × Option Task}
    {d : DocId} {row : Document} (h : task.step site w input = some r) (htext : task.isTextOf d = false)
    (hcalm : task.disturbs site w.db d = false) (hrow : w.db.documents.lookup d = some row)
    (hflight : row.state.inFlight = true) :
    r.1.db.documents.lookup d = some row ∧ ∀ i, (d, i) ∈ r.1.db.documentShards ↔ (d, i) ∈ w.db.documentShards := by
  by_cases hclaim : ∃ cap locked, task = .sweep (.claiming cap locked)
  · obtain ⟨cap, locked, rfl⟩ := hclaim
    cases h
    have hout : d ∉ (Sweeper.claimStuckBatch site w.db cap locked).map Prod.fst := by
      rintro hd
      obtain ⟨r, hr, rfl⟩ := List.mem_map.mp hd
      simp only [Task.disturbs, List.any_eq_false, decide_eq_true_eq] at hcalm
      exact hcalm r hr rfl
    obtain ⟨hdocs, hshards⟩ := Sweeper.claim_elsewhere hout
    exact ⟨hdocs.trans hrow, fun i => by rw [hshards]⟩
  · refine (Task.step_performs h).invariant (P := fun db => db.documents.lookup d = some row ∧
      ∀ i, (d, i) ∈ db.documentShards ↔ (d, i) ∈ w.db.documentShards) ⟨hrow, fun _ => Iff.rfl⟩
      fun db op db' hi hd hs => ?_
    have hop : op.writes ≠ some d := by
      intro hop
      rcases hd.writing hop with ⟨_, rfl⟩ | ⟨_, _, rfl⟩ | ht | ⟨pc, rfl⟩ | ⟨_, _, _, _, rfl⟩ | hsweep
      · cases hs with
        | insert hnone =>
          rw [hi.1] at hnone
          cases hnone
      · cases hs with
        | accept hrow' hstate =>
          rw [hi.1] at hrow'
          cases hrow'
          rcases hstate with hstate | hstate <;> (rw [hstate] at hflight; cases hflight)
      · rw [htext] at ht
        cases ht
      · exact of_decide_eq_false hcalm rfl
      · exact of_decide_eq_false hcalm rfl
      · exact hclaim hsweep
    obtain ⟨hdocs, hshards⟩ := hs.elsewhere hop
    exact ⟨hdocs.trans hi.1, fun i => (hshards i).trans (hi.2 i)⟩

/-! ## What waits -/

/-- The pipeline, and the messages sent from some moment on that no run has been started for. -/
structure Recovery where
  sys : Sys
  waiting : List OutboxRow

namespace Recovery

/-- The messages a step has sent. -/
def sentSince (s t : Sys) : List OutboxRow := t.db.sent.take (t.db.sent.length - s.db.sent.length)

def receives (s : Sys) : Sys.Action → OutboxRow → Bool
  | .receive _ topic partition offset, m => decide ((s.broker topic partition)[offset]? = some m)
  | _, _ => false

def step (site : Deployment) (r : Recovery) (a : Sys.Action) : Option Recovery :=
  (r.sys.step site a).map fun t =>
    ⟨t, sentSince r.sys t ++ r.waiting.filter fun m => !receives r.sys a m⟩

def Step (site : Deployment) (r : Recovery) (a : Sys.Action) (r' : Recovery) : Prop := r.step site a = some r'

/-- A waiting message starts this run, or it is in progress. -/
def Pending (r : Recovery) (task : Task) : Prop :=
  (∃ m, m ∈ r.waiting ∧ Task.ofMessage m.topic m.payload = some task) ∨ ∃ tid, r.sys.tasks tid = some task

variable {site : Deployment} {r r' : Recovery} {a : Sys.Action} {d : DocId} {n : Nat} {row row' : Document}

theorem step_inv (h : Step site r a r') : Sys.Step site r.sys a r'.sys ∧
    r'.waiting = sentSince r.sys r'.sys ++ r.waiting.filter fun m => !receives r.sys a m := by
  obtain ⟨t, ht, rfl⟩ := Option.map_eq_some_iff.mp h
  exact ⟨ht, rfl⟩

theorem sentSince_eq {s t : Sys} {new : List OutboxRow} (h : t.db.sent = new ++ s.db.sent) : sentSince s t = new := by
  rw [sentSince, h, List.length_append, Nat.add_sub_cancel, List.take_left]

/-- What a step sends waits after it. -/
theorem pending_of_sends {new : List OutboxRow} {task : Task} (h : Step site r a r')
    (hnew : r'.sys.db.sent = new ++ r.sys.db.sent) (hm : Gather.Sends new task) : r'.Pending task := by
  obtain ⟨m, hm, hmsg⟩ := hm
  refine Or.inl ⟨m, ?_, hmsg⟩
  rw [(step_inv h).2, sentSince_eq hnew]
  exact List.mem_append_left _ hm

/-- What is pending stays so, until the run itself takes a step or dies. -/
theorem pending_kept {task : Task} (h : Step site r a r') (htransport : Sys.Transport site r.sys) (hp : r.Pending task)
    (hown : ∀ tid, r.sys.tasks tid = some task → (∀ input, a ≠ .run tid input) ∧ a ≠ .crash tid) :
    r'.Pending task := by
  obtain ⟨hs, hwaiting⟩ := step_inv h
  rcases hp with ⟨m, hm, hmsg⟩ | ⟨tid, htask⟩
  · cases hreceived : receives r.sys a m with
    | false =>
      refine Or.inl ⟨m, ?_, hmsg⟩
      rw [hwaiting]
      exact List.mem_append_right _ (List.mem_filter.mpr ⟨hm, by rw [hreceived]; rfl⟩)
    | true =>
      cases a with
      | receive tid topic partition offset =>
        have hrow := of_decide_eq_true hreceived
        obtain ⟨_, htopic, _⟩ := htransport.delivers.stored topic partition m (List.mem_of_getElem? hrow)
        subst htopic
        obtain ⟨started, hstarted, hs⟩ := Option.bind_eq_some_iff.mp hs
        rw [hrow, Option.bind_some, hmsg] at hstarted
        cases hstarted
        exact Or.inr ⟨tid, Sys.task_started hs⟩
      | tick | spawn | run | crash | relay | sink => cases hreceived
  · exact Or.inr ⟨tid, Sys.task_kept hs htask (hown tid htask).1 (hown tid htask).2⟩

theorem freeRun_of_run {Guard : Recovery → Sys.Action → Prop} {r r' : Recovery} {as : List Sys.Action}
    (h : Run (Step site) Guard r as r') : Sys.FreeRun site r.sys as r'.sys := by
  induction h with
  | nil => exact .nil
  | snoc _ _ hs ih => exact ih.snoc trivial (step_inv hs).1

end Recovery

end DocPipeline

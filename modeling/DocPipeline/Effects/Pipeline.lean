import DocPipeline.System
import DocPipeline.Effects.Intake
import DocPipeline.Effects.Extraction
import DocPipeline.Effects.Reconciliation

/-!
# What a step of the pipeline does to the ledger

Every step of a run in progress performs operations its task allows. The relay, the
sink and the clock leave the documents, the shards and both histories as they are.
-/
namespace DocPipeline

set_option autoImplicit false

open Lib Lib.Transaction

/-- The operations a step of the task may perform, started on `start`. -/
def Task.Does (site : Deployment) (start : Db) : Task → Db → Operation → Prop
  | .orphanScan _ => OrphanDetector.Does
  | .triage gcsPath => Triage.Does site gcsPath
  | .textEmbedded docId gcsPath pc => fun db op => ∃ pages, PdfWorker.pagesText site gcsPath = some pages ∧
      pc = .committing ∧ PdfWorker.EmbeddedDoes site docId gcsPath pages start db op
  | .ocrSplit docId gcsPath pc => PdfWorker.SplitDoes site docId gcsPath pc
  | .ocrShard payload pc => OcrShard.Does payload pc
  | .extraction docId pc => Extraction.Does site docId start pc
  | .sweep pc => Sweeper.Does site pc
  | .forceRedrive docId _ _ pc => Operator.RedriveDoes site docId pc
  | .acceptReview docId _ _ pc => Operator.AcceptDoes docId start pc
  | .killSwitch _ _ _ => fun _ op => op = .aside

theorem Task.step_performs {site : Deployment} {w : World} {input : Input} {task : Task}
    {r : World × Option Task} (h : task.step site w input = some r) :
    Performs (task.Does site w.db) w.db r.1.db := by
  cases task with
  | orphanScan pc =>
    cases h
    exact OrphanDetector.step_performs site w pc
  | triage gcsPath =>
    cases h
    exact w.transact_performs _ _ _ fun _ db h => Triage.handleGcsPath_performs h
  | textEmbedded docId gcsPath pc =>
    obtain ⟨r', hr, rfl⟩ := Option.map_eq_some_iff.mp h
    obtain ⟨pages, hpages, hp⟩ := PdfWorker.embeddedStep_performs hr
    exact hp.mono fun _ _ hd => ⟨pages, hpages, hd⟩
  | ocrSplit docId gcsPath pc =>
    obtain ⟨r', hr, rfl⟩ := Option.map_eq_some_iff.mp h
    exact PdfWorker.splitStep_performs hr
  | ocrShard payload pc =>
    cases h
    exact OcrShard.step_performs w input.texts pc
  | extraction docId pc =>
    cases h
    exact Extraction.step_performs w input.verdict pc
  | sweep pc =>
    cases h
    exact Sweeper.step_performs site w pc
  | forceRedrive docId reason actor pc =>
    cases h
    exact Operator.redriveStep_performs w pc
  | acceptReview docId reason actor pc =>
    cases h
    exact Operator.acceptStep_performs w pc
  | killSwitch enabled reason actor =>
    cases h
    exact w.transact_performs _ _ _ fun _ db h => Operator.setKillSwitch_performs (fun _ => rfl) h

theorem Next.goto_of_task {π ρ : Type} {wrap : π → Task} {next : Next π ρ} {task : Task}
    (h : next.task wrap = some task) : ∃ pc, next = .goto pc ∧ wrap pc = task := by
  cases next with
  | goto pc => exact ⟨pc, rfl, Option.some.inj h⟩
  | returned | raised => cases h

/-- The document whose record an operation closes or re-keys. -/
def Operation.closes : Operation → Option DocId
  | .route docId _ | .settle docId _ _ | .post docId _ _ _ | .rekey docId _ _ => some docId
  | _ => none

/-- Only an extraction run closes a document, in the database its step starts from. -/
theorem Task.Does.closing {site : Deployment} {start db : Db} {task : Task} {op : Operation} {docId : DocId}
    (h : task.Does site start db op) (hop : op.closes = some docId) :
    ∃ pc, task = .extraction docId pc ∧ db = start ∧ Extraction.Does site docId start pc start op := by
  cases task with
  | extraction d pc =>
    cases h with
    | routing | exhausted | holding | posting | losing =>
      cases hop
      exact ⟨_, rfl, rfl, by constructor⟩
    | opening | stamping | counting | funnel | logging => cases hop
  | orphanScan => cases h; cases hop
  | triage => cases h <;> cases hop
  | textEmbedded =>
    obtain ⟨_, _, _, h⟩ := h
    cases h <;> cases hop
  | ocrSplit | ocrShard | sweep | forceRedrive | acceptReview => cases h <;> cases hop
  | killSwitch => cases h; cases hop

/-- Only `accept_review` overrides a gate decision, as the first operation of its step. -/
theorem Task.Does.accepting {site : Deployment} {start db : Db} {task : Task} {docId : DocId}
    {gates : GateResults} {payload : ExtractedPayload} (h : task.Does site start db (.accept docId gates payload)) :
    ∃ reason actor row, task = .acceptReview docId reason actor (.committing row) ∧ db = start := by
  cases task with
  | acceptReview d reason actor pc =>
    cases h
    exact ⟨reason, actor, _, rfl, rfl⟩
  | textEmbedded =>
    obtain ⟨_, _, _, h⟩ := h
    cases h
  | orphanScan | triage | ocrSplit | ocrShard | extraction | sweep | forceRedrive | killSwitch => cases h

/-- Only triage inserts a row. -/
theorem Task.Does.inserting {site : Deployment} {start db : Db} {task : Task} {docId : DocId} {row : Document}
    (h : task.Does site start db (.insert docId row)) :
    ∃ gcsPath blob, task = .triage gcsPath ∧ site.objects gcsPath = some blob ∧ Triage.Admits gcsPath blob row := by
  cases task with
  | triage gcsPath =>
    cases h with
    | insert hblob hrow => exact ⟨gcsPath, _, rfl, hblob, hrow⟩
  | textEmbedded =>
    obtain ⟨_, _, _, h⟩ := h
    cases h
  | orphanScan | ocrSplit | ocrShard | extraction | sweep | forceRedrive | acceptReview | killSwitch => cases h

/-- Only a commit of `text.embedded` falls through, on a row whose total it has found. -/
theorem Task.Does.falling {site : Deployment} {start db : Db} {task : Task} {docId : DocId} {total : Nat}
    (h : task.Does site start db (.fallThrough docId total)) :
    ∃ gcsPath pages, task = .textEmbedded docId gcsPath .committing ∧
      PdfWorker.pagesText site gcsPath = some pages ∧ (Pdf.textSanity site.unicode pages).1 = false ∧ total = 1 ∧
      ∀ row, db.documents.lookup docId = some row → ∃ old, start.documents.lookup docId = some old ∧
        old.shardsTotal = row.shardsTotal ∧ (old.state = .textPending ∨ old.state = .textRunning) := by
  cases task with
  | textEmbedded d gcsPath pc =>
    obtain ⟨pages, hpages, rfl, h⟩ := h
    cases h with
    | fallThrough hok hroute hkept =>
      exact ⟨gcsPath, pages, rfl, hpages, hok, (PdfWorker.route_ocr (by decide) hroute).1, hkept⟩
  | orphanScan | triage | ocrSplit | ocrShard | extraction | sweep | forceRedrive | acceptReview | killSwitch => cases h

/-- Only `ocr.split` writes the counts of a split. -/
theorem Task.Does.splitting {site : Deployment} {start db : Db} {task : Task} {docId : DocId} {total n : Nat}
    (h : task.Does site start db (.split docId total n)) :
    ∃ gcsPath pc, task = .ocrSplit docId gcsPath pc ∧ PdfWorker.splitCounts site gcsPath = some (total, n) := by
  cases task with
  | ocrSplit d gcsPath pc =>
    cases h with
    | split hsplit => exact ⟨gcsPath, _, rfl, hsplit⟩
  | textEmbedded =>
    obtain ⟨_, _, _, h⟩ := h
    cases h
  | orphanScan | triage | ocrShard | extraction | sweep | forceRedrive | acceptReview | killSwitch => cases h

/-- Only `ocr.shard` claims an index, the one of its message. -/
theorem Task.Does.recording {site : Deployment} {start db : Db} {task : Task} {docId : DocId} {idx : Nat}
    (h : task.Does site start db (.recordShard docId idx)) :
    ∃ payload pc, task = .ocrShard payload pc ∧ payload.docId = docId ∧ payload.shardIdx = idx := by
  cases task with
  | ocrShard payload pc =>
    cases h with
    | record => exact ⟨payload, _, rfl, rfl, rfl⟩
  | textEmbedded =>
    obtain ⟨_, _, _, h⟩ := h
    cases h
  | orphanScan | triage | ocrSplit | extraction | sweep | forceRedrive | acceptReview | killSwitch => cases h

/-- What is moved to a text state was in one, or is a text worker's, or a re-drive's. -/
theorem Task.Does.toText {site : Deployment} {start db : Db} {task : Task} {docId : DocId} {toState : DocState}
    (h : task.Does site start db (.move docId toState)) (htext : toState.isText = true) :
    (∃ row, db.documents.lookup docId = some row ∧ row.state.inFlight = true) ∨
    (∃ gcsPath pc, task = .textEmbedded docId gcsPath pc) ∨ (∃ gcsPath pc, task = .ocrSplit docId gcsPath pc) ∨
    (∃ payload pc, task = .ocrShard payload pc ∧ payload.docId = docId) ∨
    ∃ reason actor row, task = .forceRedrive docId reason actor (.committing row .textPending) := by
  cases task with
  | textEmbedded d gcsPath pc =>
    obtain ⟨_, _, _, h⟩ := h
    cases h <;> exact Or.inr (Or.inl ⟨gcsPath, pc, rfl⟩)
  | ocrSplit d gcsPath pc =>
    cases h
    exact Or.inr (Or.inr (Or.inl ⟨gcsPath, _, rfl⟩))
  | ocrShard payload pc => cases h <;> exact Or.inr (Or.inr (Or.inr (Or.inl ⟨payload, _, rfl, rfl⟩)))
  | sweep =>
    cases h with
    | claim hrow hflight => exact Or.inl ⟨_, hrow, hflight⟩
  | forceRedrive d reason actor pc =>
    cases h with
    | @move _ row target =>
      cases target with
      | textPending => exact Or.inr (Or.inr (Or.inr (Or.inr ⟨reason, actor, row, rfl⟩)))
      | extractPending => cases htext
  | extraction =>
    cases h
    cases htext
  | orphanScan | triage | acceptReview | killSwitch => cases h

/-- What is moved to `extract_pending` was in flight, unless an operator re-drives it. -/
theorem Task.Does.pending {site : Deployment} {start db : Db} {task : Task} {docId : DocId}
    (h : task.Does site start db (.move docId .extractPending)) :
    (∃ row, db.documents.lookup docId = some row ∧ row.state.inFlight = true) ∨
    ∃ reason actor row target, task = .forceRedrive docId reason actor (.committing row target) := by
  generalize hto : DocState.extractPending = toState at h
  cases task with
  | textEmbedded =>
    obtain ⟨_, _, _, h⟩ := h
    cases h with
    | begin | back => cases hto
    | tier0 _ hrow hstate => exact Or.inl ⟨_, hrow, by rw [hstate]; rfl⟩
  | ocrShard =>
    cases h with
    | begin => cases hto
    | join hrow _ hstate =>
      refine Or.inl ⟨_, hrow, ?_⟩
      rcases hstate with h | h <;> (rw [h]; rfl)
  | sweep =>
    cases h with
    | claim hrow hflight => exact Or.inl ⟨_, hrow, hflight⟩
  | forceRedrive d reason actor pc =>
    cases h
    exact Or.inr ⟨reason, actor, _, _, rfl⟩
  | orphanScan | triage | acceptReview | killSwitch => cases h
  | ocrSplit | extraction =>
    cases h
    cases hto

namespace Sys

variable {site : Deployment} {s t : Sys} {a : Action}

/-- What a step that is not a handler's leaves of the database. -/
structure Keeps (db db' : Db) : Prop where
  documents : db'.documents = db.documents
  documentShards : db'.documentShards = db.documentShards
  outboxSeq : db'.outboxSeq = db.outboxSeq
  history : db'.history = db.history
  sent : db'.sent = db.sent

/-- The operations a step of the system may perform. -/
def Does (site : Deployment) (s : Sys) : Action → Db → Operation → Prop
  | .run tid _ => fun db op => ∃ task, s.tasks tid = some task ∧ task.Does site s.db db op
  | _ => fun _ _ => False

theorem Does.run {db : Db} {op : Operation} (h : s.Does site a db op) :
    ∃ tid input, a = .run tid input ∧ ∃ task, s.tasks tid = some task ∧ task.Does site s.db db op := by
  cases a with
  | run tid input => exact ⟨tid, input, rfl, h⟩
  | tick | spawn | receive | crash | relay | sink => exact h.elim

theorem runTask_eq {tid : Nat} {input : Input} (h : s.runTask site tid input = some t) :
    ∃ task r, s.tasks tid = some task ∧ task.step site s.world input = some r ∧
      t = { s with
        world := r.1
        tasks := fun i => if i = tid then r.2 else s.tasks i
        log := task.landmark site s.world input tid ++ s.log } := by
  unfold runTask at h
  split at h
  · cases h
  · next task htask =>
    obtain ⟨r, hr, rfl⟩ := Option.map_eq_some_iff.mp h
    exact ⟨task, r, htask, hr, rfl⟩

/-- What a step is. The clock and the slots change nothing that the runs share but the time. -/
inductive Kind (site : Deployment) (s : Sys) : Action → Sys → Prop
  | idle {a : Action} {clock now : Nat} {tasks : Nat → Option Task} :
      Kind site s a { s with
        clock := clock, world := { s.world with db := { s.world.db with now := now } }, tasks := tasks }
  | ran {tid : Nat} {input : Input} {task : Task} {r : World × Option Task} : s.tasks tid = some task →
      task.step site s.world input = some r → Kind site s (.run tid input)
        { s with
          world := r.1
          tasks := fun i => if i = tid then r.2 else s.tasks i
          log := task.landmark site s.world input tid ++ s.log }
  | relayed {rid : Nat} {act : Relay.Act} {t : Sys} : s.runRelay site rid act = some t → Kind site s (.relay rid act) t
  | sunk {partition : Nat} {act : Sink.Act} {t : Sys} : s.runSink partition act = some t →
      Kind site s (.sink partition act) t

theorem step_kind (h : Step site s a t) : Kind site s a t := by
  have hstart : ∀ {tid : Nat} {task : Task}, s.startTask tid task = some t → Kind site s a t := by
    intro tid task h
    unfold startTask at h
    split at h <;> cases h
    exact .idle
  unfold Step at h
  cases a with
  | tick | crash =>
    cases h
    exact .idle
  | spawn tid job => exact hstart h
  | receive tid topic partition offset =>
    obtain ⟨_, _, h⟩ := Option.bind_eq_some_iff.mp h
    exact hstart h
  | run tid input =>
    obtain ⟨_, _, htask, hr, rfl⟩ := runTask_eq h
    exact .ran htask hr
  | relay => exact .relayed h
  | sink => exact .sunk h

/-- Where a task in progress comes from: it was there, it has just been started by an
operator or by a message, or the step was its own. -/
theorem task_of_step (h : Step site s a t) {tid : Nat} {task : Task} (ht : t.tasks tid = some task) :
    s.tasks tid = some task ∨ (∃ job : Job, task = job.start) ∨
    (∃ topic partition row, row ∈ s.broker topic partition ∧ Task.ofMessage topic row.payload = some task) ∨
    ∃ input task' r, a = .run tid input ∧ s.tasks tid = some task' ∧ task'.step site s.world input = some r ∧
      r.2 = some task ∧ t.world = r.1 := by
  have hstart : ∀ {i : Nat} {started : Task}, s.startTask i started = some t →
      s.tasks tid = some task ∨ started = task := by
    intro i started h
    unfold startTask at h
    split at h <;> cases h
    simp only [setTask] at ht
    split at ht
    · exact Or.inr (Option.some.inj ht)
    · exact Or.inl ht
  unfold Step at h
  cases a with
  | tick =>
    cases h
    exact Or.inl ht
  | spawn i job =>
    rcases hstart h with hkept | rfl
    · exact Or.inl hkept
    · exact Or.inr (Or.inl ⟨job, rfl⟩)
  | receive i topic partition offset =>
    obtain ⟨started, hmsg, h⟩ := Option.bind_eq_some_iff.mp h
    obtain ⟨row, hrow, hmsg⟩ := Option.bind_eq_some_iff.mp hmsg
    rcases hstart h with hkept | rfl
    · exact Or.inl hkept
    · exact Or.inr (Or.inr (Or.inl ⟨topic, partition, row, List.mem_of_getElem? hrow, hmsg⟩))
  | run i input =>
    obtain ⟨task', r, htask, hr, rfl⟩ := runTask_eq h
    simp only at ht
    split at ht
    · next hi =>
      subst hi
      exact Or.inr (Or.inr (Or.inr ⟨input, task', r, rfl, htask, hr, ht, rfl⟩))
    · exact Or.inl ht
  | crash i =>
    cases h
    simp only [setTask] at ht
    split at ht
    · cases ht
    · exact Or.inl ht
  | relay rid act =>
    obtain ⟨_, _, rfl⟩ := Option.map_eq_some_iff.mp h
    exact Or.inl ht
  | sink partition act =>
    obtain ⟨_, _, rfl⟩ := Option.map_eq_some_iff.mp h
    exact Or.inl ht

/-- A run of the extraction worker starts at its opening, and is the only one that
leads to its later program counters. -/
theorem extraction_of_step (h : Step site s a t) {tid : Nat} {docId : DocId} {pc : Extraction.Pc}
    (ht : t.tasks tid = some (.extraction docId pc)) :
    s.tasks tid = some (.extraction docId pc) ∨ pc = .opening ∨
    ∃ input pc', a = .run tid input ∧ s.tasks tid = some (.extraction docId pc') ∧
      (Extraction.step site docId input.verdict s.world pc').2 = .goto pc := by
  rcases task_of_step h ht with hkept | ⟨job, hjob⟩ | ⟨topic, _, row, _, hmsg⟩ | ⟨input, task, r, rfl, htask, hr, hnext, _⟩
  · exact Or.inl hkept
  · cases job <;> cases hjob
  · cases topic <;> cases hp : row.payload <;> rw [hp] at hmsg <;> cases hmsg
    exact Or.inr (Or.inl rfl)
  · refine Or.inr (Or.inr ⟨input, ?_⟩)
    cases task with
    | extraction d pc' =>
      cases hr
      obtain ⟨p, hp, heq⟩ := Next.goto_of_task hnext
      cases heq
      exact ⟨pc', rfl, htask, hp⟩
    | triage | killSwitch =>
      cases hr
      cases hnext
    | orphanScan | ocrShard | sweep | forceRedrive | acceptReview =>
      cases hr
      obtain ⟨_, _, heq⟩ := Next.goto_of_task hnext
      cases heq
    | textEmbedded | ocrSplit =>
      obtain ⟨_, _, rfl⟩ := Option.map_eq_some_iff.mp hr
      obtain ⟨_, _, heq⟩ := Next.goto_of_task hnext
      cases heq

theorem returned_of_landmark {w : World} {input : Input} {tid tid' : Nat} {task : Task} {docId : DocId}
    {result : Extraction.Result} (h : Landmark.returned tid' docId result ∈ task.landmark site w input tid) :
    tid' = tid ∧ ∃ pc, task = .extraction docId pc ∧
      (Extraction.step site docId input.verdict w pc).2 = .returned result := by
  cases task with
  | extraction d pc =>
    simp only [Task.landmark] at h
    split at h
    · rw [List.mem_singleton] at h
      cases h
    · next hret =>
      rw [List.mem_singleton] at h
      cases h
      exact ⟨rfl, _, rfl, hret⟩
    · cases h
  | orphanScan | triage | textEmbedded | ocrSplit | ocrShard | sweep | forceRedrive | acceptReview
  | killSwitch => cases h

/-- Only a run's own step writes the log of landmarks. -/
theorem log_of_step (h : Step site s a t) :
    t.log = s.log ∨ ∃ tid input task r, a = .run tid input ∧ s.tasks tid = some task ∧
      task.step site s.world input = some r ∧ t.db = r.1.db ∧
      t.log = task.landmark site s.world input tid ++ s.log := by
  cases step_kind h with
  | idle => exact Or.inl rfl
  | ran htask hr => exact Or.inr ⟨_, _, _, _, rfl, htask, hr, rfl, rfl⟩
  | relayed hstep | sunk hstep =>
    obtain ⟨_, _, rfl⟩ := Option.map_eq_some_iff.mp hstep
    exact Or.inl rfl

/-- Only a relay touches the broker, the producers and the row locks. -/
theorem relayed_of_step (h : Step site s a t) :
    (∃ rid act, a = .relay rid act ∧ s.runRelay site rid act = some t) ∨
    (t.broker = s.broker ∧ t.relays = s.relays ∧ t.locks = s.locks) := by
  cases step_kind h with
  | idle | ran => exact Or.inr ⟨rfl, rfl, rfl⟩
  | relayed hrelay => exact Or.inl ⟨_, _, rfl, hrelay⟩
  | sunk hsink =>
    obtain ⟨_, _, rfl⟩ := Option.map_eq_some_iff.mp hsink
    exact Or.inr ⟨rfl, rfl, rfl⟩

theorem relay_keeps {rid : Nat} {act : Relay.Act} (h : s.runRelay site rid act = some t) :
    Keeps s.db t.db ∧ t.db.postedDocuments = s.db.postedDocuments := by
  obtain ⟨r, hr, rfl⟩ := Option.map_eq_some_iff.mp h
  change Keeps s.db r.1.db ∧ r.1.db.postedDocuments = s.db.postedDocuments
  rcases Relay.step_cases hr with ⟨_, _, hdb⟩ | ⟨_, _, _, _, hdb⟩ | ⟨_, _, hdb | ⟨_, _, _, _, _, _, hdb⟩⟩
  all_goals
    rw [hdb]
    exact ⟨⟨rfl, rfl, rfl, rfl, rfl⟩, rfl⟩

/-- The sink inserts the row of one polled message, or leaves the database alone. -/
theorem sink_posts {partition : Nat} {act : Sink.Act} (h : s.runSink partition act = some t) :
    t.db = s.db ∨ ∃ (offset : Nat) (row : OutboxRow) (payload : ExtractedPayload),
      (s.broker .documentExtracted partition)[offset]? = some row ∧
      row.payload = .extracted payload ∧
      t.db = { s.db with
        postedDocuments := s.db.postedDocuments.insertNew payload.docId (Sink.postedRow payload) } := by
  obtain ⟨r, hr, rfl⟩ := Option.map_eq_some_iff.mp h
  cases act with
  | post =>
    simp only [Sink.step] at hr
    split at hr
    · cases hr
    · next row hrow =>
      split at hr
      · cases hr
      · obtain ⟨db, hdb, rfl⟩ := Option.map_eq_some_iff.mp hr
        obtain ⟨offset, _, hoffset⟩ := Option.bind_eq_some_iff.mp hrow
        unfold Sink.handleDocumentExtracted at hdb
        split at hdb
        · next payload hpayload =>
          cases hdb
          exact Or.inr ⟨offset, row, payload, hoffset, hpayload, rfl⟩
        · cases hdb
  | poll | fail | commit =>
    obtain ⟨c, _, rfl⟩ := Option.map_eq_some_iff.mp hr
    exact Or.inl rfl
  | restart =>
    cases hr
    exact Or.inl rfl

/-- A step of the system is a handler's, whose operations the task allows, the sink's, or
one that leaves the ledger and the posted rows alone. -/
theorem step_cases (h : Step site s a t) :
    Performs (s.Does site a) s.db t.db ∨
    (∃ partition act, a = .sink partition act ∧ s.runSink partition act = some t) ∨
    (Keeps s.db t.db ∧ t.db.postedDocuments = s.db.postedDocuments) := by
  cases step_kind h with
  | idle => exact Or.inr (Or.inr ⟨⟨rfl, rfl, rfl, rfl, rfl⟩, rfl⟩)
  | ran htask hr => exact Or.inl ((Task.step_performs hr).mono fun _ _ hd => ⟨_, htask, hd⟩)
  | relayed hrelay => exact Or.inr (Or.inr (relay_keeps hrelay))
  | sunk hsink => exact Or.inr (Or.inl ⟨_, _, rfl, hsink⟩)

end Sys
end DocPipeline

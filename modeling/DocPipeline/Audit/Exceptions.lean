import DocPipeline.Audit.Artifact
import DocPipeline.Audit.Worker
import DocPipeline.Gather.Exceptions
import DocPipeline.Gather.Recovery
import DocPipeline.Gather.Routing

/-!
# What the ledger raises out of a handler

A run in progress can always take its next step, and of the exceptions of the ledger only an
illegal transition comes out of a worker: what a handler looks up is there, whatever else has
run, failed or crashed, as long as the objects of the inbox are left alone. An exception of
another kind ends a run like a crash: of the database, the storage, a library, or of
arithmetic that overflows. So a loop of a worker passes over a message only after its handler
was cut short in that way, and it loses none unless it then commits.
-/
namespace DocPipeline

set_option autoImplicit false

open Lib Lib.Transaction Sys

/-- What the next step of a run relies on. -/
def Task.Ready (site : Deployment) (w : World) : Task → Prop
  | .textEmbedded _ gcsPath _ => PdfWorker.pagesText site gcsPath ≠ none
  | .ocrSplit _ gcsPath _ => PdfWorker.splitCounts site gcsPath ≠ none
  | .ocrShard payload _ => w.db.documents.lookup payload.docId ≠ none
  | .extraction docId pc => Extraction.Ready w docId pc
  | .sweep (.redriving claimed) => ∀ r, r ∈ claimed →
    ∀ db, ∃ db', Commits (Sweeper.redriveDocument site r.1 r.2) db ⟨⟩ db'
  | .forceRedrive docId _ _ (.committing row target) =>
    ∀ db, ∃ db', Commits (Sweeper.redriveDocument site docId { row with state := target.state }) db ⟨⟩ db'
  | _ => True

/-- The exceptions of the ledger and of the operator's desk that may come out of a run. -/
def Task.MayRaise : Task → LedgerError → Prop
  | .orphanScan _, _ | .triage _, _ | .sweep _, _ => False
  | .textEmbedded .., e | .ocrSplit .., e | .ocrShard .., e => e.isStale = true
  | .extraction _ pc, e => pc = .opening ∧ e.isStale = true
  | .forceRedrive .., e | .acceptReview .., e => e.isStale = true ∨ e.isBreakGlass = true
  | .killSwitch .., e => e.isBreakGlass = true

theorem Task.goes_on {site : Deployment} {w : World} {task : Task} (h : task.Ready site w) (input : Input) :
    (task.step site w input).isSome = true ∧ ∀ e, task.raises site w input = some e → task.MayRaise e := by
  cases task with
  | orphanScan pc => exact ⟨rfl, fun e he => by rw [Task.raises, OrphanDetector.step_raises] at he; cases he⟩
  | triage gcsPath =>
    exact ⟨rfl, fun e he => absurd (World.transact_raised he fun _ => rfl) Triage.handleGcsPath_raises⟩
  | textEmbedded docId gcsPath pc =>
    obtain ⟨pages, hpages⟩ := Option.ne_none_iff_exists'.mp h
    refine ⟨?_, fun e he => ?_⟩
    · cases pc <;> simp [Task.step, PdfWorker.embeddedStep, hpages]
    · obtain ⟨r, hr, he⟩ := Option.bind_eq_some_iff.mp he
      exact PdfWorker.embeddedStep_raises hr he
  | ocrSplit docId gcsPath pc =>
    obtain ⟨counts, hcounts⟩ := Option.ne_none_iff_exists'.mp h
    refine ⟨?_, fun e he => ?_⟩
    · cases pc <;> simp [Task.step, PdfWorker.splitStep, PdfWorker.doSplit, hcounts]
    · obtain ⟨r, hr, he⟩ := Option.bind_eq_some_iff.mp he
      exact PdfWorker.splitStep_raises hr he
  | ocrShard payload pc => exact ⟨rfl, fun e he => OcrShard.step_raises (fun _ => h) he⟩
  | extraction docId pc => exact ⟨rfl, fun e he => Extraction.step_raises h he⟩
  | sweep pc =>
    refine ⟨rfl, fun e he => ?_⟩
    rw [Task.raises, Sweeper.step_raises] at he
    · cases he
    · rintro claimed rfl
      exact h
  | forceRedrive docId reason actor pc =>
    refine ⟨rfl, fun e he => Operator.redriveStep_raises (fun row target hpc => ?_) he⟩
    subst hpc
    exact h
  | acceptReview docId reason actor pc => exact ⟨rfl, fun e he => Operator.acceptStep_raises he⟩
  | killSwitch enabled reason actor =>
    exact ⟨rfl, fun e he => Operator.setKillSwitch_raises (World.transact_raised he fun _ => rfl)⟩

namespace Audit

open Gather

variable {site : Deployment} {s t : Sys} {a : Action} {tid : Nat}

/-! ## What an extraction run has seen -/

/-- The run has found its document, and the artifact it has written, and it gives no run up
as one of an unknown document. -/
def Seen (w : World) (d : DocId) : Extraction.Pc → Prop
  | .opening => True
  | .stamping none => False
  | .readingBack _ => w.db.documents.lookup d ≠ none ∧ w.bucket.assembled d ≠ none
  | .routing _ result => w.db.documents.lookup d ≠ none ∧ result ≠ .unknownDoc
  | _ => w.db.documents.lookup d ≠ none

theorem Seen.mono {w w' : World} {d : DocId} {pc : Extraction.Pc} (h : Seen w d pc)
    (hdoc : w.db.documents.lookup d ≠ none → w'.db.documents.lookup d ≠ none)
    (hart : w.bucket.assembled d ≠ none → w'.bucket.assembled d ≠ none) : Seen w' d pc := by
  unfold Seen at h ⊢
  split at h
  · trivial
  · exact h
  · exact ⟨hdoc h.1, hart h.2⟩
  · exact ⟨hdoc h.1, h.2⟩
  · exact hdoc h

/-- Nothing deletes an artifact. -/
theorem artifact_kept {d : DocId} (hs : Step site s a t) (h : s.world.bucket.assembled d ≠ none) :
    t.world.bucket.assembled d ≠ none := by
  rcases bucket_of_step hs with ⟨tid, input, rfl⟩ | hsame
  · obtain ⟨task, r, _, hr, rfl⟩ := runTask_eq hs
    rcases Task.step_assembled hr with hsame | ⟨d', artifact, _, hnew⟩
    · change r.1.bucket.assembled d ≠ none
      rwa [hsame]
    · change r.1.bucket.assembled d ≠ none
      rw [hnew]
      simp only [Bucket.writeAssembled]
      split
      · exact Option.some_ne_none _
      · exact h
  · rwa [hsame]

theorem seen_goes {verdict : Extraction.Verdict} {w w' : World} {d : DocId} {pc pc' : Extraction.Pc}
    (h : Seen w d pc) (hg : Extraction.Goes site d verdict w pc w' pc')
    (hdoc : w.db.documents.lookup d ≠ none → w'.db.documents.lookup d ≠ none) : Seen w' d pc' := by
  cases hg with
  | opened hopen =>
    obtain ⟨row, hrow, _⟩ := Extraction.openRun_commits.mp hopen
    exact hdoc (hrow ▸ Option.some_ne_none row)
  | selected =>
    obtain ⟨doc, hfound⟩ := Option.ne_none_iff_exists'.mp h
    rw [show Ledger.getDocument w.db d = some doc from hfound]
    exact h
  | found _ hcheck =>
    rcases Extraction.checkPages_goto hcheck with rfl | ⟨_, rfl⟩
    · exact hdoc h
    · exact ⟨hdoc h, by decide⟩
  | readBack _ hcheck =>
    rcases Extraction.checkPages_goto hcheck with rfl | ⟨_, rfl⟩
    · exact hdoc h.1
    · exact ⟨hdoc h.1, by decide⟩
  | wrote => exact ⟨hdoc h, by simp [Bucket.writeAssembled]⟩
  | missing | taken => exact ⟨hdoc h, by decide⟩
  | stamped | absent | gathered | counted | rejected | accepted | enabled | disabled => exact hdoc h

/-- The pipeline has what its next steps will look up. -/
structure Attended (site : Deployment) (s : Sys) : Prop where
  provided : Provided site s
  seen : ∀ tid d pc, s.tasks tid = some (.extraction d pc) → Seen s.world d pc

theorem attended_step (h : Attended site s) (hs : Step site s a t) : Attended site t := by
  have hgrows := grows_step h.provided.sound hs
  have hdoc : ∀ d, s.world.db.documents.lookup d ≠ none → t.world.db.documents.lookup d ≠ none := by
    intro d hd
    obtain ⟨row, hrow⟩ := Option.ne_none_iff_exists'.mp hd
    obtain ⟨row', hrow', _⟩ := hgrows d row hrow
    exact hrow' ▸ Option.some_ne_none row'
  refine ⟨provided_step h.provided hs, fun tid d pc htask => ?_⟩
  rcases task_of_step hs htask with hold | ⟨job, hjob⟩ | ⟨_, _, row, _, hmsg⟩ |
    ⟨input, before, r, rfl, hbefore, hr, hnext, hworld⟩
  · exact (h.seen tid d pc hold).mono (hdoc d) (artifact_kept hs)
  · cases job <;> cases hjob
  · unfold Task.ofMessage at hmsg
    split at hmsg <;> cases hmsg
    trivial
  · cases before with
    | extraction d' pc' =>
      cases hr
      obtain ⟨pc'', hgoto, heq⟩ := Next.goto_of_task hnext
      cases heq
      have hgoes := Extraction.step_goes hgoto
      rw [hworld]
      exact seen_goes (h.seen tid d pc' hbefore) hgoes (hworld ▸ hdoc d)
    | triage | killSwitch =>
      cases hr
      cases hnext
    | textEmbedded | ocrSplit =>
      obtain ⟨r', _, rfl⟩ := Option.map_eq_some_iff.mp hr
      obtain ⟨_, _, heq⟩ := Next.goto_of_task hnext
      cases heq
    | orphanScan | ocrShard | sweep | forceRedrive | acceptReview =>
      cases hr
      obtain ⟨_, _, heq⟩ := Next.goto_of_task hnext
      cases heq

theorem attended_run {as : List Action} (h : FreeRun site initial as s) : Attended site s := by
  refine h.invariant ⟨provided_initial site, fun _ _ _ ht => ?_⟩ fun _ _ _ hi _ hs => attended_step hi hs
  cases ht

/-- A row in a run's hands can be re-driven. -/
theorem redrivable {d : DocId} {row : Document} (h : Snapshot False site s.db d row)
    (hpages : row.state.isText = true → row.pageCount ≠ none) :
    ∀ db, ∃ db', Commits (Sweeper.redriveDocument site d row) db ⟨⟩ db' :=
  fun db => redriveDocument_succeeds db d h.1 hpages

theorem ready_of_attended (h : Attended site s) {task : Task} (htask : s.tasks tid = some task) :
    task.Ready site s.world := by
  have hsound := h.provided.sound.tasks tid task htask
  have hinformed := h.provided.informed tid task htask
  cases task with
  | textEmbedded d gcsPath pc =>
    obtain ⟨n, _, blob, hblob, hn⟩ := hsound
    simp only [Pdf.readPageCount, if_true] at hn
    simp only [Task.Ready, PdfWorker.pagesText, hblob, Option.bind_some]
    cases hr : Pdf.reader blob.data with
    | error e =>
      rw [hr] at hn
      cases hn
    | ok texts => exact Option.some_ne_none texts
  | ocrSplit d gcsPath pc =>
    obtain ⟨n, _, ⟨blob, hblob, hn⟩, _⟩ := hsound
    simp only [Task.Ready, PdfWorker.splitCounts, hblob, Option.bind_some, hn, Option.map_some]
    exact Option.some_ne_none _
  | ocrShard payload pc =>
    obtain ⟨row, _, hrow, _⟩ := hsound
    have hne : s.db.documents.lookup payload.docId ≠ none := hrow ▸ Option.some_ne_none row
    exact hne
  | extraction d pc =>
    have hseen := h.seen tid d pc htask
    cases pc with
    | looking doc => exact fun hart => Snapshot.paged hinformed (h.provided.stocked.assembled d hart)
    | readingBack doc => exact ⟨hseen.2, Snapshot.paged hinformed (h.provided.stocked.assembled d hseen.2)⟩
    | counting => exact hseen
    | opening | selecting | stamping | gathering | routing | extracting | exhausted | checkingFlag | holding | posting =>
      trivial
  | sweep pc =>
    cases pc with
    | claiming => trivial
    | redriving claimed => exact fun r hr => redrivable (hsound r hr) (hinformed r hr)
  | forceRedrive d reason actor pc =>
    cases pc with
    | selecting | targeting => trivial
    | committing row target =>
      obtain ⟨⟨hrow, _⟩, hpages⟩ := hsound
      have hsent : RowSound site { row with state := target.state } := ⟨hrow.counted, hrow.textual, hrow.total⟩
      refine fun db => redriveDocument_succeeds db d hsent fun htext => ?_
      cases target with
      | textPending => exact hpages rfl
      | extractPending => cases htext
  | orphanScan | triage | acceptReview | killSwitch => trivial

theorem never_unknown {verdict : Extraction.Verdict} {w : World} {d : DocId} {pc : Extraction.Pc} (h : Seen w d pc) :
    (Extraction.step site d verdict w pc).2 ≠ .returned .unknownDoc := by
  intro hreturned
  have hreturns := Extraction.step_returns hreturned
  generalize hresult : Extraction.Result.unknownDoc = result at hreturns
  cases hreturns with
  | unknown => exact h
  | posted => split at hresult <;> cases hresult
  | exhausted | held => cases hresult
  | routed => exact h.2 hresult.symm

/-- The message of the text layer is delivered again when the document waits for extraction. -/
def layerAgain : List Action := Schedule.intake ["a.pdf"] ++ Schedule.textLayer 0 ++ [.receive 0 .textEmbedded 0 0]

/-- No handler call is cut short while its loop waits for it, by a crash or by an exception that
is not the ledger's. A worker may be restarted at any time. -/
def unbroken (f : Fleet) : Fleet.Act → Bool
  | .sys (.crash tid) => (f.owner tid).isNone
  | _ => true

variable {f g : Fleet} {act : Fleet.Act} {topic : Topic} {partition : Nat}

theorem ending_of_step {w : World} {input : Input} {task : Task} {ending : Ending}
    (h : task.ending site w input = some ending) (hreturned : ending ≠ .returned) :
    ∃ e, task.raises site w input = some e ∧ (e.isStale = true → ending = .stale) := by
  have hnext : ∀ {π ρ : Type} {next : Next π ρ}, next.ending = some ending →
      ∃ e, next.error = some e ∧ (e.isStale = true → ending = .stale) := by
    intro π ρ next hn
    cases next with
    | goto => cases hn
    | returned =>
      cases hn
      exact absurd rfl hreturned
    | raised e =>
      refine ⟨e, rfl, fun hstale => ?_⟩
      cases e <;> cases hstale
      cases hn
      rfl
  cases task with
  | triage | ocrShard | extraction => exact hnext h
  | textEmbedded | ocrSplit =>
    obtain ⟨r, hr, h⟩ := Option.bind_eq_some_iff.mp h
    obtain ⟨e, he, hstale⟩ := hnext h
    exact ⟨e, Option.bind_eq_some_iff.mpr ⟨r, hr, he⟩, hstale⟩
  | orphanScan | sweep | forceRedrive | acceptReview | killSwitch => cases h

/-- Every ending of a handler that the pipeline reaches lets the loop commit. -/
theorem settles_of_attended (h : Attended site s) {task : Task} {payload : Payload} {input : Input} {ending : Ending}
    (htask : s.tasks tid = some task) (horigin : Task.ofMessage topic payload = some task.origin)
    (hending : task.ending site s.world input = some ending) : topic.settles ending = true := by
  -- a message of triage starts triage, which raises nothing
  have hworker : (∀ path, task ≠ .triage path) → topic.settles .stale = true := by
    intro hother
    cases topic with
    | triageRequests =>
      cases payload with
      | triage path =>
        cases task <;> cases horigin
        exact absurd rfl (hother _)
      | dispatch | shard | completed | extracted => cases horigin
    | textEmbedded | ocrSplit | ocrShard | ocrCompleted | documentExtracted => rfl
  by_cases hreturned : ending = .returned
  · rw [hreturned]
    rfl
  · obtain ⟨e, he, hstale⟩ := ending_of_step hending hreturned
    have hmay := (Task.goes_on (ready_of_attended h htask) input).2 e he
    cases task with
    | triage => exact hmay.elim
    | textEmbedded | ocrSplit | ocrShard =>
      rw [hstale hmay]
      exact hworker fun _ he => by cases he
    | extraction =>
      rw [hstale hmay.2]
      exact hworker fun _ he => by cases he
    | orphanScan | sweep | forceRedrive | acceptReview | killSwitch => cases hending

/-- No handler call has failed on any partition. -/
def Calm (f : Fleet) : Prop := ∀ topic partition, (f.consumers topic partition).failed = false

theorem calm_setConsumer {c : Consumer} (h : Calm f) (hc : c.failed = false) : Calm (f.setConsumer topic partition c) := by
  intro topic' partition'
  simp only [Fleet.setConsumer]
  split
  · exact hc
  · exact h topic' partition'

theorem calm_finish {t : Sys} {settled : Topic → Bool} (h : Calm f)
    (hfinish : { f with sys := t }.finish tid settled = some g)
    (hsettled : ∀ topic partition, f.owner tid = some (topic, partition) → settled topic = true) : Calm g := by
  unfold Fleet.finish at hfinish
  split at hfinish
  · next topic partition howner =>
    dsimp only at hfinish
    rw [if_pos (hsettled topic partition howner)] at hfinish
    cases hfinish
    exact calm_setConsumer h (h topic partition)
  · cases hfinish
    exact h

theorem calm_step (h : Calm f) {Done : Topic → Nat → Nat → Prop} (hlooping : Looping Done f)
    (hattended : Attended site f.sys) (hg : unbroken f act = true) (hs : Fleet.Step site f act g) : Calm g := by
  have hplain : ∀ {a : Action}, (f.sys.step site a).map (fun t => { f with sys := t }) = some g → Calm g := by
    intro a hs
    obtain ⟨t, _, rfl⟩ := Option.map_eq_some_iff.mp hs
    exact h
  unfold Fleet.Step at hs
  cases act with
  | sys a =>
    cases a with
    | receive => cases hs
    | tick seconds age => exact hplain (a := .tick seconds age) hs
    | spawn tid job => exact hplain (a := .spawn tid job) hs
    | relay rid act => exact hplain (a := .relay rid act) hs
    | sink partition act => exact hplain (a := .sink partition act) hs
    | run tid input =>
      obtain ⟨t, ht, hrest⟩ := Option.bind_eq_some_iff.mp hs
      split at hrest
      · next ending hending =>
        refine calm_finish h hrest fun topic partition howner => ?_
        obtain ⟨_, _, task, _, _, htask, _, horigin⟩ := hlooping.waits tid topic partition howner
        rw [htask, Option.bind_some] at hending
        exact settles_of_attended hattended htask horigin hending
      · cases hrest
        exact h
    | crash tid =>
      simp only [Fleet.step] at hs
      obtain ⟨t, _, hrest⟩ := Option.bind_eq_some_iff.mp hs
      refine calm_finish h hrest fun topic partition howner => ?_
      simp [unbroken, howner] at hg
  | poll topic partition tid =>
    obtain ⟨c, hc, hrest⟩ := Option.bind_eq_some_iff.mp hs
    obtain ⟨t, _, rfl⟩ := Option.map_eq_some_iff.mp hrest
    refine calm_setConsumer h ?_
    unfold Consumer.poll at hc
    split at hc
    · cases hc
    · split at hc <;> cases hc
      exact h topic partition
  | fail topic partition =>
    simp only [Fleet.step] at hs
    split at hs
    · next hhandled =>
      obtain ⟨c, hc, rfl⟩ := Option.map_eq_some_iff.mp hs
      refine calm_setConsumer h ?_
      unfold Consumer.fail at hc
      split at hc <;> cases hc
      simp [h topic partition, hhandled]
    · cases hs
  | commit topic partition =>
    obtain ⟨c, hc, rfl⟩ := Option.map_eq_some_iff.mp hs
    refine calm_setConsumer h ?_
    unfold Consumer.commit at hc
    split at hc
    · split at hc <;> cases hc
      exact h topic partition
    · cases hc
  | restart topic partition =>
    cases hs
    exact calm_setConsumer h rfl

theorem calm_run {as : List Fleet.Act} (h : Fleet.FleetRun site (fun f a => unbroken f a = true) as f) :
    Calm f ∧ Fleet.FleetRun site (fun f a => commitsSettled f a = true) as f := by
  induction h with
  | nil => exact ⟨fun _ _ => rfl, .nil⟩
  | @snoc as f g b hrun hg hs ih =>
    obtain ⟨hcalm, hsettled⟩ := ih
    obtain ⟨acts, hacts⟩ := pipeline_of_run hrun
    refine ⟨calm_step hcalm (looping_run hsettled) (attended_run hacts) hg hs, hsettled.snoc ?_ hs⟩
    cases b with
    | commit topic partition => simp [commitsSettled, hcalm topic partition]
    | sys | poll | fail | restart => rfl

/-- As long as no handler call is cut short, a loop has settled every message it has moved past,
by a run of the message's own handler. -/
theorem nothing_passed_over {as : List Fleet.Act} (h : Fleet.FleetRun site (fun f a => unbroken f a = true) as f)
    (topic : Topic) (partition offset : Nat) (hpast : offset < (f.consumers topic partition).position)
    (hleft : (f.consumers topic partition).inHand ≠ some offset) : SettledAt site as f topic partition offset := by
  obtain ⟨hcalm, hsettled⟩ := calm_run h
  exact ((looping_run hsettled).covers topic partition).position (hcalm topic partition) offset hpast hleft

/-- The worker of the text layer is restarted before it commits, and its message comes again. -/
def restartedBeforeCommit : List Fleet.Act :=
  ([Action.spawn 0 (.orphanScan ["a.pdf"])] ++ Schedule.turns 0 3 ++ Schedule.publish 1).map .sys ++
    [.poll .triageRequests 0 1, .sys (.run 1 {}), .commit .triageRequests 0] ++ (Schedule.publish 1).map .sys ++
    [.poll .textEmbedded 0 1, .sys (.run 1 {}), .sys (.run 1 {}), .restart .textEmbedded 0,
      .poll .textEmbedded 0 1, .sys (.run 1 {}), .commit .textEmbedded 0]

theorem stale_message_settled :
    ∃ f, Fleet.FleetRun oneInvoice (fun f a => unbroken f a = true) restartedBeforeCommit f ∧
      (f.consumers .textEmbedded 0).position = 1 ∧ (f.consumers .textEmbedded 0).inHand = none ∧
      SettledAt oneInvoice restartedBeforeCommit f .textEmbedded 0 0 := by
  have hruns : ((execWhile (Fleet.step oneInvoice) unbroken {} restartedBeforeCommit).any fun f =>
      decide ((f.consumers .textEmbedded 0).position = 1) &&
        decide ((f.consumers .textEmbedded 0).inHand = none)) = true := by
    decide +kernel
  obtain ⟨f, hrun, htest⟩ := (Option.any_eq_true ..).mp hruns
  simp only [Bool.and_eq_true, decide_eq_true_eq] at htest
  obtain ⟨hposition, hidle⟩ := htest
  have hfleet := run_of_execWhile hrun
  refine ⟨f, hfleet, hposition, hidle, nothing_passed_over hfleet .textEmbedded 0 0 ?_ ?_⟩
  · rw [hposition]
    exact Nat.zero_lt_one
  · rw [hidle]
    exact (Option.some_ne_none 0).symm

end Audit
end DocPipeline

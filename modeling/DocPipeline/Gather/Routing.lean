import DocPipeline.Effects.Bucket
import DocPipeline.Effects.Extraction
import DocPipeline.Gather.Invariant

/-!
# The page count where it is needed

A re-drive routes on the row it has read, and an extraction run checks completeness
against the row it has read. The bucket holds artifacts and outputs of documents with a
page count only: what writes them was sent for a row that has one, and no row loses it.
-/
namespace DocPipeline.Gather

set_option autoImplicit false

open Lib Lib.Transaction Sys

variable {site : Deployment} {db db' : Db} {d : DocId} {w : World} {s t : Sys} {a : Action} {row doc : Document}

/-- The document has a page count. -/
def Paged (db : Db) (d : DocId) : Prop := ∃ row, db.documents.lookup d = some row ∧ row.pageCount ≠ none

theorem Paged.mono {strict : Prop} (h : Paged db d) (hg : Grows strict site db db') : Paged db' d := by
  obtain ⟨row, hrow, hn⟩ := h
  obtain ⟨row', hrow', _, hpages, _⟩ := hg d row hrow
  exact ⟨row', hrow', hpages ▸ hn⟩

theorem OfPages.paged {path : String} {n : Nat} (h : OfPages db d path n) : Paged db d := by
  obtain ⟨row, hrow, _, hn⟩ := h
  exact ⟨row, hrow, hn ▸ Option.some_ne_none n⟩

theorem ShardOf.paged {strict : Prop} {idx : Nat} (h : ShardOf strict site db d idx) : Paged db d := by
  obtain ⟨row, n, hrow, hn, _⟩ := h
  exact ⟨row, hrow, hn ▸ Option.some_ne_none n⟩

/-- A row read earlier has the page count of the document. -/
theorem Snapshot.paged {strict : Prop} (h : Snapshot strict site db d row) (hd : Paged db d) : row.pageCount ≠ none := by
  obtain ⟨_, current, hcurrent, _, hpages, _⟩ := h
  obtain ⟨row', hrow', hn⟩ := hd
  rw [hcurrent] at hrow'
  cases hrow'
  exact hpages ▸ hn

/-- The bucket holds nothing of a document without a page count. -/
structure Stocked (w : World) : Prop where
  assembled : ∀ d, w.bucket.assembled d ≠ none → Paged w.db d
  outputs : ∀ d idx, w.bucket.shardOutput d idx ≠ none → Paged w.db d

theorem Stocked.mono {strict : Prop} {w' : World} (h : Stocked w) (hbucket : w'.bucket = w.bucket)
    (hg : Grows strict site w.db w'.db) : Stocked w' := by
  refine ⟨fun d hd => (h.assembled d ?_).mono hg, fun d idx hd => (h.outputs d idx ?_).mono hg⟩
  · rwa [← hbucket]
  · rwa [← hbucket]

/-- What a run has read knows the page count where it will be needed. -/
def Informed (site : Deployment) (db : Db) : Task → Prop
  | .extraction d (.stamping (some doc)) | .extraction d (.looking doc) | .extraction d (.readingBack doc) =>
    Snapshot False site db d doc
  | .extraction d (.gathering doc idx _) => Snapshot False site db d doc ∧ (0 < idx → doc.pageCount ≠ none)
  | .sweep (.redriving claimed) => ∀ r, r ∈ claimed → r.2.state.isText = true → r.2.pageCount ≠ none
  | _ => True

theorem Informed.mono {task : Task} (h : Informed site db task) (hg : Grows False site db db') :
    Informed site db' task := by
  unfold Informed at h ⊢
  split at h
  · exact h.mono hg
  · exact h.mono hg
  · exact h.mono hg
  · exact ⟨h.1.mono hg, h.2⟩
  · exact h
  · trivial

/-- What a run puts into the bucket is of a document with a page count. -/
theorem stocked_stores {task : Task} {bucket : Bucket} (hw : Stocked w) (ht : TaskSound False site w.db task)
    (hi : Informed site w.db task) (h : task.Stores site w bucket) :
    Stocked { w with bucket := bucket } := by
  cases h with
  | nothing => exact hw
  | @artifact d artifact hassembles =>
    have hpaged : Paged w.db d := by
      cases hassembles with
      | embedded =>
        obtain ⟨n, hof, _⟩ := ht
        exact hof.paged
      | @gathered _ doc idx pages hge =>
        obtain ⟨⟨hsound, current, hcurrent, _, hpages, _⟩, hknown⟩ := hi
        -- a row has one shard at least, so an output has been read
        have hpos : 0 < doc.shardsTotal := by
          rcases hsound.total with hone | ⟨n, _, htotal⟩
          · omega
          · have := shardCount_pos site n
            omega
        exact ⟨current, hcurrent, hpages ▸ hknown (by omega)⟩
    refine ⟨fun d' hd' => ?_, hw.outputs⟩
    by_cases hd : d' = d
    · exact hd ▸ hpaged
    · exact hw.assembled d' (by simpa [Bucket.writeAssembled, hd] using hd')
  | shards =>
    exact ⟨fun d hd => hw.assembled d (by rwa [← (uploadShards_others ..).1]),
      fun d idx hd => hw.outputs d idx (by rwa [← (uploadShards_others ..).2])⟩
  | @output payload pages htask =>
    subst htask
    have hpaged : Paged w.db payload.docId := ShardOf.paged ht
    refine ⟨hw.assembled, fun d' idx hd' => ?_⟩
    by_cases hd : d' = payload.docId ∧ idx = payload.shardIdx
    · exact hd.1 ▸ hpaged
    · exact hw.outputs d' idx (by simpa [Bucket.writeShardOutput, hd] using hd')

theorem informed_next {input : Input} {task task' : Task} {r : World × Option Task} (hl : Ledgered site w.db)
    (hw : Stocked w) (hi : Informed site w.db task) (h : task.step site w input = some r) (hnext : r.2 = some task') :
    Informed site w.db task' := by
  cases task with
  | extraction d pc =>
    cases h
    obtain ⟨pc', hgoto, rfl⟩ := Next.goto_of_task hnext
    have hgoes := Extraction.step_goes hgoto
    generalize (Extraction.step site d input.verdict w pc).1 = w' at hgoes
    cases hgoes with
    | selected =>
      cases hdoc : Ledger.getDocument w.db d with
      | none => trivial
      | some doc => exact ⟨hl.rows d doc hdoc, doc, hdoc, rfl, rfl, fun h => h.elim⟩
    | stamped => exact hi
    | absent => exact ⟨hi, fun h => absurd h (Nat.lt_irrefl 0)⟩
    | gathered hlt hshard =>
      obtain ⟨hsnapshot, _⟩ := hi
      exact ⟨hsnapshot, fun _ => hsnapshot.paged (hw.outputs d _ (hshard ▸ Option.some_ne_none _))⟩
    | wrote => exact hi.1
    | found _ hcheck | readBack _ hcheck =>
      rcases Extraction.checkPages_goto hcheck with rfl | ⟨_, rfl⟩ <;> trivial
    | opened | missing | counted | rejected | accepted | enabled | disabled | taken => trivial
  | sweep pc =>
    cases h
    obtain ⟨pc', hgoto, rfl⟩ := Next.goto_of_task hnext
    cases pc with
    | claiming cap locked =>
      obtain ⟨claimed, hc, heq⟩ := World.transact_committed hgoto fun _ he => nomatch he
      cases heq
      simp only [Sweeper.claimBatch, commits_bind, commits_get] at hc
      obtain ⟨_, _, ⟨rfl, rfl⟩, hc⟩ := hc
      intro r hr htext
      obtain ⟨hrow, _⟩ := Sweeper.claimStuckBatch_current r (Sweeper.claimRows_subset hc r hr)
      exact hl.text r.1 r.2 hrow htext
    | redriving claimed =>
      cases claimed with
      | nil => cases hgoto
      | cons r rest =>
        obtain ⟨_, _, heq⟩ := World.transact_committed hgoto fun _ he => nomatch he
        cases heq
        exact fun r' hr' => hi r' (List.mem_cons_of_mem _ hr')
  | triage | killSwitch =>
    cases h
    cases hnext
  | textEmbedded | ocrSplit =>
    obtain ⟨r', _, rfl⟩ := Option.map_eq_some_iff.mp h
    obtain ⟨_, _, rfl⟩ := Next.goto_of_task hnext
    trivial
  | orphanScan | ocrShard | forceRedrive | acceptReview =>
    cases h
    obtain ⟨_, _, rfl⟩ := Next.goto_of_task hnext
    trivial

/-- The pipeline has the page counts that its next steps will need. -/
structure Provided (site : Deployment) (s : Sys) : Prop where
  sound : Sound False site s
  stocked : Stocked s.world
  informed : ∀ tid task, s.tasks tid = some task → Informed site s.db task

theorem provided_initial (site : Deployment) : Provided site initial :=
  ⟨sound_initial False site, ⟨fun _ h => absurd rfl h, fun _ _ h => absurd rfl h⟩, fun _ _ h => nomatch h⟩

theorem informed_start (job : Job) : ∀ db, Informed site db job.start := by
  cases job <;> exact fun _ => trivial

theorem informed_of_message {topic : Topic} {payload : Payload} {task : Task}
    (h : Task.ofMessage topic payload = some task) : ∀ db, Informed site db task := by
  unfold Task.ofMessage at h
  split at h <;> cases h <;> exact fun _ => trivial

theorem provided_step (h : Provided site s) (hs : Step site s a t) : Provided site t := by
  have hsound : Sound False site t := sound_step h.sound (fun hf => hf.elim) hs
  have hgrows := grows_step h.sound hs
  refine ⟨hsound, ?_, fun tid task htask => ?_⟩
  · cases step_kind hs with
    | idle => exact h.stocked.mono rfl hgrows
    | @ran tid input task r htask hr =>
      have hstored := stocked_stores h.stocked (h.sound.tasks tid task htask) (h.informed tid task htask)
        (Task.step_stores hr)
      have hnew : Stocked r.1 := hstored.mono rfl hgrows
      exact hnew
    | relayed hrelay =>
      obtain ⟨_, _, rfl⟩ := Option.map_eq_some_iff.mp hrelay
      exact h.stocked.mono rfl hgrows
    | sunk hsink =>
      obtain ⟨_, _, rfl⟩ := Option.map_eq_some_iff.mp hsink
      exact h.stocked.mono rfl hgrows
  · rcases task_of_step hs htask with hold | ⟨job, rfl⟩ | ⟨_, _, row, _, hmsg⟩ |
      ⟨input, before, r, rfl, hbefore, hr, hnext, hworld⟩
    · exact (h.informed tid task hold).mono hgrows
    · exact informed_start job _
    · exact informed_of_message hmsg _
    · exact (informed_next h.sound.ledger h.stocked (h.informed tid before hbefore) hr hnext).mono hgrows

end DocPipeline.Gather

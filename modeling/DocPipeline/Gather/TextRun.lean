import DocPipeline.Gather.Knowledge

/-!
# What one step of a text worker does to its document

`text.embedded`, `ocr.split` and `ocr.shard` have twelve kinds of step between them. Every
invariant of a document in text production is a case analysis over this list.
-/
namespace DocPipeline

set_option autoImplicit false

/-- The runs of the text workers for one document. -/
def Task.isTextOf (d : DocId) : Task → Bool
  | .textEmbedded docId _ _ => docId = d
  | .ocrSplit docId _ _ => docId = d
  | .ocrShard payload _ => payload.docId = d
  | _ => false

namespace Gather

open Lib Lib.Gather Lib.Transaction PdfWorker

variable {site : Deployment} {db db' : Db} {d : DocId} {path : String} {n : Nat} {row row' : Document} {w : World}

/-- The text layer of the object passes the worker's own check. -/
def sane (site : Deployment) (path : String) : Bool :=
  (pagesText site path).any fun pages => (Pdf.textSanity site.unicode pages).1

/-- One of the messages starts this run. -/
def Sends (new : List OutboxRow) (task : Task) : Prop :=
  ∃ m, m ∈ new ∧ Task.ofMessage m.topic m.payload = some task

/-- Sent one after another, the messages are there. -/
theorem sends_of_mem {rows : List (DocId × Topic × Payload)} {new : List OutboxRow} {topic : Topic} {payload : Payload}
    {task : Task} (hrows : ∀ r, r ∈ rows ↔ ∃ m, m ∈ new ∧ (m.docId, m.topic, m.payload) = r)
    (hm : (d, topic, payload) ∈ rows) (hmsg : Task.ofMessage topic payload = some task) : Sends new task := by
  obtain ⟨m, hm, heq⟩ := (hrows _).mp hm
  simp only [Prod.mk.injEq] at heq
  exact ⟨m, hm, by rw [heq.2.1, heq.2.2, hmsg]⟩

/-- The run that OCR of the whole document starts with: the split, or the only shard. -/
def ToOcr (site : Deployment) (d : DocId) (path : String) (n : Nat) (task : Task) : Prop :=
  (site.shardSizePages < n ∧ task = .ocrSplit d path .beginning) ∨
  (n ≤ site.shardSizePages ∧
    ∃ payload, task = .ocrShard payload .beginning ∧ payload.docId = d ∧ payload.shardIdx = 0)

/-- The document's row is now `row'`, these shards are claimed, and these messages new. -/
structure Becomes (d : DocId) (db db' : Db) (row' : Document) (shards : List (DocId × Nat))
    (new : List OutboxRow) : Prop where
  row : db'.documents.lookup d = some row'
  shards : db'.documentShards = shards
  sent : db'.sent = new ++ db.sent

inductive TextStep (site : Deployment) (d : DocId) (n : Nat) (db : Db) (row : Document) :
    Task → Db → Option Task → Prop
  | refused {task : Task} : row.state.isText = false → TextStep site d n db row task db none
  | uploaded {path : String} : row.state.isText = true →
      TextStep site d n db row (.textEmbedded d path .uploading) db (some (.textEmbedded d path .committing))
  | tier0 {path : String} {db' : Db} {m : OutboxRow} : row.state.isText = true → sane site path = true →
      m.topic = .ocrCompleted → m.docId = d →
      Becomes d db db' (row.moved .extractPending db.now) db.documentShards [m] →
      TextStep site d n db row (.textEmbedded d path .committing) db' none
  | fell {path : String} {db' : Db} {m : OutboxRow} {task : Task} : row.state.isText = true →
      sane site path = false → Task.ofMessage m.topic m.payload = some task → ToOcr site d path n task →
      Becomes d db db' (((row.moved .textRunning db.now).fallen 1).moved .textPending db.now)
        db.documentShards [m] →
      TextStep site d n db row (.textEmbedded d path .committing) db' none
  | splitBegun {path : String} {db' : Db} : row.state.isText = true →
      Becomes d db db' (row.moved .textRunning db.now) db.documentShards [] →
      TextStep site d n db row (.ocrSplit d path .beginning) db' (some (.ocrSplit d path .splitting))
  | shardsUploaded {path : String} :
      TextStep site d n db row (.ocrSplit d path .splitting) db (some (.ocrSplit d path .committing))
  | splitDone {path : String} {db' : Db} {new : List OutboxRow} :
      (∀ i, i < shardCount site n → ∃ payload : ShardPayload,
        Sends new (.ocrShard payload .beginning) ∧ payload.docId = d ∧ payload.shardIdx = i) →
      Becomes d db db' (row.resplit (shardCount site n) n) db.documentShards new →
      TextStep site d n db row (.ocrSplit d path .committing) db' none
  | shardBegun {payload : ShardPayload} {db' : Db} : row.state.isText = true →
      Becomes d db db' (row.moved .textRunning db.now) db.documentShards [] →
      TextStep site d n db row (.ocrShard payload .beginning) db' (some (.ocrShard payload .recognising))
  | recognised {payload : ShardPayload} :
      TextStep site d n db row (.ocrShard payload .recognising) db (some (.ocrShard payload .recording))
  | again {payload : ShardPayload} : (d, payload.shardIdx) ∈ db.documentShards →
      TextStep site d n db row (.ocrShard payload .recording) db none
  | counted {payload : ShardPayload} {db' : Db} : (d, payload.shardIdx) ∉ db.documentShards →
      row.shardsDone + 1 ≠ row.shardsTotal →
      Becomes d db db' row.counted ((d, payload.shardIdx) :: db.documentShards) [] →
      TextStep site d n db row (.ocrShard payload .recording) db' none
  | joined {payload : ShardPayload} {db' : Db} {m : OutboxRow} : (d, payload.shardIdx) ∉ db.documentShards →
      row.shardsDone + 1 = row.shardsTotal → m.topic = .ocrCompleted → m.docId = d →
      Becomes d db db' (row.counted.moved .extractPending db.now) ((d, payload.shardIdx) :: db.documentShards) [m] →
      TextStep site d n db row (.ocrShard payload .recording) db' none
  | blocked {payload : ShardPayload} : (d, payload.shardIdx) ∉ db.documentShards →
      row.state ≠ .textRunning → row.state ≠ .extractPending →
      TextStep site d n db row (.ocrShard payload .recording) db none

/-! ## Each worker takes such steps -/

theorem isText_iff {state : DocState} : state.isText = true ↔ state = .textPending ∨ state = .textRunning := by
  cases state <;> simp [DocState.isText]

theorem inFlight_of_isText {state : DocState} (h : state.isText = true) : state.inFlight = true := by
  rcases isText_iff.mp h with rfl | rfl <;> rfl

theorem isText_toPending {state : DocState} (h : state.isText = true) : state.toPending.isText = true := by
  rcases isText_iff.mp h with rfl | rfl <;> rfl

/-- Dispatched without its text layer, the document goes to OCR. -/
theorem route_toOcr {tl : Option Bool} {topic : Topic} {total : Nat} (htl : tl ≠ some true)
    (h : Ledger.routeTextProduction site tl (some n) = .ok (topic, total)) :
    ∃ task, Task.ofMessage topic (Ledger.buildDispatchPayload topic d path (some n)) = some task ∧
      ToOcr site d path n task := by
  obtain ⟨_, k, hk, ⟨hsmall, rfl⟩ | ⟨hlarge, rfl⟩⟩ := route_ocr htl h
  · cases hk
    exact ⟨_, rfl, Or.inr ⟨hsmall, _, rfl, rfl, rfl⟩⟩
  · cases hk
    exact ⟨_, rfl, Or.inl ⟨hlarge, rfl⟩⟩

theorem route_succeeds (site : Deployment) (tl : Option Bool) (n : Nat) :
    ∃ topic total, Ledger.routeTextProduction site tl (some n) = .ok (topic, total) := by
  unfold Ledger.routeTextProduction
  split
  · exact ⟨_, _, rfl⟩
  · simp only
    split
    · exact ⟨_, _, rfl⟩
    · exact ⟨_, _, rfl⟩

/-- A transaction that was rolled back could not have committed. -/
theorem not_commits_of_raised {α π ρ : Type} {t : Tx α} {onCommit : α → Next π ρ} {e : LedgerError}
    (hne : ∀ a, onCommit a ≠ .raised e) (h : w.transact t onCommit .raised = (w, .raised e)) :
    ∀ a db', ¬ Commits t w.db a db' := by
  intro a db' hc
  rw [World.transact_of_commits onCommit .raised hc] at h
  exact hne a (Prod.mk.inj h).2

/-- Every handler opens by moving its document to `text_running`. -/
theorem opening_cases {π ρ : Type} {t : Tx Unit} (pc : π)
    (ht : ∀ u db', Commits t w.db u db' ↔
      ∃ st, Commits (Ledger.transition d .textRunning (some [.textPending]) true) w.db st db')
    (hrow : w.db.documents.lookup d = some row) :
    (row.state.isText = false ∧ ∃ e, w.transact t (fun _ => (.goto pc : Next π ρ)) .raised = (w, .raised e)) ∨
    (row.state.isText = true ∧ ∃ db', Becomes d w.db db' (row.moved .textRunning w.db.now) w.db.documentShards [] ∧
      w.transact t (fun _ => (.goto pc : Next π ρ)) .raised = ({ w with db := db' }, .goto pc)) := by
  rcases w.transact_cases t (fun _ => (.goto pc : Next π ρ)) .raised with ⟨_, db', hc, he⟩ | ⟨e, he⟩
  · obtain ⟨_, hc⟩ := (ht _ _).mp hc
    obtain ⟨row', hrow', hstate, _, rfl⟩ := beginText_commits.mp hc
    rw [hrow] at hrow'
    cases hrow'
    exact Or.inr ⟨isText_iff.mpr hstate, _, ⟨Db.write_lookup_self .., rfl, rfl⟩, he⟩
  · refine Or.inl ⟨?_, e, he⟩
    by_contra htext
    have hstate := isText_iff.mp (Bool.not_eq_false _ ▸ htext)
    exact not_commits_of_raised (by simp) he ⟨⟩ _
      ((ht _ _).mpr ⟨_, beginText_commits.mpr ⟨row, hrow, hstate, rfl, rfl⟩⟩)

/-- In a text state the whole transaction goes through. -/
theorem handleTextEmbedded_succeeds (site : Deployment) (path : String) (pages : List String)
    (hrow : db.documents.lookup d = some row) (hstate : row.state = .textPending ∨ row.state = .textRunning) :
    ∃ result db', Commits (handleTextEmbedded site d path pages) db result db' := by
  cases hok : (Pdf.textSanity site.unicode pages).1 with
  | true => exact ⟨_, _, handleTextEmbedded_commits.mpr ⟨row, hrow, hstate, Or.inl ⟨hok, rfl, rfl⟩⟩⟩
  | false =>
    obtain ⟨topic, total, hroute⟩ := route_succeeds site (some false) pages.length
    have hfall : ∃ db', Commits (fallThrough site d path pages.length)
        (db.write d row (row.moved .textRunning db.now)) ⟨⟩ db' :=
      ⟨_, fallThrough_commits.mpr ⟨topic, total, row.moved .textRunning db.now, hroute,
        Db.write_lookup_self db d row _, Or.inl rfl, rfl⟩⟩
    obtain ⟨db', hfall⟩ := hfall
    exact ⟨_, _, handleTextEmbedded_commits.mpr ⟨row, hrow, hstate, Or.inr ⟨hok, rfl, hfall⟩⟩⟩

theorem embedded_textStep {pc : EmbeddedPc} {r : World × Next EmbeddedPc EmbeddedResult}
    (h : embeddedStep site d path w pc = some r) (hpdf : PdfPages site path n)
    (hrow : w.db.documents.lookup d = some row) :
    TextStep site d n w.db row (.textEmbedded d path pc) r.1.db (r.2.task (.textEmbedded d path)) := by
  cases pc with
  | uploading =>
    obtain ⟨pages, hpages, rfl⟩ := Option.map_eq_some_iff.mp h
    cases hbegin : (Ledger.transition d .textRunning (some [.textPending]) true).run w.db with
    | error e =>
      refine .refused ?_
      by_contra htext
      have hstate := isText_iff.mp (Bool.not_eq_false _ ▸ htext)
      have hc := beginText_commits.mpr ⟨row, hrow, hstate, rfl, rfl⟩
      unfold Commits at hc
      rw [hbegin] at hc
      cases hc
    | ok begun =>
      obtain ⟨row', hrow', hstate, _⟩ := beginText_commits.mp (show Commits _ w.db begun.1 begun.2 from hbegin)
      rw [hrow] at hrow'
      cases hrow'
      simp only
      split
      · exact .uploaded (isText_iff.mpr hstate)
      · exact .uploaded (isText_iff.mpr hstate)
  | committing =>
    obtain ⟨pages, hpages, rfl⟩ := Option.map_eq_some_iff.mp h
    have hsane : sane site path = (Pdf.textSanity site.unicode pages).1 := by rw [sane, hpages, Option.any_some]
    rcases w.transact_cases (handleTextEmbedded site d path pages) (.returned : _ → Next EmbeddedPc EmbeddedResult)
      .raised with ⟨_, db', hc, he⟩ | ⟨e, he⟩
    · rw [he]
      obtain ⟨row', hrow', hstate, hout⟩ := handleTextEmbedded_commits.mp hc
      rw [hrow] at hrow'
      cases hrow'
      have htext := isText_iff.mpr hstate
      rcases hout with ⟨hok, _, rfl⟩ | ⟨hok, _, hfall⟩
      · exact .tier0 htext (hsane.trans hok) rfl rfl
          ⟨Db.write_lookup_self _ _ (row.moved .textRunning w.db.now) _, rfl, rfl⟩
      · rw [hpdf.length hpages] at hfall
        obtain ⟨topic, total, row', hroute, hrow', _, rfl⟩ := fallThrough_commits.mp hfall
        rw [Db.write_lookup_self] at hrow'
        cases hrow'
        obtain ⟨rfl, _⟩ := route_ocr (by decide) hroute
        obtain ⟨task, hmsg, hocr⟩ := route_toOcr (by decide) hroute
        exact .fell (m := ⟨_, d, topic, _⟩) htext (hsane.trans hok) hmsg hocr ⟨Db.write_lookup_self _ _ _ _, rfl, rfl⟩
    · rw [he]
      refine .refused ?_
      by_contra htext
      have hstate := isText_iff.mp (Bool.not_eq_false _ ▸ htext)
      obtain ⟨result, db', hc⟩ := handleTextEmbedded_succeeds site path pages hrow hstate
      exact not_commits_of_raised (by simp) he result db' hc

theorem split_textStep {pc : SplitPc} {r : World × Next SplitPc Unit} (h : splitStep site d path w pc = some r)
    (hpdf : PdfPages site path n) (hrow : w.db.documents.lookup d = some row) :
    TextStep site d n w.db row (.ocrSplit d path pc) r.1.db (r.2.task (.ocrSplit d path)) := by
  cases pc with
  | beginning =>
    cases h
    have hopen : ∀ u db', Commits (beginSplit d) w.db u db' ↔
        ∃ st, Commits (Ledger.transition d .textRunning (some [.textPending]) true) w.db st db' := by
      intro u db'
      simp only [beginSplit, commits_bind, commits_pure, true_and]
      constructor
      · rintro ⟨st, m, hc, rfl⟩
        exact ⟨st, hc⟩
      · rintro ⟨st, hc⟩
        exact ⟨st, db', hc, rfl⟩
    rcases opening_cases (ρ := Unit) SplitPc.splitting hopen hrow with ⟨htext, e, he⟩ | ⟨htext, db', hb, he⟩
    · rw [he]
      exact .refused htext
    · rw [he]
      exact .splitBegun htext hb
  | splitting =>
    obtain ⟨_, _, rfl⟩ := Option.map_eq_some_iff.mp h
    exact .shardsUploaded
  | committing =>
    obtain ⟨⟨total, pageCount⟩, hsplit, rfl⟩ := Option.map_eq_some_iff.mp h
    obtain ⟨rfl, rfl⟩ := hpdf.split hsplit
    obtain ⟨db', hc⟩ := Ledger.enqueueMany_succeeds ((List.range (shardCount site pageCount)).map fun idx =>
      (d, Topic.ocrShard, Payload.shard (shardPayload site d (shardCount site pageCount) pageCount idx)))
      (w.db.write d row (row.resplit (shardCount site pageCount) pageCount))
    have hsplits : Commits (commitSplitResult site d (shardCount site pageCount) pageCount) w.db ⟨⟩ db' := by
      simp only [commitSplitResult, commits_bind, Ledger.updateDocument_commits]
      exact ⟨⟨⟩, _, Or.inl ⟨row, hrow, rfl⟩, hc⟩
    rw [World.transact_of_commits _ _ hsplits]
    obtain ⟨hdocs, hshards, new, hnew, hrows⟩ := Ledger.enqueueMany_sent hc
    refine .splitDone (fun i hi => ?_) ⟨?_, hshards, hnew⟩
    · exact ⟨_, sends_of_mem hrows (List.mem_map_of_mem (List.mem_range.mpr hi)) rfl, rfl, rfl⟩
    · rw [hdocs]
      exact Db.write_lookup_self ..

theorem shard_textStep {payload : ShardPayload} {texts : List String} (pc : OcrShard.Pc)
    (hrow : w.db.documents.lookup payload.docId = some row) :
    TextStep site payload.docId n w.db row (.ocrShard payload pc) (OcrShard.step payload texts w pc).1.db
      ((OcrShard.step payload texts w pc).2.task (.ocrShard payload)) := by
  cases pc with
  | beginning =>
    have hopen : ∀ u db', Commits (OcrShard.beginShard payload.docId) w.db u db' ↔
        ∃ st, Commits (Ledger.transition payload.docId .textRunning (some [.textPending]) true) w.db st db' := by
      intro u db'
      simp only [OcrShard.beginShard, commits_bind, commits_pure, true_and]
      constructor
      · rintro ⟨st, m, hc, rfl⟩
        exact ⟨st, hc⟩
      · rintro ⟨st, hc⟩
        exact ⟨st, db', hc, rfl⟩
    rw [OcrShard.step]
    rcases opening_cases (ρ := Bool) OcrShard.Pc.recognising hopen hrow with ⟨htext, e, he⟩ | ⟨htext, db', hb, he⟩
    · rw [he]
      exact .refused htext
    · rw [he]
      exact .shardBegun htext hb
  | recognising => exact .recognised
  | recording =>
    rw [OcrShard.step]
    rcases w.transact_cases (Ledger.recordShardAndMaybeJoin payload.docId payload.shardIdx (.completed payload.docId))
      (.returned : Bool → Next OcrShard.Pc Bool) .raised with ⟨_, db', hc, he⟩ | ⟨e, he⟩
    · rw [he]
      rcases OcrShard.recordShardAndMaybeJoin_commits.mp hc with
        ⟨hmem, _, rfl⟩ | ⟨row', hrow', hmem, ⟨hne, _, rfl⟩ | ⟨heq, _, _, rfl⟩⟩
      · exact .again hmem
      · rw [hrow] at hrow'
        cases hrow'
        exact .counted hmem hne ⟨Db.write_lookup_self .., rfl, rfl⟩
      · rw [hrow] at hrow'
        cases hrow'
        exact .joined hmem heq rfl rfl ⟨Db.write_lookup_self _ _ row.counted _, rfl, rfl⟩
    · rw [he]
      have hnot := not_commits_of_raised (by simp) he
      by_cases hmem : (payload.docId, payload.shardIdx) ∈ w.db.documentShards
      · exact absurd (OcrShard.recordShardAndMaybeJoin_commits.mpr (Or.inl ⟨hmem, rfl, rfl⟩)) (hnot _ _)
      · by_cases heq : row.shardsDone + 1 = row.shardsTotal
        · refine .blocked hmem (fun hstate => ?_) fun hstate => ?_
          · exact hnot _ _ (OcrShard.recordShardAndMaybeJoin_commits.mpr
              (Or.inr ⟨row, hrow, hmem, Or.inr ⟨heq, rfl, Or.inl hstate, rfl⟩⟩))
          · exact hnot _ _ (OcrShard.recordShardAndMaybeJoin_commits.mpr
              (Or.inr ⟨row, hrow, hmem, Or.inr ⟨heq, rfl, Or.inr hstate, rfl⟩⟩))
        · exact absurd (OcrShard.recordShardAndMaybeJoin_commits.mpr
            (Or.inr ⟨row, hrow, hmem, Or.inl ⟨heq, rfl, rfl⟩⟩)) (hnot _ _)

/-- Every step of a text worker is one of them. -/
theorem textStep_cases {strict : Prop} {input : Input} {task : Task} {r : World × Option Task}
    (htask : task.isTextOf d = true) (hsound : TaskSound strict site w.db task)
    (hrow : w.db.documents.lookup d = some row) (hn : row.pageCount = some n)
    (h : task.step site w input = some r) : TextStep site d n w.db row task r.1.db r.2 := by
  have hpages : ∀ path k, OfPages w.db d path k → k = n := by
    rintro path k ⟨row', hrow', _, hk⟩
    rw [hrow] at hrow'
    cases hrow'
    rw [hn] at hk
    exact (Option.some.inj hk).symm
  cases task with
  | textEmbedded docId path pc =>
    obtain rfl := of_decide_eq_true htask
    obtain ⟨k, hof, hpdf⟩ := hsound
    obtain rfl := hpages _ _ hof
    obtain ⟨r', hr, rfl⟩ := Option.map_eq_some_iff.mp h
    exact embedded_textStep hr hpdf hrow
  | ocrSplit docId path pc =>
    obtain rfl := of_decide_eq_true htask
    obtain ⟨k, hof, hpdf, _⟩ := hsound
    obtain rfl := hpages _ _ hof
    obtain ⟨r', hr, rfl⟩ := Option.map_eq_some_iff.mp h
    exact split_textStep hr hpdf hrow
  | ocrShard payload pc =>
    obtain rfl := of_decide_eq_true htask
    cases h
    exact shard_textStep pc hrow
  | orphanScan | triage | extraction | sweep | forceRedrive | acceptReview | killSwitch => cases htask

end Gather
end DocPipeline

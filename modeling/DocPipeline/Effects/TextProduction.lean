import DocPipeline.Core.Operation
import DocPipeline.Stages.TextProduction

/-!
# What text production does to the ledger

The messages a handler sends are spelled out with the values they carry, because the
join downstream trusts them. The total a split writes is on the row when its shard
messages are sent.
-/
namespace DocPipeline

set_option autoImplicit false

open Lib Lib.Transaction Ledger

namespace PdfWorker

variable {site : Deployment} {docId : DocId} {gcsPath : String} {pages : List String} {db db' : Db}

inductive EmbeddedDoes (site : Deployment) (docId : DocId) (gcsPath : String) (pages : List String)
    (start : Db) : Db → Operation → Prop
  | begin {db : Db} : EmbeddedDoes site docId gcsPath pages start db (.move docId .textRunning)
  | tier0 {db : Db} {row : Document} : (Pdf.textSanity site.unicode pages).1 = true →
      db.documents.lookup docId = some row → row.state = .textRunning →
      EmbeddedDoes site docId gcsPath pages start db (.move docId .extractPending)
  | completed {db : Db} : (Pdf.textSanity site.unicode pages).1 = true →
      EmbeddedDoes site docId gcsPath pages start db (.send docId .ocrCompleted (.completed docId))
  | fallThrough {db : Db} {topic : Topic} {shardsTotal : Nat} :
      (Pdf.textSanity site.unicode pages).1 = false →
      routeTextProduction site (some false) (some pages.length) = .ok (topic, shardsTotal) →
      (∀ row, db.documents.lookup docId = some row → ∃ old, start.documents.lookup docId = some old ∧
        old.shardsTotal = row.shardsTotal ∧ (old.state = .textPending ∨ old.state = .textRunning)) →
      EmbeddedDoes site docId gcsPath pages start db (.fallThrough docId shardsTotal)
  | dispatch {db : Db} {topic : Topic} {shardsTotal : Nat} :
      (Pdf.textSanity site.unicode pages).1 = false →
      routeTextProduction site (some false) (some pages.length) = .ok (topic, shardsTotal) →
      EmbeddedDoes site docId gcsPath pages start db
        (.send docId topic (buildDispatchPayload topic docId gcsPath (some pages.length)))
  | back {db : Db} : (Pdf.textSanity site.unicode pages).1 = false →
      EmbeddedDoes site docId gcsPath pages start db (.move docId .textPending)

inductive SplitDoes (site : Deployment) (docId : DocId) (gcsPath : String) : SplitPc → Db → Operation → Prop
  | begin {db : Db} : SplitDoes site docId gcsPath .beginning db (.move docId .textRunning)
  | split {db : Db} {shardsTotal pageCount : Nat} : splitCounts site gcsPath = some (shardsTotal, pageCount) →
      SplitDoes site docId gcsPath .committing db (.split docId shardsTotal pageCount)
  | shard {db : Db} {shardsTotal pageCount idx : Nat} : splitCounts site gcsPath = some (shardsTotal, pageCount) →
      idx < shardsTotal →
      (∀ row, db.documents.lookup docId = some row → row.shardsTotal = shardsTotal) →
      SplitDoes site docId gcsPath .committing db
        (.send docId .ocrShard (.shard (shardPayload site docId shardsTotal pageCount idx)))

/-- `transition` to `text_running` as every text handler opens. -/
theorem beginText_commits {st : DocState} :
    Commits (transition docId .textRunning (some [.textPending]) true) db st db' ↔
    ∃ row, db.documents.lookup docId = some row ∧ (row.state = .textPending ∨ row.state = .textRunning) ∧
      st = .textRunning ∧ db' = db.write docId row (row.moved .textRunning db.now) := by
  rw [transition_commits]
  constructor
  · rintro ⟨row, hrow, hmem, hst, rfl⟩
    exact ⟨row, hrow, by simpa using hmem, hst, rfl⟩
  · rintro ⟨row, hrow, hstate, hst, rfl⟩
    exact ⟨row, hrow, by simpa using hstate, hst, rfl⟩

theorem step_begin {row : Document} (hrow : db.documents.lookup docId = some row)
    (hstate : row.state = .textPending ∨ row.state = .textRunning) :
    Operation.Step db (.move docId .textRunning) (db.write docId row (row.moved .textRunning db.now)) :=
  .move hrow (hstate.imp (fun h => by rw [h]; decide) id) (by decide) (by decide)

theorem route_ocr {pageCount : Option Nat} {topic : Topic} {total : Nat} {tl : Option Bool}
    (htl : tl ≠ some true) (h : routeTextProduction site tl pageCount = .ok (topic, total)) :
    total = 1 ∧ ∃ n, pageCount = some n ∧
      ((n ≤ site.shardSizePages ∧ topic = .ocrShard) ∨ (site.shardSizePages < n ∧ topic = .ocrSplit)) := by
  unfold routeTextProduction at h
  rw [if_neg htl] at h
  split at h
  · cases h
  · next n =>
    split at h
    · next hle =>
      cases h
      exact ⟨rfl, n, rfl, Or.inl ⟨hle, rfl⟩⟩
    · next hle =>
      cases h
      exact ⟨rfl, n, rfl, Or.inr ⟨Nat.lt_of_not_le hle, rfl⟩⟩

theorem route_topic {hasTextLayer : Option Bool} {pageCount : Option Nat} {topic : Topic} {total : Nat}
    (h : routeTextProduction site hasTextLayer pageCount = .ok (topic, total)) :
    topic = .textEmbedded ∨ topic = .ocrShard ∨ topic = .ocrSplit := by
  by_cases htl : hasTextLayer = some true
  · unfold routeTextProduction at h
    rw [if_pos htl] at h
    cases h
    exact Or.inl rfl
  · obtain ⟨_, n, _, ⟨_, ht⟩ | ⟨_, ht⟩⟩ := route_ocr htl h
    · exact Or.inr (Or.inl ht)
    · exact Or.inr (Or.inr ht)

/-- What the handler commits on each of its two outcomes. -/
theorem handleTextEmbedded_commits {result : EmbeddedResult} :
    Commits (handleTextEmbedded site docId gcsPath pages) db result db' ↔
    ∃ row, db.documents.lookup docId = some row ∧ (row.state = .textPending ∨ row.state = .textRunning) ∧
      let running := db.write docId row (row.moved .textRunning db.now)
      ((Pdf.textSanity site.unicode pages).1 = true ∧ result = .tier0Complete ∧
        db' = (running.write docId (row.moved .textRunning db.now)
          (row.moved .extractPending db.now)).insertOutbox docId .ocrCompleted (.completed docId)) ∨
      ((Pdf.textSanity site.unicode pages).1 = false ∧
        result = .fallthroughToOcr (Pdf.textSanity site.unicode pages).2 ∧
        Commits (fallThrough site docId gcsPath pages.length) running ⟨⟩ db') := by
  simp only [handleTextEmbedded, commits_bind, beginText_commits]
  constructor
  · rintro ⟨_, m, ⟨row, hrow, hstate, rfl, rfl⟩, h⟩
    refine ⟨row, hrow, hstate, ?_⟩
    rw [commits_ite] at h
    rcases h with ⟨hok, h⟩ | ⟨hok, h⟩
    · simp only [commits_bind, commits_pure, enqueue_commits, transition_commits] at h
      obtain ⟨_, _, ⟨row', hrow', _, _, rfl⟩, _, _, rfl, rfl, rfl⟩ := h
      rw [Db.write_lookup_self] at hrow'
      cases hrow'
      exact Or.inl ⟨hok, rfl, rfl⟩
    · simp only [commits_bind, commits_pure] at h
      obtain ⟨_, _, h, rfl, rfl⟩ := h
      exact Or.inr ⟨by simpa using hok, rfl, h⟩
  · rintro ⟨row, hrow, hstate, ⟨hok, rfl, rfl⟩ | ⟨hok, rfl, h⟩⟩
    · refine ⟨_, _, ⟨row, hrow, hstate, rfl, rfl⟩, ?_⟩
      rw [commits_ite]
      refine Or.inl ⟨hok, ?_⟩
      simp only [commits_bind, commits_pure, enqueue_commits, transition_commits]
      exact ⟨_, _, ⟨row.moved .textRunning db.now, Db.write_lookup_self .., by simp [Document.moved], rfl, rfl⟩,
        ⟨⟩, _, rfl, trivial, rfl⟩
    · refine ⟨_, _, ⟨row, hrow, hstate, rfl, rfl⟩, ?_⟩
      rw [commits_ite]
      refine Or.inr ⟨by simp [hok], ?_⟩
      simp only [commits_bind, commits_pure]
      exact ⟨⟨⟩, _, h, trivial, rfl⟩

/-- The fall-through: the total it writes, the message it sends, the state it returns to. -/
theorem fallThrough_commits {pageCount : Nat} {u : Unit} :
    Commits (fallThrough site docId gcsPath pageCount) db u db' ↔
    ∃ topic total row, routeTextProduction site (some false) (some pageCount) = .ok (topic, total) ∧
      db.documents.lookup docId = some row ∧ (row.state = .textRunning ∨ row.state = .textPending) ∧
      db' = ((db.write docId row (row.fallen total)).insertOutbox docId topic
        (buildDispatchPayload topic docId gcsPath (some pageCount))).write docId (row.fallen total)
          ((row.fallen total).moved .textPending db.now) := by
  unfold fallThrough
  cases hroute : routeTextProduction site (some false) (some pageCount) with
  | error e =>
    constructor
    · intro h
      exact absurd h commits_throw
    · rintro ⟨topic, total, row, h, _⟩
      cases h
  | ok r =>
    obtain ⟨topic, total⟩ := r
    simp only [commits_bind, commits_pure, enqueue_commits, transition_commits, updateDocument_commits]
    constructor
    · rintro ⟨_, m, hu, _, _, rfl, _, _, ⟨row', hrow', hmem, _, rfl⟩, _, rfl⟩
      rcases hu with ⟨row, hrow, rfl⟩ | ⟨hrow, rfl⟩
      · rw [Db.insertOutbox_documents, Db.write_lookup_self] at hrow'
        cases hrow'
        exact ⟨topic, total, row, rfl, hrow, by simpa using hmem, rfl⟩
      · rw [Db.insertOutbox_documents, hrow] at hrow'
        cases hrow'
    · rintro ⟨_, _, row, he, hrow, hstate, rfl⟩
      cases he
      refine ⟨⟨⟩, _, Or.inl ⟨row, hrow, rfl⟩, ⟨⟩, _, rfl, _, _, ⟨_, ?_, ?_, rfl, rfl⟩, trivial, rfl⟩
      · rw [Db.insertOutbox_documents, Db.write_lookup_self]
        rfl
      · simpa [Document.fallen] using hstate

theorem embeddedStep_performs {w : World} {pc : EmbeddedPc} {r : World × Next EmbeddedPc EmbeddedResult}
    (h : embeddedStep site docId gcsPath w pc = some r) :
    ∃ pages, pagesText site gcsPath = some pages ∧
      Performs (fun db op => pc = .committing ∧ EmbeddedDoes site docId gcsPath pages w.db db op) w.db r.1.db := by
  cases pc with
  | uploading =>
    simp only [embeddedStep, Option.map_eq_some_iff] at h
    obtain ⟨pages, hpages, rfl⟩ := h
    refine ⟨pages, hpages, ?_⟩
    split
    · exact Reaches.refl _
    · split <;> exact Reaches.refl _
  | committing =>
    simp only [embeddedStep, Option.map_eq_some_iff] at h
    obtain ⟨pages, hpages, rfl⟩ := h
    refine ⟨pages, hpages, w.transact_performs _ _ _ fun _ db h => ?_⟩
    obtain ⟨row, hrow, hstate, h⟩ := handleTextEmbedded_commits.mp h
    refine (Reaches.single ⟨rfl, .begin⟩ (step_begin hrow hstate)).trans ?_
    rcases h with ⟨hok, _, rfl⟩ | ⟨hok, _, h⟩
    · refine (Reaches.single ⟨rfl, .tier0 hok (Db.write_lookup_self ..) rfl⟩
        (.move (Db.write_lookup_self ..) ?_ ?_ ?_)).trans (Reaches.single ⟨rfl, .completed hok⟩ (.send (by decide)))
      · exact Or.inl (by simp only [Document.moved]; decide)
      · decide
      · decide
    · obtain ⟨topic, total, row', hroute, hrow', _, rfl⟩ := fallThrough_commits.mp h
      rw [Db.write_lookup_self] at hrow'
      cases hrow'
      have hkept : ∀ row', (w.db.write docId row (row.moved .textRunning w.db.now)).documents.lookup docId =
          some row' → ∃ old, w.db.documents.lookup docId = some old ∧ old.shardsTotal = row'.shardsTotal ∧
            (old.state = .textPending ∨ old.state = .textRunning) := by
        intro row' hrow'
        rw [Db.write_lookup_self] at hrow'
        cases hrow'
        exact ⟨row, hrow, rfl, hstate⟩
      have htopic : topic ≠ .documentExtracted := by
        rcases route_topic hroute with rfl | rfl | rfl <;> decide
      refine (Reaches.single ⟨rfl, .fallThrough hok hroute hkept⟩ (.fallThrough (Db.write_lookup_self ..))).trans
        ((Reaches.single ⟨rfl, .dispatch hok hroute⟩ (.send htopic)).trans
          (Reaches.single ⟨rfl, .back hok⟩ (.move ?_ (Or.inl ?_) (by decide) (by decide))))
      · rw [Db.insertOutbox_documents, Db.write_lookup_self]
      · simp only [Document.moved, Document.fallen]
        decide

theorem splitStep_performs {w : World} {pc : SplitPc} {r : World × Next SplitPc Unit}
    (h : splitStep site docId gcsPath w pc = some r) :
    Performs (SplitDoes site docId gcsPath pc) w.db r.1.db := by
  cases pc with
  | beginning =>
    simp only [splitStep, Option.some.injEq] at h
    subst h
    refine w.transact_performs _ _ _ fun _ db h => ?_
    simp only [beginSplit, commits_bind, commits_pure, beginText_commits] at h
    obtain ⟨_, _, ⟨row, hrow, hstate, _, rfl⟩, _, rfl⟩ := h
    exact Reaches.single .begin (step_begin hrow hstate)
  | splitting =>
    obtain ⟨_, _, rfl⟩ := Option.map_eq_some_iff.mp h
    exact Reaches.refl _
  | committing =>
    simp only [splitStep, Option.map_eq_some_iff] at h
    obtain ⟨⟨total, n⟩, hsplit, rfl⟩ := h
    refine w.transact_performs _ _ _ fun _ db h => ?_
    simp only [commitSplitResult, commits_bind, updateDocument_commits] at h
    obtain ⟨_, m, hu, hsend⟩ := h
    have hshards : ∀ db₁ : Db, db₁.documents = m.documents → ∀ idx, idx < total →
        SplitDoes site docId gcsPath .committing db₁
          (.send docId .ocrShard (.shard (shardPayload site docId total n idx))) := by
      intro db₁ hd idx hidx
      refine .shard hsplit hidx fun row' hrow' => ?_
      rw [hd] at hrow'
      rcases hu with ⟨row, _, rfl⟩ | ⟨hnone, rfl⟩
      · rw [Db.write_lookup_self] at hrow'
        cases hrow'
        rfl
      · rw [hnone] at hrow'
        cases hrow'
    have hfirst : Performs (SplitDoes site docId gcsPath .committing) w.db m := by
      rcases hu with ⟨row, hrow, rfl⟩ | ⟨_, rfl⟩
      · exact Reaches.single (.split hsplit) (.split hrow)
      · exact Reaches.refl _
    refine hfirst.trans (performs_enqueueMany hsend ?_ ?_)
    · intro r hr
      obtain ⟨idx, _, rfl⟩ := List.mem_map.mp hr
      change Topic.ocrShard ≠ .documentExtracted
      decide
    · intro db₁ r hr hd
      obtain ⟨idx, hidx, rfl⟩ := List.mem_map.mp hr
      exact hshards db₁ hd idx (List.mem_range.mp hidx)

end PdfWorker

namespace OcrShard

variable {payload : ShardPayload} {db db' : Db}

inductive Does (payload : ShardPayload) : Pc → Db → Operation → Prop
  | begin {db : Db} : Does payload .beginning db (.move payload.docId .textRunning)
  | record {db : Db} : Does payload .recording db (.recordShard payload.docId payload.shardIdx)
  | join {db : Db} {row : Document} : db.documents.lookup payload.docId = some row →
      row.shardsDone = row.shardsTotal → row.state = .textRunning ∨ row.state = .extractPending →
      Does payload .recording db (.move payload.docId .extractPending)
  | completed {db : Db} {row : Document} : db.documents.lookup payload.docId = some row →
      row.shardsDone = row.shardsTotal →
      Does payload .recording db (.send payload.docId .ocrCompleted (.completed payload.docId))

/-- The join: a claimed index is counted, and the counter that meets the total fires. -/
theorem recordShardAndMaybeJoin_commits {docId : DocId} {shardIdx : Nat} {completed : Payload} {won : Bool} :
    Commits (recordShardAndMaybeJoin docId shardIdx completed) db won db' ↔
    ((docId, shardIdx) ∈ db.documentShards ∧ won = false ∧ db' = db) ∨
    ∃ row, db.documents.lookup docId = some row ∧ (docId, shardIdx) ∉ db.documentShards ∧
      ((row.shardsDone + 1 ≠ row.shardsTotal ∧ won = false ∧ db' = db.countShard docId shardIdx row) ∨
       (row.shardsDone + 1 = row.shardsTotal ∧ won = true ∧
        (row.state = .textRunning ∨ row.state = .extractPending) ∧
        db' = ((db.countShard docId shardIdx row).write docId row.counted
          (row.counted.moved .extractPending db.now)).insertOutbox docId .ocrCompleted completed)) := by
  simp only [recordShardAndMaybeJoin, commits_bind, claimShard_commits]
  constructor
  · rintro ⟨_, m, ⟨hmem, rfl, rfl⟩ | ⟨hmem, rfl, ⟨row, hrow⟩, rfl⟩, h⟩
    · simp only [Bool.false_eq_true, if_false, commits_pure] at h
      exact Or.inl ⟨hmem, h.1.symm, h.2.symm⟩
    · simp only [if_true, commits_bind, incrementShardsDone_commits] at h
      obtain ⟨_, _, ⟨row', hrow', rfl, rfl⟩, h⟩ := h
      rw [hrow] at hrow'
      cases hrow'
      refine Or.inr ⟨row, hrow, hmem, ?_⟩
      rw [commits_ite] at h
      rcases h with ⟨heq, h⟩ | ⟨hne, h⟩
      · simp only [commits_bind, commits_pure, enqueue_commits, transition_commits] at h
        obtain ⟨_, _, ⟨row', hrow', hmem', _, rfl⟩, _, _, rfl, rfl, rfl⟩ := h
        rw [Db.write_lookup_self] at hrow'
        cases hrow'
        exact Or.inr ⟨heq, rfl, by simpa [Document.counted] using hmem', rfl⟩
      · rw [commits_pure] at h
        exact Or.inl ⟨hne, h.1.symm, h.2.symm⟩
  · rintro (⟨hmem, rfl, rfl⟩ | ⟨row, hrow, hmem, h⟩)
    · refine ⟨false, db', Or.inl ⟨hmem, rfl, rfl⟩, ?_⟩
      simp
    · refine ⟨true, _, Or.inr ⟨hmem, rfl, ⟨row, hrow⟩, rfl⟩, ?_⟩
      simp only [if_true, commits_bind, incrementShardsDone_commits]
      refine ⟨_, _, ⟨row, hrow, rfl, rfl⟩, ?_⟩
      rw [commits_ite]
      rcases h with ⟨hne, rfl, rfl⟩ | ⟨heq, rfl, hstate, rfl⟩
      · exact Or.inr ⟨hne, commits_pure.mpr ⟨rfl, rfl⟩⟩
      · refine Or.inl ⟨heq, ?_⟩
        simp only [commits_bind, commits_pure, enqueue_commits, transition_commits]
        exact ⟨_, _, ⟨_, Db.write_lookup_self .., by simpa [Document.counted] using hstate, rfl, rfl⟩,
          ⟨⟩, _, rfl, trivial, rfl⟩

theorem step_performs (w : World) (texts : List String) (pc : Pc) :
    Performs (Does payload pc) w.db (step payload texts w pc).1.db := by
  cases pc with
  | beginning =>
    refine w.transact_performs _ _ _ fun _ db h => ?_
    simp only [beginShard, commits_bind, commits_pure, PdfWorker.beginText_commits] at h
    obtain ⟨_, _, ⟨row, hrow, hstate, _, rfl⟩, _, rfl⟩ := h
    exact Reaches.single .begin (PdfWorker.step_begin hrow hstate)
  | recognising => exact Reaches.refl _
  | recording =>
    refine w.transact_performs _ _ _ fun _ db h => ?_
    rcases recordShardAndMaybeJoin_commits.mp h with
      ⟨_, _, rfl⟩ | ⟨row, hrow, hmem, ⟨_, _, rfl⟩ | ⟨heq, _, hstate, rfl⟩⟩
    · exact Reaches.refl _
    · exact Reaches.single .record (.recordShard hrow hmem)
    · have hcounted : (w.db.countShard payload.docId payload.shardIdx row).documents.lookup payload.docId =
          some row.counted := Db.write_lookup_self ..
      refine (Reaches.single .record (.recordShard hrow hmem)).trans
        ((Reaches.single (.join hcounted heq hstate) (.move hcounted ?_ (by decide) (by decide))).trans
          (Reaches.single (.completed (Db.write_lookup_self ..) heq) (.send (by decide))))
      refine hstate.imp (fun h => ?_) id
      rw [show row.counted.state = row.state from rfl, h]
      decide

end OcrShard
end DocPipeline

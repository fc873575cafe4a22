import DocPipeline.Gather.Scanned

/-!
# The first message of every piece of work

Triage and the fall-through dispatch a document, and the split its shards. Whatever a
re-drive reads in a row, one of them has read in the same row before it sent the message
that the re-drive repeats.
-/
namespace DocPipeline

set_option autoImplicit false

/-- The steps that dispatch a document whole. -/
def Task.dispatches : Task → Bool
  | .triage _ | .textEmbedded _ _ .committing => true
  | _ => false

/-- The step that dispatches the shards. -/
def Task.splits : Task → Bool
  | .ocrSplit _ _ .committing => true
  | _ => false

namespace Gather

open Lib Lib.Transaction Sys PdfWorker

variable {site : Deployment} {start db : Db} {d : DocId} {n : Nat} {path : String} {s t : Sys} {a : Action}
  {as : List Action} {row row' : Document} {topic : Topic} {payload : Payload} {By : Task → Bool}

/-- The message is enqueued between `start` and `db`. -/
def NewIn (start db : Db) (d : DocId) (topic : Topic) (payload : Payload) : Prop :=
  ∃ new m, db.sent = new ++ start.sent ∧ m ∈ new ∧ m.docId = d ∧ m.topic = topic ∧ m.payload = payload

/-- The step is one of these runs' and enqueues the message. -/
def SentBy (site : Deployment) (By : Task → Bool) (d : DocId) (topic : Topic) (payload : Payload) (s : Sys) (a : Action) :
    Prop :=
  ∃ tid input task r, a = .run tid input ∧ s.tasks tid = some task ∧ By task = true ∧
    task.step site s.world input = some r ∧ NewIn s.db r.1.db d topic payload

/-- One of these runs has enqueued the message before `s`. -/
def First (site : Deployment) (as : List Action) (s : Sys) (By : Task → Bool) (d : DocId) (topic : Topic)
    (payload : Payload) : Prop :=
  Fired (Step site) Always initial as (SentBy site By d topic payload) s

theorem First.snoc (h : First site as s By d topic payload) (hs : Step site s a t) :
    First site (as ++ [a]) t By d topic payload :=
  Fired.snoc h trivial hs

/-- What can be sent again from a row has been sent, within the page ceiling. -/
structure RowFirst (site : Deployment) (as : List Action) (s : Sys) (d : DocId) (row : Document) : Prop where
  dispatched : ∀ n topic total, row.pageCount = some n → n ≤ site.hardPageCeiling →
    Ledger.routeTextProduction site row.hasTextLayer (some n) = .ok (topic, total) →
    First site as s Task.dispatches d topic (Ledger.buildDispatchPayload topic d row.gcsPath (some n))
  sharded : 1 < row.shardsTotal → ∀ n, row.pageCount = some n → ∀ idx, idx < row.shardsTotal →
    First site as s Task.splits d .ocrShard (.shard (shardPayload site d row.shardsTotal n idx))

theorem RowFirst.snoc (h : RowFirst site as s d row) (hs : Step site s a t) : RowFirst site (as ++ [a]) t d row :=
  ⟨fun n topic total hn hle hroute => (h.dispatched n topic total hn hle hroute).snoc hs,
    fun hmany n hn idx hidx => (h.sharded hmany n hn idx hidx).snoc hs⟩

theorem RowFirst.congr (h : RowFirst site as s d row) (hsame : row.SameRouting row') : RowFirst site as s d row' := by
  obtain ⟨hpath, hpages, htl, htotal⟩ := hsame
  refine ⟨fun n topic total hn hle hroute => ?_, fun hmany n hn idx hidx => ?_⟩
  · rw [hpages] at hn
    rw [htl] at hroute
    rw [hpath]
    exact h.dispatched n topic total hn hle hroute
  · rw [htotal] at hmany hidx ⊢
    rw [hpages] at hn
    exact h.sharded hmany n hn idx hidx

/-! ## The three commits that change the routing -/

/-- The row is dispatched whole, and its first message goes with it. -/
structure Dispatches (site : Deployment) (start db : Db) (d : DocId) (row : Document) : Prop where
  whole : row.shardsTotal = 1
  sent : ∀ n topic total, row.pageCount = some n → n ≤ site.hardPageCeiling →
    Ledger.routeTextProduction site row.hasTextLayer (some n) = .ok (topic, total) →
    NewIn start db d topic (Ledger.buildDispatchPayload topic d row.gcsPath (some n))

/-- A row that triage inserts without a message has too many pages, if its pages are counted. -/
theorem triage_dispatches {result : Triage.Result} (hc : Commits (Triage.handleGcsPath site path) start result db)
    (hrow' : db.documents.lookup d = some row') :
    start.documents.lookup d = some row' ∨ Dispatches site start db d row' := by
  have hinserted : ∀ {docId : DocId} {row : Document}, (start.documents.insert docId row).lookup d = some row' →
      start.documents.lookup docId = none →
      start.documents.lookup d = some row' ∨ (d = docId ∧ row' = row ∧ start.documents.lookup d = none) := by
    intro docId row h hnone
    rw [Table.lookup_insert_ite] at h
    split at h
    · next hd => exact Or.inr ⟨hd, (Option.some.inj h).symm, hd ▸ hnone⟩
    · exact Or.inl h
  cases Triage.handleGcsPath_registers hc with
  | unchanged => exact Or.inl hrow'
  | rejected _ hadmits hstate hnone =>
    rcases hinserted hrow' hnone with hold | ⟨rfl, rfl, hnone⟩
    · exact Or.inl hold
    · refine Or.inr ⟨hadmits.fresh.shardsTotal, fun n topic total hn hle _ => ?_⟩
      have hwaits : row'.state ≠ .textPending := by
        intro he
        rw [he] at hstate
        rcases hstate with h | h <;> cases h
      exact absurd hle (Nat.not_le_of_lt (Triage.handleGcsPath_ceiling hc hnone hrow' hwaits hn))
  | dispatched _ hadmits _ hn hnone hroute =>
    rcases hinserted hrow' hnone with hold | ⟨rfl, rfl, _⟩
    · exact Or.inl hold
    · refine Or.inr ⟨hadmits.fresh.shardsTotal, fun n topic total hn' _ hroute' => ?_⟩
      cases hn.symm.trans hn'
      cases hroute.symm.trans hroute'
      rw [hadmits.gcsPath]
      exact ⟨[_], _, rfl, List.mem_singleton_self _, rfl, rfl, rfl⟩

/-- The fall-through dispatches with the number of pages that the row has. -/
theorem embedded_dispatches {pages : List String} {result : EmbeddedResult}
    (hc : Commits (handleTextEmbedded site d path pages) start result db) (hof : OfPages start d path pages.length)
    (hrow' : db.documents.lookup d = some row') :
    (∃ row, start.documents.lookup d = some row ∧ row.SameRouting row') ∨ Dispatches site start db d row' := by
  obtain ⟨row, hrow, _, ⟨_, _, rfl⟩ | ⟨_, _, hfall⟩⟩ := handleTextEmbedded_commits.mp hc
  · rw [Db.insertOutbox_documents, Db.write_lookup_self] at hrow'
    cases hrow'
    exact Or.inl ⟨row, hrow, rfl, rfl, rfl, rfl⟩
  · obtain ⟨topic, total, running, hroute, hrunning, _, rfl⟩ := fallThrough_commits.mp hfall
    rw [Db.write_lookup_self] at hrunning hrow'
    cases hrunning
    cases hrow'
    obtain ⟨rfl, _⟩ := route_ocr (by decide) hroute
    obtain ⟨current, hcurrent, hpath, hpages⟩ := hof
    rw [hrow] at hcurrent
    cases hcurrent
    refine Or.inr ⟨rfl, fun n topic' total' hn _ hroute' => ?_⟩
    cases hpages.symm.trans hn
    cases hroute.symm.trans hroute'
    refine ⟨[_], _, rfl, List.mem_singleton_self _, rfl, rfl, ?_⟩
    rw [← hpath]
    rfl

theorem commitSplitResult_succeeds (site : Deployment) (d : DocId) (total n : Nat) (db : Db) :
    ∃ db', Commits (commitSplitResult site d total n) db ⟨⟩ db' := by
  simp only [commitSplitResult, commits_bind, Ledger.updateDocument_commits]
  cases hrow : db.documents.lookup d with
  | none =>
    obtain ⟨db', hsend⟩ := Ledger.enqueueMany_succeeds _ db
    exact ⟨db', ⟨⟩, db, Or.inr ⟨rfl, rfl⟩, hsend⟩
  | some row =>
    obtain ⟨db', hsend⟩ := Ledger.enqueueMany_succeeds _ (db.write d row (row.resplit total n))
    exact ⟨db', ⟨⟩, _, Or.inl ⟨row, rfl, rfl⟩, hsend⟩

/-- The split sends every shard that the row then has. -/
theorem split_sends {u : Unit} (hc : Commits (commitSplitResult site d (shardCount site n) n) start u db)
    (hrow : start.documents.lookup d = some row) :
    db.documents.lookup d = some (row.resplit (shardCount site n) n) ∧
    ∀ idx, idx < shardCount site n →
      NewIn start db d .ocrShard (.shard (shardPayload site d (shardCount site n) n idx)) := by
  simp only [commitSplitResult, commits_bind, Ledger.updateDocument_commits] at hc
  obtain ⟨_, m, ⟨row', hrow', rfl⟩ | ⟨hnone, _⟩, hsend⟩ := hc
  · rw [hrow] at hrow'
    cases hrow'
    obtain ⟨hdocs, _, new, hnew, hrows⟩ := Ledger.enqueueMany_sent hsend
    refine ⟨?_, fun idx hidx => ?_⟩
    · rw [hdocs]
      exact Db.write_lookup_self ..
    · obtain ⟨m, hm, heq⟩ := (hrows _).mp (List.mem_map_of_mem (List.mem_range.mpr hidx))
      simp only [Prod.mk.injEq] at heq
      exact ⟨new, m, hnew, hm, heq⟩
  · rw [hrow] at hnone
    cases hnone

/-! ## Steps -/

/-- A step leaves the routing of a row, unless it is triage's, the fall-through's or the split's. -/
theorem routing_of_task {w : World} {input : Input} {task : Task} {r : World × Option Task}
    (h : task.step site w input = some r) (hrow' : r.1.db.documents.lookup d = some row') :
    (∃ row, w.db.documents.lookup d = some row ∧ row.SameRouting row') ∨ (∃ path, task = .triage path) ∨
    (∃ path, task = .textEmbedded d path .committing) ∨ ∃ path, task = .ocrSplit d path .committing := by
  refine (Task.step_performs h).invariant (P := fun db => ∀ row', db.documents.lookup d = some row' →
    (∃ row, w.db.documents.lookup d = some row ∧ row.SameRouting row') ∨ (∃ path, task = .triage path) ∨
    (∃ path, task = .textEmbedded d path .committing) ∨ ∃ path, task = .ocrSplit d path .committing)
    (fun row hrow => Or.inl ⟨row, hrow, rfl, rfl, rfl, rfl⟩) ?_ row' hrow'
  intro db op db' hi hd hs row' hrow'
  rcases hs.routing hrow' with ⟨row, hrow, hsame⟩ | ⟨rfl, _⟩ | ⟨_, _, rfl, _, _⟩ | ⟨_, _, _, rfl, _, _⟩
  · rcases hi row hrow with ⟨old, hold, hsame'⟩ | hother
    · refine Or.inl ⟨old, hold, ?_, ?_, ?_, ?_⟩
      · exact hsame.gcsPath.trans hsame'.gcsPath
      · exact hsame.pageCount.trans hsame'.pageCount
      · exact hsame.hasTextLayer.trans hsame'.hasTextLayer
      · exact hsame.shardsTotal.trans hsame'.shardsTotal
    · exact Or.inr hother
  · obtain ⟨path, _, rfl, _⟩ := hd.inserting
    exact Or.inr (Or.inl ⟨path, rfl⟩)
  · obtain ⟨path, _, rfl, _⟩ := hd.falling
    exact Or.inr (Or.inr (Or.inl ⟨path, rfl⟩))
  · obtain ⟨path, pc, rfl, _⟩ := hd.splitting
    cases hd
    exact Or.inr (Or.inr (Or.inr ⟨path, rfl⟩))

theorem triage_step {w : World} {input : Input} {r : World × Option Task}
    (h : (Task.triage path).step site w input = some r) (hrow' : r.1.db.documents.lookup d = some row') :
    w.db.documents.lookup d = some row' ∨ Dispatches site w.db r.1.db d row' := by
  cases h
  rcases w.transact_cases (Triage.handleGcsPath site path) (.returned : _ → Next Unit Triage.Result) .raised with
    ⟨_, db, hc, he⟩ | ⟨_, he⟩
  · simp only [he] at hrow' ⊢
    exact triage_dispatches hc hrow'
  · simp only [he] at hrow'
    exact Or.inl hrow'

theorem embedded_step {w : World} {input : Input} {r : World × Option Task}
    (h : (Task.textEmbedded d path .committing).step site w input = some r)
    (ht : TaskSound False site w.db (.textEmbedded d path .committing))
    (hrow' : r.1.db.documents.lookup d = some row') :
    (∃ row, w.db.documents.lookup d = some row ∧ row.SameRouting row') ∨ Dispatches site w.db r.1.db d row' := by
  obtain ⟨_, hr, rfl⟩ := Option.map_eq_some_iff.mp h
  obtain ⟨pages, hpages, rfl⟩ := Option.map_eq_some_iff.mp hr
  obtain ⟨n, hof, hpdf⟩ := ht
  rw [← hpdf.length hpages] at hof
  rcases w.transact_cases (handleTextEmbedded site d path pages) (.returned : _ → Next EmbeddedPc EmbeddedResult)
    .raised with ⟨_, db, hc, he⟩ | ⟨_, he⟩
  · simp only [he] at hrow' ⊢
    exact embedded_dispatches hc hof hrow'
  · simp only [he] at hrow'
    exact Or.inl ⟨row', hrow', rfl, rfl, rfl, rfl⟩

theorem split_step {w : World} {input : Input} {r : World × Option Task}
    (h : (Task.ocrSplit d path .committing).step site w input = some r)
    (ht : TaskSound False site w.db (.ocrSplit d path .committing)) (hrow' : r.1.db.documents.lookup d = some row') :
    ∃ row n, w.db.documents.lookup d = some row ∧ row.pageCount = some n ∧ row' = row.resplit (shardCount site n) n ∧
      ∀ idx, idx < shardCount site n →
        NewIn w.db r.1.db d .ocrShard (.shard (shardPayload site d (shardCount site n) n idx)) := by
  obtain ⟨_, hr, rfl⟩ := Option.map_eq_some_iff.mp h
  obtain ⟨⟨total, pageCount⟩, hsplit, rfl⟩ := Option.map_eq_some_iff.mp hr
  obtain ⟨n, ⟨row, hrow, _, hn⟩, hpdf, _⟩ := ht
  obtain ⟨rfl, rfl⟩ := hpdf.split hsplit
  obtain ⟨db, hc⟩ := commitSplitResult_succeeds site d (shardCount site pageCount) pageCount w.db
  simp only [w.transact_of_commits _ _ hc] at hrow' ⊢
  obtain ⟨hlookup, hsent⟩ := split_sends hc hrow
  rw [hlookup] at hrow'
  exact ⟨row, pageCount, hrow, hn, (Option.some.inj hrow').symm, hsent⟩

theorem rowFirst_of_dispatches {tid : Nat} {input : Input} {task : Task} {r : World × Option Task}
    (hrun : FreeRun site initial as s) (hs : Step site s (.run tid input) t) (htask : s.tasks tid = some task)
    (hby : task.dispatches = true) (hr : task.step site s.world input = some r)
    (h : Dispatches site s.db r.1.db d row') : RowFirst site (as ++ [.run tid input]) t d row' := by
  refine ⟨fun n topic total hn hle hroute => ?_, fun hmany => ?_⟩
  · exact .last hrun ⟨tid, input, task, r, rfl, htask, hby, hr, h.sent n topic total hn hle hroute⟩ hs
  · rw [h.whole] at hmany
    exact absurd hmany (Nat.lt_irrefl 1)

/-- Every row of every reachable state. -/
def Firsts (site : Deployment) (as : List Action) (s : Sys) : Prop :=
  ∀ d row, s.document d = some row → RowFirst site as s d row

theorem firsts_run (hrun : FreeRun site initial as s) : Firsts site as s := by
  induction hrun with
  | nil => exact fun _ _ h => nomatch h
  | @snoc s t as a hrun _ hs ih =>
    intro d row' hrow'
    have hkept : ∀ row, s.document d = some row → row.SameRouting row' → RowFirst site (as ++ [a]) t d row' :=
      fun row hrow hsame => ((ih d row hrow).snoc hs).congr hsame
    rcases unchanged_of_step hs with ⟨tid, input, rfl⟩ | ⟨hdocs, _, _⟩
    · obtain ⟨task, r, htask, hr, heq⟩ := runTask_eq hs
      have hsound := (sound_run hrun).tasks tid task htask
      have hworld : t.db = r.1.db := by rw [heq]
      change t.db.documents.lookup d = some row' at hrow'
      rw [hworld] at hrow'
      rcases routing_of_task hr hrow' with ⟨row, hrow, hsame⟩ | ⟨path, rfl⟩ | ⟨path, rfl⟩ | ⟨path, rfl⟩
      · exact hkept row hrow hsame
      · rcases triage_step hr hrow' with hold | hnew
        · exact hkept row' hold ⟨rfl, rfl, rfl, rfl⟩
        · exact rowFirst_of_dispatches hrun hs htask rfl hr hnew
      · rcases embedded_step hr hsound hrow' with ⟨row, hrow, hsame⟩ | hnew
        · exact hkept row hrow hsame
        · exact rowFirst_of_dispatches hrun hs htask rfl hr hnew
      · obtain ⟨row, n, hrow, hn, rfl, hsent⟩ := split_step hr hsound hrow'
        have hfirst := (ih d row hrow).snoc hs
        refine ⟨fun k topic total hk hle hroute => ?_, fun _ k hk idx hidx => ?_⟩
        · exact hfirst.dispatched k topic total (hn.trans hk) hle hroute
        · cases hk
          exact .last hrun ⟨tid, input, _, r, rfl, htask, rfl, hr, hsent idx hidx⟩ hs
    · change t.db.documents.lookup d = some row' at hrow'
      rw [hdocs] at hrow'
      exact hkept row' hrow' ⟨rfl, rfl, rfl, rfl⟩

end Gather
end DocPipeline

import DocPipeline.Gather.First
import DocPipeline.Gather.Recovery
import DocPipeline.Audit.Replay

/-!
# Does a re-drive send what was sent first?

Four places build the messages of text production. What a re-drive builds from a row,
triage, the fall-through or the split has built and sent before the row was read: the whole
dispatch with the same topic and payload, and of the shards those that are not claimed.
Only a document that triage has turned away for its pages was never dispatched.
-/
namespace DocPipeline.Audit

set_option autoImplicit false

open Lib Lib.Transaction Sys Gather PdfWorker

variable {site : Deployment} {s : Sys} {as : List Action} {d : DocId} {row : Document} {state : DocState} {db db' : Db}

/-- The pages of the row, if they have been counted, are not too many for triage. -/
def WithinCeiling (site : Deployment) (row : Document) : Prop :=
  ∀ n, row.pageCount = some n → n ≤ site.hardPageCeiling

/-- The messages `new` of a re-drive repeat messages of the run up to `s`. -/
structure Repeats (site : Deployment) (as : List Action) (s : Sys) (d : DocId) (row : Document) (state : DocState)
    (db : Db) (new : List OutboxRow) : Prop where
  whole : row.shardsTotal ≤ 1 → WithinCeiling site row →
    ∃ m, new = [m] ∧ m.docId = d ∧ First site as s Task.dispatches d m.topic m.payload
  split : 1 < row.shardsTotal → state = .textPending →
    ∃ m, new = [m] ∧ m.docId = d ∧ m.topic = .ocrSplit ∧
      m.payload = Ledger.buildDispatchPayload .ocrSplit d row.gcsPath row.pageCount ∧
      (WithinCeiling site row → First site as s Task.dispatches d m.topic m.payload)
  shards : 1 < row.shardsTotal → state = .textRunning →
    (∀ m, m ∈ new → m.docId = d ∧ m.topic = .ocrShard ∧ First site as s Task.splits d m.topic m.payload) ∧
    ∀ idx, (∃ m payload, m ∈ new ∧ m.payload = .shard payload ∧ payload.shardIdx = idx) ↔
      idx < row.shardsTotal ∧ (d, idx) ∉ db.documentShards

/-- `redrive_document` in a text state: the whole document, the split, or the missing shards. -/
theorem redrive_cases {u : Unit} (htext : state.isText = true)
    (h : Commits (Sweeper.redriveDocument site d { row with state := state }) db u db') :
    (row.shardsTotal ≤ 1 ∧ ∃ topic total,
      Ledger.routeTextProduction site row.hasTextLayer row.pageCount = .ok (topic, total) ∧
      db' = db.insertOutbox d topic (Ledger.buildDispatchPayload topic d row.gcsPath row.pageCount)) ∨
    (1 < row.shardsTotal ∧ state = .textPending ∧
      db' = db.insertOutbox d .ocrSplit (.dispatch d row.gcsPath row.pageCount)) ∨
    (1 < row.shardsTotal ∧ state = .textRunning ∧
      Commits (Sweeper.redriveShards site d { row with state := state }) db u db') := by
  unfold Sweeper.redriveDocument at h
  rw [commits_ite] at h
  rcases h with ⟨⟨_, hone⟩, h⟩ | ⟨hnot, h⟩
  · refine Or.inl ⟨hone, ?_⟩
    unfold Sweeper.redriveDispatch at h
    split at h
    · exact absurd h commits_throw
    · next topic total hroute => exact ⟨topic, total, hroute, Ledger.enqueue_commits.mp h⟩
  · have hmany : 1 < row.shardsTotal := Nat.lt_of_not_le fun hle => hnot ⟨htext, hle⟩
    rcases isText_iff.mp htext with rfl | rfl
    · exact Or.inr (Or.inl ⟨hmany, rfl, Ledger.enqueue_commits.mp h⟩)
    · exact Or.inr (Or.inr ⟨hmany, rfl, h⟩)

/-- The message that a row routes to has been sent. -/
theorem first_of_route {topic : Topic} {total : Nat} (hsound : RowSound site row) (hfirst : RowFirst site as s d row)
    (hwithin : WithinCeiling site row)
    (hroute : Ledger.routeTextProduction site row.hasTextLayer row.pageCount = .ok (topic, total)) :
    First site as s Task.dispatches d topic (Ledger.buildDispatchPayload topic d row.gcsPath row.pageCount) := by
  obtain ⟨n, hn⟩ : ∃ n, row.pageCount = some n := by
    by_cases htl : row.hasTextLayer = some true
    · obtain ⟨n, hn, _⟩ := hsound.textual htl
      exact ⟨n, hn⟩
    · obtain ⟨_, n, hn, _⟩ := route_ocr htl hroute
      exact ⟨n, hn⟩
  rw [hn] at hroute ⊢
  exact hfirst.dispatched n topic total hn (hwithin n hn) hroute

/-- A row with more than one shard routes to the split. -/
theorem route_of_many (hsound : RowSound site row) (htl : row.hasTextLayer ≠ some true) (hmany : 1 < row.shardsTotal) :
    Ledger.routeTextProduction site row.hasTextLayer row.pageCount = .ok (.ocrSplit, 1) := by
  obtain ⟨n, hn, _, hlarge, _⟩ := hsound.many hmany
  unfold Ledger.routeTextProduction
  rw [if_neg htl, hn]
  exact if_neg (Nat.not_le_of_lt hlarge)

/-- The shards that are sent again: the missing ones, each as the split has sent it. -/
theorem shards_repeat {u : Unit} (hsound : RowSound site row) (hfirst : RowFirst site as s d row)
    (hmany : 1 < row.shardsTotal) (h : Commits (Sweeper.redriveShards site d { row with state := state }) db u db') :
    ∃ new, db'.sent = new ++ db.sent ∧
      (∀ m, m ∈ new → m.docId = d ∧ m.topic = .ocrShard ∧ First site as s Task.splits d m.topic m.payload) ∧
      ∀ idx, (∃ m payload, m ∈ new ∧ m.payload = .shard payload ∧ payload.shardIdx = idx) ↔
        idx < row.shardsTotal ∧ (d, idx) ∉ db.documentShards := by
  obtain ⟨n, hn, _, _, _⟩ := hsound.many hmany
  simp only [Sweeper.redriveShards, commits_bind, commits_get, hn] at h
  obtain ⟨_, _, ⟨rfl, rfl⟩, h⟩ := h
  obtain ⟨_, _, new, hnew, hrows⟩ := Ledger.enqueueMany_sent h
  refine ⟨new, hnew, fun m hm => ?_, fun idx => ?_⟩
  · obtain ⟨idx, hidx, heq⟩ := List.mem_map.mp ((hrows (m.docId, m.topic, m.payload)).mpr ⟨m, hm, rfl⟩)
    simp only [Prod.mk.injEq] at heq
    rw [← heq.1, ← heq.2.1, ← heq.2.2]
    exact ⟨rfl, rfl, hfirst.sharded hmany n hn idx (missingShards_mem.mp hidx).1⟩
  · constructor
    · rintro ⟨m, payload, hm, hpayload, rfl⟩
      obtain ⟨idx, hidx, heq⟩ := List.mem_map.mp ((hrows (m.docId, m.topic, m.payload)).mpr ⟨m, hm, rfl⟩)
      simp only [Prod.mk.injEq, hpayload, Payload.shard.injEq] at heq
      rw [← heq.2.2]
      exact missingShards_mem.mp hidx
    · intro hidx
      obtain ⟨m, hm, heq⟩ := (hrows _).mp (List.mem_map_of_mem (missingShards_mem.mpr hidx))
      simp only [Prod.mk.injEq] at heq
      exact ⟨m, _, hm, heq.2.2, rfl⟩

/-- In every run, what `redrive_document` sends for a row that was read in the run, in
whatever text state it has been put since, has been sent before the row was read: by triage
or the fall-through while the row has one shard or waits for its split, and by the split
while its shards are out, of which it sends exactly the missing ones. The dispatch of a
document whose pages triage has found too many is left out. -/
theorem redrive_repeats_dispatch {u : Unit} (hrun : FreeRun site initial as s) (hrow : s.document d = some row)
    (htext : state.isText = true)
    (hc : Commits (Sweeper.redriveDocument site d { row with state := state }) db u db') :
    ∃ new, db'.sent = new ++ db.sent ∧ Repeats site as s d row state db new := by
  have hsound := (sound_run hrun).ledger.rows d row hrow
  have hfirst := firsts_run hrun d row hrow
  rcases redrive_cases htext hc with ⟨hone, topic, total, hroute, rfl⟩ | ⟨hmany, rfl, rfl⟩ | ⟨hmany, rfl, hshards⟩
  · refine ⟨[_], rfl, fun _ hwithin => ⟨_, rfl, rfl, first_of_route hsound hfirst hwithin hroute⟩, ?_, ?_⟩
    · exact fun hmany => absurd hmany (Nat.not_lt_of_le hone)
    · exact fun hmany => absurd hmany (Nat.not_lt_of_le hone)
  · have hroute := route_of_many hsound ((scanned_run hrun).rows d row hrow hmany) hmany
    refine ⟨[_], rfl, fun hone => absurd hmany (Nat.not_lt_of_le hone), fun _ _ => ⟨_, rfl, rfl, rfl, rfl, ?_⟩,
      fun _ he => nomatch he⟩
    exact fun hwithin => first_of_route hsound hfirst hwithin hroute
  · obtain ⟨new, hnew, hrepeat⟩ := shards_repeat hsound hfirst hmany hshards
    exact ⟨new, hnew, fun hone => absurd hmany (Nat.not_lt_of_le hone), fun _ he => (nomatch he),
      fun _ _ => hrepeat⟩

/-! ## Two pages again -/

/-- The first of the two pages has been read, the second has not. -/
def firstPageRead : List Action := splitInTwo ++ [.receive 0 .ocrShard 0 0] ++ Schedule.turns 0 3

theorem second_page_sent_again :
    ∃ s row db' new, FreeRun oneScan initial firstPageRead s ∧ s.document "crc32c-a" = some row ∧
      Commits (Sweeper.redriveDocument oneScan "crc32c-a" { row with state := .textRunning }) s.db ⟨⟩ db' ∧
      db'.sent = new ++ s.db.sent ∧ Repeats oneScan firstPageRead s "crc32c-a" row .textRunning s.db new ∧
      (∃ m payload, m ∈ new ∧ m.payload = .shard payload ∧ payload.shardIdx = 1) ∧
      ¬ ∃ m payload, m ∈ new ∧ m.payload = .shard payload ∧ payload.shardIdx = 0 := by
  obtain ⟨s, hrun, hs⟩ := exists_freeRun oneScan firstPageRead
    (fun s => (s.document "crc32c-a").any (fun row => row.pageCount = some 2 && row.shardsTotal = 2) &&
      decide (("crc32c-a", 0) ∈ s.db.documentShards) && decide (("crc32c-a", 1) ∉ s.db.documentShards))
    (by decide +kernel)
  simp only [Bool.and_eq_true, Option.any_eq_true, decide_eq_true_eq] at hs
  obtain ⟨⟨⟨row, hrow, hn, htotal⟩, hclaimed⟩, hfree⟩ := hs
  have hsound := (sound_run hrun).ledger.rows _ row hrow
  have hrunning : RowSound oneScan { row with state := .textRunning } := hsound.congr rfl rfl rfl rfl
  obtain ⟨db', _, hc, _⟩ := redriveDocument_restarts s.db "crc32c-a" hrunning rfl hn
  obtain ⟨new, hnew, hrepeats⟩ := redrive_repeats_dispatch hrun hrow rfl hc
  have hindices := (hrepeats.shards (by omega) rfl).2
  refine ⟨s, row, db', new, hrun, hrow, hc, hnew, hrepeats, (hindices 1).mpr ⟨by omega, hfree⟩, fun hzero => ?_⟩
  exact ((hindices 0).mp hzero).2 hclaimed

/-! ## Past the ceiling -/

/-- If the step is of a run that dispatches, it sends nothing. -/
def dispatchesNothing (site : Deployment) (s : Sys) : Action → Bool
  | .run tid input => (s.tasks tid).all fun task => !(task.dispatches || task.splits) ||
      (task.step site s.world input).all fun r => r.1.db.sent.length = s.db.sent.length
  | _ => true

theorem not_sentBy {a : Action} {By : Task → Bool} {topic : Topic} {payload : Payload}
    (hby : ∀ task, By task = true → (task.dispatches || task.splits) = true) (h : dispatchesNothing site s a = true) :
    ¬ SentBy site By d topic payload s a := by
  rintro ⟨tid, input, task, r, rfl, htask, htaskBy, hr, new, m, hnew, hm, _⟩
  simp only [dispatchesNothing, htask, Option.all_some, hby task htaskBy, hr, Bool.not_true, Bool.false_or,
    decide_eq_true_eq] at h
  rw [hnew, List.length_append] at h
  have hpos := List.length_pos_of_mem hm
  omega

/-- One page is the most that triage lets through, and one attempt the most a stage gets. -/
def onePageCeiling : Deployment := { oneAttempt oneScan with hardPageCeiling := 1 }

/-- The operator sends the rejected document to extraction, where it fails, and from there
to text production. -/
def forcedPastCeiling : List Action :=
  [.spawn 0 (.orphanScan ["a.pdf"])] ++ Schedule.turns 0 3 ++ Schedule.publish 1 ++
    [.receive 0 .triageRequests 0 0] ++ Schedule.turns 0 1 ++ Schedule.forceRedrive 1 "crc32c-a" ++ Schedule.publish 1 ++
    [.receive 0 .ocrCompleted 0 0] ++ Schedule.turns 0 1 ++ [.crash 0, .tick 31 0] ++ Schedule.sweep 1 ++
    Schedule.publish 1 ++ [.receive 0 .ocrCompleted 0 1] ++ Schedule.turns 0 1 ++ diesAtCap ++
    Schedule.forceRedrive 1 "crc32c-a"

/-- The document waits for text, and nothing has ever dispatched it. -/
theorem forced_without_dispatch :
    ¬ ∀ (site : Deployment) (as : List Action) (s : Sys) (d : DocId) (row : Document) (db' : Db) (new : List OutboxRow),
      FreeRun site initial as s → s.document d = some row → row.state.isText = true →
      Commits (Sweeper.redriveDocument site d row) s.db ⟨⟩ db' → db'.sent = new ++ s.db.sent →
      ∀ m, m ∈ new → First site as s Task.dispatches d m.topic m.payload ∨ First site as s Task.splits d m.topic m.payload := by
  intro hclaim
  obtain ⟨s, hrun, hs⟩ := exists_guardedRun onePageCeiling (dispatchesNothing onePageCeiling) forcedPastCeiling
    (fun s => (s.document "crc32c-a").any fun row => row.state = .textPending && row.shardsTotal = 1 &&
      row.hasTextLayer = none && row.pageCount = some 2) (by decide +kernel)
  simp only [Bool.and_eq_true, Option.any_eq_true, decide_eq_true_eq] at hs
  obtain ⟨row, hrow, ⟨⟨hstate, htotal⟩, htl⟩, hn⟩ := hs
  have hnever : ∀ {By : Task → Bool} {topic : Topic} {payload : Payload},
      (∀ task, By task = true → (task.dispatches || task.splits) = true) →
      ¬ First onePageCeiling forcedPastCeiling s By "crc32c-a" topic payload := by
    intro By topic payload hby hfirst
    have hdet : ∀ s a t t', Step onePageCeiling s a t → Step onePageCeiling s a t' → t = t' :=
      fun _ _ _ _ h h' => Option.some.inj (h.symm.trans h')
    obtain ⟨_, _, hnothing, hsent⟩ := hfirst.met hdet hrun
    exact not_sentBy hby hnothing hsent
  have htext : row.state.isText = true := by
    rw [hstate]
    rfl
  have hc : Commits (Sweeper.redriveDocument onePageCeiling "crc32c-a" row) s.db ⟨⟩
      (s.db.insertOutbox "crc32c-a" .ocrSplit (.dispatch "crc32c-a" row.gcsPath (some 2))) := by
    unfold Sweeper.redriveDocument
    rw [if_pos ⟨htext, by omega⟩, Sweeper.redriveDispatch, htl, hn]
    exact Ledger.enqueue_commits.mpr rfl
  rcases hclaim onePageCeiling forcedPastCeiling s "crc32c-a" row _ [_] hrun.unguarded hrow htext hc rfl _
    (List.mem_singleton_self _) with hfirst | hfirst
  · exact hnever (fun _ h => by rw [h]; rfl) hfirst
  · exact hnever (fun _ h => by rw [h, Bool.or_true]) hfirst

end DocPipeline.Audit

import DocPipeline.Gather.Invariant
import DocPipeline.Audit.StateMachine

/-!
# Does the join wait for every shard?

The counter of a row always counts the shards claimed for it, and never passes their
number. The total it is compared with is another matter: `text.embedded` falls through by
setting it to one, also when it is delivered again after the split. In every run without
such a commit the join fires when all shards are there.
-/
namespace DocPipeline.Audit

set_option autoImplicit false

open Lib Lib.Gather Lib.Transaction Sys Gather PdfWorker

variable {site : Deployment} {s t : Sys} {a : Action} {d : DocId}

/-- A run of `ocr.shard` enqueues `ocr.completed` for the document. -/
def Joins (s : Sys) (a : Action) (t : Sys) (d : DocId) : Prop :=
  ∃ tid input payload pc m, a = .run tid input ∧ s.tasks tid = some (.ocrShard payload pc) ∧
    m ∈ t.db.sent ∧ m ∉ s.db.sent ∧ m.topic = .ocrCompleted ∧ m.docId = d

/-- The join finds its own index new, and counts up to the total of the row. -/
theorem joins_cases (hs : Step site s a t) (hj : Joins s a t d) :
    ∃ tid payload row, s.tasks tid = some (.ocrShard payload .recording) ∧ payload.docId = d ∧
      s.document d = some row ∧ row.shardsDone + 1 = row.shardsTotal ∧
      t.document d = some (row.counted.moved .extractPending s.db.now) := by
  obtain ⟨tid, input, payload, pc, m, rfl, htask, hnew, hold, _, rfl⟩ := hj
  obtain ⟨task, r, htask', hr, rfl⟩ := runTask_eq hs
  rw [htask] at htask'
  cases htask'
  cases hr
  have hchanged : (OcrShard.step payload input.texts s.world pc).1.db ≠ s.db := fun he => hold (he ▸ hnew)
  cases pc with
  | beginning =>
    rcases s.world.transact_cases (OcrShard.beginShard payload.docId) (fun _ => .goto .recognising)
      (.raised : LedgerError → Next OcrShard.Pc Bool) with ⟨_, db, hc, he⟩ | ⟨_, he⟩
    · simp only [OcrShard.beginShard, commits_bind, commits_pure, beginText_commits] at hc
      obtain ⟨_, _, ⟨_, _, _, _, rfl⟩, _, rfl⟩ := hc
      have hsent : m ∈ (OcrShard.step payload input.texts s.world .beginning).1.db.sent := hnew
      rw [OcrShard.step, he] at hsent
      exact absurd hsent hold
    · exact absurd (by rw [OcrShard.step, he]) hchanged
  | recognising => exact absurd rfl hchanged
  | recording =>
    rcases s.world.transact_cases (Ledger.recordShardAndMaybeJoin payload.docId payload.shardIdx
      (.completed payload.docId)) .returned (.raised : LedgerError → Next OcrShard.Pc Bool)
      with ⟨_, db, hc, he⟩ | ⟨_, he⟩
    · have hsent : m ∈ (OcrShard.step payload input.texts s.world .recording).1.db.sent := hnew
      rw [OcrShard.step, he] at hsent
      rcases OcrShard.recordShardAndMaybeJoin_commits.mp hc with
        ⟨_, _, rfl⟩ | ⟨row, hrow, _, ⟨_, _, rfl⟩ | ⟨htotal, _, _, rfl⟩⟩
      · exact absurd hsent hold
      · exact absurd hsent hold
      · have hm : m.docId = payload.docId := by
          rcases List.mem_cons.mp hsent with rfl | hsent
          · rfl
          · exact absurd hsent hold
        rw [hm]
        refine ⟨tid, payload, row, htask, rfl, hrow, htotal, ?_⟩
        change (OcrShard.step payload input.texts s.world .recording).1.db.documents.lookup payload.docId = _
        rw [OcrShard.step, he]
        exact Db.write_lookup_self _ _ row.counted _
    · exact absurd (by rw [OcrShard.step, he]) hchanged

/-- In every run the counter of a row is the number of its shards in `document_shards`, at
most as many as its pages make. In a run that resets no split, the join fires when they are
all there. -/
theorem join_finds_every_shard {as : List Action} (h : FreeRun site initial as s) :
    (∀ d row n, s.document d = some row → row.pageCount = some n →
      row.shardsDone = (claimed s.db.documentShards d).length ∧ row.shardsDone ≤ shardCount site n) ∧
    (GuardedRun site (fun s a => keepsSplit site s a = true) initial as s →
      ∀ a t d, keepsSplit site s a = true → Step site s a t → Joins s a t d →
        ∃ row n, t.document d = some row ∧ row.pageCount = some n ∧
          ∀ i, i < shardCount site n → (d, i) ∈ t.db.documentShards) := by
  refine ⟨fun d row n hrow hn => ?_, fun hguarded a t d hg hs hj => ?_⟩
  · have hl := (sound_run h).ledger
    have hdone := hl.done d row hrow
    have hle := length_le (nodup_claimed hl.nodup) (hl.claimed_lt hrow hn)
    exact ⟨hdone, by rw [hdone]; exact hle⟩
  · have hsound := sound_guardedRun hguarded
    have hl := (sound_step hsound (fun _ => hg) hs).ledger
    obtain ⟨tid, payload, row, htask, rfl, hrow, htotal, hrow'⟩ := joins_cases hs hj
    obtain ⟨current, n, hcur, hn, _, hsplit⟩ := hsound.tasks tid _ htask
    change s.document payload.docId = some current at hcur
    rw [hrow] at hcur
    cases hcur
    refine ⟨_, n, hrow', hn, fun i hi => mem_claimed.mp ?_⟩
    have hlen : (claimed t.db.documentShards payload.docId).length = shardCount site n := by
      rw [← hl.done _ _ hrow', ← hsplit trivial, ← htotal]
      rfl
    exact (full_iff (nodup_claimed hl.nodup) (hl.claimed_lt hrow' hn)).mpr hlen i hi

/-! ## Two pages -/

/-- Two pages whose text layer triage believes in, and the worker does not. -/
def scannedPdf : Blob := ⟨"a", 10, some Pdf.pdfType, .pages ["INV-1", "x"]⟩

def oneScan : Deployment := .defaults fun path => if path = "a.pdf" then some scannedPdf else none

/-- The text layer is too thin, so the document is split into its two pages. -/
def splitInTwo : List Action :=
  Schedule.intake ["a.pdf"] ++ Schedule.textLayer 0 ++ [.receive 0 .ocrSplit 0 0] ++ Schedule.turns 0 3 ++
    Schedule.publish 2

/-- One page after the other, up to the commit of the second. -/
def pageByPage : List Action :=
  splitInTwo ++ [.receive 0 .ocrShard 0 0] ++ Schedule.turns 0 3 ++ [.receive 0 .ocrShard 0 1] ++ Schedule.turns 0 2

/-- The next step of the run in slot 0 is a join. -/
def joinsNext (site : Deployment) (s : Sys) : Bool :=
  (match s.tasks 0 with
    | some (.ocrShard _ _) => true
    | _ => false) &&
  (s.step site (.run 0 {})).any fun t => t.db.sent.any fun m =>
    decide (m ∉ s.db.sent) && decide (m.topic = .ocrCompleted) && decide (m.docId = "crc32c-a")

theorem joins_of_joinsNext (h : joinsNext site s = true) :
    ∃ t, Step site s (.run 0 {}) t ∧ Joins s (.run 0 {}) t "crc32c-a" := by
  simp only [joinsNext, Bool.and_eq_true, Option.any_eq_true, List.any_eq_true, decide_eq_true_eq] at h
  obtain ⟨htask, t, ht, m, hm, ⟨hnew, htopic⟩, hdoc⟩ := h
  split at htask
  · next payload pc heq => exact ⟨t, ht, 0, {}, payload, pc, m, rfl, heq, hm, hnew, htopic, hdoc⟩
  · cases htask

theorem second_page_joins :
    ∃ s t, GuardedRun oneScan (fun s a => keepsSplit oneScan s a = true) initial pageByPage s ∧
      Step oneScan s (.run 0 {}) t ∧ Joins s (.run 0 {}) t "crc32c-a" ∧
      ∃ row n, t.document "crc32c-a" = some row ∧ row.pageCount = some n ∧
        ∀ i, i < shardCount oneScan n → ("crc32c-a", i) ∈ t.db.documentShards := by
  obtain ⟨s, hrun, hs⟩ := exists_guardedRun oneScan (keepsSplit oneScan) pageByPage
    (fun s => joinsNext oneScan s && keepsSplit oneScan s (.run 0 {})) (by decide +kernel)
  rw [Bool.and_eq_true] at hs
  obtain ⟨t, ht, hj⟩ := joins_of_joinsNext hs.1
  exact ⟨s, t, hrun, ht, hj, (join_finds_every_shard hrun.unguarded).2 hrun _ t _ hs.2 ht hj⟩

/-- `text.embedded` is delivered again after the split, and then the first page arrives. -/
def splitReset : List Action :=
  splitInTwo ++ [.receive 0 .textEmbedded 0 0] ++ Schedule.turns 0 2 ++ [.receive 0 .ocrShard 0 0] ++
    Schedule.turns 0 2

/-- The second of two pages has not been claimed. -/
def onePageMissing (t : Sys) : Bool :=
  decide (("crc32c-a", 1) ∉ t.db.documentShards) && (t.document "crc32c-a").any fun row => row.pageCount = some 2

/-- The first of two pages joins alone. -/
theorem reset_split_joins_early :
    ¬ ∀ (site : Deployment) (as : List Action) (s t : Sys) (a : Action) (d : DocId) (row : Document) (n : Nat),
      FreeRun site initial as s → Step site s a t → Joins s a t d → t.document d = some row →
      row.pageCount = some n → ∀ i, i < shardCount site n → (d, i) ∈ t.db.documentShards := by
  intro hclaim
  obtain ⟨s, hrun, hs⟩ := exists_freeRun oneScan splitReset
    (fun s => joinsNext oneScan s && (s.step oneScan (.run 0 {})).all onePageMissing) (by decide +kernel)
  rw [Bool.and_eq_true] at hs
  obtain ⟨t, ht, hj⟩ := joins_of_joinsNext hs.1
  have hfinal := hs.2
  unfold Sys.Step at ht
  simp only [ht, Option.all_some, onePageMissing, Bool.and_eq_true, Option.any_eq_true, decide_eq_true_eq] at hfinal
  obtain ⟨hmissing, row, hrow, hn⟩ := hfinal
  exact hmissing (hclaim oneScan splitReset s t _ _ row 2 hrun ht hj hrow hn 1 (by decide))

end DocPipeline.Audit

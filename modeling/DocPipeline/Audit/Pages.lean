import DocPipeline.Schedule
import DocPipeline.Lib.Chunks
import DocPipeline.Effects.Extraction
import DocPipeline.Effects.Reconciliation
import DocPipeline.Effects.Storage

/-!
# Do the pages come back as they were?

Four places cut a document of `n` pages into shards. They agree: shard `k` starts at
`k * SHARD_SIZE_PAGES` and ends where the next one starts or the document ends. The object a
message names has the images of that range: the whole document on the fast path, and else
the piece that the split has stored. Whoever sends a shard, and however often, its output is
the same, and the outputs together are the pages in order.
-/
namespace DocPipeline.Audit

set_option autoImplicit false

open Lib Lib.Transaction Lib.Chunks PdfWorker

variable {site : Deployment} {d : DocId} {gcsPath : String} {n idx : Nat} {payload : ShardPayload}

/-! ## Who cuts the document, and where -/

/-- The shard is sent in between. -/
def Sent (db db' : Db) (payload : ShardPayload) : Prop :=
  ∃ new m, db'.sent = new ++ db.sent ∧ m ∈ new ∧ m.topic = .ocrShard ∧ m.payload = .shard payload

/-- A committed transaction enqueues the shard. -/
def Enqueues (t : Tx Unit) (payload : ShardPayload) : Prop :=
  ∃ db u db', Commits t db u db' ∧ Sent db db' payload

/-- The shards total of a document of `n` pages when its shards are out. -/
def dispatchedTotal (site : Deployment) (n : Nat) : Nat := if n ≤ site.shardSizePages then 1 else shardCount site n

/-- The shard messages of a document of `n` pages. -/
inductive Dispatched (site : Deployment) (d : DocId) (gcsPath : String) (n : Nat) : ShardPayload → Prop
  | fastPath {payload : ShardPayload} : n ≤ site.shardSizePages →
      Ledger.buildDispatchPayload .ocrShard d gcsPath (some n) = .shard payload → Dispatched site d gcsPath n payload
  | split {payload : ShardPayload} : site.shardSizePages < n →
      Enqueues (commitSplitResult site d (shardCount site n) n) payload → Dispatched site d gcsPath n payload
  | resent {row : Document} {payload : ShardPayload} : row.gcsPath = gcsPath → row.pageCount = some n →
      row.shardsTotal = dispatchedTotal site n → Enqueues (Sweeper.redriveDocument site d row) payload →
      Dispatched site d gcsPath n payload

theorem dispatchedTotal_eq : dispatchedTotal site n = count site.shardSizePages n := by
  unfold dispatchedTotal
  split
  · next hle => exact (count_eq_one site.shardSizePages_pos hle).symm
  · rfl

/-- Shard `shardIdx` of `d` holds its chunk of the pages. -/
structure Cuts (site : Deployment) (d : DocId) (n : Nat) (payload : ShardPayload) : Prop where
  docId : payload.docId = d
  idx : payload.shardIdx < count site.shardSizePages n
  start : payload.pageStart = payload.shardIdx * site.shardSizePages
  stop : payload.pageEnd = min (payload.shardIdx * site.shardSizePages + site.shardSizePages) n

theorem cuts_of_whole {total : Nat} (hle : n ≤ site.shardSizePages) : Cuts site d n ⟨d, 0, total, 0, n, gcsPath⟩ := by
  refine ⟨rfl, count_pos, (Nat.zero_mul _).symm, ?_⟩
  rw [Nat.zero_mul, Nat.zero_add, Nat.min_eq_right hle]

theorem cuts_of_dispatch (hle : n ≤ site.shardSizePages)
    (h : Ledger.buildDispatchPayload .ocrShard d gcsPath (some n) = .shard payload) : Cuts site d n payload := by
  rw [Ledger.buildDispatchPayload, if_pos rfl, Payload.shard.injEq] at h
  rw [← h]
  exact cuts_of_whole hle

/-- What a split has newly sent: one message a shard. -/
theorem sent_of_split {total : Nat} {db db' : Db} {u : Unit} (h : Commits (commitSplitResult site d total n) db u db') :
    ∀ payload, Sent db db' payload ↔ ∃ idx, idx < total ∧ payload = shardPayload site d total n idx := by
  intro payload
  simp only [commitSplitResult, commits_bind, Ledger.updateDocument_commits] at h
  obtain ⟨_, db₁, hu, hsend⟩ := h
  have hsent : db₁.sent = db.sent := by
    rcases hu with ⟨row, _, rfl⟩ | ⟨_, rfl⟩ <;> rfl
  obtain ⟨_, _, new, hnew, hrows⟩ := Ledger.enqueueMany_sent hsend
  rw [hsent] at hnew
  constructor
  · rintro ⟨new', m, hnew', hm, _, hpayload⟩
    obtain rfl : new' = new := List.append_cancel_right (hnew'.symm.trans hnew)
    obtain ⟨idx, hidx, heq⟩ := List.mem_map.mp ((hrows (m.docId, m.topic, m.payload)).mpr ⟨m, hm, rfl⟩)
    rw [hpayload, Prod.mk.injEq, Prod.mk.injEq, Payload.shard.injEq] at heq
    exact ⟨idx, List.mem_range.mp hidx, heq.2.2.symm⟩
  · rintro ⟨idx, hidx, rfl⟩
    obtain ⟨m, hm, heq⟩ := (hrows _).mp (List.mem_map.mpr ⟨idx, List.mem_range.mpr hidx, rfl⟩)
    rw [Prod.mk.injEq, Prod.mk.injEq] at heq
    exact ⟨new, m, hnew, hm, heq.2.1, heq.2.2⟩

/-- What a re-drive has newly sent, it sends for the row. -/
theorem redrives_of_sent {row : Document} {db db' : Db} {u : Unit}
    (h : Commits (Sweeper.redriveDocument site d row) db u db') (hsent : Sent db db' payload) :
    Sweeper.Redrives site d row .ocrShard (.shard payload) := by
  have hperforms : Performs (fun _ op => ∃ topic payload, op = .send d topic payload ∧
      Sweeper.Redrives site d row topic payload) db db' :=
    Sweeper.redriveDocument_performs (fun _ topic payload _ hr => ⟨topic, payload, rfl, hr⟩) h
  have hall : ∃ new, db'.sent = new ++ db.sent ∧ ∀ m, m ∈ new → Sweeper.Redrives site d row m.topic m.payload := by
    refine hperforms.invariant (P := fun db₁ => ∃ new, db₁.sent = new ++ db.sent ∧
      ∀ m, m ∈ new → Sweeper.Redrives site d row m.topic m.payload) ⟨[], rfl, fun _ hm => nomatch hm⟩ ?_
    rintro db₁ op db₂ ⟨new, hnew, hredrives⟩ ⟨topic, payload, rfl, hr⟩ hs
    cases hs
    refine ⟨_ :: new, congrArg (List.cons _) hnew, fun m hm => ?_⟩
    rcases List.mem_cons.mp hm with rfl | hm
    · exact hr
    · exact hredrives m hm
  obtain ⟨new, hnew, hredrives⟩ := hall
  obtain ⟨new', m, hnew', hm, htopic, hpayload⟩ := hsent
  obtain rfl : new' = new := List.append_cancel_right (hnew'.symm.trans hnew)
  exact htopic ▸ hpayload ▸ hredrives m hm

/-- Where a document of `n` pages goes to the shard workers at once. -/
theorem fastPath_of_route {layer : Option Bool} {total : Nat}
    (h : Ledger.routeTextProduction site layer (some n) = .ok (.ocrShard, total)) :
    n ≤ site.shardSizePages ∧ total = 1 := by
  have hlayer : layer ≠ some true := by
    intro hlayer
    unfold Ledger.routeTextProduction at h
    rw [if_pos hlayer] at h
    cases h
  obtain ⟨hone, n', hn', ⟨hle, _⟩ | ⟨_, hne⟩⟩ := route_ocr hlayer h
  · cases hn'
    exact ⟨hle, hone⟩
  · cases hne

/-- The object of a shard: the document's own on the fast path, a piece of the split else. -/
def shardPath (site : Deployment) (d : DocId) (gcsPath : String) (n idx : Nat) : String :=
  if n ≤ site.shardSizePages then gcsPath else splitShardPath site d idx

theorem path_of_dispatch (hle : n ≤ site.shardSizePages)
    (h : Ledger.buildDispatchPayload .ocrShard d gcsPath (some n) = .shard payload) :
    payload.shardGcsPath = shardPath site d gcsPath n payload.shardIdx := by
  rw [Ledger.buildDispatchPayload, if_pos rfl, Payload.shard.injEq] at h
  rw [← h, shardPath, if_pos hle]

/-- Whoever sends it, a shard's message has its chunk of the pages and its object. -/
theorem Dispatched.cuts (h : Dispatched site d gcsPath n payload) :
    Cuts site d n payload ∧ payload.shardGcsPath = shardPath site d gcsPath n payload.shardIdx := by
  cases h with
  | fastPath hle hp => exact ⟨cuts_of_dispatch hle hp, path_of_dispatch hle hp⟩
  | split hlarge hs =>
    obtain ⟨db, u, db', hc, hsent⟩ := hs
    obtain ⟨idx, hidx, rfl⟩ := (sent_of_split hc _).mp hsent
    exact ⟨⟨rfl, hidx, rfl, rfl⟩, (if_neg (Nat.not_le.mpr hlarge)).symm⟩
  | @resent row _ hpath hn htotal hs =>
    obtain ⟨db, u, db', hc, hsent⟩ := hs
    have hr := redrives_of_sent hc hsent
    generalize hp : Payload.shard payload = p at hr
    generalize ht : Topic.ocrShard = topic at hr
    cases hr with
    | dispatch htext hone hroute =>
      subst ht
      rw [hn] at hroute hp
      rw [hpath] at hp
      have hle := (fastPath_of_route hroute).1
      exact ⟨cuts_of_dispatch hle hp.symm, path_of_dispatch hle hp.symm⟩
    | @shard n' idx hstate hmany hn' hidx =>
      rw [hn] at hn'
      cases hn'
      cases hp
      have hlarge : ¬ n ≤ site.shardSizePages := by
        intro hle
        rw [dispatchedTotal, if_pos hle] at htotal
        omega
      have hcount : idx < count site.shardSizePages n := by
        rw [← dispatchedTotal_eq, ← htotal]
        exact hidx
      exact ⟨⟨rfl, hcount, rfl, rfl⟩, (if_neg hlarge).symm⟩
    | split | completed => cases ht

/-! ## The dispatch -/

/-- A document of `n` pages is dispatched. On the fast path the message goes out with a row
that the route has set up; else the pieces are stored and the split is committed. -/
inductive Dispatch (site : Deployment) (d : DocId) (gcsPath : String) (n : Nat) (w : World) : World → Prop
  | fastPath {row : Document} {u : Unit} {db : Db} : w.db.documents.lookup d = some row → row.pageCount = some n →
      Ledger.routeTextProduction site row.hasTextLayer (some n) = .ok (.ocrShard, row.shardsTotal) →
      OcrShard.objectPages site gcsPath = some (splitPages gcsPath 0 n) → w.bucket.splitShard gcsPath = none →
      Commits (Ledger.enqueue d .ocrShard (Ledger.buildDispatchPayload .ocrShard d gcsPath (some n))) w.db u db →
      Dispatch site d gcsPath n w { w with db := db }
  | split {total : Nat} {stored w' : World} : site.shardSizePages < n → splitCounts site gcsPath = some (total, n) →
      splitStep site d gcsPath w .splitting = some (stored, .goto .committing) →
      splitStep site d gcsPath stored .committing = some (w', .returned ⟨⟩) → Dispatch site d gcsPath n w w'

/-- The objects of the shards have the pages of their chunks. -/
def Readable (site : Deployment) (d : DocId) (gcsPath : String) (n : Nat) (bucket : Bucket) : Prop :=
  ∀ idx, idx < count site.shardSizePages n →
    (bucket.splitShard (shardPath site d gcsPath n idx) <|> OcrShard.objectPages site (shardPath site d gcsPath n idx)) =
      some (splitPages gcsPath (idx * site.shardSizePages) (min (idx * site.shardSizePages + site.shardSizePages) n))

/-- The row, while there is one, has the counts of the dispatch. -/
def CountsPages (site : Deployment) (d : DocId) (n : Nat) (db : Db) : Prop :=
  ∀ row, db.documents.lookup d = some row → row.pageCount = some n ∧ row.shardsTotal = dispatchedTotal site n

theorem splitShardPath_injective {i j : Nat} (h : splitShardPath site d i = splitShardPath site d j) : i = j := by
  have hlist := congrArg String.toList h
  simp only [splitShardPath, String.toList_append] at hlist
  exact pad4_injective (String.toList_injective (List.append_cancel_left (List.append_cancel_right hlist)))

/-- The split stores each piece under its path. -/
theorem splitShard_uploadShards {total idx : Nat} {bucket : Bucket} (hidx : idx < total) :
    (uploadShards site d gcsPath total n bucket).splitShard (splitShardPath site d idx) =
      some (splitPages gcsPath (idx * site.shardSizePages)
        (min (idx * site.shardSizePages + site.shardSizePages) n)) := by
  induction total with
  | zero => exact absurd hidx (Nat.not_lt_zero _)
  | succ total ih =>
    rw [uploadShards, List.range_succ, List.foldl_append, List.foldl_cons, List.foldl_nil]
    change (if _ = _ then _ else (uploadShards site d gcsPath total n bucket).splitShard _) = _
    by_cases hlast : idx = total
    · rw [hlast, if_pos rfl]
    · rw [if_neg fun he => hlast (splitShardPath_injective he)]
      exact ih (by omega)

theorem Dispatch.provides {w w' : World} (h : Dispatch site d gcsPath n w w') :
    Readable site d gcsPath n w'.bucket ∧ CountsPages site d n w'.db ∧ w'.bucket.assembled = w.bucket.assembled ∧
      ∀ idx, idx < dispatchedTotal site n → ∃ payload, payload.shardIdx = idx ∧ Sent w.db w'.db payload := by
  cases h with
  | @fastPath row u db hrow hn hroute hpages hfree hc =>
    obtain ⟨hle, hone⟩ := fastPath_of_route hroute
    rw [Ledger.enqueue_commits] at hc
    subst hc
    have htotal : dispatchedTotal site n = 1 := if_pos hle
    refine ⟨fun idx hidx => ?_, fun row' hrow' => ?_, rfl, fun idx hidx => ?_⟩
    · rw [← dispatchedTotal_eq, htotal] at hidx
      obtain rfl : idx = 0 := by omega
      rw [shardPath, if_pos hle, hfree, hpages, Nat.zero_mul, Nat.zero_add, Nat.min_eq_right hle]
      rfl
    · rw [Db.insertOutbox_documents, hrow] at hrow'
      cases hrow'
      exact ⟨hn, hone.trans htotal.symm⟩
    · obtain rfl : idx = 0 := by omega
      exact ⟨_, rfl, [_], _, rfl, List.mem_singleton.mpr rfl, rfl, rfl⟩
  | @split total stored _ hlarge hcounts hstore hcommit =>
    have hsize : ¬ n ≤ site.shardSizePages := Nat.not_le.mpr hlarge
    obtain rfl : total = shardCount site n := by
      obtain ⟨blob, _, hblob⟩ := Option.bind_eq_some_iff.mp hcounts
      obtain ⟨n', _, heq⟩ := Option.map_eq_some_iff.mp hblob
      cases heq
      rfl
    have htotal : dispatchedTotal site n = shardCount site n := if_neg hsize
    simp only [splitStep, doSplit, hcounts, Option.map_some, Option.some.injEq, Prod.mk.injEq, and_true] at hstore
    subst hstore
    simp only [splitStep, hcounts, Option.map_some, Option.some.injEq] at hcommit
    rcases World.transact_cases _ (commitSplitResult site d (shardCount site n) n) .returned
      (.raised : LedgerError → Next SplitPc Unit) with ⟨_, db, hc, he⟩ | ⟨e, he⟩
    · rw [he, Prod.mk.injEq] at hcommit
      obtain ⟨rfl, -⟩ := hcommit
      refine ⟨fun idx hidx => ?_, fun row' hrow' => ?_, (uploadShards_others ..).1, fun idx hidx => ?_⟩
      · have hpiece : (uploadShards site d gcsPath (shardCount site n) n w.bucket).splitShard (splitShardPath site d idx) =
            some (splitPages gcsPath (idx * site.shardSizePages)
              (min (idx * site.shardSizePages + site.shardSizePages) n)) := splitShard_uploadShards hidx
        simp only [shardPath, if_neg hsize, hpiece]
        rfl
      · simp only [commitSplitResult, commits_bind, Ledger.updateDocument_commits] at hc
        obtain ⟨_, db₁, hu, hsend⟩ := hc
        rw [(Ledger.enqueueMany_sent hsend).1] at hrow'
        rcases hu with ⟨row, _, rfl⟩ | ⟨hnone, rfl⟩
        · rw [Db.write_lookup_self] at hrow'
          cases hrow'
          exact ⟨rfl, htotal.symm⟩
        · rw [hnone] at hrow'
          cases hrow'
      · exact ⟨_, rfl, (sent_of_split hc _).mpr ⟨idx, htotal ▸ hidx, rfl⟩⟩
    · rw [he, Prod.mk.injEq] at hcommit
      cases hcommit.2

/-! ## What a shard run writes -/

/-- OCR's reading of each page, kept under the page's number. -/
def readPage (ocr : Nat → String) (p : Nat) : Page := ⟨p, ocr p⟩

/-- A shard's PDF has one image for every page of its range. -/
def imageTexts (ocr : Nat → String) (payload : ShardPayload) : List String :=
  (List.range (payload.pageEnd - payload.pageStart)).map fun i => ocr (payload.pageStart + i)

theorem pages_imageTexts (ocr : Nat → String) (h : Cuts site d n payload) :
    OcrShard.pages payload.pageStart (imageTexts ocr payload) =
      (chunk site.shardSizePages n payload.shardIdx).map (readPage ocr) := by
  rw [chunk, ← h.stop, ← h.start]
  apply List.ext_getElem
  · simp [OcrShard.pages, imageTexts]
  · intro i _ _
    simp [OcrShard.pages, imageTexts, readPage]

/-- A step of one of the shard runs, in any order; the OCR is an engine's, of the images that
the object of the message has. -/
def shardStep (engine : DocId → Nat → PageImage → String) (site : Deployment) (w : World)
    (turn : ShardPayload × OcrShard.Pc) : Option World :=
  match turn.2 with
  | .recognising =>
    (OcrShard.recognise engine site w.bucket turn.1).map fun texts => (OcrShard.step turn.1 texts w .recognising).1
  | pc => some (OcrShard.step turn.1 [] w pc).1

def ShardStep (engine : DocId → Nat → PageImage → String) (site : Deployment) (w : World)
    (turn : ShardPayload × OcrShard.Pc) (w' : World) : Prop :=
  shardStep engine site w turn = some w'

variable {engine : DocId → Nat → PageImage → String} {w w' : World} {pc : OcrShard.Pc}
  {turns : List (ShardPayload × OcrShard.Pc)} {done : Nat → Prop}

/-- What the engine reads of the document's pages. -/
def engineReads (engine : DocId → Nat → PageImage → String) (d : DocId) (gcsPath : String) (p : Nat) : String :=
  engine d p ⟨gcsPath, p⟩

/-- Rasterised from its object, a shard's pages are the document's. -/
theorem recognise_eq {bucket : Bucket} (hread : Readable site d gcsPath n bucket)
    (hcuts : Cuts site d n payload) (hpath : payload.shardGcsPath = shardPath site d gcsPath n payload.shardIdx) :
    OcrShard.recognise engine site bucket payload = some (imageTexts (engineReads engine d gcsPath) payload) := by
  have hobject := hread payload.shardIdx hcuts.idx
  rw [← hpath, ← hcuts.stop, ← hcuts.start] at hobject
  have hlen : (splitPages gcsPath payload.pageStart payload.pageEnd).length ≤
      max 1 (payload.pageEnd - payload.pageStart) := by
    simp [splitPages]
  rw [OcrShard.recognise, OcrShard.pageImages, hobject, Option.map_some, List.take_of_length_le hlen, Option.map_some]
  congr 1
  apply List.ext_getElem
  · simp [splitPages, imageTexts]
  · intro i _ _
    simp [splitPages, imageTexts, engineReads, hcuts.docId]

/-- A shard's run recognises the pages of its chunk, and does nothing else to the bucket. -/
theorem shard_bucket (hread : Readable site d gcsPath n w.bucket) (hcuts : Cuts site d n payload)
    (hpath : payload.shardGcsPath = shardPath site d gcsPath n payload.shardIdx)
    (h : ShardStep engine site w (payload, pc) w') :
    (pc ≠ .recognising ∧ w'.bucket = w.bucket) ∨
      (pc = .recognising ∧ w'.bucket = w.bucket.writeShardOutput d payload.shardIdx
        ((chunk site.shardSizePages n payload.shardIdx).map (readPage (engineReads engine d gcsPath)))) := by
  cases pc with
  | beginning | recording =>
    cases h
    exact Or.inl ⟨nofun, World.transact_bucket ..⟩
  | recognising =>
    obtain ⟨texts, htexts, rfl⟩ := Option.map_eq_some_iff.mp h
    rw [recognise_eq hread hcuts hpath] at htexts
    cases htexts
    refine Or.inr ⟨rfl, ?_⟩
    rw [← pages_imageTexts _ hcuts, ← hcuts.docId]
    rfl

/-- The row's counts are none of a shard's business. -/
theorem counts_kept (hcounted : CountsPages site d n w.db) (h : ShardStep engine site w (payload, pc) w') :
    CountsPages site d n w'.db := by
  have hperforms : Performs (OcrShard.Does payload pc) w.db w'.db := by
    cases pc with
    | beginning | recording =>
      cases h
      exact OcrShard.step_performs ..
    | recognising =>
      obtain ⟨texts, _, rfl⟩ := Option.map_eq_some_iff.mp h
      exact OcrShard.step_performs ..
  have hwrite : ∀ {db : Db} {row row' : Document}, CountsPages site d n db →
      db.documents.lookup payload.docId = some row → row'.pageCount = row.pageCount → row'.shardsTotal = row.shardsTotal →
      CountsPages site d n (db.write payload.docId row row') := by
    intro db row row' hi hrow hpages htotal current hcurrent
    by_cases hd : d = payload.docId
    · subst hd
      rw [Db.write_lookup_self] at hcurrent
      cases hcurrent
      rw [hpages, htotal]
      exact hi row hrow
    · rw [Db.write_lookup, if_neg hd] at hcurrent
      exact hi current hcurrent
  refine hperforms.invariant (P := CountsPages site d n) hcounted fun db op db' hi hd hs => ?_
  cases hd with
  | begin | join =>
    cases hs with
    | move hrow => exact hwrite hi hrow rfl rfl
  | record =>
    cases hs with
    | recordShard hrow _ =>
      have hclaimed : CountsPages site d n { db with
        documentShards := (payload.docId, payload.shardIdx) :: db.documentShards } := hi
      exact hwrite hclaimed hrow rfl rfl
  | completed =>
    cases hs
    exact hi

/-- The shards whose OCR has run. -/
def recognised (turns : List (ShardPayload × OcrShard.Pc)) (k : Nat) : Prop :=
  ∃ payload, payload.shardIdx = k ∧ (payload, .recognising) ∈ turns

/-- Some way into the runs: the objects are there, the outputs of the shards in `done` too, and
no assembled artifact yet. -/
structure Written (site : Deployment) (d : DocId) (gcsPath : String) (n : Nat) (ocr : Nat → String) (done : Nat → Prop)
    (w : World) : Prop where
  readable : Readable site d gcsPath n w.bucket
  counted : CountsPages site d n w.db
  outputs : ∀ k, done k → w.bucket.shardOutput d k = some ((chunk site.shardSizePages n k).map (readPage ocr))
  unassembled : w.bucket.assembled d = none

theorem written_step (h : Written site d gcsPath n (engineReads engine d gcsPath) done w)
    (hsent : Dispatched site d gcsPath n payload) (hs : ShardStep engine site w (payload, pc) w') :
    Written site d gcsPath n (engineReads engine d gcsPath)
      (fun k => done k ∨ (pc = .recognising ∧ k = payload.shardIdx)) w' := by
  obtain ⟨hcuts, hpath⟩ := hsent.cuts
  have hcounted := counts_kept h.counted hs
  rcases shard_bucket h.readable hcuts hpath hs with ⟨hother, hsame⟩ | ⟨_, hwrite⟩
  · refine ⟨hsame ▸ h.readable, hcounted, fun k hk => ?_, hsame ▸ h.unassembled⟩
    rw [hsame]
    exact h.outputs k (hk.resolve_right fun hown => hother hown.1)
  · refine ⟨hwrite ▸ h.readable, hcounted, fun k hk => ?_, hwrite ▸ h.unassembled⟩
    rw [hwrite]
    by_cases hown : k = payload.shardIdx
    · simp [Bucket.writeShardOutput, hown]
    · simp [Bucket.writeShardOutput, hown, h.outputs k (hk.resolve_right fun he => hown he.2)]

theorem written_run (hstart : Written site d gcsPath n (engineReads engine d gcsPath) (fun _ => False) w)
    (h : Run (ShardStep engine site) (fun _ turn => Dispatched site d gcsPath n turn.1) w turns w') :
    Written site d gcsPath n (engineReads engine d gcsPath) (recognised turns) w' := by
  induction h with
  | nil =>
    refine ⟨hstart.readable, hstart.counted, fun k ⟨_, _, hk⟩ => (nomatch hk), hstart.unassembled⟩
  | @snoc t u turns turn hrun hguard hs ih =>
    obtain ⟨payload, pc⟩ := turn
    have hnext := written_step ih hguard hs
    refine ⟨hnext.readable, hnext.counted, fun k hk => hnext.outputs k ?_, hnext.unassembled⟩
    obtain ⟨payload', rfl, hmem⟩ := hk
    rw [List.mem_append, List.mem_singleton, Prod.mk.injEq] at hmem
    rcases hmem with hmem | ⟨rfl, rfl⟩
    · exact Or.inl ⟨payload', rfl, hmem⟩
    · exact Or.inr ⟨rfl, rfl⟩

/-! ## What `ensure_assembled` returns -/

/-- A step of an extraction run that goes on. -/
def ExtractionStep (site : Deployment) (d : DocId) (verdict : Extraction.Verdict) (s : World × Extraction.Pc)
    (_ : Unit) (t : World × Extraction.Pc) : Prop :=
  Extraction.step site d verdict s.1 s.2 = (t.1, .goto t.2)

/-- A run that is looking for the artifact of `doc` gets past the completeness gate with it. -/
abbrev Assembles (site : Deployment) (d : DocId) (verdict : Extraction.Verdict) (doc : Document) (w w' : World)
    (artifact : Artifact) : Prop :=
  Reaches (ExtractionStep site d verdict) Always (w, .looking doc) (w', .counting doc artifact)

variable {verdict : Extraction.Verdict} {doc : Document}

theorem gathers (site : Deployment) (verdict : Extraction.Verdict) (out : Nat → List Page)
    (hout : ∀ k, k < doc.shardsTotal → w.bucket.shardOutput d k = some (out k)) :
    ∀ k, k ≤ doc.shardsTotal → Reaches (ExtractionStep site d verdict) Always (w, .gathering doc 0 [])
      (w, .gathering doc k ((List.range k).flatMap out)) := by
  intro k
  induction k with
  | zero => exact fun _ => Reaches.refl _
  | succ k ih =>
    intro hlt
    refine (ih (Nat.le_of_succ_le hlt)).snoc (a := ()) trivial ?_
    simp only [ExtractionStep, Extraction.step, if_pos (Nat.lt_of_succ_le hlt), hout k (Nat.lt_of_succ_le hlt),
      List.range_succ, List.flatMap_append, List.flatMap_singleton]

theorem completeness_range (n : Nat) : completeness (List.range n) n = ⟨.pass, none⟩ := by
  have hmissing : (List.range n).filter (· ∉ List.range n) = [] :=
    List.filter_eq_nil_iff.mpr fun i hi => by simp at hi ⊢; exact hi
  have hunexpected : (List.range n).filter (n ≤ ·) = [] :=
    List.filter_eq_nil_iff.mpr fun i hi => by simp at hi ⊢; exact hi
  rw [completeness, hmissing, hunexpected]
  rfl

/-- The pages of a document that OCR has read whole. -/
def pagesRead (ocr : Nat → String) (n : Nat) : List Page := (List.range n).map (readPage ocr)

theorem pageNo_pagesRead (ocr : Nat → String) (n : Nat) : (pagesRead ocr n).map Page.pageNo = List.range n := by
  rw [pagesRead, List.map_map]
  exact List.map_id _

theorem sortPages_pagesRead (ocr : Nat → String) (n : Nat) : Extraction.sortPages (pagesRead ocr n) = pagesRead ocr n := by
  refine List.Pairwise.insertionSort_eq ?_
  rw [pagesRead, List.pairwise_map]
  exact (List.pairwise_lt_range (n := n)).imp fun h => Nat.le_of_lt h

theorem assembles_of_written (verdict : Extraction.Verdict) {ocr : Nat → String}
    (h : Written site d gcsPath n ocr done w) (hall : ∀ k, k < doc.shardsTotal → done k)
    (hrow : w.db.documents.lookup d = some doc) :
    let artifact : Artifact := ⟨"ocr-" ++ site.ocrEngine, "v1", pagesRead ocr n⟩
    Assembles site d verdict doc w { w with bucket := w.bucket.writeAssembled d artifact } artifact := by
  intro artifact
  let w' : World := { w with bucket := w.bucket.writeAssembled d artifact }
  obtain ⟨hn, htotal⟩ := h.counted doc hrow
  have hpages : (List.range doc.shardsTotal).flatMap (fun k => (chunk site.shardSizePages n k).map (readPage ocr)) =
      pagesRead ocr n := by
    rw [← List.map_flatMap, htotal, dispatchedTotal_eq, flatMap_all site.shardSizePages_pos, pagesRead]
  have hgather := gathers site verdict _ (fun k hk => h.outputs k (hall k hk)) doc.shardsTotal (Nat.le_refl _)
  rw [hpages] at hgather
  have hlook : ExtractionStep site d verdict (w, .looking doc) () (w, .gathering doc 0 []) := by
    simp only [ExtractionStep, Extraction.step, h.unassembled]
  have hwrite : ExtractionStep site d verdict (w, .gathering doc doc.shardsTotal (pagesRead ocr n)) ()
      (w', .readingBack doc) := by
    simp only [ExtractionStep, Extraction.step, Nat.lt_irrefl, if_false, Extraction.assembledFrom,
      sortPages_pagesRead, w', artifact]
  have hread : ExtractionStep site d verdict (w', .readingBack doc) () (w', .counting doc artifact) := by
    have hart : w'.bucket.assembled d = some artifact := by simp [w', Bucket.writeAssembled]
    have hgate := completeness_range n
    rw [← pageNo_pagesRead ocr n] at hgate
    simp only [ExtractionStep, Extraction.step, hart, Extraction.checkPages, hn]
    rw [show artifact.pages = pagesRead ocr n from rfl, hgate]
    rfl
  exact (Reaches.single trivial hlook).trans (hgather.trans ((Reaches.single trivial hwrite).trans
    (Reaches.single trivial hread)))

def threePages : Deployment :=
  { Deployment.defaults fun path =>
      if path = "a.pdf" then some ⟨"a", 10, some Pdf.pdfType, .pages ["INV-1", "x", "y"]⟩ else none with
    shardSizePages := 2, shardSizePages_pos := Nat.two_pos }

/-- The engine reads the number of the image. -/
def imageNumber (_ : DocId) (_ : Nat) (image : PageImage) : String := toString image.page

/-- The row of the document when its split begins. -/
def beforeSplit : World where
  db := { documents := ({} : Db).documents.insert "crc32c-a"
            { gcsPath := "a.pdf", state := .textRunning, pageCount := some 3 } }

def afterSplit : World where
  db := ((commitSplitResult threePages "crc32c-a" 2 3).run beforeSplit.db).toOption.elim {} Prod.snd
  bucket := uploadShards threePages "crc32c-a" "a.pdf" 2 3 beforeSplit.bucket

def lastShardTwice : List (ShardPayload × OcrShard.Pc) :=
  ([1, 0, 1].map (shardPayload threePages "crc32c-a" 2 3)).flatMap fun payload =>
    [(payload, .beginning), (payload, .recognising), (payload, .recording)]

end DocPipeline.Audit

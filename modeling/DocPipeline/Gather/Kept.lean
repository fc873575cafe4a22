import DocPipeline.Gather.Knowledge

/-!
# Every step of a run keeps what text production knows

One lemma an operation, one for the messages it sends, and from them one for a whole step
of a run in progress. Under `strict` a commit of `text.embedded` must not fall through on
a row that carries the total of a split.
-/
namespace DocPipeline.Gather

set_option autoImplicit false

open Lib Lib.Gather Lib.Transaction PdfWorker

variable {site : Deployment} {db db' : Db} {d : DocId} {n : Nat} {strict : Prop} {row row' : Document}

/-- A commit of `text.embedded` is about to fall through on a row with more than one shard. -/
def resetsSplit (site : Deployment) (w : World) : Task → Bool
  | .textEmbedded docId gcsPath .committing =>
    ((pagesText site gcsPath).any fun pages => !(Pdf.textSanity site.unicode pages).1) &&
      (w.db.documents.lookup docId).any fun row =>
        (row.state = .textPending || row.state = .textRunning) && decide (1 < row.shardsTotal)
  | _ => false

/-! ## Messages -/

/-- A message built from a row that agrees with the document's. -/
theorem msgSound_dispatch {topic : Topic} {total : Nat} {tl : Option Bool} {current : Document}
    (hl : Ledgered site db) (hcur : db.documents.lookup d = some current) (hpath : current.gcsPath = row.gcsPath)
    (hn : current.pageCount = some n)
    (htl : tl = some true → PdfPages site row.gcsPath n)
    (hroute : Ledger.routeTextProduction site tl (some n) = .ok (topic, total)) :
    MsgSound strict site db topic (Ledger.buildDispatchPayload topic d row.gcsPath (some n)) := by
  have hof : OfPages db d row.gcsPath n := ⟨current, hcur, hpath, hn⟩
  by_cases ht : tl = some true
  · rw [Ledger.routeTextProduction, if_pos ht] at hroute
    cases hroute
    exact ⟨n, hof, htl ht⟩
  · obtain ⟨_, k, hk, ⟨hsmall, rfl⟩ | ⟨hlarge, rfl⟩⟩ := route_ocr ht hroute
    · cases hk
      exact ⟨current, n, hcur, hn, shardCount_pos site n, fun _ => (hl.rows d current hcur).small hn hsmall⟩
    · cases hk
      obtain ⟨blob, hblob, hcount⟩ := (hl.rows d current hcur).counted n hn
      exact ⟨n, hof, hpath ▸ pdfPages_of_large hblob hcount hlarge, hlarge⟩

/-- What a re-drive sends for a row read earlier, whatever state it is put in. -/
theorem msgSound_redrives {topic : Topic} {payload : Payload} {state : DocState} (hl : Ledgered site db)
    (hs : Snapshot strict site db d row)
    (hr : Sweeper.Redrives site d { row with state := state } topic payload) :
    MsgSound strict site db topic payload := by
  obtain ⟨hsound, current, hcur, hpath, hpages, htotal⟩ := hs
  cases hr with
  | @dispatch _ total _ _ hroute =>
    change Ledger.routeTextProduction site row.hasTextLayer row.pageCount = .ok (topic, total) at hroute
    change MsgSound strict site db topic (Ledger.buildDispatchPayload topic d row.gcsPath row.pageCount)
    cases hn : row.pageCount with
    | none =>
      rw [hn] at hroute
      by_cases ht : row.hasTextLayer = some true
      · obtain ⟨k, hk, _⟩ := hsound.textual ht
        rw [hn] at hk
        cases hk
      · obtain ⟨_, k, hk, _⟩ := route_ocr ht hroute
        cases hk
    | some n =>
      rw [hn] at hroute
      refine msgSound_dispatch hl hcur hpath (hpages.trans hn) (fun ht => ?_) hroute
      obtain ⟨k, hk, hpdf⟩ := hsound.textual ht
      rw [hn] at hk
      cases hk
      exact hpdf
  | @shard n idx _ hmany hn hlt =>
    obtain ⟨k, hk, heq, _, _⟩ := hsound.many hmany
    cases hk.symm.trans hn
    change idx < row.shardsTotal at hlt
    exact ⟨current, n, hcur, hpages.trans hk, heq ▸ hlt, fun hs => (htotal hs hmany).trans heq⟩
  | split _ hmany =>
    obtain ⟨k, hk, _, hlarge, hpdf⟩ := hsound.many hmany
    exact ⟨k, ⟨current, hcur, hpath, hpages.trans hk⟩, hpdf, hlarge⟩
  | completed _ => trivial

/-- Every message that is sent is sound. -/
theorem msgSound_send {start : Db} {task : Task} {topic : Topic} {payload : Payload} (hl : Ledgered site db)
    (ht : TaskSound strict site db task) (hd : task.Does site start db (.send d topic payload)) :
    MsgSound strict site db topic payload := by
  cases task with
  | orphanScan =>
    cases hd
    trivial
  | triage gcsPath =>
    cases hd with
    | @dispatch blob row n topic hblob hrow hn hlookup hroute =>
      have hpath := hrow.gcsPath
      subst hpath
      refine msgSound_dispatch hl hlookup rfl hn (fun htl => ?_) hroute
      exact pdfPages_of_type hblob (hrow.textLayer htl).1 (hrow.pageCount n hn)
  | textEmbedded docId gcsPath pc =>
    obtain ⟨n, ⟨row, hrow, rfl, hn⟩, hpdf⟩ := ht
    obtain ⟨pages, hpages, _, hd⟩ := hd
    cases hd with
    | completed => trivial
    | dispatch _ hroute =>
      rw [hpdf.length hpages] at hroute ⊢
      refine msgSound_dispatch hl hrow rfl hn (fun htl => ?_) hroute
      cases htl
  | ocrSplit docId gcsPath pc =>
    obtain ⟨n, ⟨row, hrow, rfl, hn⟩, hpdf, _⟩ := ht
    cases hd with
    | @shard _ total pageCount idx hsplit hlt htotal =>
      obtain ⟨rfl, rfl⟩ := hpdf.split hsplit
      exact ⟨row, pageCount, hrow, hn, hlt, fun _ => htotal row hrow⟩
  | ocrShard payload' pc =>
    cases hd
    trivial
  | sweep pc =>
    cases hd with
    | @redrive _ _ row _ _ _ hr =>
      have hsame : Sweeper.Redrives site d { row with state := row.state } topic payload := hr
      exact msgSound_redrives hl (ht (d, row) List.mem_cons_self) hsame
  | forceRedrive docId reason actor pc =>
    cases hd with
    | redrive hr => exact msgSound_redrives hl ht.1 hr
  | extraction | acceptReview => cases hd
  | killSwitch => cases hd

/-! ## Rows -/

theorem RowSound.congr (h : RowSound site row) (hpath : row'.gcsPath = row.gcsPath)
    (hpages : row'.pageCount = row.pageCount) (htl : row'.hasTextLayer = row.hasTextLayer)
    (htotal : row'.shardsTotal = row.shardsTotal) : RowSound site row' := by
  refine ⟨?_, ?_, ?_⟩
  · rw [hpath, hpages]
    exact h.counted
  · rw [hpath, hpages, htl]
    exact h.textual
  · rw [hpages, htotal]
    exact h.total

/-- An UPDATE that keeps the path, the page count and the counter. -/
theorem ledgered_write (hl : Ledgered site db) (hrow : db.documents.lookup d = some row)
    (hsound : RowSound site row') (hpath : row'.gcsPath = row.gcsPath) (hpages : row'.pageCount = row.pageCount)
    (hdone : row'.shardsDone = row.shardsDone) (htext : row'.state.isText = true → row.pageCount ≠ none)
    (htotal : strict → ∀ n, row.pageCount = some n → row.shardsTotal = shardCount site n →
      row'.shardsTotal = shardCount site n) :
    Ledgered site (db.write d row row') ∧ Grows strict site db (db.write d row row') := by
  have hgrows : ∀ {q : Prop}, (q → ∀ n, row.pageCount = some n → row.shardsTotal = shardCount site n →
      row'.shardsTotal = shardCount site n) → Grows q site db (db.write d row row') := by
    intro q ht d' r hr
    rw [Db.write_lookup]
    by_cases hd : d' = d
    · subst hd
      rw [hrow] at hr
      cases hr
      exact ⟨row', if_pos rfl, hpath, hpages, ht⟩
    · exact ⟨r, by rw [if_neg hd, hr], rfl, rfl, fun _ _ _ h => h⟩
  have hcases : ∀ d' r, (db.write d row row').documents.lookup d' = some r →
      (d' = d ∧ r = row') ∨ db.documents.lookup d' = some r := by
    intro d' r hr
    rw [Db.write_lookup] at hr
    split at hr
    · next hd => exact Or.inl ⟨hd, (Option.some.inj hr).symm⟩
    · exact Or.inr hr
  refine ⟨⟨?_, ?_, hl.nodup, ?_, ?_⟩, hgrows htotal⟩
  · intro d' r hr
    rcases hcases d' r hr with ⟨rfl, rfl⟩ | hr
    · exact hsound
    · exact hl.rows d' r hr
  · intro d' r hr ht
    rcases hcases d' r hr with ⟨rfl, rfl⟩ | hr
    · rw [hpages]
      exact htext ht
    · exact hl.text d' r hr ht
  · intro d' idx hm
    exact (hl.shards d' idx hm).mono (hgrows fun h => h.elim)
  · intro d' r hr
    rw [Db.write_documentShards]
    rcases hcases d' r hr with ⟨rfl, rfl⟩ | hr
    · rw [hdone]
      exact hl.done d' row hrow
    · exact hl.done d' r hr

/-- A shard that claims its index and counts it. -/
theorem ledgered_countShard {idx : Nat} (hl : Ledgered site db) (hrow : db.documents.lookup d = some row)
    (hshard : ShardOf strict site db d idx) (hm : (d, idx) ∉ db.documentShards) :
    Ledgered site (db.countShard d idx row) ∧ Grows strict site db (db.countShard d idx row) := by
  have hgrows : ∀ q : Prop, Grows q site db (db.countShard d idx row) := by
    intro q d' r hr
    unfold Db.countShard
    rw [Db.write_lookup]
    by_cases hd : d' = d
    · subst hd
      rw [hrow] at hr
      cases hr
      exact ⟨row.counted, if_pos rfl, rfl, rfl, fun _ _ _ h => h⟩
    · exact ⟨r, by rw [if_neg hd]; exact hr, rfl, rfl, fun _ _ _ h => h⟩
  have hcases : ∀ d' r, (db.countShard d idx row).documents.lookup d' = some r →
      (d' = d ∧ r = row.counted) ∨ (d' ≠ d ∧ db.documents.lookup d' = some r) := by
    intro d' r hr
    unfold Db.countShard at hr
    rw [Db.write_lookup] at hr
    split at hr
    · next hd => exact Or.inl ⟨hd, (Option.some.inj hr).symm⟩
    · next hd => exact Or.inr ⟨hd, hr⟩
  refine ⟨⟨?_, ?_, ?_, ?_, ?_⟩, hgrows strict⟩
  · intro d' r hr
    rcases hcases d' r hr with ⟨rfl, rfl⟩ | ⟨_, hr⟩
    · exact (hl.rows d' row hrow).congr rfl rfl rfl rfl
    · exact hl.rows d' r hr
  · intro d' r hr ht
    rcases hcases d' r hr with ⟨rfl, rfl⟩ | ⟨_, hr⟩
    · exact hl.text d' row hrow ht
    · exact hl.text d' r hr ht
  · exact List.nodup_cons.mpr ⟨hm, hl.nodup⟩
  · intro d' i hi
    rcases List.mem_cons.mp hi with heq | hi
    · obtain ⟨rfl, rfl⟩ := Prod.mk.inj heq
      obtain ⟨r, n, hr, hn, hlt, _⟩ := hshard
      exact ShardOf.mono ⟨r, n, hr, hn, hlt, fun h => h.elim⟩ (hgrows False)
    · exact (hl.shards d' i hi).mono (hgrows False)
  · intro d' r hr
    change r.shardsDone = (claimed ((d, idx) :: db.documentShards) d').length
    rcases hcases d' r hr with ⟨rfl, rfl⟩ | ⟨hd, hr⟩
    · rw [claimed_cons_self, List.length_cons, ← hl.done d' row hrow]
      rfl
    · rw [claimed_cons_of_ne fun h => hd h.symm]
      exact hl.done d' r hr

/-- An UPDATE that keeps all that is known of the object. -/
theorem ledgered_keep {docId : DocId} (hl : Ledgered site db) (hrow : db.documents.lookup docId = some row)
    (hpath : row'.gcsPath = row.gcsPath) (hpages : row'.pageCount = row.pageCount)
    (htl : row'.hasTextLayer = row.hasTextLayer) (htotal : row'.shardsTotal = row.shardsTotal)
    (hdone : row'.shardsDone = row.shardsDone)
    (htext : row'.state.isText = true → row.state.isText = true ∨ row.pageCount ≠ none) :
    Ledgered site (db.write docId row row') ∧ Grows strict site db (db.write docId row row') := by
  refine ledgered_write hl hrow ((hl.rows docId row hrow).congr hpath hpages htl htotal) hpath hpages hdone ?_ ?_
  · exact fun h => (htext h).elim (hl.text docId row hrow) id
  · intro _ n _ hn
    rw [htotal, hn]

/-- The row triage inserts agrees with its object. -/
theorem rowSound_admitted {blob : Blob} (hblob : site.objects row.gcsPath = some blob)
    (hadmits : Triage.Admits row.gcsPath blob row) (hfresh : row.Fresh) : RowSound site row := by
  refine ⟨fun n hn => ⟨blob, hblob, hadmits.pageCount n hn⟩, fun htl => ?_, Or.inl hfresh.shardsTotal⟩
  obtain ⟨hct, n, hn⟩ := hadmits.textLayer htl
  exact ⟨n, hn, pdfPages_of_type hblob hct (hadmits.pageCount n hn)⟩

/-- A row inserted for a document that has none has no shards either. -/
theorem ledgered_insert {docId : DocId} {blob : Blob} (hl : Ledgered site db)
    (hnone : db.documents.lookup docId = none) (hfresh : row.Fresh) (hblob : site.objects row.gcsPath = some blob)
    (hadmits : Triage.Admits row.gcsPath blob row) :
    Ledgered site { db with documents := db.documents.insert docId row } ∧
      Grows strict site db { db with documents := db.documents.insert docId row } := by
  have hcases : ∀ d' r', (db.documents.insert docId row).lookup d' = some r' →
      (d' = docId ∧ r' = row) ∨ db.documents.lookup d' = some r' := by
    intro d' r' hr
    rw [Table.lookup_insert_ite] at hr
    split at hr
    · next he => exact Or.inl ⟨he, (Option.some.inj hr).symm⟩
    · exact Or.inr hr
  have hgrows : ∀ q : Prop, Grows q site db { db with documents := db.documents.insert docId row } := by
    intro q d' r' hr
    have hne : d' ≠ docId := fun he => by
      rw [he, hnone] at hr
      cases hr
    exact ⟨r', by rw [Table.lookup_insert_ite, if_neg hne, hr], rfl, rfl, fun _ _ _ h => h⟩
  have hfree : claimed db.documentShards docId = [] := by
    rw [List.eq_nil_iff_forall_not_mem]
    intro i hi
    obtain ⟨r', _, hr', _⟩ := hl.shards docId i (mem_claimed.mp hi)
    rw [hnone] at hr'
    cases hr'
  refine ⟨⟨?_, ?_, hl.nodup, fun d' i hm => (hl.shards d' i hm).mono (hgrows False), ?_⟩, hgrows strict⟩
  · intro d' r' hr
    rcases hcases d' r' hr with ⟨_, rfl⟩ | hr
    · exact rowSound_admitted hblob hadmits hfresh
    · exact hl.rows d' r' hr
  · intro d' r' hr htext
    rcases hcases d' r' hr with ⟨_, rfl⟩ | hr
    · rcases hfresh.state with hst | hst | hst
      · obtain ⟨n, hn⟩ := hadmits.counted hst
        rw [hn]
        exact Option.some_ne_none n
      · rw [hst] at htext
        cases htext
      · rw [hst] at htext
        cases htext
    · exact hl.text d' r' hr htext
  · intro d' r' hr
    rcases hcases d' r' hr with ⟨rfl, rfl⟩ | hr
    · rw [hfresh.shardsDone]
      change 0 = (claimed db.documentShards d').length
      rw [hfree]
      rfl
    · exact hl.done d' r' hr

/-- Whoever moves a document to a text state found it in one, or knows its page count. -/
theorem pages_of_move {start : Db} {task : Task} {docId : DocId} {toState : DocState}
    (ht : TaskSound strict site db task) (hd : task.Does site start db (.move docId toState))
    (hrow : db.documents.lookup docId = some row)
    (hallowed : (row.state, toState) ∈ Ledger.allowedTransitions ∨ row.state = toState)
    (htext : toState.isText = true) : row.state.isText = true ∨ row.pageCount ≠ none := by
  have hpages : ∀ path n, OfPages db docId path n → row.pageCount ≠ none := by
    intro path n hof
    obtain ⟨r', hr', _, hn⟩ := hof
    rw [hrow] at hr'
    cases hr'
    rw [hn]
    exact Option.some_ne_none n
  rcases hd.toText htext with ⟨r', hr', hflight⟩ | ⟨_, _, rfl⟩ | ⟨_, _, rfl⟩ | ⟨payload, _, rfl, rfl⟩ |
    ⟨_, _, snapshot, rfl⟩
  · rw [hrow] at hr'
    cases hr'
    refine Or.inl ?_
    revert hflight htext
    rcases hallowed with hm | he
    · revert hm
      cases row.state <;> cases toState <;> decide
    · rw [he]
      exact fun h _ => h
  · obtain ⟨n, hof, _⟩ := ht
    exact Or.inr (hpages _ n hof)
  · obtain ⟨n, hof, _⟩ := ht
    exact Or.inr (hpages _ n hof)
  · obtain ⟨r', n, hr', hn, _⟩ := ht
    exact Or.inr (hpages r'.gcsPath n ⟨r', hr', rfl, hn⟩)
  · obtain ⟨⟨_, current, hcur, _, hpages', _⟩, hsome⟩ := ht
    rw [hrow] at hcur
    cases hcur
    exact Or.inr (hpages' ▸ hsome rfl)

/-- One operation of a run keeps the ledger sound, and loses nothing that is known. -/
theorem ledgered_operation {start : World} {task : Task} {op : Operation} (hl : Ledgered site db)
    (ht : TaskSound strict site db task) (hg : strict → resetsSplit site start task = false)
    (hd : task.Does site start.db db op) (hs : op.Step db db') :
    Ledgered site db' ∧ Grows strict site db db' := by
  cases hs with
  | insert hnone hfresh =>
    obtain ⟨gcsPath, blob, _, hblob, hadmits⟩ := hd.inserting
    have hpath := hadmits.gcsPath
    subst hpath
    exact ledgered_insert hl hnone hfresh hblob hadmits
  | move hr hallowed _ _ => exact ledgered_keep hl hr rfl rfl rfl rfl rfl fun htext => pages_of_move ht hd hr hallowed htext
  | note hr => exact ledgered_keep hl hr rfl rfl rfl rfl rfl Or.inl
  | @fallThrough docId r total hr =>
    obtain ⟨gcsPath, pages, rfl, hpages, hinsane, rfl, hkept⟩ := hd.falling
    obtain ⟨old, hold, htotal, hstate⟩ := hkept r hr
    refine ledgered_write hl hr ⟨(hl.rows docId r hr).counted, (nomatch ·), Or.inl rfl⟩ rfl rfl rfl
      (hl.text docId r hr) fun hs n _ heq => ?_
    -- the row has one shard at most, so one is all it takes
    have hone : r.shardsTotal ≤ 1 := by
      have hnot := hg hs
      simp only [resetsSplit, hpages, hinsane, hold, Option.any_some, Bool.not_false, Bool.true_and,
        Bool.and_eq_false_iff, Bool.or_eq_false_iff, decide_eq_false_iff_not] at hnot
      rw [← htotal]
      exact Nat.le_of_not_lt (hnot.resolve_left fun h => hstate.elim h.1 h.2)
    have hpos := shardCount_pos site n
    change 1 = shardCount site n
    omega
  | @split docId r total pageCount hr =>
    obtain ⟨gcsPath, pc, rfl, hsplit⟩ := hd.splitting
    obtain ⟨n, ⟨r', hr', rfl, hn⟩, hpdf, _⟩ := ht
    rw [hr] at hr'
    cases hr'
    obtain ⟨rfl, rfl⟩ := hpdf.split hsplit
    refine ledgered_write hl hr ⟨?_, ?_, Or.inr ⟨pageCount, rfl, rfl⟩⟩ rfl hn.symm rfl (hl.text docId r hr)
      fun _ k hk _ => ?_
    · intro k hk
      exact (hl.rows docId r hr).counted k (hn.trans hk)
    · intro htl
      obtain ⟨k, hk, hpdf'⟩ := (hl.rows docId r hr).textual htl
      exact ⟨k, hn.symm.trans hk, hpdf'⟩
    · rw [hn] at hk
      cases hk
      rfl
  | @recordShard docId r idx hr hm =>
    obtain ⟨payload, pc, rfl, rfl, rfl⟩ := hd.recording
    exact ledgered_countShard hl hr ht hm
  | send _ => exact ⟨hl.congr rfl rfl, Grows.of_documents rfl⟩
  | rekey hr _ _ => exact ledgered_keep hl hr rfl rfl rfl rfl rfl Or.inl
  | route hr | settle hr _ => exact ledgered_keep hl hr rfl rfl rfl rfl rfl (nomatch ·)
  | @post docId r fields gates payload hr _ _ _ =>
    have hrow : Ledgered site (db.write docId r ((r.rekeyed fields.seller fields.invoiceNo).settled fields gates
        .complete db.now)) ∧ Grows strict site db _ := ledgered_keep hl hr rfl rfl rfl rfl rfl (nomatch ·)
    obtain ⟨hl', hg'⟩ := hrow
    exact ⟨hl'.congr rfl rfl, hg'.trans (Grows.of_documents rfl)⟩
  | @accept docId r gates payload hr _ _ _ _ =>
    have hrow : Ledgered site (db.write docId r (r.accepted gates db.now)) ∧ Grows strict site db _ :=
      ledgered_keep hl hr rfl rfl rfl rfl rfl (nomatch ·)
    obtain ⟨hl', hg'⟩ := hrow
    exact ⟨hl'.congr rfl rfl, hg'.trans (Grows.of_documents rfl)⟩
  | aside hsame => exact ⟨hl.congr hsame.documents hsame.documentShards, Grows.of_documents hsame.documents⟩

/-! ## Steps -/

/-- What an operation sends is sound. -/
theorem msgSound_operation {start : Db} {task : Task} {op : Operation} (hl : Ledgered site db)
    (ht : TaskSound strict site db task) (hd : task.Does site start db op) (hs : op.Step db db') :
    db'.sent = db.sent ∨ ∃ m, db'.sent = m :: db.sent ∧ MsgSound strict site db' m.topic m.payload := by
  cases hs with
  | send _ => exact Or.inr ⟨_, rfl, (msgSound_send hl ht hd).mono (Grows.of_documents rfl)⟩
  | post _ _ _ _ | accept _ _ _ _ _ => exact Or.inr ⟨_, rfl, trivial⟩
  | insert | move | note | fallThrough | split | recordShard | route | settle | rekey => exact Or.inl rfl
  | aside hsame => exact Or.inl hsame.sent

/-- The rows a sweep has claimed are as they were read. -/
theorem snapshot_claimed {cap : Nat} {locked : List DocId} {r : DocId × Document} (hl : Ledgered site db)
    (hr : r ∈ Sweeper.claimStuckBatch site db cap locked) : Snapshot strict site db r.1 r.2 := by
  obtain ⟨hrow, _⟩ := Sweeper.claimStuckBatch_current r hr
  exact ⟨hl.rows r.1 r.2 hrow, r.2, hrow, rfl, rfl, fun _ _ => rfl⟩

/-- What a run knows after a step, it knew before or has just read. -/
theorem taskSound_next {w : World} {input : Input} {task task' : Task} {r : World × Option Task}
    (hl : Ledgered site w.db) (ht : TaskSound strict site w.db task) (h : task.step site w input = some r)
    (hnext : r.2 = some task') : TaskSound strict site w.db task' := by
  cases task with
  | orphanScan pc =>
    cases h
    obtain ⟨_, _, rfl⟩ := Next.goto_of_task hnext
    trivial
  | triage | killSwitch =>
    cases h
    cases hnext
  | textEmbedded docId gcsPath pc =>
    obtain ⟨r', _, rfl⟩ := Option.map_eq_some_iff.mp h
    obtain ⟨_, _, rfl⟩ := Next.goto_of_task hnext
    exact ht
  | ocrSplit docId gcsPath pc =>
    obtain ⟨r', _, rfl⟩ := Option.map_eq_some_iff.mp h
    obtain ⟨_, _, rfl⟩ := Next.goto_of_task hnext
    exact ht
  | ocrShard payload pc =>
    cases h
    obtain ⟨_, _, rfl⟩ := Next.goto_of_task hnext
    exact ht
  | extraction docId pc =>
    cases h
    obtain ⟨_, _, rfl⟩ := Next.goto_of_task hnext
    trivial
  | sweep pc =>
    cases h
    obtain ⟨pc', hgoto, rfl⟩ := Next.goto_of_task hnext
    cases pc with
    | claiming cap locked =>
      obtain ⟨claimed, hc, heq⟩ := World.transact_committed hgoto fun _ he => by cases he
      cases heq
      simp only [Sweeper.claimBatch, commits_bind, commits_get] at hc
      obtain ⟨_, _, ⟨rfl, rfl⟩, hc⟩ := hc
      exact fun r hr => snapshot_claimed hl (Sweeper.claimRows_subset hc r hr)
    | redriving claimed =>
      cases claimed with
      | nil => cases hgoto
      | cons r rest =>
        obtain ⟨_, _, heq⟩ := World.transact_committed hgoto fun _ he => by cases he
        cases heq
        exact fun r' hr' => ht r' (List.mem_cons_of_mem _ hr')
  | forceRedrive docId reason actor pc =>
    cases h
    obtain ⟨pc', hgoto, rfl⟩ := Next.goto_of_task hnext
    cases pc with
    | selecting =>
      simp only [Operator.redriveStep] at hgoto
      split at hgoto
      · cases hgoto
      · split at hgoto
        · cases hgoto
        · next row hrow =>
          cases hgoto
          exact ⟨hl.rows docId row hrow, row, hrow, rfl, rfl, fun _ _ => rfl⟩
    | targeting row =>
      simp only [Operator.redriveStep] at hgoto
      split at hgoto
      · cases hgoto
      · next target htarget =>
        cases hgoto
        refine ⟨ht, fun he hnone => ?_⟩
        subst he
        exact Operator.textPending_pages htarget hnone
    | committing row target =>
      obtain ⟨_, _, heq⟩ := World.transact_committed hgoto fun _ he => by cases he
      cases heq
  | acceptReview docId reason actor pc =>
    cases h
    obtain ⟨_, _, rfl⟩ := Next.goto_of_task hnext
    trivial

/-- One step of a run in progress: the ledger stays sound, nothing known is lost, the
messages it sends are sound, and so is what the run knows afterwards. -/
theorem sound_taskStep {w : World} {input : Input} {task : Task} {r : World × Option Task}
    (hl : Ledgered site w.db) (ht : TaskSound strict site w.db task)
    (hg : strict → resetsSplit site w task = false) (h : task.step site w input = some r) :
    Ledgered site r.1.db ∧ Grows strict site w.db r.1.db ∧
    (∃ new, r.1.db.sent = new ++ w.db.sent ∧ ∀ m, m ∈ new → MsgSound strict site r.1.db m.topic m.payload) ∧
    ∀ task', r.2 = some task' → TaskSound strict site r.1.db task' := by
  have hrun : Ledgered site r.1.db ∧ Grows strict site w.db r.1.db ∧ ∃ new, r.1.db.sent = new ++ w.db.sent ∧
      ∀ m, m ∈ new → MsgSound strict site r.1.db m.topic m.payload := by
    refine (Task.step_performs h).invariant (P := fun db => Ledgered site db ∧ Grows strict site w.db db ∧
      ∃ new, db.sent = new ++ w.db.sent ∧ ∀ m, m ∈ new → MsgSound strict site db m.topic m.payload)
      ⟨hl, Grows.refl strict site w.db, [], rfl, fun _ hm => nomatch hm⟩ fun db op db' hi hd hs => ?_
    obtain ⟨hldb, hgrown, new, hnew, hsound⟩ := hi
    obtain ⟨hl', hg'⟩ := ledgered_operation hldb (ht.mono hgrown) hg hd hs
    refine ⟨hl', hgrown.trans hg', ?_⟩
    rcases msgSound_operation hldb (ht.mono hgrown) hd hs with heq | ⟨m, heq, hm⟩
    · exact ⟨new, heq.trans hnew, fun m hm => (hsound m hm).mono hg'⟩
    · refine ⟨m :: new, by rw [heq, hnew, List.cons_append], fun m' hm' => ?_⟩
      rcases List.mem_cons.mp hm' with rfl | hm'
      · exact hm
      · exact (hsound m' hm').mono hg'
  exact ⟨hrun.1, hrun.2.1, hrun.2.2, fun task' hnext => (taskSound_next hl ht h hnext).mono hrun.2.1⟩

end DocPipeline.Gather

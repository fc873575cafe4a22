import DocPipeline.Gather.Waiting

/-!
# What leads a document out of text production

From a re-drive on, every message that is sent waits until a run has been started for it.
As long as an index of the document is unclaimed, something leads on: the sweep that has
yet to re-drive it, a message that waits, or a run in progress. When nothing of that is
left, the last claim has joined.
-/
namespace DocPipeline.Gather

set_option autoImplicit false

open Lib Lib.Transaction Lib.Gather PdfWorker Sys

/-! ## What a re-drive sends -/

variable {site : Deployment} {db db' : Db} {d : DocId} {row : Document} {n : Nat}

theorem missingShards_mem {total i : Nat} :
    i ∈ Ledger.missingShards db d total ↔ i < total ∧ (d, i) ∉ db.documentShards := by
  simp [Ledger.missingShards]

/-- One of the three things a re-drive of text production begins with: the text layer, the
split, or every shard that is not claimed. -/
def Restarts (site : Deployment) (d : DocId) (n : Nat) (db : Db) (new : List OutboxRow) : Prop :=
  (∃ path, Sends new (.textEmbedded d path .uploading)) ∨ (∃ path, Sends new (.ocrSplit d path .beginning)) ∨
    ∀ i, i < shardCount site n → (d, i) ∉ db.documentShards →
      ∃ payload : ShardPayload, Sends new (.ocrShard payload .beginning) ∧ payload.docId = d ∧ payload.shardIdx = i

theorem restarts_of_toOcr {new : List OutboxRow} {path : String} {task : Task} (h : ToOcr site d path n task)
    (hs : Sends new task) : Restarts site d n db new := by
  rcases h with ⟨_, rfl⟩ | ⟨hsmall, payload, rfl, rfl, hzero⟩
  · exact Or.inr (Or.inl ⟨path, hs⟩)
  · refine Or.inr (Or.inr fun i hi _ => ⟨payload, hs, rfl, ?_⟩)
    rw [shardCount_small hsmall] at hi
    rw [hzero, Nat.lt_one_iff.mp hi]

/-- In a text state `redrive_document` goes through, and restarts the document. -/
theorem redriveDocument_restarts (db : Db) (d : DocId) (hsound : RowSound site row) (htext : row.state.isText = true)
    (hn : row.pageCount = some n) : ∃ db' new, Commits (Sweeper.redriveDocument site d row) db ⟨⟩ db' ∧
      db'.sent = new ++ db.sent ∧ Restarts site d n db new := by
  unfold Sweeper.redriveDocument
  by_cases hone : row.shardsTotal ≤ 1
  · rw [if_pos ⟨htext, hone⟩, Sweeper.redriveDispatch, hn]
    by_cases htl : row.hasTextLayer = some true
    · rw [Ledger.routeTextProduction, if_pos htl]
      exact ⟨_, [_], Ledger.enqueue_commits.mpr rfl, rfl, Or.inl ⟨row.gcsPath, _, List.mem_singleton.mpr rfl, rfl⟩⟩
    · obtain ⟨topic, total, hroute⟩ := route_succeeds site row.hasTextLayer n
      have htask : ∃ task, Task.ofMessage topic (Ledger.buildDispatchPayload topic d row.gcsPath (some n)) = some task ∧
          ToOcr site d row.gcsPath n task := route_toOcr htl hroute
      obtain ⟨task, hmsg, hocr⟩ := htask
      rw [hroute]
      exact ⟨_, [_], Ledger.enqueue_commits.mpr rfl, rfl,
        restarts_of_toOcr hocr ⟨_, List.mem_singleton.mpr rfl, hmsg⟩⟩
  · rw [if_neg fun h => hone h.2]
    obtain ⟨k, hk, htotal, _, _⟩ := hsound.many (Nat.lt_of_not_le hone)
    cases hn.symm.trans hk
    rcases isText_iff.mp htext with hstate | hstate
    · rw [hstate]
      exact ⟨_, [_], Ledger.enqueue_commits.mpr rfl, rfl,
        Or.inr (Or.inl ⟨row.gcsPath, _, List.mem_singleton.mpr rfl, rfl⟩)⟩
    · rw [hstate]
      obtain ⟨db', hc⟩ := Ledger.enqueueMany_succeeds ((Ledger.missingShards db d row.shardsTotal).map fun idx =>
        (d, Topic.ocrShard, Payload.shard (Sweeper.missingShardPayload site d row n idx))) db
      obtain ⟨_, _, new, hnew, hrows⟩ := Ledger.enqueueMany_sent hc
      refine ⟨db', new, ?_, hnew, Or.inr (Or.inr fun i hi hfree => ?_)⟩
      · simp only [Sweeper.redriveShards, hn, commits_bind, commits_get]
        exact ⟨db, db, ⟨rfl, rfl⟩, hc⟩
      · refine ⟨_, sends_of_mem hrows (List.mem_map_of_mem (missingShards_mem.mpr ⟨?_, hfree⟩)) rfl, rfl, rfl⟩
        rw [htotal]
        exact hi

/-- Outside the text states it always goes through. -/
theorem redriveDocument_succeeds (db : Db) (d : DocId) (hsound : RowSound site row)
    (hpages : row.state.isText = true → row.pageCount ≠ none) :
    ∃ db', Commits (Sweeper.redriveDocument site d row) db ⟨⟩ db' := by
  by_cases htext : row.state.isText = true
  · obtain ⟨n, hn⟩ := Option.ne_none_iff_exists'.mp (hpages htext)
    obtain ⟨db', _, hc, _⟩ := redriveDocument_restarts db d hsound htext hn
    exact ⟨db', hc⟩
  · unfold Sweeper.redriveDocument
    rw [if_neg fun h => htext h.1]
    cases hstate : row.state with
    | textPending | textRunning => exact absurd (by rw [hstate]; rfl) htext
    | extractPending | extractRunning => exact ⟨_, Ledger.enqueue_commits.mpr rfl⟩
    | complete | review | failed => exact ⟨db, commits_pure.mpr ⟨rfl, rfl⟩⟩

/-! ## What leads on -/

variable {r r' : Recovery} {a : Action} {row' : Document}

/-- A sweep holds the document, and every row in its hands can be re-driven. -/
structure Holds (d : DocId) (claimed : List (DocId × Document)) : Prop where
  holds : ∃ old, (d, old) ∈ claimed ∧ old.state.isText = true
  pages : ∀ c, c ∈ claimed → c.2.state.isText = true → c.2.pageCount ≠ none

/-- What leads a document in a text state on. A shard that has begun relies on `text_running`. -/
inductive Leads (site : Deployment) (d : DocId) (n : Nat) (row : Document) (r : Recovery) : Prop
  | claimed {tid : Nat} {claimed : List (DocId × Document)} : r.sys.tasks tid = some (.sweep (.redriving claimed)) →
      Holds d claimed → Leads site d n row r
  | embedded {path : String} {pc : EmbeddedPc} : r.Pending (.textEmbedded d path pc) → Leads site d n row r
  | split {path : String} {pc : SplitPc} : r.Pending (.ocrSplit d path pc) → Leads site d n row r
  | shards : (∀ i, i < shardCount site n → (d, i) ∉ r.sys.db.documentShards → ∃ payload pc,
      r.Pending (.ocrShard payload pc) ∧ payload.docId = d ∧ payload.shardIdx = i ∧
        (pc ≠ .beginning → row.state = .textRunning)) → Leads site d n row r

/-- The document waits for extraction, and has been announced to it since `sent`. -/
def Recovered (d : DocId) (sent : List OutboxRow) (db : Db) : Prop :=
  ∃ row new, db.documents.lookup d = some row ∧ row.state = .extractPending ∧ db.sent = new ++ sent ∧
    ∃ m, m ∈ new ∧ m.topic = .ocrCompleted ∧ m.docId = d

/-- The document waits for extraction, or an index is unclaimed and something leads on. -/
inductive Recovers (site : Deployment) (d : DocId) (n : Nat) (sent : List OutboxRow) (r : Recovery) : Prop
  | recovered {row : Document} {new : List OutboxRow} {m : OutboxRow} : r.sys.document d = some row →
      row.pageCount = some n → row.state = .extractPending → r.sys.db.sent = new ++ sent → m ∈ new →
      m.topic = .ocrCompleted → m.docId = d → Recovers site d n sent r
  | leads {row : Document} {new : List OutboxRow} {i : Nat} : r.sys.document d = some row →
      row.pageCount = some n → row.state.isText = true → r.sys.db.sent = new ++ sent → i < shardCount site n →
      (d, i) ∉ r.sys.db.documentShards → Leads site d n row r → Recovers site d n sent r

/-- What is restarted leads on. -/
theorem leads_of_restarts {new : List OutboxRow} (hr : Restarts site d n db new)
    (hshards : ∀ i, (d, i) ∈ db.documentShards → (d, i) ∈ r'.sys.db.documentShards)
    (hpending : ∀ task, Sends new task → r'.Pending task) : Leads site d n row r' := by
  rcases hr with ⟨path, hs⟩ | ⟨path, hs⟩ | hall
  · exact .embedded (hpending _ hs)
  · exact .split (hpending _ hs)
  · refine .shards fun i hi hfree => ?_
    obtain ⟨payload, hs, hdoc, hidx⟩ := hall i hi fun hm => hfree (hshards i hm)
    exact ⟨payload, .beginning, hpending _ hs, hdoc, hidx, fun hne => absurd rfl hne⟩

/-- A step after which the same sweep, the same workers and the same shards are there. -/
theorem Leads.kept (h : Leads site d n row r)
    (hclaimed : ∀ tid claimed, r.sys.tasks tid = some (.sweep (.redriving claimed)) → Holds d claimed →
      r'.sys.tasks tid = some (.sweep (.redriving claimed)))
    (hworker : ∀ task, task.isTextOf d = true → (∀ payload pc, task ≠ .ocrShard payload pc) → r.Pending task →
      r'.Pending task)
    (hshards : ∀ i, (d, i) ∈ r.sys.db.documentShards → (d, i) ∈ r'.sys.db.documentShards)
    (hshard : ∀ payload pc, payload.docId = d → (d, payload.shardIdx) ∉ r'.sys.db.documentShards →
      r.Pending (.ocrShard payload pc) → (pc ≠ .beginning → row.state = .textRunning) →
      ∃ pc', r'.Pending (.ocrShard payload pc') ∧ (pc' ≠ .beginning → row'.state = .textRunning)) :
    Leads site d n row' r' := by
  cases h with
  | claimed htask hholds => exact .claimed (hclaimed _ _ htask hholds) hholds
  | embedded hp => exact .embedded (hworker _ (decide_eq_true rfl) (fun _ _ he => nomatch he) hp)
  | split hp => exact .split (hworker _ (decide_eq_true rfl) (fun _ _ he => nomatch he) hp)
  | shards hall =>
    refine .shards fun i hi hfree => ?_
    obtain ⟨payload, pc, hp, hdoc, rfl, hrunning⟩ := hall i hi fun hm => hfree (hshards i hm)
    obtain ⟨pc', hp', hrunning'⟩ := hshard payload pc hdoc hfree hp hrunning
    exact ⟨payload, pc', hp', hdoc, rfl, hrunning'⟩

/-! ## A worker's own step -/

/-- A claim that does not fill the document leaves an index unclaimed. -/
theorem unclaimed_of_counted {idx : Nat} (hl : Ledgered site db) (hrow : db.documents.lookup d = some row)
    (hn : row.pageCount = some n) (hshard : ShardOf True site db d idx) (hm : (d, idx) ∉ db.documentShards)
    (hne : row.shardsDone + 1 ≠ row.shardsTotal) :
    ∃ i, i < shardCount site n ∧ (d, i) ∉ (d, idx) :: db.documentShards := by
  obtain ⟨current, k, hcur, hk, hlt, htotal⟩ := hshard
  rw [hrow] at hcur
  cases hcur
  cases hn.symm.trans hk
  by_contra hall
  simp only [not_exists, not_and, not_not] at hall
  refine hne ?_
  have hlts : ∀ i, i ∈ claimed ((d, idx) :: db.documentShards) d → i < shardCount site n := by
    intro i hi
    rw [claimed_cons_self] at hi
    rcases List.mem_cons.mp hi with rfl | hi
    · exact hlt
    · exact hl.claimed_lt hrow hn i hi
  have hfull := (full_iff (nodup_claimed (List.nodup_cons.mpr ⟨hm, hl.nodup⟩)) hlts).mp
    fun i hi => mem_claimed.mpr (hall i hi)
  rw [claimed_cons_self, List.length_cons, ← hl.done d row hrow] at hfull
  rw [hfull, htotal trivial]

/-- Once it waits for extraction, no text worker takes a document back. -/
theorem TextStep.recovered {task : Task} {next : Option Task} (h : TextStep site d n db row task db' next)
    (hrow : db.documents.lookup d = some row) (hn : row.pageCount = some n) (hstate : row.state = .extractPending) :
    ∃ row' new, db'.documents.lookup d = some row' ∧ row'.pageCount = some n ∧ row'.state = .extractPending ∧
      db'.sent = new ++ db.sent := by
  have htext : row.state.isText ≠ true := by
    rw [hstate]
    decide
  cases h with
  | refused | shardsUploaded | recognised | again | blocked => exact ⟨row, [], hrow, hn, hstate, rfl⟩
  | uploaded ht => exact absurd ht htext
  | tier0 ht | fell ht | splitBegun ht | shardBegun ht => exact absurd ht htext
  | splitDone _ hb => exact ⟨_, _, hb.row, rfl, hstate, hb.sent⟩
  | counted _ _ hb => exact ⟨_, _, hb.row, hn, hstate, hb.sent⟩
  | joined _ _ _ _ hb => exact ⟨_, _, hb.row, hn, rfl, hb.sent⟩

/-- What the step of a run leaves pending: everything else, what the run does next, what it sent. -/
structure Turned (r r' : Recovery) (task : Task) (next : Option Task) : Prop where
  other : ∀ task', task' ≠ task → r.Pending task' → r'.Pending task'
  next : ∀ task', next = some task' → r'.Pending task'
  sweep : ∀ tid claimed, task ≠ .sweep (.redriving claimed) → r.sys.tasks tid = some (.sweep (.redriving claimed)) →
    r'.sys.tasks tid = some (.sweep (.redriving claimed))
  sends : ∀ new task', r'.sys.db.sent = new ++ r.sys.db.sent → Sends new task' → r'.Pending task'

theorem turned_of_step {tid : Nat} {input : Input} {task : Task} (htransport : Transport site r.sys)
    (hs : Recovery.Step site r (.run tid input) r') (htask : r.sys.tasks tid = some task) :
    ∃ res, task.step site r.sys.world input = some res ∧ r'.sys.db = res.1.db ∧ Turned r r' task res.2 := by
  have hstep := (Recovery.step_inv hs).1
  obtain ⟨task', res, htask', hres, hsys⟩ := runTask_eq hstep
  rw [htask] at htask'
  cases htask'
  have halone : ∀ i task', r.sys.tasks i = some task' → task' ≠ task →
      (∀ input', Action.run tid input ≠ .run i input') ∧ Action.run tid input ≠ .crash i := by
    refine fun i task' hi hne => ⟨fun _ he => hne ?_, fun he => nomatch he⟩
    cases he
    rw [htask] at hi
    exact (Option.some.inj hi).symm
  refine ⟨res, hres, by rw [hsys], ⟨fun task' hne hp => ?_, fun task' he => Or.inr ⟨tid, ?_⟩, fun i claimed hne hi => ?_,
    fun _ _ hnew hm => Recovery.pending_of_sends hs hnew hm⟩⟩
  · exact Recovery.pending_kept hs htransport hp fun i hi => halone i task' hi hne
  · rw [hsys, ← he]
    exact if_pos rfl
  · exact task_kept hstep hi (halone i _ hi hne.symm).1 (halone i _ hi hne.symm).2

/-- A shard's own step, after which its index is claimed or the run still leads on. -/
theorem Leads.shard {read : ShardPayload} {pc : OcrShard.Pc} {next : Option Task} (h : Leads site d n row r)
    (hturned : Turned r r' (.ocrShard read pc) next)
    (hshards : ∀ i, (d, i) ∈ r.sys.db.documentShards → (d, i) ∈ r'.sys.db.documentShards)
    (hrunning : row.state = .textRunning → row'.state = .textRunning)
    (hown : (d, read.shardIdx) ∉ r'.sys.db.documentShards → (pc ≠ .beginning → row.state = .textRunning) →
      ∃ pc', next = some (.ocrShard read pc') ∧ (pc' ≠ .beginning → row'.state = .textRunning)) :
    Leads site d n row' r' := by
  refine h.kept (fun tid claimed hi _ => hturned.sweep tid claimed (fun he => nomatch he) hi)
    (fun task' _ hne hp => hturned.other task' (hne read pc) hp) hshards fun payload pc' _ hfree hp hrun => ?_
  by_cases he : (.ocrShard payload pc' : Task) = .ocrShard read pc
  · cases he
    obtain ⟨pc'', hnext, hrun'⟩ := hown hfree hrun
    exact ⟨pc'', hturned.next _ hnext, hrun'⟩
  · exact ⟨pc', hturned.other _ he hp, fun hne => hrunning (hrun hne)⟩

/-- A text worker's step on a document that something leads on. -/
theorem TextStep.recovers {task : Task} {next : Option Task} {i : Nat} (h : TextStep site d n r.sys.db row task db' next)
    (hdb : r'.sys.db = db') (hturned : Turned r r' task next) (hl : Ledgered site r.sys.db)
    (htext : task.isTextOf d = true) (ht : TaskSound True site r.sys.db task) (hrow : r.sys.document d = some row)
    (hn : row.pageCount = some n) (hstate : row.state.isText = true) (hi : i < shardCount site n)
    (hfree : (d, i) ∉ r.sys.db.documentShards) (hleads : Leads site d n row r) :
    Recovers site d n r.sys.db.sent r' := by
  have hmk : ∀ {row' : Document} {shards : List (DocId × Nat)} {new : List OutboxRow} {i : Nat},
      Becomes d r.sys.db r'.sys.db row' shards new → row'.pageCount = some n → row'.state.isText = true →
      i < shardCount site n → (d, i) ∉ shards → Leads site d n row' r' → Recovers site d n r.sys.db.sent r' :=
    fun hb hn' hstate' hi hfree hleads' => .leads hb.row hn' hstate' hb.sent hi (hb.shards ▸ hfree) hleads'
  have hsame : r'.sys.db = r.sys.db → Becomes d r.sys.db r'.sys.db row r.sys.db.documentShards [] := by
    intro he
    rw [he]
    exact ⟨hrow, rfl, rfl⟩
  -- whatever led on before, a worker that starts the document over leads on by itself
  cases h with
  | refused hnot => exact absurd hstate (by rw [hnot]; decide)
  | uploaded => exact hmk (hsame hdb) hn hstate hi hfree (.embedded (hturned.next _ rfl))
  | tier0 _ _ htopic hdoc hb =>
    subst hdb
    exact .recovered hb.row hn rfl hb.sent (List.mem_singleton.mpr rfl) htopic hdoc
  | fell _ _ hmsg hocr hb =>
    subst hdb
    have hrestarts : Restarts site d n r.sys.db _ := restarts_of_toOcr hocr ⟨_, List.mem_singleton.mpr rfl, hmsg⟩
    exact hmk hb hn rfl hi hfree
      (leads_of_restarts hrestarts (fun j hj => hb.shards ▸ hj) fun _ hm => hturned.sends _ _ hb.sent hm)
  | splitBegun _ hb =>
    subst hdb
    exact hmk hb hn rfl hi hfree (.split (hturned.next _ rfl))
  | shardsUploaded => exact hmk (hsame hdb) hn hstate hi hfree (.split (hturned.next _ rfl))
  | splitDone hall hb =>
    subst hdb
    have hrestarts : Restarts site d n r.sys.db _ := Or.inr (Or.inr fun j hj _ => hall j hj)
    exact hmk hb rfl hstate hi hfree
      (leads_of_restarts hrestarts (fun j hj => hb.shards ▸ hj) fun _ hm => hturned.sends _ _ hb.sent hm)
  | shardBegun _ hb =>
    subst hdb
    refine hmk hb hn rfl hi hfree (hleads.shard hturned (fun j hj => hb.shards ▸ hj) (fun _ => rfl) fun _ _ => ?_)
    exact ⟨.recognising, rfl, fun _ => rfl⟩
  | recognised =>
    have hb := hsame hdb
    refine hmk hb hn hstate hi hfree (hleads.shard hturned (fun j hj => hb.shards ▸ hj) id fun _ hrun => ?_)
    exact ⟨.recording, rfl, fun _ => hrun fun he => nomatch he⟩
  | again hm =>
    have hb := hsame hdb
    refine hmk hb hn hstate hi hfree (hleads.shard hturned (fun j hj => hb.shards ▸ hj) id fun hnew _ => ?_)
    exact absurd (hb.shards ▸ hm) hnew
  | counted hm hne hb =>
    subst hdb
    obtain ⟨j, hj, hfree'⟩ := unclaimed_of_counted hl hrow hn (of_decide_eq_true htext ▸ ht) hm hne
    refine hmk hb hn hstate hj hfree' (hleads.shard hturned (fun k hk => hb.shards ▸ List.mem_cons_of_mem _ hk) id
      fun hnew _ => ?_)
    exact absurd (hb.shards ▸ List.mem_cons_self) hnew
  | joined _ _ htopic hdoc hb =>
    subst hdb
    exact .recovered hb.row hn rfl hb.sent (List.mem_singleton.mpr rfl) htopic hdoc
  | blocked _ hnot _ =>
    -- a shard that has begun was relied on in `text_running` only, where the join is not refused
    have hb := hsame hdb
    refine hmk hb hn hstate hi hfree (hleads.shard hturned (fun j hj => hb.shards ▸ hj) id fun _ hrun => ?_)
    exact absurd (hrun fun he => nomatch he) hnot

/-- What has been sent since a later moment has been sent since an earlier one. -/
theorem Recovers.since {sent middle new : List OutboxRow} (h : Recovers site d n middle r) (hsent : middle = new ++ sent) :
    Recovers site d n sent r := by
  subst hsent
  cases h with
  | @recovered row new' _ hrow hn hstate hsent hm htopic hdoc =>
    have hsent' : r.sys.db.sent = (new' ++ new) ++ sent := hsent.trans (List.append_assoc ..).symm
    exact .recovered hrow hn hstate hsent' (List.mem_append_left _ hm) htopic hdoc
  | @leads row new' _ hrow hn hstate hsent hi hfree hleads =>
    have hsent' : r.sys.db.sent = (new' ++ new) ++ sent := hsent.trans (List.append_assoc ..).symm
    exact .leads hrow hn hstate hsent' hi hfree hleads

theorem recovers_own {sent : List OutboxRow} {tid : Nat} {input : Input} {task : Task}
    (hsound : Sound True site r.sys) (hs : Recovery.Step site r (.run tid input) r')
    (htask : r.sys.tasks tid = some task) (htext : task.isTextOf d = true) (h : Recovers site d n sent r) :
    Recovers site d n sent r' := by
  obtain ⟨res, hres, hdb, hturned⟩ := turned_of_step hsound.transport hs htask
  have ht := hsound.tasks tid task htask
  cases h with
  | @recovered row new m hrow hn hstate hsent hm htopic hdoc =>
    obtain ⟨row', new', hrow', hn', hstate', hsent'⟩ := (textStep_cases htext ht hrow hn hres).recovered hrow hn hstate
    rw [← hdb] at hrow' hsent'
    refine .recovered hrow' hn' hstate' ?_ (List.mem_append_right new' hm) htopic hdoc
    rw [hsent', hsent, List.append_assoc]
  | leads hrow hn hstate hsent hi hfree hleads =>
    have htextStep := textStep_cases htext ht hrow hn hres
    exact (htextStep.recovers hdb hturned hsound.ledger htext ht hrow hn hstate hi hfree hleads).since hsent

/-! ## Everyone else's steps -/

/-- No worker of the document dies, nor a sweep that holds it, and nobody else moves it. -/
def calm (site : Deployment) (d : DocId) (s : Sys) : Action → Bool
  | .run tid _ => (s.tasks tid).all fun task => !task.disturbs site s.db d
  | .crash tid => (s.tasks tid).all fun task => !task.isTextOf d && !task.redrives d
  | _ => true

/-- The steps of others leave the document alone, and may send messages. -/
theorem left_alone {s t : Sys} (hsound : Sound True site s) (hkeeps : keepsSplit site s a = true)
    (hcalm : calm site d s a = true)
    (hother : ∀ tid input task, a = .run tid input → s.tasks tid = some task → task.isTextOf d = false)
    (hrow : s.document d = some row) (hflight : row.state.inFlight = true) (hs : Step site s a t) :
    t.document d = some row ∧ (∀ i, (d, i) ∈ t.db.documentShards ↔ (d, i) ∈ s.db.documentShards) ∧
      ∃ new, t.db.sent = new ++ s.db.sent := by
  rcases unchanged_of_step hs with ⟨tid, input, rfl⟩ | ⟨hdocs, hshards, hsent⟩
  · obtain ⟨task, res, htask, hres, rfl⟩ := runTask_eq hs
    simp only [calm, keepsSplit, htask, Option.all_some, Bool.not_eq_true'] at hcalm hkeeps
    obtain ⟨hrow', hshards⟩ := Task.undisturbed hres (hother tid input task rfl htask) hcalm hrow hflight
    obtain ⟨_, _, ⟨new, hnew, _⟩, _⟩ := sound_taskStep hsound.ledger (hsound.tasks tid task htask) (fun _ => hkeeps) hres
    exact ⟨hrow', hshards, new, hnew⟩
  · refine ⟨?_, fun i => by rw [hshards], [], hsent⟩
    rw [document, hdocs]
    exact hrow

/-- The sweep's own step re-drives the document, or another one before it. -/
theorem leads_of_sweep {tid : Nat} {input : Input} {claimed : List (DocId × Document)}
    (hsound : Sound True site r.sys) (hs : Recovery.Step site r (.run tid input) r')
    (htask : r.sys.tasks tid = some (.sweep (.redriving claimed))) (hholds : Holds d claimed)
    (hrow : r.sys.document d = some row) (hn : row.pageCount = some n)
    (hshards : ∀ i, (d, i) ∈ r.sys.db.documentShards → (d, i) ∈ r'.sys.db.documentShards) :
    Leads site d n row r' := by
  obtain ⟨task', res, htask', hres, hsys⟩ := runTask_eq (Recovery.step_inv hs).1
  rw [htask] at htask'
  cases htask'
  cases hres
  have hsnapshots : ∀ c, c ∈ claimed → Snapshot True site r.sys.db c.1 c.2 := hsound.tasks tid _ htask
  obtain ⟨⟨old, hmem, htext⟩, hpages⟩ := hholds
  cases claimed with
  | nil => cases hmem
  | cons c rest =>
    have hstep : ∀ {db'}, Commits (Sweeper.redriveDocument site c.1 c.2) r.sys.db ⟨⟩ db' →
        r'.sys.db = db' ∧ r'.sys.tasks tid = some (.sweep (.redriving rest)) := by
      intro db' hc
      rw [hsys, Sweeper.step, World.transact_of_commits _ _ hc]
      exact ⟨rfl, if_pos rfl⟩
    rcases List.mem_cons.mp hmem with rfl | hmem
    · obtain ⟨hrowSound, current, hcur, _, hpagesEq, _⟩ := hsnapshots (d, old) List.mem_cons_self
      rw [show r.sys.db.documents.lookup d = some row from hrow] at hcur
      cases hcur
      obtain ⟨db', new, hc, hnew, hrestarts⟩ :=
        redriveDocument_restarts r.sys.db d hrowSound htext (hpagesEq.symm.trans hn)
      obtain ⟨hdb, _⟩ := hstep hc
      exact leads_of_restarts hrestarts hshards fun _ hm => Recovery.pending_of_sends hs (hdb ▸ hnew) hm
    · obtain ⟨db', hc⟩ := redriveDocument_succeeds r.sys.db c.1 (hsnapshots c List.mem_cons_self).1
        (hpages c List.mem_cons_self)
      exact .claimed (hstep hc).2 ⟨⟨old, hmem, htext⟩, fun c hc => hpages c (List.mem_cons_of_mem _ hc)⟩

theorem recovers_other {sent : List OutboxRow} (hsound : Sound True site r.sys)
    (hkeeps : keepsSplit site r.sys a = true) (hcalm : calm site d r.sys a = true)
    (hother : ∀ tid input task, a = .run tid input → r.sys.tasks tid = some task → task.isTextOf d = false)
    (hs : Recovery.Step site r a r') (h : Recovers site d n sent r) : Recovers site d n sent r' := by
  have hstep := (Recovery.step_inv hs).1
  cases h with
  | @recovered row new m hrow hn hstate hsent hm htopic hdoc =>
    obtain ⟨hrow', _, new', hsent'⟩ := left_alone hsound hkeeps hcalm hother hrow (by rw [hstate]; rfl) hstep
    refine .recovered hrow' hn hstate ?_ (List.mem_append_right new' hm) htopic hdoc
    rw [hsent', hsent, List.append_assoc]
  | @leads row new i hrow hn hstate hsent hi hfree hleads =>
    obtain ⟨hrow', hshards, new', hsent'⟩ :=
      left_alone hsound hkeeps hcalm hother hrow (inFlight_of_isText hstate) hstep
    have hsent'' : r'.sys.db.sent = (new' ++ new) ++ sent := by rw [hsent', hsent, List.append_assoc]
    refine .leads hrow' hn hstate hsent'' hi (fun hm => hfree ((hshards i).mp hm)) ?_
    by_cases hown : ∃ tid input claimed, a = .run tid input ∧
        r.sys.tasks tid = some (.sweep (.redriving claimed)) ∧ Holds d claimed
    · obtain ⟨tid, input, claimed, rfl, htask, hholds⟩ := hown
      exact leads_of_sweep hsound hs htask hholds hrow hn fun j hj => (hshards j).mpr hj
    · have hworker : ∀ task, task.isTextOf d = true → r.Pending task → r'.Pending task := by
        intro task htext hp
        refine Recovery.pending_kept hs hsound.transport hp fun tid htask => ⟨fun input he => ?_, fun he => ?_⟩
        · rw [hother tid input task he htask] at htext
          cases htext
        · subst he
          simp [calm, htask, htext] at hcalm
      refine hleads.kept (fun tid claimed htask hholds => ?_) (fun task htext _ hp => hworker task htext hp)
        (fun j hj => (hshards j).mpr hj) fun payload pc hdoc _ hp hrunning =>
          ⟨pc, hworker _ (decide_eq_true hdoc) hp, hrunning⟩
      refine task_kept hstep htask (fun input he => hown ⟨tid, input, claimed, he, htask, hholds⟩) fun he => ?_
      subst he
      obtain ⟨old, hmem, _⟩ := hholds.holds
      simp only [calm, htask, Option.all_some, Bool.and_eq_true, Bool.not_eq_true', Task.redrives,
        List.any_eq_false, decide_eq_true_eq] at hcalm
      exact hcalm.2 _ hmem rfl

/-! ## Runs -/

/-- Every step keeps a document on its way out. -/
theorem recovers_step {sent : List OutboxRow} (hsound : Sound True site r.sys)
    (hkeeps : keepsSplit site r.sys a = true) (hcalm : calm site d r.sys a = true)
    (hs : Recovery.Step site r a r') (h : Recovers site d n sent r) : Recovers site d n sent r' := by
  by_cases hown : ∃ tid input task, a = .run tid input ∧ r.sys.tasks tid = some task ∧ task.isTextOf d = true
  · obtain ⟨tid, input, task, rfl, htask, htext⟩ := hown
    exact recovers_own hsound hs htask htext h
  · refine recovers_other hsound hkeeps hcalm (fun tid input task he htask => ?_) hs h
    exact Bool.eq_false_iff.mpr fun htext => hown ⟨tid, input, task, he, htask, htext⟩

theorem recovers_run {sent : List OutboxRow} {as : List Action}
    (hrun : Lib.Run (Recovery.Step site) (fun r a => keepsSplit site r.sys a = true ∧ calm site d r.sys a = true) r as r')
    (hsound : Sound True site r.sys) (h : Recovers site d n sent r) : Recovers site d n sent r' := by
  have hboth : Sound True site r'.sys ∧ Recovers site d n sent r' := by
    refine hrun.invariant (P := fun r => Sound True site r.sys ∧ Recovers site d n sent r) ⟨hsound, h⟩
      fun r a u hi hg hs => ?_
    exact ⟨sound_step hi.1 (fun _ => hg.1) (Recovery.step_inv hs).1, recovers_step hi.1 hg.1 hg.2 hs hi.2⟩
  exact hboth.2

/-- Nothing is left for the document: no message that waits, no worker, no sweep. -/
structure Quiet (d : DocId) (r : Recovery) : Prop where
  waiting : ∀ m, m ∈ r.waiting → ∀ task, Task.ofMessage m.topic m.payload = some task → task.isTextOf d = false
  tasks : ∀ tid task, r.sys.tasks tid = some task → task.isTextOf d = false ∧ task.redrives d = false

theorem Quiet.not_pending {task : Task} (h : Quiet d r) (htext : task.isTextOf d = true) : ¬ r.Pending task := by
  rintro (⟨m, hm, hmsg⟩ | ⟨tid, htask⟩)
  · rw [h.waiting m hm task hmsg] at htext
    cases htext
  · rw [(h.tasks tid task htask).1] at htext
    cases htext

/-- When nothing is left, the document has come through. -/
theorem recovered_of_quiet {sent : List OutboxRow} (h : Recovers site d n sent r) (hquiet : Quiet d r) :
    Recovered d sent r.sys.db := by
  cases h with
  | recovered hrow _ hstate hsent hm htopic hdoc => exact ⟨_, _, hrow, hstate, hsent, _, hm, htopic, hdoc⟩
  | leads _ _ _ _ hi hfree hleads =>
    cases hleads with
    | @claimed tid claimed htask hholds =>
      obtain ⟨old, hmem, _⟩ := hholds.holds
      have hnone := (hquiet.tasks tid _ htask).2
      simp only [Task.redrives, List.any_eq_false, decide_eq_true_eq] at hnone
      exact absurd rfl (hnone _ hmem)
    | embedded hp => exact absurd hp (hquiet.not_pending (decide_eq_true rfl))
    | split hp => exact absurd hp (hquiet.not_pending (decide_eq_true rfl))
    | shards hall =>
      obtain ⟨payload, pc, hp, hdoc, _⟩ := hall _ hi hfree
      exact absurd hp (hquiet.not_pending (decide_eq_true hdoc))

end DocPipeline.Gather

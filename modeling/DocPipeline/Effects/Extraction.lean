import DocPipeline.Core.Operation
import DocPipeline.Stages.Extraction

/-!
# What an extraction run does to the ledger

A run writes the record in three places only: the route that carries no result, the
result held for review, and the auto-post. Each is one operation, performed in the
database the transaction started from.
-/
namespace DocPipeline.Extraction

set_option autoImplicit false

open Lib Lib.Transaction Ledger

inductive Does (site : Deployment) (docId : DocId) (start : Db) : Pc → Db → Operation → Prop
  | opening {db : Db} : Does site docId start .opening db (.move docId .extractRunning)
  | stamping {db : Db} {doc : Option Document} {notes : Notes} :
      Does site docId start (.stamping doc) db (.note docId notes)
  | counting {db : Db} {doc : Document} {assembled : Artifact} {notes : Notes} :
      Does site docId start (.counting doc assembled) db (.note docId notes)
  | funnel {db : Db} {assembled : Artifact} {attemptNo : Nat} {notes : Notes} :
      Does site docId start (.extracting assembled attemptNo) db (.note docId notes)
  | logging {db : Db} {assembled : Artifact} {attemptNo : Nat} :
      Does site docId start (.extracting assembled attemptNo) db .aside
  | routing {gates : GateResults} {result : Result} :
      Does site docId start (.routing gates result) start (.route docId gates)
  | exhausted {gates : GateResults} :
      Does site docId start (.exhausted gates) start (.settle docId Fields.empty gates)
  | holding {fields : Fields} {gates : GateResults} :
      Does site docId start (.holding fields gates) start (.settle docId fields gates)
  | posting {assembled : Artifact} {fields : Fields} {gates : GateResults} :
      Does site docId start (.posting assembled fields gates) start
        (.post docId fields gates (postPayload site docId assembled fields gates))
  | losing {assembled : Artifact} {fields : Fields} {gates : GateResults} :
      Does site docId start (.posting assembled fields gates) start
        (.rekey docId fields.seller fields.invoiceNo)

variable {site : Deployment} {docId : DocId} {db db' : Db}

theorem openRun_commits {u : Unit} :
    Commits (openRun docId) db u db' ↔
    ∃ row, db.documents.lookup docId = some row ∧
      (row.state = .extractPending ∨ row.state = .extractRunning) ∧
      db' = db.write docId row (row.moved .extractRunning db.now) := by
  simp only [openRun, commits_bind, commits_pure, transition_commits]
  constructor
  · rintro ⟨_, _, ⟨row, hrow, hmem, _, rfl⟩, _, rfl⟩
    refine ⟨row, hrow, ?_, rfl⟩
    simpa using hmem
  · rintro ⟨row, hrow, hstate, rfl⟩
    refine ⟨.extractRunning, _, ⟨row, hrow, ?_, rfl, rfl⟩, trivial, rfl⟩
    simpa using hstate

/-- An opening that goes on has moved the document to `extract_running`. -/
theorem opening_goto {w : World} {verdict : Verdict} {pc : Pc}
    (h : (step site docId verdict w .opening).2 = .goto pc) :
    ∃ row, w.db.documents.lookup docId = some row ∧
      (row.state = .extractPending ∨ row.state = .extractRunning) ∧
      (step site docId verdict w .opening).1.db =
        w.db.write docId row (row.moved .extractRunning w.db.now) := by
  simp only [step] at h ⊢
  rcases w.transact_cases (openRun docId) (fun _ => (.goto .selecting : Next Pc Result)) .raised with
    ⟨_, db, hc, he⟩ | ⟨_, he⟩
  · rw [he]
    obtain ⟨row, hrow, hstate, rfl⟩ := openRun_commits.mp hc
    exact ⟨row, hrow, hstate, rfl⟩
  · rw [he] at h
    cases h

/-- The only transaction that both writes the key and records the result. -/
theorem autoPost_commits {assembled : Artifact} {fields : Fields} {gates : GateResults} {won : Bool} :
    Commits (autoPost site docId assembled fields gates) db won db' ↔
    (won = false ∧ db' = db ∧ db.documents.lookup docId = none) ∨
    ∃ row, db.documents.lookup docId = some row ∧
      db.holdsKey docId fields.seller fields.invoiceNo = false ∧
      ((won = false ∧ row.extractionResult ≠ none ∧
        db' = db.write docId row (row.rekeyed fields.seller fields.invoiceNo)) ∨
       (won = true ∧ row.extractionResult = none ∧
        db' = (db.write docId row ((row.rekeyed fields.seller fields.invoiceNo).settled fields gates .complete
          db.now)).insertOutbox docId .documentExtracted
            (.extracted (postPayload site docId assembled fields gates)))) := by
  simp only [autoPost, commits_bind, setBusinessKey_commits, commitExtractionResult_commits]
  constructor
  · rintro ⟨_, m, ⟨hrow, rfl⟩ | ⟨row, hrow, hk, rfl⟩, hc⟩
    · rcases hc with ⟨hw, hdb, _⟩ | ⟨_, row, hrow', _⟩
      · exact Or.inl ⟨hw, hdb, hrow⟩
      · rw [hrow] at hrow'
        cases hrow'
    · refine Or.inr ⟨row, hrow, hk, ?_⟩
      rcases hc with ⟨hw, hdb, hnone⟩ | ⟨hw, row', hrow', hnone, hdb⟩
      · exact Or.inl ⟨hw, hnone (row.rekeyed fields.seller fields.invoiceNo) (Db.write_lookup_self db docId row _), hdb⟩
      · rw [Db.write_lookup_self] at hrow'
        cases hrow'
        refine Or.inr ⟨hw, hnone, ?_⟩
        rw [hdb]
        rw [Db.write_now, Db.write_write db docId row (row.rekeyed fields.seller fields.invoiceNo) _ rfl]
  · rintro (⟨rfl, rfl, hrow⟩ | ⟨row, hrow, hk, ⟨rfl, hnone, rfl⟩ | ⟨rfl, hnone, rfl⟩⟩)
    · exact ⟨⟨⟩, db', Or.inl ⟨hrow, rfl⟩, Or.inl ⟨rfl, rfl, fun row h => by rw [hrow] at h; cases h⟩⟩
    · refine ⟨⟨⟩, _, Or.inr ⟨row, hrow, hk, rfl⟩, Or.inl ⟨rfl, rfl, fun row' h => ?_⟩⟩
      rw [Db.write_lookup_self] at h
      cases h
      exact hnone
    · refine ⟨⟨⟩, _, Or.inr ⟨row, hrow, hk, rfl⟩, Or.inr ⟨rfl, _, Db.write_lookup_self db docId row _, hnone, ?_⟩⟩
      rw [Db.write_now, Db.write_write db docId row (row.rekeyed fields.seller fields.invoiceNo) _ rfl]

/-- With a free key the auto-post does not raise. -/
theorem autoPost_total {assembled : Artifact} {fields : Fields} {gates : GateResults}
    (hk : db.holdsKey docId fields.seller fields.invoiceNo = false) :
    ∃ won db', Commits (autoPost site docId assembled fields gates) db won db' := by
  cases hrow : db.documents.lookup docId with
  | none => exact ⟨_, _, autoPost_commits.mpr (Or.inl ⟨rfl, rfl, hrow⟩)⟩
  | some row =>
    by_cases hnone : row.extractionResult = none
    · exact ⟨_, _, autoPost_commits.mpr (Or.inr ⟨row, hrow, hk, Or.inr ⟨rfl, hnone, rfl⟩⟩)⟩
    · exact ⟨_, _, autoPost_commits.mpr (Or.inr ⟨row, hrow, hk, Or.inl ⟨rfl, hnone, rfl⟩⟩)⟩

/-- How a run returns: what its last transaction committed. -/
inductive Returns (site : Deployment) (docId : DocId) (db db' : Db) : Pc → Result → Prop
  | unknown : db' = db → Returns site docId db db' (.stamping none) .unknownDoc
  | routed {gates : GateResults} {result : Result} {found : Bool} :
      Commits (routeWithoutWriting docId gates .review) db found db' →
      Returns site docId db db' (.routing gates result) result
  | exhausted {gates : GateResults} {won : Bool} :
      Commits (commitExtractionResult docId Fields.empty gates .review none) db won db' →
      Returns site docId db db' (.exhausted gates) .reviewGatesExhausted
  | held {fields : Fields} {gates : GateResults} {won : Bool} :
      Commits (commitExtractionResult docId fields gates .review none) db won db' →
      Returns site docId db db' (.holding fields gates) .reviewKillSwitch
  | posted {assembled : Artifact} {fields : Fields} {gates : GateResults} {won : Bool} :
      Commits (autoPost site docId assembled fields gates) db won db' →
      Returns site docId db db' (.posting assembled fields gates)
        (if won then .complete else .discardedNotFirstWriter)

theorem checkPages_next (doc : Document) (assembled : Artifact) :
    (∃ e, checkPages doc assembled = .raised e) ∨
    (∃ n, doc.pageCount = some n ∧
      ((completeness (assembled.pages.map Page.pageNo) n).outcome = .pass ∧
        checkPages doc assembled = .goto (.counting doc assembled)) ∨
      ∃ gates, checkPages doc assembled = .goto (.routing gates .reviewIncomplete)) := by
  unfold checkPages
  split
  · exact Or.inl ⟨_, rfl⟩
  · next n hn =>
    by_cases hpass : (completeness (assembled.pages.map Page.pageNo) n).outcome = .pass
    · exact Or.inr ⟨n, Or.inl ⟨hn, hpass, if_pos hpass⟩⟩
    · exact Or.inr ⟨n, Or.inr ⟨_, if_neg hpass⟩⟩

/-- A run that goes on from the completeness gate counts an attempt or routes to review. -/
theorem checkPages_goto {doc : Document} {assembled : Artifact} {pc : Pc} (h : checkPages doc assembled = .goto pc) :
    pc = .counting doc assembled ∨ ∃ gates, pc = .routing gates .reviewIncomplete := by
  rcases checkPages_next doc assembled with ⟨_, hn⟩ | ⟨_, ⟨_, _, hn⟩ | ⟨gates, hn⟩⟩ <;> rw [hn] at h <;> cases h
  · exact Or.inl rfl
  · exact Or.inr ⟨gates, rfl⟩

theorem step_returns {w : World} {verdict : Verdict} {pc : Pc} {result : Result}
    (h : (step site docId verdict w pc).2 = .returned result) :
    Returns site docId w.db (step site docId verdict w pc).1.db pc result := by
  have hpages : ∀ (doc : Document) (assembled : Artifact), checkPages doc assembled ≠ .returned result := by
    intro doc assembled he
    rcases checkPages_next doc assembled with ⟨_, hn⟩ | ⟨_, ⟨_, _, hn⟩ | ⟨_, hn⟩⟩ <;>
    · rw [hn] at he
      cases he
  cases pc with
  | opening =>
    obtain ⟨_, _, h⟩ := World.transact_committed h fun _ he => nomatch he
    cases h
  | selecting => cases h
  | stamping doc =>
    cases doc with
    | none =>
      cases h
      exact .unknown rfl
    | some doc =>
      obtain ⟨_, _, h⟩ := World.transact_committed h fun _ he => nomatch he
      cases h
  | looking doc =>
    simp only [step] at h
    split at h
    · exact absurd h (hpages _ _)
    · cases h
  | gathering doc idx pages =>
    simp only [step] at h
    split at h
    · split at h <;> cases h
    · cases h
  | readingBack doc =>
    simp only [step] at h
    split at h
    · exact absurd h (hpages _ _)
    · cases h
  | routing gates result' =>
    obtain ⟨_, hc, h⟩ := World.transact_committed h fun _ he => nomatch he
    cases h
    exact .routed hc
  | counting doc assembled =>
    obtain ⟨_, _, h⟩ := World.transact_committed h fun _ he => nomatch he
    cases h
  | extracting assembled attemptNo =>
    obtain ⟨_, _, h⟩ := World.transact_committed h fun _ he => nomatch he
    split at h <;> cases h
  | exhausted gates =>
    obtain ⟨_, hc, h⟩ := World.transact_committed h fun _ he => nomatch he
    cases h
    exact .exhausted hc
  | checkingFlag assembled fields gates =>
    simp only [step] at h
    split at h <;> cases h
  | holding fields gates =>
    obtain ⟨_, hc, h⟩ := World.transact_committed h fun _ he => nomatch he
    cases h
    exact .held hc
  | posting assembled fields gates =>
    obtain ⟨_, hc, h⟩ := World.transact_committed h fun e he => by
      split at he <;> cases he
    cases h
    exact .posted hc

/-- How a run goes on: what it found or committed, the world it leaves, and where it is next. -/
inductive Goes (site : Deployment) (docId : DocId) (verdict : Verdict) (w : World) : Pc → World → Pc → Prop
  | opened {db : Db} : Commits (openRun docId) w.db ⟨⟩ db →
      Goes site docId verdict w .opening { w with db := db } .selecting
  | selected : Goes site docId verdict w .selecting w (.stamping (getDocument w.db docId))
  | stamped {doc : Document} {db : Db} : Commits (stampBuildInfo docId site.buildSha site.promptVersion) w.db ⟨⟩ db →
      Goes site docId verdict w (.stamping (some doc)) { w with db := db } (.looking doc)
  | found {doc : Document} {assembled : Artifact} {pc : Pc} : w.bucket.assembled docId = some assembled →
      checkPages doc assembled = .goto pc → Goes site docId verdict w (.looking doc) w pc
  | absent {doc : Document} : w.bucket.assembled docId = none →
      Goes site docId verdict w (.looking doc) w (.gathering doc 0 [])
  | gathered {doc : Document} {idx : Nat} {pages shard : List Page} : idx < doc.shardsTotal →
      w.bucket.shardOutput docId idx = some shard →
      Goes site docId verdict w (.gathering doc idx pages) w (.gathering doc (idx + 1) (pages ++ shard))
  | missing {doc : Document} {idx : Nat} {pages : List Page} : idx < doc.shardsTotal →
      w.bucket.shardOutput docId idx = none →
      Goes site docId verdict w (.gathering doc idx pages) w (.routing (shardMissing idx) .reviewShardOutputMissing)
  | wrote {doc : Document} {idx : Nat} {pages : List Page} : ¬ idx < doc.shardsTotal →
      Goes site docId verdict w (.gathering doc idx pages)
        { w with bucket := w.bucket.writeAssembled docId (assembledFrom site pages) } (.readingBack doc)
  | readBack {doc : Document} {assembled : Artifact} {pc : Pc} : w.bucket.assembled docId = some assembled →
      checkPages doc assembled = .goto pc → Goes site docId verdict w (.readingBack doc) w pc
  | counted {doc : Document} {assembled : Artifact} {attemptNo : Nat} {db : Db} :
      Commits (countAttempt docId) w.db attemptNo db →
      Goes site docId verdict w (.counting doc assembled) { w with db := db } (.extracting assembled attemptNo)
  | rejected {assembled : Artifact} {attemptNo : Nat} {db : Db} : Commits (funnelWrites docId verdict) w.db ⟨⟩ db →
      verdict.fields = none →
      Goes site docId verdict w (.extracting assembled attemptNo) { w with db := db } (.exhausted verdict.gates)
  | accepted {assembled : Artifact} {attemptNo : Nat} {fields : Fields} {db : Db} :
      Commits (funnelWrites docId verdict) w.db ⟨⟩ db → verdict.fields = some fields →
      Goes site docId verdict w (.extracting assembled attemptNo) { w with db := db }
        (.checkingFlag assembled fields verdict.gates)
  | enabled {assembled : Artifact} {fields : Fields} {gates : GateResults} :
      getFeatureFlag w.db autoPostFlag true = true →
      Goes site docId verdict w (.checkingFlag assembled fields gates) w (.posting assembled fields gates)
  | disabled {assembled : Artifact} {fields : Fields} {gates : GateResults} :
      getFeatureFlag w.db autoPostFlag true = false →
      Goes site docId verdict w (.checkingFlag assembled fields gates) w (.holding fields (killSwitched gates))
  | taken {assembled : Artifact} {fields : Fields} {gates : GateResults} :
      w.db.holdsKey docId fields.seller fields.invoiceNo = true →
      Goes site docId verdict w (.posting assembled fields gates) w
        (.routing (duplicateAtCommit gates) .reviewDuplicate)

theorem step_goes {w : World} {verdict : Verdict} {pc pc' : Pc}
    (h : (step site docId verdict w pc).2 = .goto pc') :
    Goes site docId verdict w pc (step site docId verdict w pc).1 pc' := by
  cases pc with
  | opening =>
    simp only [step] at h ⊢
    rcases w.transact_cases (openRun docId) (fun _ => .goto .selecting) (.raised : LedgerError → Next Pc Result) with
      ⟨_, db, hc, he⟩ | ⟨_, he⟩
    all_goals
      rw [he] at h ⊢
      cases h
    exact .opened hc
  | selecting =>
    cases h
    exact .selected
  | stamping doc =>
    cases doc with
    | none => cases h
    | some doc =>
      simp only [step] at h ⊢
      rcases w.transact_cases (stampBuildInfo docId site.buildSha site.promptVersion) (fun _ => .goto (.looking doc))
        (.raised : LedgerError → Next Pc Result) with ⟨_, db, hc, he⟩ | ⟨_, he⟩
      all_goals
        rw [he] at h ⊢
        cases h
      exact .stamped hc
  | looking doc =>
    simp only [step] at h ⊢
    split at h
    · next assembled hart => exact .found hart h
    · next hart =>
      cases h
      exact .absent hart
  | gathering doc idx pages =>
    simp only [step] at h ⊢
    split at h
    · next hlt =>
      rw [if_pos hlt]
      split at h <;> cases h
      · next shard hshard => exact .gathered hlt hshard
      · next hshard => exact .missing hlt hshard
    · next hge =>
      rw [if_neg hge]
      cases h
      exact .wrote hge
  | readingBack doc =>
    simp only [step] at h ⊢
    split at h
    · next assembled hart => exact .readBack hart h
    · cases h
  | routing gates result =>
    obtain ⟨_, _, h⟩ := World.transact_committed h fun _ he => nomatch he
    cases h
  | counting doc assembled =>
    simp only [step] at h ⊢
    rcases w.transact_cases (countAttempt docId) (fun attemptNo => .goto (.extracting assembled attemptNo))
      (.raised : LedgerError → Next Pc Result) with ⟨_, db, hc, he⟩ | ⟨_, he⟩
    all_goals
      rw [he] at h ⊢
      cases h
    exact .counted hc
  | extracting assembled attemptNo =>
    simp only [step] at h ⊢
    rcases w.transact_cases (funnelWrites docId verdict) _ _ with ⟨_, db, hc, he⟩ | ⟨_, he⟩
    · rw [he] at h ⊢
      split at h <;> cases h
      · next hnone => exact .rejected hc hnone
      · next fields hsome => exact .accepted hc hsome
    · rw [he] at h
      cases h
  | exhausted gates | holding fields gates =>
    obtain ⟨_, _, h⟩ := World.transact_committed h fun _ he => nomatch he
    cases h
  | checkingFlag assembled fields gates =>
    simp only [step] at h ⊢
    split at h
    · next hflag =>
      cases h
      rw [if_pos hflag]
      exact .enabled hflag
    · next hflag =>
      cases h
      rw [if_neg hflag]
      exact .disabled (Bool.eq_false_iff.mpr hflag)
  | posting assembled fields gates =>
    cases hk : w.db.holdsKey docId fields.seller fields.invoiceNo with
    | false =>
      -- were the key free, the transaction would commit and the run return
      obtain ⟨won, db, hc⟩ : ∃ won db, Commits (autoPost site docId assembled fields gates) w.db won db :=
        autoPost_total hk
      simp only [step, World.transact_of_commits _ _ hc] at h
      cases h
    | true =>
      simp only [step] at h ⊢
      rcases w.transact_cases (autoPost site docId assembled fields gates) _ _ with ⟨_, _, _, he⟩ | ⟨e, he⟩
      · rw [he] at h
        cases h
      · rw [he] at h ⊢
        split at h <;> cases h
        exact .taken hk

/-- Only the unique index sends a run to `review:duplicate`. -/
theorem step_duplicate {w : World} {verdict : Verdict} {pc : Pc} {gates : GateResults}
    (h : (step site docId verdict w pc).2 = .goto (.routing gates .reviewDuplicate)) :
    ∃ assembled fields gates', pc = .posting assembled fields gates' ∧
      w.db.holdsKey docId fields.seller fields.invoiceNo = true := by
  have hpages : ∀ (doc : Document) (assembled : Artifact),
      checkPages doc assembled ≠ .goto (.routing gates .reviewDuplicate) := by
    intro doc assembled he
    rcases checkPages_next doc assembled with ⟨_, hn⟩ | ⟨_, ⟨_, _, hn⟩ | ⟨_, hn⟩⟩ <;>
    · rw [hn] at he
      cases he
  generalize hw : (step site docId verdict w pc).1 = w'
  have hgoes := step_goes h
  rw [hw] at hgoes
  cases hgoes with
  | found _ hcheck => exact absurd hcheck (hpages _ _)
  | readBack _ hcheck => exact absurd hcheck (hpages _ _)
  | taken hk => exact ⟨_, _, _, rfl, hk⟩

/-- On a row that is there, these two always commit. -/
theorem countAttempt_commits {row : Document} (hrow : db.documents.lookup docId = some row) :
    ∃ n db', Commits (countAttempt docId) db n db' := by
  simp only [countAttempt, commits_bind, commits_pure]
  exact ⟨_, _, _, _, incrementAttempts_commits.mpr ⟨row, hrow, rfl, rfl⟩, ⟨⟩, _,
    updateDocument_commits.mpr (Or.inl ⟨_, Db.write_lookup_self .., rfl⟩), rfl, rfl⟩

theorem funnelWrites_commits {row : Document} {verdict : Verdict} (hrow : db.documents.lookup docId = some row) :
    ∃ db', Commits (funnelWrites docId verdict) db ⟨⟩ db' := by
  simp only [funnelWrites, commits_bind, logAttempts, commits_modify]
  exact ⟨_, ⟨⟩, _, updateDocument_commits.mpr (Or.inl ⟨row, hrow, rfl⟩), rfl⟩

/-- One step of a run performs what `Does` allows at its program counter. -/
theorem step_performs (w : World) (verdict : Verdict) (pc : Pc) :
    Performs (Does site docId w.db pc) w.db (step site docId verdict w pc).1.db := by
  cases pc with
  | opening =>
    refine w.transact_performs _ _ _ fun _ db h => ?_
    obtain ⟨row, hrow, hstate, rfl⟩ := openRun_commits.mp h
    refine Reaches.single .opening (.move hrow ?_ (by decide) (by decide))
    exact hstate.imp (fun hs => by rw [hs]; decide) id
  | selecting => exact Reaches.refl _
  | stamping doc =>
    cases doc with
    | none => exact Reaches.refl _
    | some doc =>
      exact w.transact_performs _ _ _ fun _ db h => performs_note h (fun _ => rfl) fun _ => .stamping
  | looking doc =>
    simp only [step]
    cases w.bucket.assembled docId <;> exact Reaches.refl _
  | gathering doc idx pages =>
    simp only [step]
    split
    · cases w.bucket.shardOutput docId idx <;> exact Reaches.refl _
    · exact Reaches.refl _
  | readingBack doc =>
    simp only [step]
    cases w.bucket.assembled docId <;> exact Reaches.refl _
  | routing gates result =>
    refine w.transact_performs _ _ _ fun _ db h => ?_
    rcases routeWithoutWriting_commits.mp h with ⟨_, row, hrow, rfl⟩ | ⟨_, _, rfl⟩
    · exact Reaches.single .routing (.route hrow)
    · exact Reaches.refl _
  | counting doc assembled =>
    refine w.transact_performs _ _ _ fun _ db h => ?_
    simp only [countAttempt, commits_bind, commits_pure] at h
    obtain ⟨_, m, hcount, _, m', hreset, _, rfl⟩ := h
    exact (performs_attempt hcount fun _ => .counting).trans
      (performs_note hreset (fun _ => rfl) fun _ => .counting)
  | extracting assembled attemptNo =>
    refine w.transact_performs _ _ _ fun _ db h => ?_
    simp only [funnelWrites, commits_bind] at h
    obtain ⟨_, m, hrepair, hlog⟩ := h
    rw [logAttempts, commits_modify] at hlog
    refine (performs_note hrepair (fun _ => rfl) fun _ => .funnel).trans (Reaches.single .logging (.aside ?_))
    rw [← hlog]
    exact ⟨rfl, rfl, rfl, rfl, rfl, rfl, rfl⟩
  | exhausted gates =>
    refine w.transact_performs _ _ _ fun _ db h => ?_
    rcases commitExtractionResult_commits.mp h with ⟨_, rfl, _⟩ | ⟨_, row, hrow, hnone, rfl⟩
    · exact Reaches.refl _
    · exact Reaches.single .exhausted (.settle hrow hnone)
  | checkingFlag assembled fields gates =>
    simp only [step]
    split <;> exact Reaches.refl _
  | holding fields gates =>
    refine w.transact_performs _ _ _ fun _ db h => ?_
    rcases commitExtractionResult_commits.mp h with ⟨_, rfl, _⟩ | ⟨_, row, hrow, hnone, rfl⟩
    · exact Reaches.refl _
    · exact Reaches.single .holding (.settle hrow hnone)
  | posting assembled fields gates =>
    refine w.transact_performs _ _ _ fun _ db h => ?_
    rcases autoPost_commits.mp h with
      ⟨_, rfl, _⟩ | ⟨row, hrow, hk, ⟨_, hnone, rfl⟩ | ⟨_, hnone, rfl⟩⟩
    · exact Reaches.refl _
    · exact Reaches.single .losing (.rekey hrow hnone hk)
    · exact Reaches.single .posting (.post hrow hnone hk ⟨rfl, rfl, rfl⟩)

/-- The two statements of the operations before the last one that matter to it: the row
stays, with its result and its page count, and nothing is sent. -/
structure Prepares (docId : DocId) (db db' : Db) : Prop where
  row : ∀ row, db.documents.lookup docId = some row → ∃ row', db'.documents.lookup docId = some row' ∧
    row'.extractionResult = row.extractionResult ∧ row'.pageCount = row.pageCount
  sent : db'.sent = db.sent

theorem Prepares.refl (docId : DocId) (db : Db) : Prepares docId db db :=
  ⟨fun row hrow => ⟨row, hrow, rfl, rfl⟩, rfl⟩

theorem Prepares.trans {m : Db} (h : Prepares docId db m) (k : Prepares docId m db') : Prepares docId db db' := by
  refine ⟨fun row hrow => ?_, k.sent.trans h.sent⟩
  obtain ⟨row₁, hrow₁, hres₁, hpages₁⟩ := h.row row hrow
  obtain ⟨row₂, hrow₂, hres₂, hpages₂⟩ := k.row row₁ hrow₁
  exact ⟨row₂, hrow₂, hres₂.trans hres₁, hpages₂.trans hpages₁⟩

theorem prepares_write {row row' : Document} (hrow : db.documents.lookup docId = some row)
    (hres : row'.extractionResult = row.extractionResult) (hpages : row'.pageCount = row.pageCount) :
    Prepares docId db (db.write docId row row') := by
  refine ⟨fun r hr => ?_, rfl⟩
  rw [hrow] at hr
  cases hr
  exact ⟨row', Db.write_lookup_self .., hres, hpages⟩

/-- A step after which the run goes on prepares, or has left everything alone. -/
theorem step_prepares {w : World} {verdict : Verdict} {pc pc' : Pc}
    (h : (step site docId verdict w pc).2 = .goto pc') :
    Prepares docId w.db (step site docId verdict w pc).1.db := by
  have hperforms : Performs (Does site docId w.db pc) w.db (step site docId verdict w pc).1.db :=
    step_performs w verdict pc
  have hrun : (∀ db op, Does site docId w.db pc db op →
        op = .move docId .extractRunning ∨ op = .aside ∨ ∃ notes, op = .note docId notes) →
      Prepares docId w.db (step site docId verdict w pc).1.db := by
    intro hops
    refine hperforms.relates (Prepares.refl docId) (fun _ _ _ h k => h.trans k) fun db op db' hd hs => ?_
    rcases hops db op hd with rfl | rfl | ⟨notes, rfl⟩
    · cases hs with
      | move hrow _ _ _ => exact prepares_write hrow rfl rfl
    · cases hs with
      | aside hsame =>
        exact ⟨fun row hrow => ⟨row, by rw [hsame.documents, hrow], rfl, rfl⟩, hsame.sent⟩
    · cases hs with
      | note hrow => exact prepares_write hrow rfl rfl
  cases pc with
  | opening | selecting | stamping | looking | gathering | readingBack | counting | extracting | checkingFlag =>
    refine hrun fun db op hd => ?_
    cases hd
    all_goals simp
  | routing | exhausted | holding =>
    obtain ⟨_, _, h⟩ := World.transact_committed h fun _ he => nomatch he
    cases h
  | posting assembled fields gates =>
    simp only [step] at h ⊢
    rcases w.transact_cases (autoPost site docId assembled fields gates) _ _ with ⟨_, _, _, he⟩ | ⟨_, he⟩
    · rw [he] at h
      cases h
    · rw [he]
      exact Prepares.refl docId w.db

end DocPipeline.Extraction

import DocPipeline.Audit.Delivery

/-!
# Can a re-drive into extraction succeed?

The commit of a run takes effect only where no result is recorded, and nothing ever
clears a result: a document whose first run has exhausted the gates holds an empty one.
A run that is alone and that nothing goes wrong for posts exactly when it starts without
a result. Otherwise it is discarded, and leaves the document in `extract_running`.
-/
namespace DocPipeline.Audit

set_option autoImplicit false

open Lib Lib.Transaction Lifecycle Sys

variable {site : Deployment} {s t : Sys} {a : Action} {tid : Nat} {d : DocId} {fields : Fields}

/-! ## A run that is alone -/

/-- What a run depends on of its document: the result and the page count of the row, the
artifact, and how often the document has been announced. -/
def footprint (d : DocId) (w : World) : Option (Option Fields × Option Nat) × Option Artifact × Nat :=
  ((w.db.documents.lookup d).map fun row => (row.extractionResult, row.pageCount), w.bucket.assembled d,
    w.db.sent.countP (announces d))

def ownStep (tid : Nat) : Action → Bool
  | .run i _ => decide (i = tid)
  | _ => false

/-- The run in `tid` is in progress and goes on, and the others leave its footprint alone. -/
def lone (site : Deployment) (tid : Nat) (d : DocId) (s : Sys) (a : Action) : Bool :=
  (s.tasks tid).isSome && (match a with | .crash i => decide (i ≠ tid) | _ => true) &&
    (ownStep tid a || (s.step site a).all fun t => decide (footprint d t.world = footprint d s.world))

/-- Nothing goes wrong either: the opening finds the document waiting, the funnel returns
`fields`, auto-posting is on, and no other document holds the key. -/
def smooth (site : Deployment) (tid : Nat) (d : DocId) (fields : Fields) (s : Sys) (a : Action) : Bool :=
  lone site tid d s a &&
  match a with
  | .run i input =>
    decide (i ≠ tid) ||
    match s.tasks tid with
    | some (.extraction _ .opening) => (s.document d).any fun row => row.state = .extractPending
    | some (.extraction _ (.extracting _ _)) => decide (input.verdict.fields = some fields)
    | some (.extraction _ (.checkingFlag _ _ _)) => Ledger.getFeatureFlag s.db Extraction.autoPostFlag true
    | some (.extraction _ (.posting _ _ _)) => !s.db.holdsKey d fields.seller fields.invoiceNo
    | _ => true
  | _ => true

/-- The steps of others leave a lone run where it is. -/
theorem others_of_lone (hg : lone site tid d s a = true) (hown : ownStep tid a = false)
    (hs : Step site s a t) : t.tasks tid = s.tasks tid ∧ footprint d t.world = footprint d s.world := by
  simp only [lone, hown, Bool.false_or, Bool.and_eq_true] at hg
  obtain ⟨⟨halive, hcrash⟩, hfoot⟩ := hg
  unfold Sys.Step at hs
  rw [hs, Option.all_some, decide_eq_true_eq] at hfoot
  obtain ⟨task, htask⟩ := Option.isSome_iff_exists.mp halive
  refine ⟨(task_kept hs htask (fun input he => ?_) fun he => ?_).trans htask.symm, hfoot⟩
  · rw [he] at hown
    exact absurd hown (by simp [ownStep])
  · rw [he] at hcrash
    exact of_decide_eq_true hcrash rfl

theorem own_of_ownStep (h : ownStep tid a = true) : ∃ input, a = .run tid input := by
  cases a with
  | run i input => exact ⟨input, by rw [of_decide_eq_true h]⟩
  | tick | spawn | receive | crash | relay | sink => cases h

/-- The own step of an extraction run. -/
theorem extraction_own {pc : Extraction.Pc} {input : Input} (htask : s.tasks tid = some (.extraction d pc))
    (hs : Step site s (.run tid input) t) :
    t.world = (Extraction.step site d input.verdict s.world pc).1 ∧
    t.tasks tid = (Extraction.step site d input.verdict s.world pc).2.task (.extraction d) ∧
    t.log = (Task.extraction d pc).landmark site s.world input tid ++ s.log := by
  obtain ⟨task, r, htask', hr, rfl⟩ := runTask_eq hs
  rw [htask] at htask'
  cases htask'
  cases hr
  exact ⟨rfl, if_pos rfl, rfl⟩

theorem footprint_of_prepares {w w' : World} (hp : Extraction.Prepares d w.db w'.db)
    (hrow : w.db.documents.lookup d ≠ none) (hb : w'.bucket = w.bucket) : footprint d w' = footprint d w := by
  obtain ⟨row, hrow⟩ := Option.ne_none_iff_exists'.mp hrow
  obtain ⟨row', hrow', hres, hpages⟩ := hp.row row hrow
  simp only [footprint, hrow, hrow', hres, hpages, hp.sent, hb, Option.map_some]

/-! ## A run that returns -/

/-- A run in progress that may still record a result. -/
structure Blank (d : DocId) (pc : Extraction.Pc) (w : World) : Prop where
  row : ∃ row, w.db.documents.lookup d = some row ∧ row.extractionResult = none
  known : pc ≠ .stamping none

theorem blank_footprint {pc : Extraction.Pc} {w w' : World} (h : Blank d pc w)
    (hf : footprint d w' = footprint d w) : Blank d pc w' := by
  obtain ⟨⟨row, hrow, hnone⟩, hknown⟩ := h
  have hsome := congrArg Prod.fst hf
  simp only [footprint, hrow, Option.map_some, Option.map_eq_some_iff] at hsome
  obtain ⟨row', hrow', heq⟩ := hsome
  exact ⟨⟨row', hrow', (Prod.mk.inj heq).1.trans hnone⟩, hknown⟩

theorem blank_goto {verdict : Extraction.Verdict} {w : World} {pc pc' : Extraction.Pc} (h : Blank d pc w)
    (hgoto : (Extraction.step site d verdict w pc).2 = .goto pc') :
    Blank d pc' (Extraction.step site d verdict w pc).1 := by
  obtain ⟨⟨row, hrow, hnone⟩, _⟩ := h
  obtain ⟨row', hrow', hres, _⟩ := (Extraction.step_prepares hgoto).row row hrow
  refine ⟨⟨row', hrow', hres.trans hnone⟩, fun hpc => ?_⟩
  -- only `selecting` leads to `stamping`, with the row it finds
  rw [hpc] at hgoto
  have hpages : ∀ (doc : Document) (assembled : Artifact),
      Extraction.checkPages doc assembled ≠ .goto (.stamping none) := by
    intro doc assembled he
    rcases Extraction.checkPages_goto he with hpc | ⟨_, hpc⟩ <;> cases hpc
  have hgoes := Extraction.step_goes hgoto
  generalize (Extraction.step site d verdict w pc).1 = w' at hgoes
  generalize hnext : Extraction.Pc.stamping none = next at hgoes
  cases hgoes with
  | selected =>
    rw [Extraction.Pc.stamping.injEq, Ledger.getDocument, hrow] at hnext
    cases hnext
  | found _ hcheck | readBack _ hcheck => exact hpages _ _ (hnext ▸ hcheck)
  | opened | stamped | absent | gathered | missing | wrote | counted | rejected | accepted | enabled | disabled | taken =>
    cases hnext

/-- A run that returns with its document still without a result closes it. -/
theorem blank_returned {verdict : Extraction.Verdict} {w : World} {pc : Extraction.Pc}
    {result : Extraction.Result} (h : Blank d pc w)
    (hret : (Extraction.step site d verdict w pc).2 = .returned result) :
    ∃ row, (Extraction.step site d verdict w pc).1.db.documents.lookup d = some row ∧
      (row.state = .review ∨ row.state = .complete) := by
  obtain ⟨⟨row, hrow, hnone⟩, hknown⟩ := h
  have hreturns := Extraction.step_returns hret
  generalize (Extraction.step site d verdict w pc).1.db = db' at hreturns ⊢
  have hsettled : ∀ {fields : Fields} {gates : GateResults} {won : Bool},
      Commits (Ledger.commitExtractionResult d fields gates .review none) w.db won db' →
      ∃ row, db'.documents.lookup d = some row ∧ (row.state = .review ∨ row.state = .complete) := by
    intro fields gates won hc
    rcases Ledger.commitExtractionResult_commits.mp hc with ⟨_, _, hlost⟩ | ⟨_, row', hrow', _, rfl⟩
    · exact absurd hnone (hlost row hrow)
    · exact ⟨_, Db.write_lookup_self .., Or.inl rfl⟩
  cases hreturns with
  | unknown _ => exact absurd rfl hknown
  | routed hc =>
    rcases Ledger.routeWithoutWriting_commits.mp hc with ⟨_, row', hrow', rfl⟩ | ⟨_, hlost, _⟩
    · exact ⟨_, Db.write_lookup_self .., Or.inl rfl⟩
    · rw [hrow] at hlost
      cases hlost
  | exhausted hc | held hc => exact hsettled hc
  | posted hc =>
    rcases Extraction.autoPost_commits.mp hc with ⟨_, _, hlost⟩ | ⟨row', hrow', _, ⟨_, hsome, _⟩ | ⟨_, _, rfl⟩⟩
    · rw [hrow] at hlost
      cases hlost
    · rw [hrow] at hrow'
      cases hrow'
      exact absurd hnone hsome
    · exact ⟨_, by rw [Db.insertOutbox_documents, Db.write_lookup_self], Or.inr rfl⟩

/-- A lone run that starts without a result closes its document when it returns. -/
theorem lone_run_closes {as : List Action} {input : Input} {result : Extraction.Result} {m : Sys} {row : Document}
    (htask : s.tasks tid = some (.extraction d .opening)) (hrow : s.document d = some row)
    (hnone : row.extractionResult = none) (h : GuardedRun site (fun s a => lone site tid d s a = true) s as m)
    (hs : Step site m (.run tid input) t) (hlog : t.log = .returned tid d result :: m.log) :
    ∃ row', t.document d = some row' ∧ (row'.state = .review ∨ row'.state = .complete) := by
  have hinv : m.tasks tid = none ∨ ∃ pc, m.tasks tid = some (.extraction d pc) ∧ Blank d pc m.world := by
    refine h.invariant (P := fun m => m.tasks tid = none ∨
      ∃ pc, m.tasks tid = some (.extraction d pc) ∧ Blank d pc m.world)
      (Or.inr ⟨.opening, htask, ⟨row, hrow, hnone⟩, fun he => nomatch he⟩) fun m a u hi hg hs => ?_
    cases hown : ownStep tid a with
    | false =>
      obtain ⟨hkept, hfoot⟩ := others_of_lone hg hown hs
      rw [hkept]
      exact hi.imp id fun ⟨pc, hpc, hb⟩ => ⟨pc, hpc, blank_footprint hb hfoot⟩
    | true =>
      obtain ⟨input, rfl⟩ := own_of_ownStep hown
      rcases hi with hdone | ⟨pc, hpc, hb⟩
      · simp [lone, hdone] at hg
      · obtain ⟨hw, hnext, _⟩ := extraction_own hpc hs
        rw [hnext, hw]
        cases hstep : (Extraction.step site d input.verdict m.world pc).2 with
        | goto pc' => exact Or.inr ⟨pc', rfl, blank_goto hb hstep⟩
        | returned _ | raised _ => exact Or.inl rfl
  rcases hinv with hdone | ⟨pc, hpc, hb⟩
  · obtain ⟨task, _, htask', _⟩ := runTask_eq hs
    rw [hdone] at htask'
    cases htask'
  · obtain ⟨hw, _, hlog'⟩ := extraction_own hpc hs
    have hmem : Landmark.returned tid d result ∈ (Task.extraction d pc).landmark site m.world input tid := by
      have hnew : (Task.extraction d pc).landmark site m.world input tid = [.returned tid d result] := by
        have heq : _ ++ m.log = [Landmark.returned tid d result] ++ m.log := hlog'.symm.trans hlog
        exact List.append_cancel_right heq
      rw [hnew]
      exact List.mem_singleton.mpr rfl
    obtain ⟨_, pc', hpc', hret⟩ := returned_of_landmark hmem
    cases hpc'
    rw [document, hw]
    exact blank_returned hb hret

/-! ## A run that nothing goes wrong for -/

/-- Where a smooth run is after `k` steps of its own. -/
inductive Phase (n : Nat) (artifact : Artifact) (fields : Fields) : Nat → Extraction.Pc → Prop
  | opening : Phase n artifact fields 0 .opening
  | selecting : Phase n artifact fields 1 .selecting
  | stamping {doc : Document} : doc.pageCount = some n → Phase n artifact fields 2 (.stamping (some doc))
  | looking {doc : Document} : doc.pageCount = some n → Phase n artifact fields 3 (.looking doc)
  | counting {doc : Document} : Phase n artifact fields 4 (.counting doc artifact)
  | extracting {attemptNo : Nat} : Phase n artifact fields 5 (.extracting artifact attemptNo)
  | checkingFlag {gates : GateResults} : Phase n artifact fields 6 (.checkingFlag artifact fields gates)
  | posting {gates : GateResults} : Phase n artifact fields 7 (.posting artifact fields gates)

theorem Phase.lt {n : Nat} {artifact : Artifact} {k : Nat} {pc : Extraction.Pc}
    (h : Phase n artifact fields k pc) : k < 8 := by
  cases h <;> decide

/-- The document is complete with these fields, and has been announced once since `s`. -/
def Completes (s t : Sys) (d : DocId) (fields : Fields) : Prop :=
  (∃ row, t.document d = some row ∧ row.state = .complete ∧ row.extractionResult = some fields) ∧
    t.db.sent.countP (announces d) = s.db.sent.countP (announces d) + 1

variable {n : Nat} {artifact : Artifact} {k : Nat} {pc : Extraction.Pc} {input : Input} {row : Document}

/-- A step before the last one leads to the next phase, and leaves the bucket alone. -/
theorem phase_next (hp : Phase n artifact fields k pc) (htask : s.tasks tid = some (.extraction d pc))
    (hg : smooth site tid d fields s (.run tid input) = true) (hrow : s.document d = some row)
    (hpages : row.pageCount = some n) (hart : s.world.bucket.assembled d = some artifact)
    (hpass : (completeness (artifact.pages.map Page.pageNo) n).outcome = .pass) (hk : k < 7) :
    (∃ pc', (Extraction.step site d input.verdict s.world pc).2 = .goto pc' ∧
      Phase n artifact fields (k + 1) pc') ∧
    (Extraction.step site d input.verdict s.world pc).1.bucket = s.world.bucket := by
  simp only [smooth, htask, decide_not, decide_true, Bool.not_true, Bool.false_or, Bool.and_eq_true] at hg
  have hdoc : s.world.db.documents.lookup d = some row := hrow
  cases hp with
  | opening =>
    obtain ⟨_, hstate⟩ := hg
    rw [hrow, Option.any_some, decide_eq_true_eq] at hstate
    have hc : Commits (Extraction.openRun d) s.world.db ⟨⟩ _ :=
      Extraction.openRun_commits.mpr ⟨row, hdoc, Or.inl hstate, rfl⟩
    rw [Extraction.step, World.transact_of_commits _ _ hc]
    exact ⟨⟨_, rfl, .selecting⟩, rfl⟩
  | selecting =>
    refine ⟨⟨_, rfl, ?_⟩, rfl⟩
    rw [Ledger.getDocument, hdoc]
    exact .stamping hpages
  | @stamping doc hn =>
    have hc : Commits (Ledger.stampBuildInfo d site.buildSha site.promptVersion) s.world.db ⟨⟩ _ :=
      Ledger.updateDocument_commits.mpr (Or.inl ⟨row, hdoc, rfl⟩)
    rw [Extraction.step, World.transact_of_commits _ _ hc]
    exact ⟨⟨_, rfl, .looking hn⟩, rfl⟩
  | @looking doc hn =>
    simp only [Extraction.step, hart, Extraction.checkPages, hn, hpass, if_true, and_true]
    exact ⟨_, rfl, .counting⟩
  | counting =>
    obtain ⟨attemptNo, db, hc⟩ := Extraction.countAttempt_commits hdoc
    rw [Extraction.step, World.transact_of_commits _ _ hc]
    exact ⟨⟨_, rfl, .extracting⟩, rfl⟩
  | extracting =>
    obtain ⟨_, hverdict⟩ := hg
    obtain ⟨_, hc⟩ : ∃ db, Commits (Extraction.funnelWrites d input.verdict) s.world.db ⟨⟩ db :=
      Extraction.funnelWrites_commits hdoc
    rw [Extraction.step, World.transact_of_commits _ _ hc, of_decide_eq_true hverdict]
    exact ⟨⟨_, rfl, .checkingFlag⟩, rfl⟩
  | checkingFlag =>
    obtain ⟨_, hflag⟩ := hg
    rw [Extraction.step, if_pos hflag]
    exact ⟨⟨_, rfl, .posting⟩, rfl⟩
  | posting => exact absurd hk (Nat.lt_irrefl 7)

/-- The last step posts exactly when no result is recorded. -/
theorem phase_last {gates : GateResults} (htask : s.tasks tid = some (.extraction d (.posting artifact fields gates)))
    (hg : smooth site tid d fields s (.run tid input) = true) (hrow : s.document d = some row)
    (hs : Step site s (.run tid input) t) :
    t.tasks tid = none ∧ (Completes s t d fields ↔ row.extractionResult = none) := by
  simp only [smooth, htask, decide_not, decide_true, Bool.not_true, Bool.false_or, Bool.and_eq_true,
    Bool.not_eq_true'] at hg
  obtain ⟨hw, hnext, _⟩ := extraction_own htask hs
  obtain ⟨won, m, hc⟩ : ∃ won m, Commits (Extraction.autoPost site d artifact fields gates) s.world.db won m :=
    Extraction.autoPost_total hg.2
  rw [Extraction.step, World.transact_of_commits _ _ hc] at hw hnext
  refine ⟨hnext, ?_⟩
  simp only [Completes, document, db, hw]
  rcases Extraction.autoPost_commits.mp hc with ⟨_, _, hnone⟩ | ⟨row', hrow', _, ⟨_, hsome, rfl⟩ | ⟨_, hnone, rfl⟩⟩
  · rw [show s.world.db.documents.lookup d = some row from hrow] at hnone
    cases hnone
  · rw [show s.world.db.documents.lookup d = some row from hrow] at hrow'
    cases hrow'
    refine ⟨fun hposted => ?_, fun hnone => absurd hnone hsome⟩
    exact absurd hposted.2 (Nat.ne_of_lt (Nat.lt_succ_self _))
  · rw [show s.world.db.documents.lookup d = some row from hrow] at hrow'
    cases hrow'
    refine ⟨fun _ => hnone, fun _ => ⟨⟨_, Db.write_lookup_self _ d row _, rfl, rfl⟩, ?_⟩⟩
    rw [Db.insertOutbox_sent, List.countP_cons_of_pos (by simp [announces])]
    rfl

theorem footprint_row {w w' : World} {row : Document} (h : footprint d w' = footprint d w)
    (hrow : w.db.documents.lookup d = some row) : ∃ row', w'.db.documents.lookup d = some row' ∧
      row'.extractionResult = row.extractionResult ∧ row'.pageCount = row.pageCount := by
  have hfirst := congrArg Prod.fst h
  simp only [footprint, hrow, Option.map_some, Option.map_eq_some_iff, Prod.mk.injEq] at hfirst
  exact hfirst

/-- Where a smooth run is, and what it has made of its document when it is over. -/
structure SmoothRun (s : Sys) (tid : Nat) (d : DocId) (row : Document) (n : Nat) (artifact : Artifact)
    (fields : Fields) (k : Nat) (t : Sys) : Prop where
  running : t.tasks tid ≠ none → ∃ pc, t.tasks tid = some (.extraction d pc) ∧ Phase n artifact fields k pc ∧
    footprint d t.world = footprint d s.world
  finished : t.tasks tid = none → k = 8 ∧ (Completes s t d fields ↔ row.extractionResult = none)

theorem smoothRun_step {m u : Sys} (hrow : s.document d = some row) (hpages : row.pageCount = some n)
    (hart : s.world.bucket.assembled d = some artifact)
    (hpass : (completeness (artifact.pages.map Page.pageNo) n).outcome = .pass)
    (hi : SmoothRun s tid d row n artifact fields k m) (hg : smooth site tid d fields m a = true)
    (hs : Step site m a u) :
    SmoothRun s tid d row n artifact fields (k + if ownStep tid a then 1 else 0) u := by
  have hlone : lone site tid d m a = true := by
    simp only [smooth, Bool.and_eq_true] at hg
    exact hg.1
  have halive : m.tasks tid ≠ none := by
    simp only [lone, Bool.and_eq_true] at hlone
    exact Option.isSome_iff_ne_none.mp hlone.1.1
  obtain ⟨pc, hpc, hphase, hfoot⟩ := hi.running halive
  cases hown : ownStep tid a with
  | false =>
    obtain ⟨hkept, hother⟩ := others_of_lone hlone hown hs
    refine ⟨fun _ => ⟨pc, hkept.trans hpc, hphase, hother.trans hfoot⟩, fun hdone => ?_⟩
    exact absurd (hkept.symm.trans hdone) halive
  | true =>
    obtain ⟨input, rfl⟩ := own_of_ownStep hown
    obtain ⟨row', hrow', hres, hpages'⟩ := footprint_row hfoot hrow
    have hart' : m.world.bucket.assembled d = some artifact :=
      (congrArg (fun f => f.2.1) hfoot).trans hart
    by_cases hk : k < 7
    · obtain ⟨⟨pc', hgoto, hphase'⟩, hbucket⟩ :=
        phase_next hphase hpc hg hrow' (hpages'.trans hpages) hart' hpass hk
      obtain ⟨hw, hnext, _⟩ := extraction_own hpc hs
      rw [hgoto] at hnext
      refine ⟨fun _ => ⟨pc', hnext, hphase', ?_⟩, fun hdone => ?_⟩
      · rw [hw, ← hfoot]
        exact footprint_of_prepares (Extraction.step_prepares hgoto) (by rw [hrow']; exact Option.some_ne_none _)
          hbucket
      · rw [hnext] at hdone
        cases hdone
    · have hlast : k = 7 := by
        have := hphase.lt
        omega
      subst hlast
      cases hphase with
      | posting =>
        obtain ⟨hdone, hiff⟩ := phase_last hpc hg hrow' hs
        refine ⟨fun hne => absurd hdone hne, fun _ => ⟨rfl, ?_⟩⟩
        have hcount : m.db.sent.countP (announces d) = s.db.sent.countP (announces d) :=
          congrArg (fun f => f.2.2) hfoot
        rw [← hres, ← hiff, Completes, Completes, hcount]

/-- A smooth run can always go on, is over after eight steps of its own, and then has
completed its document exactly if it had found no result. And a run that is only alone
closes its document when it returns, if it had found no result. -/
theorem redriven_run_completes {row : Document} (htask : s.tasks tid = some (.extraction d .opening))
    (hrow : s.document d = some row) :
    (∀ n artifact fields as t, row.pageCount = some n → s.world.bucket.assembled d = some artifact →
      (completeness (artifact.pages.map Page.pageNo) n).outcome = .pass →
      GuardedRun site (fun s a => smooth site tid d fields s a = true) s as t →
        (t.tasks tid ≠ none → as.countP (ownStep tid) < 8 ∧ ∀ input, ∃ u, Step site t (.run tid input) u) ∧
        (t.tasks tid = none → as.countP (ownStep tid) = 8 ∧
          (Completes s t d fields ↔ row.extractionResult = none))) ∧
    (row.extractionResult = none → ∀ as m t input result,
      GuardedRun site (fun s a => lone site tid d s a = true) s as m → Step site m (.run tid input) t →
      t.log = .returned tid d result :: m.log →
        ∃ row', t.document d = some row' ∧ (row'.state = .review ∨ row'.state = .complete)) := by
  refine ⟨fun n artifact fields as t hpages hart hpass h => ?_, fun hnone as m t input result h hs hlog =>
    lone_run_closes htask hrow hnone h hs hlog⟩
  have hrun : SmoothRun s tid d row n artifact fields (as.countP (ownStep tid)) t := by
    induction h with
    | nil => exact ⟨fun _ => ⟨.opening, htask, .opening, rfl⟩, fun hdone => by rw [htask] at hdone; cases hdone⟩
    | @snoc m u as a _ hg hs ih =>
      rw [List.countP_append, List.countP_singleton]
      exact smoothRun_step hrow hpages hart hpass ih hg hs
  refine ⟨fun halive => ?_, hrun.finished⟩
  obtain ⟨pc, hpc, hphase, _⟩ := hrun.running halive
  refine ⟨hphase.lt, fun input => ?_⟩
  unfold Sys.Step step runTask
  simp only [hpc, Task.step, Option.map_some]
  exact ⟨_, rfl⟩

/-- The run in `tid` is about to open a document of `n` pages whose artifact is complete. -/
def aboutToOpen (s : Sys) (tid : Nat) (d : DocId) (n : Nat) : Bool :=
  (match s.tasks tid with
    | some (.extraction docId .opening) => decide (docId = d)
    | _ => false) &&
  ((s.document d).any fun row => row.pageCount = some n) &&
  (s.world.bucket.assembled d).any fun artifact =>
    (completeness (artifact.pages.map Page.pageNo) n).outcome = .pass

theorem aboutToOpen_inv (h : aboutToOpen s tid d n = true) :
    s.tasks tid = some (.extraction d .opening) ∧ ∃ row artifact, s.document d = some row ∧
      row.pageCount = some n ∧ s.world.bucket.assembled d = some artifact ∧
      (completeness (artifact.pages.map Page.pageNo) n).outcome = .pass := by
  simp only [aboutToOpen, Bool.and_eq_true, Option.any_eq_true, decide_eq_true_eq] at h
  obtain ⟨⟨htask, row, hrow, hpages⟩, artifact, hart, hpass⟩ := h
  split at htask
  · next docId heq =>
    obtain rfl := of_decide_eq_true htask
    exact ⟨heq, row, artifact, hrow, hpages, hart, hpass⟩
  · cases htask

/-- A run with nothing in its way, the funnel's answer at its sixth step. -/
def goodRun (tid : Nat) (seller : String) : List Action :=
  Schedule.turns tid 5 ++ [.run tid { verdict := verdictOn (reads seller) }] ++ Schedule.turns tid 2

/-- The second scan was sent to review without a result, and its re-drive reads another seller. -/
def duplicateRedriven : List Action :=
  postedOnceEach ++ Schedule.forceRedrive 2 "crc32c-b" ++ Schedule.publish 2 ++ [.receive 2 .ocrCompleted 0 2]

theorem redriven_duplicate_completes :
    ∃ s t row, FreeRun twoScans initial duplicateRedriven s ∧ s.document "crc32c-b" = some row ∧
      row.extractionResult = none ∧
      GuardedRun twoScans (fun s a => smooth twoScans 2 "crc32c-b" sellerB s a = true) s (goodRun 2 "B") t ∧
      Completes s t "crc32c-b" sellerB := by
  obtain ⟨s, hrun, hs⟩ := exists_freeRun twoScans duplicateRedriven
    (fun s => aboutToOpen s 2 "crc32c-b" 1 &&
      ((s.document "crc32c-b").all fun row => row.extractionResult = none) &&
      (execWhile (step twoScans) (smooth twoScans 2 "crc32c-b" sellerB) s (goodRun 2 "B")).any fun t =>
        (t.tasks 2).isNone) (by decide +kernel)
  simp only [Bool.and_eq_true, Option.any_eq_true] at hs
  obtain ⟨⟨hopen, hnone⟩, t, ht, hover⟩ := hs
  obtain ⟨htask, row, artifact, hrow, hpages, hart, hpass⟩ := aboutToOpen_inv hopen
  rw [hrow, Option.all_some, decide_eq_true_eq] at hnone
  have hgood := run_of_execWhile ht
  have hresult := (redriven_run_completes htask hrow).1 1 artifact sellerB _ t hpages hart hpass hgood
  exact ⟨s, t, row, hrun, hrow, hnone, hgood, (hresult.2 (Option.isNone_iff_eq_none.mp hover)).2.mpr hnone⟩

/-- The gates are exhausted, which records an empty result and sends the document to review. -/
def exhausted : List Action :=
  Schedule.intake ["a.pdf"] ++ Schedule.textLayer 0 ++ Schedule.extract 1 0 (verdictOn (.invalid ["total_cents"])) ++
    Schedule.turns 1 1

/-- The re-drive of such a document is discarded, whatever it reads. -/
theorem redriven_exhausted_discarded :
    ¬ ∀ (site : Deployment) (before delivery as : List Action) (s₀ s t : Sys) (tid n : Nat) (d : DocId)
        (fields : Fields),
      FreeRun site initial before s₀ →
      ((s₀.document d).any fun row => row.state = .review || row.state = .failed) = true →
      FreeRun site s₀ (Schedule.forceRedrive tid d ++ delivery) s → aboutToOpen s tid d n = true →
      GuardedRun site (fun s a => smooth site tid d fields s a = true) s as t → t.tasks tid = none →
        Completes s t d fields := by
  intro hclaim
  obtain ⟨s₀, hbefore, hs⟩ := exists_judgedRun oneInvoice (fun _ => .invalid ["total_cents"]) exhausted
    (fun s => ((s.document "crc32c-a").any fun row => row.state = .review || row.state = .failed) &&
      (exec oneInvoice s (Schedule.forceRedrive 1 "crc32c-a" ++
        (Schedule.publish 1 ++ [.receive 1 .ocrCompleted 0 1]))).any fun s =>
        aboutToOpen s 1 "crc32c-a" 1 &&
        (execWhile (step oneInvoice) (smooth oneInvoice 1 "crc32c-a" sellerA) s (goodRun 1 "A")).any fun t =>
          (t.tasks 1).isNone && (t.document "crc32c-a").all fun row => row.state = .extractRunning) (by decide +kernel)
  rw [Bool.and_eq_true] at hs
  obtain ⟨hstate, hs⟩ := hs
  obtain ⟨s, hredrive, hs⟩ := (Option.any_eq_true ..).mp hs
  rw [Bool.and_eq_true] at hs
  obtain ⟨hopen, hs⟩ := hs
  obtain ⟨t, hgood, ht⟩ := (Option.any_eq_true ..).mp hs
  rw [Bool.and_eq_true, Option.isNone_iff_eq_none] at ht
  obtain ⟨hover, hrunning⟩ := ht
  obtain ⟨⟨row, hrow, hcomplete, _⟩, _⟩ := hclaim oneInvoice _ _ _ s₀ s t 1 1 "crc32c-a" sellerA hbefore hstate
    (freeRun_of_exec hredrive) hopen (run_of_execWhile hgood) hover
  rw [hrow, Option.all_some, decide_eq_true_eq] at hrunning
  rw [hrunning] at hcomplete
  cases hcomplete

end DocPipeline.Audit

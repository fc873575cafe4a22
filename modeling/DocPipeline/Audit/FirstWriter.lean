import DocPipeline.Audit.Posting

/-!
# Does the first writer win the whole record?

The guard of the commit protects `extraction_result`. The key is written before it, and
the routes that carry no result have no guard at all, so a run that lost can still
overwrite what the winner left. The theorem is about the runs in which it does not.
-/
namespace DocPipeline

set_option autoImplicit false

/-- What a first writer leaves: the state, the result, the gates and the key. -/
def Document.written (row : Document) : DocState × Option Fields × GateResults × Option String × Option String :=
  (row.state, row.extractionResult, row.gateResults, row.vendor, row.invoiceNo)

namespace Audit

open Lib Lifecycle Sys

variable {site : Deployment} {s t : Sys} {a : Action} {d : DocId}
  {w : DocState × Option Fields × GateResults × Option String × Option String}

/-- The step is the one in which a run's commit records the result. -/
def wins (s : Sys) (a : Action) (t : Sys) (d : DocId) : Bool :=
  (match a with
    | .run tid _ =>
      match s.tasks tid with
      | some (.extraction docId _) => decide (docId = d)
      | _ => false
    | _ => false) &&
  ((s.document d).any fun row => row.extractionResult = none) &&
  (t.document d).any fun row => row.extractionResult ≠ none

/-- An operator's transaction on the document. -/
def operatorActs (d : DocId) (s : Sys) : Action → Bool
  | .run tid _ =>
    match s.tasks tid with
    | some (.forceRedrive docId _ _ (.committing _ _)) => decide (docId = d)
    | some (.acceptReview docId _ _ (.committing _)) => decide (docId = d)
    | _ => false
  | _ => false

/-- A run that posts finds its key taken, or finds it on the document already; one that
routes finds the document in `review` with the gates it writes. -/
def leavesRecord (d : DocId) (s : Sys) : Action → Bool
  | .run tid _ =>
    match s.tasks tid with
    | some (.extraction docId pc) =>
      decide (docId ≠ d) || (s.document d).all fun row =>
        match pc with
        | .posting _ fields _ =>
          s.db.holdsKey d fields.seller fields.invoiceNo || decide (pair fields = (row.vendor, row.invoiceNo))
        | .routing gates _ => decide (row.state = .review) && decide (row.gateResults = gates)
        | _ => true
    | _ => true
  | _ => true

/-- The steps the theorem is about. -/
def afterWin (d : DocId) (s : Sys) (a : Action) : Bool := !operatorActs d s a && leavesRecord d s a

/-- The record has its result and has left the states in flight. -/
def Closed (db : Db) (d : DocId) (w : DocState × Option Fields × GateResults × Option String × Option String) :
    Prop :=
  ∃ row, db.documents.lookup d = some row ∧ row.written = w ∧ row.extractionResult ≠ none ∧
    (row.state = .review ∨ row.state = .complete)

theorem closed_write {db : Db} {docId : DocId} {row row' : Document} (h : Closed db d w)
    (hrow : db.documents.lookup docId = some row) (hsame : docId = d → row'.written = row.written) :
    Closed (db.write docId row row') d w := by
  by_cases hd : docId = d
  · subst hd
    obtain ⟨r, hr, hw, hres, hstate⟩ := h
    rw [hrow] at hr
    cases hr
    have heq := hsame rfl
    simp only [Document.written, Prod.mk.injEq] at heq
    refine ⟨row', Db.write_lookup_self .., (hsame rfl).trans hw, ?_, ?_⟩
    · rw [heq.2.1]
      exact hres
    · rw [heq.1]
      exact hstate
  · obtain ⟨r, hr, hrest⟩ := h
    exact ⟨r, by rw [Db.write_lookup, if_neg fun he => hd he.symm, hr], hrest⟩

theorem Closed.congr {db db' : Db} (h : Closed db d w) (hd : db'.documents = db.documents) : Closed db' d w := by
  obtain ⟨row, hrow, hrest⟩ := h
  exact ⟨row, by rw [hd, hrow], hrest⟩

/-- Only a re-drive moves a closed document, and it moves it to `extract_pending`. -/
theorem moves_closed {db : Db} {row : Document} {toState : DocState} (h : Closed db d w)
    (hrow : db.documents.lookup d = some row)
    (hallowed : (row.state, toState) ∈ Ledger.allowedTransitions ∨ row.state = toState)
    (hc : toState ≠ .complete) (hr : toState ≠ .review) : row.state = .review ∧ toState = .extractPending := by
  obtain ⟨row', hrow', _, _, hstate⟩ := h
  rw [hrow] at hrow'
  cases hrow'
  rcases hstate with hs | hs <;> rw [hs] at hallowed ⊢
  · cases toState <;> simp [Ledger.allowedTransitions] at hallowed hc hr ⊢
  · exact (hallowed.elim (Ledger.complete_final toState) fun he => hc he.symm).elim

/-- A step after the win leaves the closed record as it is. -/
theorem closed_operation {db db' : Db} {op : Operation} (hg : afterWin d s a = true) (h : Closed db d w)
    (hd : s.Does site a db op) (hs : op.Step db db') : Closed db' d w := by
  obtain ⟨tid, input, rfl, task, htask, hd⟩ := hd.run
  simp only [afterWin, Bool.and_eq_true, Bool.not_eq_true'] at hg
  obtain ⟨hoperator, hleaves⟩ := hg
  have hsome : ∀ {row : Document}, db.documents.lookup d = some row → row.extractionResult ≠ none := by
    intro row hrow
    obtain ⟨row', hrow', _, hres, _⟩ := h
    rw [hrow] at hrow'
    cases hrow'
    exact hres
  cases hs with
  | @insert docId row hnone _ =>
    obtain ⟨row', hrow', hrest⟩ := h
    have hne : d ≠ docId := fun he => by
      rw [← he, hrow'] at hnone
      cases hnone
    exact ⟨row', by rw [Table.lookup_insert_ite, if_neg hne, hrow'], hrest⟩
  | @move docId row toState hrow hallowed hc hr =>
    refine closed_write h hrow fun he => ?_
    subst he
    obtain ⟨hreview, rfl⟩ := moves_closed h hrow hallowed hc hr
    rcases hd.pending with ⟨row', hrow', hflight⟩ | ⟨reason, actor, row', target, rfl⟩
    · rw [hrow] at hrow'
      cases hrow'
      rw [hreview] at hflight
      cases hflight
    · simp [operatorActs, htask] at hoperator
  | note hrow | fallThrough hrow | split hrow => exact closed_write h hrow fun _ => rfl
  | recordShard hrow _ => exact closed_write (h.congr rfl) hrow fun _ => rfl
  | send _ => exact h.congr rfl
  | @route docId row gates hrow =>
    refine closed_write h hrow fun he => ?_
    subst he
    obtain ⟨pc, rfl, rfl, hd⟩ := hd.closing rfl
    cases hd
    simp only [leavesRecord, htask, document, hrow, Option.all_some, ne_eq, not_true_eq_false, decide_false,
      Bool.false_or, Bool.and_eq_true, decide_eq_true_eq] at hleaves
    simp [Document.written, Document.routed, hleaves]
  | settle hrow hnone =>
    exact closed_write h hrow fun he => absurd hnone (hsome (he ▸ hrow))
  | post hrow hnone _ _ =>
    exact (closed_write h hrow fun he => absurd hnone (hsome (he ▸ hrow))).congr rfl
  | @rekey docId row vendor invoiceNo hrow _ hk =>
    refine closed_write h hrow fun he => ?_
    subst he
    obtain ⟨pc, rfl, rfl, hd⟩ := hd.closing rfl
    cases hd
    simp only [leavesRecord, htask, document, hrow, Option.all_some, ne_eq, not_true_eq_false, decide_false,
      Bool.false_or, hk, decide_eq_true_eq, pair, Prod.mk.injEq] at hleaves
    simp [Document.written, Document.rekeyed, hleaves]
  | @accept docId row gates payload hrow _ _ _ _ =>
    refine (closed_write h hrow fun he => ?_).congr rfl
    subst he
    obtain ⟨reason, actor, _, rfl, rfl⟩ := hd.accepting
    simp [operatorActs, htask] at hoperator
  | aside hsame => exact h.congr hsame.documents

theorem closed_step (h : Closed s.db d w) (hg : afterWin d s a = true) (hs : Step site s a t) :
    Closed t.db d w := by
  rcases step_cases hs with hp | ⟨partition, act, rfl, hsink⟩ | ⟨hkeep, _⟩
  · exact hp.invariant (P := fun db => Closed db d w) h fun _ _ _ hi hd hs => closed_operation hg hi hd hs
  · rcases sink_posts hsink with heq | ⟨_, _, _, _, _, heq⟩ <;> exact h.congr (by rw [heq])
  · exact h.congr hkeep.documents

/-- A run on a closed document sends nothing. -/
theorem sends_nothing {tid : Nat} {input : Input} {pc : Extraction.Pc} (h : Closed s.db d w)
    (hg : afterWin d s (.run tid input) = true) (htask : s.tasks tid = some (.extraction d pc))
    (hs : Step site s (.run tid input) t) : t.db.sent = s.db.sent := by
  obtain ⟨task, r, htask', hr, rfl⟩ := runTask_eq hs
  rw [htask] at htask'
  cases htask'
  have hp := Task.step_performs hr
  refine (hp.invariant (P := fun db => Closed db d w ∧ db.sent = s.db.sent) ⟨h, rfl⟩
    fun db op db' hi hd hs => ⟨?_, ?_⟩).2
  · exact closed_operation hg hi.1 (show s.Does site (.run tid input) db op from ⟨_, htask, hd⟩) hs
  · rw [← hi.2]
    cases hd with
    | posting =>
      cases hs with
      | post hrow hnone _ _ =>
        obtain ⟨row, hrow', _, hres, _⟩ := hi.1
        rw [hrow] at hrow'
        cases hrow'
        exact absurd hnone hres
    | logging =>
      cases hs with
      | aside hsame => exact hsame.sent
    | opening | stamping | counting | funnel | routing | exhausted | holding | losing =>
      cases hs
      rfl

/-- A recorded result is that of a closed document. -/
def ResultCloses (db : Db) (d : DocId) : Prop :=
  ∀ row, db.documents.lookup d = some row → row.extractionResult ≠ none →
    row.state = .review ∨ row.state = .complete

/-- An extraction run that records a result closes the document. -/
theorem resultCloses_operation {start db db' : Db} {pc : Extraction.Pc} {op : Operation} (hi : ResultCloses db d)
    (hd : Extraction.Does site d start pc db op) (hs : op.Step db db') : ResultCloses db' d := by
  intro row' hrow' hres
  cases hd with
  | opening =>
    cases hs with
    | @move _ row _ hrow hallowed _ _ =>
      rw [Db.write_lookup_self] at hrow'
      cases hrow'
      rcases hi row hrow hres with h | h <;> (rw [h] at hallowed; exact absurd hallowed (by decide))
  | stamping | counting | funnel =>
    cases hs with
    | @note _ row _ hrow =>
      rw [Db.write_lookup_self] at hrow'
      cases hrow'
      exact hi row hrow hres
  | logging =>
    cases hs with
    | aside hsame => exact hi row' (hsame.documents ▸ hrow') hres
  | routing | exhausted | holding =>
    cases hs
    rw [Db.write_lookup_self] at hrow'
    cases hrow'
    exact Or.inl rfl
  | posting =>
    cases hs
    rw [Db.insertOutbox_documents, Db.write_lookup_self] at hrow'
    cases hrow'
    exact Or.inr rfl
  | losing =>
    cases hs with
    | @rekey _ row _ _ hrow _ _ =>
      rw [Db.write_lookup_self] at hrow'
      cases hrow'
      exact hi row hrow hres

/-- A run that records a result on a document without one leaves it closed. -/
theorem closed_of_wins (hw : wins s a t d = true) (hs : Step site s a t) : ∃ w, Closed t.db d w := by
  cases a with
  | run tid input =>
    simp only [wins, Bool.and_eq_true, Option.any_eq_true, decide_eq_true_eq] at hw
    obtain ⟨⟨hrun, row, hrow, hnone⟩, row', hrow', hsome⟩ := hw
    split at hrun
    · next docId pc htask =>
      obtain rfl := of_decide_eq_true hrun
      obtain ⟨task, r, htask', hr, rfl⟩ := runTask_eq hs
      rw [htask] at htask'
      cases htask'
      have hstart : ResultCloses s.db docId := fun r' hr' hres => by
        rw [show s.db.documents.lookup docId = some row from hrow] at hr'
        cases hr'
        exact absurd hnone hres
      have hcloses : ResultCloses r.1.db docId :=
        (Task.step_performs hr).invariant hstart fun _ _ _ hi hd hs => resultCloses_operation hi hd hs
      exact ⟨row'.written, row', hrow', rfl, hsome, hcloses row' hrow' hsome⟩
    · cases hrun
  | tick | spawn | receive | crash | relay | sink => cases hw

/-- After a commit that records the result, and as long as no operator acts and no other
run posts another key or routes, the record stays, and no run adds a message. -/
theorem first_writer_keeps_record {u : Sys} {as : List Action} (hs : Step site s a t)
    (hw : wins s a t d = true) (h : GuardedRun site (fun s a => afterWin d s a = true) t as u) :
    (u.document d).map Document.written = (t.document d).map Document.written ∧
    ∀ tid input pc v, u.tasks tid = some (.extraction d pc) → afterWin d u (.run tid input) = true →
      Step site u (.run tid input) v →
        (v.document d).map Document.written = (u.document d).map Document.written ∧ v.db.sent = u.db.sent := by
  have hwritten : ∀ {s : Sys} {w}, Closed s.db d w → (s.document d).map Document.written = some w := by
    rintro s w ⟨row, hrow, hwr, _⟩
    rw [document, hrow, Option.map_some, hwr]
  obtain ⟨w, hclosed⟩ := closed_of_wins hw hs
  have hu : Closed u.db d w := h.invariant (P := fun s => Closed s.db d w) hclosed
    fun _ _ _ hi hg hs => closed_step hi hg hs
  refine ⟨(hwritten hu).trans (hwritten hclosed).symm, fun tid input pc v htask hg hv => ?_⟩
  exact ⟨(hwritten (closed_step hu hg hv)).trans (hwritten hu).symm, sends_nothing hu hg htask hv⟩

/-- Two runs of one document are with the model's answer; the first is about to post. -/
def twoAnswers (first second : String) : List Action :=
  Schedule.intake ["a.pdf"] ++ Schedule.textLayer 0 ++ Schedule.extract 1 0 (verdictOn (reads first)) ++
    Schedule.extract 2 0 (verdictOn (reads second)) ++ Schedule.turns 1 1

/-- The second run read what the first one read. -/
theorem same_answer_keeps_record :
    ∃ s t u, FreeRun oneInvoice initial (twoAnswers "A" "A") s ∧ Step oneInvoice s (.run 1 {}) t ∧
      wins s (.run 1 {}) t "crc32c-a" = true ∧
      GuardedRun oneInvoice (fun s a => afterWin "crc32c-a" s a = true) t (Schedule.turns 2 2) u ∧
      (u.document "crc32c-a").map Document.written = (t.document "crc32c-a").map Document.written := by
  obtain ⟨s, hrun, hs⟩ := exists_freeRun oneInvoice (twoAnswers "A" "A")
    (fun s => (s.step oneInvoice (.run 1 {})).any fun t => wins s (.run 1 {}) t "crc32c-a" &&
      (execWhile (step oneInvoice) (afterWin "crc32c-a") t (Schedule.turns 2 2)).isSome) (by decide +kernel)
  obtain ⟨t, hstep, ht⟩ := (Option.any_eq_true ..).mp hs
  rw [Bool.and_eq_true, Option.isSome_iff_exists] at ht
  obtain ⟨hwins, u, hu⟩ := ht
  have hrest := run_of_execWhile hu
  exact ⟨s, t, u, hrun, hstep, hwins, hrest, (first_writer_keeps_record hstep hwins hrest).1⟩

/-- The second run read another seller. It is discarded, and leaves its key on the record. -/
theorem other_answer_changes_record :
    ¬ ∀ (site : Deployment) (before after : List Action) (s t u : Sys) (a : Action) (d : DocId),
      FreeRun site initial before s → Step site s a t → wins s a t d = true →
      GuardedRun site (fun s a => operatorActs d s a = false) t after u →
        (u.document d).map Document.written = (t.document d).map Document.written := by
  intro hclaim
  obtain ⟨s, hrun, hs⟩ := exists_judgedRun oneInvoice (fun tid => reads (if tid = 2 then "B" else "A")) (twoAnswers "A" "B")
    (fun s => (s.step oneInvoice (.run 1 {})).any fun t => wins s (.run 1 {}) t "crc32c-a" &&
      (execWhile (step oneInvoice) (fun s a => !operatorActs "crc32c-a" s a) t (Schedule.turns 2 2)).any fun (u : Sys) =>
        decide ((u.document "crc32c-a").map Document.written ≠ (t.document "crc32c-a").map Document.written))
    (by decide +kernel)
  obtain ⟨t, hstep, ht⟩ := (Option.any_eq_true ..).mp hs
  rw [Bool.and_eq_true, Option.any_eq_true] at ht
  obtain ⟨hwins, u, hu, hdiff⟩ := ht
  have hrest : GuardedRun oneInvoice (fun s a => operatorActs "crc32c-a" s a = false) t _ u :=
    (run_of_execWhile hu).mono fun s a hg => by simpa using hg
  exact of_decide_eq_true hdiff
    (hclaim oneInvoice _ _ s t u (.run 1 {}) "crc32c-a" hrun hstep hwins hrest)

end Audit
end DocPipeline

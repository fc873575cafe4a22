import DocPipeline.Lifecycle.Refinement
import DocPipeline.Schedule

/-!
# Does the state only move along the table?

Every `transition` does. The two closing statements of an extraction run name no state
they start from, so a run that was swept while it was with the model closes a document
that has moved on. The first theorem is about runs of the pipeline in which no closing
write does that. The second counts openings: the guard of `extract_running` lets a
running document in again, and a run in which that does not happen opens a document
at most as often as the document has entered `extract_pending`.
-/
namespace DocPipeline.Audit

set_option autoImplicit false

open Lib Lifecycle Sys

variable {site : Deployment} {s t : Sys} {a : Action}

/-! ## The transition table -/

/-- The closing write a step is about to make: the row it finds and the state it writes. -/
def closing (s : Sys) : Action → Option (Document × DocState)
  | .run tid _ =>
    match s.tasks tid with
    | some (.extraction docId pc) =>
      (s.document docId).bind fun row =>
        match pc with
        | .routing _ _ => some (row, .review)
        | .exhausted _ | .holding _ _ => if row.extractionResult = none then some (row, .review) else none
        | .posting _ fields _ =>
          if row.extractionResult = none ∧ s.db.holdsKey docId fields.seller fields.invoiceNo = false then
            some (row, .complete)
          else none
        | _ => none
    | _ => none
  | _ => none

/-- A closing write finds the document in `extract_running`, or where it leads anyway;
to `review` it may also take a document in `text_running`. -/
def closesOnTime (s : Sys) (a : Action) : Bool :=
  match closing s a with
  | some (row, .complete) => row.state = .extractRunning || row.state = .complete
  | some (row, _) => row.state = .extractRunning || row.state = .textRunning || row.state = .review
  | none => true

theorem closesInTime_of_seen {σ : State DocId Fields String} {e : Event DocId Fields String}
    (hg : closesOnTime s a = true) (h : Seen site s a σ e) : ClosesInTime σ e := by
  cases h with
  | delivery => trivial
  | @operation db db' op e hd hs he =>
    obtain ⟨tid, input, rfl, task, htask, hd⟩ := hd.run
    cases hs with
    | insert | move | rekey | accept =>
      cases he
      trivial
    | note | fallThrough | split | recordShard | send | aside => cases he
    | @route _ row gates hrow =>
      obtain ⟨pc, rfl, rfl, hd⟩ := hd.closing rfl
      cases hd
      cases he
      intro r hr
      rw [ofDb_docs hrow] at hr
      cases hr
      simp only [closesOnTime, closing, htask, document, hrow, Option.bind_some] at hg
      revert hg
      change _ → (row.state, DocState.review) ∈ Ledger.allowedTransitions ∨ row.state = .review
      cases row.state <;> decide
    | @settle _ row fields gates hrow hnone =>
      obtain ⟨pc, rfl, rfl, hd⟩ := hd.closing rfl
      cases he
      intro r hr
      rw [ofDb_docs hrow] at hr
      cases hr
      cases hd <;>
        simp only [closesOnTime, closing, htask, document, hrow, Option.bind_some, hnone, if_true] at hg
      all_goals
        revert hg
        change _ → (row.state, DocState.review) ∈ Ledger.allowedTransitions ∨ row.state = .review
        cases row.state <;> decide
    | @post _ row fields gates payload hrow hnone hkey _ =>
      obtain ⟨pc, rfl, rfl, hd⟩ := hd.closing rfl
      cases hd
      cases he
      intro r hr
      rw [ofDb_docs hrow] at hr
      cases hr
      simp only [closesOnTime, closing, htask, document, hrow, Option.bind_some, hnone, hkey, true_and,
        if_true] at hg
      simpa [record] using hg

/-- The changes one step adds, read in the abstract model. -/
theorem changes_of_step {s t : Sys} (ht : Transport site s) (hg : closesOnTime s a = true)
    (hs : Step site s a t) :
    ∃ new, t.db.history = new ++ s.db.history ∧ ∀ c, c ∈ new →
      (c.fromState, c.toState) ∈ Ledger.allowedTransitions ∧
      (c.fromState = .review → c.toState = .complete → ∃ tid input reason actor pc,
        a = .run tid input ∧ s.tasks tid = some (.acceptReview c.docId reason actor pc)) := by
  let Accepts : DocId → Prop := fun d => ∃ tid input reason actor pc,
    a = .run tid input ∧ s.tasks tid = some (.acceptReview d reason actor pc)
  have haccept : ∀ (σ : State DocId Fields String) d, Seen site s a σ (.accept d) → Accepts d := by
    intro σ d h
    cases h with
    | @operation db db' op _ hd _ he =>
      obtain ⟨tid, input, rfl, task, htask, hd⟩ := hd.run
      cases op with
      | accept docId gates payload =>
        cases he
        obtain ⟨reason, actor, row, rfl, _⟩ := hd.accepting
        exact ⟨tid, input, reason, actor, _, rfl, htask⟩
      | insert | move | route | settle | post | rekey | note | fallThrough | split | recordShard | send
      | aside => cases he
  obtain ⟨new, hnew, hall⟩ := history_reaches (life_step ht hs)
    (fun σ e he => closesInTime_of_seen hg he) haccept
  obtain ⟨added, old, hsplit, rfl, hold⟩ := List.map_eq_append_iff.mp hnew
  rw [List.map_injective_iff.mpr change_injective hold] at hsplit
  refine ⟨added, hsplit, fun c hc => ?_⟩
  obtain ⟨hallowed, hreview⟩ := hall (change c) (List.mem_map_of_mem hc)
  refine ⟨hallowed, fun hfrom hto => hreview ?_⟩
  change (c.fromState, c.toState) = _
  rw [hfrom, hto]

/-- In a run whose closing writes come on time, the state moves along the table only,
`complete` is final, and only `accept_review` takes a document out of `review` into it. -/
theorem state_moves_on_table {as : List Action}
    (h : GuardedRun site (fun s a => closesOnTime s a = true) initial as s) :
    (∀ c, c ∈ s.db.history → (c.fromState, c.toState) ∈ Ledger.allowedTransitions ∧ c.fromState ≠ .complete) ∧
    ∀ a t, closesOnTime s a = true → Step site s a t →
      ∃ new, t.db.history = new ++ s.db.history ∧ ∀ c, c ∈ new →
        (c.fromState, c.toState) ∈ Ledger.allowedTransitions ∧
        (c.fromState = .review → c.toState = .complete → ∃ tid input reason actor pc,
          a = .run tid input ∧ s.tasks tid = some (.acceptReview c.docId reason actor pc)) := by
  have hboth : Transport site s ∧
      ∀ c, c ∈ s.db.history → (c.fromState, c.toState) ∈ Ledger.allowedTransitions := by
    refine h.invariant (P := fun s => Transport site s ∧
      ∀ c, c ∈ s.db.history → (c.fromState, c.toState) ∈ Ledger.allowedTransitions)
      ⟨transport_initial, fun _ hc => nomatch hc⟩ fun s a t hi hg hs => ?_
    obtain ⟨new, hnew, hall⟩ := changes_of_step hi.1 hg hs
    refine ⟨(transport_step hi.1 hs).1, fun c hc => ?_⟩
    rw [hnew, List.mem_append] at hc
    exact hc.elim (fun hc => (hall c hc).1) (hi.2 c)
  refine ⟨fun c hc => ⟨hboth.2 c hc, fun hfrom => ?_⟩, fun a t hg hs => changes_of_step hboth.1 hg hs⟩
  have hm := hboth.2 c hc
  rw [hfrom] at hm
  exact Ledger.complete_final _ hm

/-- An invoice whose seller can be taken for its buyer. -/
def invoiceText : String := "Invoice No: 1 Seller: A Buyer: B Widget 5.00 Total 5.00"

/-- It has one page, with a text layer. -/
def invoicePdf : Blob := ⟨"a", 10, some Pdf.pdfType, .pages [invoiceText]⟩

def oneInvoice : Deployment := .defaults fun path => if path = "a.pdf" then some invoicePdf else none

/-- What a model reads that takes this one for the seller. -/
def readingOf (seller : String) : ExtractedFields where
  invoiceNo := some "1"
  seller := some seller
  totalCents := some 500
  lineItems := some [⟨"Widget", 500⟩]

def sellerA : Fields := (readingOf "A").modelDump

def reads (seller : String) : Funnel.Reply := .valid (readingOf seller)

/-- The funnel's verdict on the invoice, the model answering every call alike. -/
def verdictOn (reply : Funnel.Reply) : Extraction.Verdict :=
  match Funnel.runFunnel .defaults (fun _ => {}) ⟨"crc32c-a", .invoice, invoiceText⟩ 1 fun _ _ => reply with
  | .ok (verdict, _) => verdict
  | .error _ => ⟨none, {}, 0, []⟩

/-- A run reaches the funnel's verdict, and posts in two more steps. -/
def postInTime : List Action :=
  Schedule.intake ["a.pdf"] ++ Schedule.textLayer 0 ++ Schedule.extract 1 0 (verdictOn (reads "A")) ++
    Schedule.turns 1 2

theorem post_in_time_on_table :
    ∃ s, GuardedRun oneInvoice (fun s a => closesOnTime s a = true) initial postInTime s ∧
      (s.document "crc32c-a").any (fun row => row.state = .complete) = true ∧
      ∀ c, c ∈ s.db.history → (c.fromState, c.toState) ∈ Ledger.allowedTransitions ∧ c.fromState ≠ .complete := by
  obtain ⟨s, hrun, hs⟩ := exists_guardedRun oneInvoice closesOnTime postInTime
    (fun s => (s.document "crc32c-a").any fun row => row.state = .complete) (by decide +kernel)
  exact ⟨s, hrun, hs, (state_moves_on_table hrun).1⟩

/-- A run is swept while it is with the model, and posts afterwards. -/
def lateWorker : List Action :=
  Schedule.intake ["a.pdf"] ++ Schedule.textLayer 0 ++ Schedule.extract 1 0 (verdictOn (reads "A")) ++
    [.tick 31 0] ++ Schedule.sweep 2 ++ Schedule.turns 1 2

/-- The late worker takes the document from `extract_pending` to `complete`. -/
theorem late_worker_leaves_table :
    ¬ ∀ (site : Deployment) (as : List Action) (s : Sys), FreeRun site initial as s →
      ∀ c, c ∈ s.db.history → (c.fromState, c.toState) ∈ Ledger.allowedTransitions := by
  intro hclaim
  let late : StateChange := ⟨"crc32c-a", .extractPending, .complete⟩
  obtain ⟨s, hrun, hs⟩ := exists_judgedRun oneInvoice (fun _ => reads "A") lateWorker
    (fun s => decide (late ∈ s.db.history)) (by decide +kernel)
  have hm := hclaim oneInvoice lateWorker s hrun late (of_decide_eq_true hs)
  revert hm
  decide

/-! ## Openings -/

def passedOpening (docId : DocId) : Landmark → Bool
  | .passedOpening _ d => decide (d = docId)
  | .returned _ _ _ => false

/-- How many runs have got past their opening transition. -/
def passes (s : Sys) (docId : DocId) : Nat := s.log.countP (passedOpening docId)

def entersExtractPending (docId : DocId) (c : StateChange) : Bool :=
  decide (c.docId = docId) && decide (c.toState = .extractPending)

/-- An opening does not find the document in `extract_running`. -/
def opensFromPending (s : Sys) : Action → Bool
  | .run tid _ =>
    match s.tasks tid with
    | some (.extraction docId .opening) =>
      (s.document docId).all fun row => row.state ≠ .extractRunning
    | _ => true
  | _ => true

/-- The landmark of a step that is no opening is none of these. -/
theorem landmark_countP (site : Deployment) (w : World) (input : Input) (tid : Nat) (task : Task) (d : DocId) :
    (task.landmark site w input tid).countP (passedOpening d) = 0 ∨
    (task = .extraction d .opening ∧
      (task.landmark site w input tid).countP (passedOpening d) = 1 ∧
      ∃ pc, (Extraction.step site d input.verdict w .opening).2 = .goto pc) := by
  cases task with
  | extraction docId pc =>
    simp only [Task.landmark]
    split
    · next hgoto =>
      by_cases hd : docId = d
      · subst hd
        exact Or.inr ⟨rfl, by simp [passedOpening], _, hgoto⟩
      · exact Or.inl (by simp [passedOpening, hd])
    · exact Or.inl (by simp [passedOpening])
    · exact Or.inl rfl
  | orphanScan | triage | textEmbedded | ocrSplit | ocrShard | sweep | forceRedrive | acceptReview
  | killSwitch => exact Or.inl rfl

/-- A step passes at most one opening, and then the document was waiting and is not any more. -/
theorem passes_step (hg : opensFromPending s a = true) (hs : Step site s a t) (d : DocId) :
    passes t d = passes s d ∨
    (passes t d = passes s d + 1 ∧ waiting (ofDb s.db) d = 1 ∧ waiting (ofDb t.db) d = 0) := by
  rcases log_of_step hs with hlog | ⟨tid, input, task, r, rfl, htask, hr, hdb, hlog⟩
  · exact Or.inl (by rw [passes, hlog, passes])
  · have hsum : passes t d = (task.landmark site s.world input tid).countP (passedOpening d) + passes s d := by
      rw [passes, hlog, List.countP_append, passes]
    rcases landmark_countP site s.world input tid task d with
      hz | ⟨rfl, hone, pc, hgoto⟩
    · exact Or.inl (by omega)
    · refine Or.inr ⟨by omega, ?_⟩
      cases hr
      obtain ⟨row, hrow, hstate, hw⟩ := Extraction.opening_goto hgoto
      have hpending : row.state = .extractPending := by
        refine hstate.resolve_right fun hrun => ?_
        simp [opensFromPending, htask, document, hrow, hrun] at hg
      rw [hdb, hw, waiting_of_docs (ofDb_docs hrow), waiting_of_docs (ofDb_docs (Db.write_lookup_self ..))]
      exact ⟨if_pos hpending, if_neg (fun h => nomatch h)⟩

/-- In a run where no opening finds the document running already, a document is opened at
most as often as it has entered `extract_pending`. -/
theorem openings_le_entries {as : List Action}
    (h : GuardedRun site (fun s a => opensFromPending s a = true) initial as s) (d : DocId) :
    passes s d ≤ s.db.history.countP (entersExtractPending d) := by
  have hinv : Transport site s ∧ passes s d + waiting (ofDb s.db) d ≤ entries (ofDb s.db) d := by
    refine h.invariant (P := fun s => Transport site s ∧
      passes s d + waiting (ofDb s.db) d ≤ entries (ofDb s.db) d) ⟨transport_initial, Nat.le_refl _⟩
      fun s a t hi hg hs => ⟨(transport_step hi.1 hs).1, ?_⟩
    have hlife := life_step hi.1 hs
    have hmono : entries (ofDb s.db) d ≤ entries (ofDb t.db) d :=
      hlife.relates (R := fun σ τ => entries σ d ≤ entries τ d) (fun _ => Nat.le_refl _)
        (fun _ _ _ => Nat.le_trans) fun _ _ _ _ hs => entries_mono hs d
    have hunused : entries (ofDb s.db) d + waiting (ofDb t.db) d ≤ entries (ofDb t.db) d + waiting (ofDb s.db) d :=
      hlife.relates (R := fun σ τ => entries σ d + waiting τ d ≤ entries τ d + waiting σ d)
        (fun _ => Nat.le_refl _) (fun _ _ _ h k => by omega) fun _ _ _ _ hs => entries_step hs d
    have hle := hi.2
    rcases passes_step hg hs d with hp | ⟨hp, hw, hw'⟩
    · omega
    · omega
  have hentries : entries (ofDb s.db) d = s.db.history.countP (entersExtractPending d) := by
    unfold entries ofDb
    rw [List.countP_map]
    rfl
  omega

/-- A run is opened, swept, and opened again by the message of the sweep. -/
def openedAgain : List Action :=
  Schedule.intake ["a.pdf"] ++ Schedule.textLayer 0 ++ [.receive 1 .ocrCompleted 0 0] ++ Schedule.turns 1 1 ++
    [.tick 31 0] ++ Schedule.sweep 2 ++ Schedule.publish 1 ++ [.receive 3 .ocrCompleted 0 1] ++ Schedule.turns 3 1

theorem opened_again_after_entry :
    ∃ s, GuardedRun oneInvoice (fun s a => opensFromPending s a = true) initial openedAgain s ∧
      passes s "crc32c-a" = 2 ∧ passes s "crc32c-a" ≤ s.db.history.countP (entersExtractPending "crc32c-a") := by
  obtain ⟨s, hrun, hs⟩ := exists_guardedRun oneInvoice opensFromPending openedAgain
    (fun s => decide (passes s "crc32c-a" = 2)) (by decide +kernel)
  exact ⟨s, hrun, of_decide_eq_true hs, openings_le_entries hrun "crc32c-a"⟩

/-- One message, delivered to two workers. -/
def deliveredTwice : List Action :=
  Schedule.intake ["a.pdf"] ++ Schedule.textLayer 0 ++ [.receive 1 .ocrCompleted 0 0] ++ Schedule.turns 1 1 ++
    [.receive 2 .ocrCompleted 0 0] ++ Schedule.turns 2 1

/-- Both get past the opening, and the document has entered `extract_pending` once. -/
theorem delivered_twice_opens_twice :
    ¬ ∀ (site : Deployment) (as : List Action) (s : Sys) (d : DocId), FreeRun site initial as s →
      passes s d ≤ s.db.history.countP (entersExtractPending d) := by
  intro hclaim
  obtain ⟨s, hrun, hs⟩ := exists_freeRun oneInvoice deliveredTwice
    (fun s => decide (s.db.history.countP (entersExtractPending "crc32c-a") < passes s "crc32c-a"))
    (by decide +kernel)
  exact absurd (hclaim oneInvoice deliveredTwice s "crc32c-a" hrun) (Nat.not_le.mpr (of_decide_eq_true hs))

end DocPipeline.Audit

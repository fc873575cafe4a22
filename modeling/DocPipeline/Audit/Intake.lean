import DocPipeline.Gather.Invariant
import DocPipeline.Audit.StateMachine

/-!
# Exactly-once intake

The detector may ask for one object any number of times, and the broker may deliver each
request any number of times: the primary key of `documents` lets one triage insert the
row, in the transaction that sends the first message. The content of an object is its
checksum, which is all the key is made of.
-/
namespace DocPipeline.Audit

set_option autoImplicit false

open Lib Sys Triage Gather

variable {site : Deployment} {s t : Sys} {a : Action} {d : DocId}

/-- The step is the transaction of a triage run. -/
def triages (s : Sys) (a : Action) : Bool :=
  match a with
  | .run tid _ =>
    match s.tasks tid with
    | some (.triage _) => true
    | _ => false
  | _ => false

/-- The step belongs to the detector, a relay, the broker or a triage run. -/
def intake (s : Sys) (a : Action) : Bool :=
  match a with
  | .run tid _ =>
    match s.tasks tid with
    | some (.triage _) | some (.orphanScan _) => true
    | _ => false
  | .relay _ _ | .spawn _ _ | .receive _ _ _ _ | .crash _ => true
  | .tick _ _ | .sink _ _ => false

def messagesFor (s : Sys) (d : DocId) : Nat := s.db.sent.countP fun m => m.docId = d

/-- What a step adds for a document: a row, a row that waits for text, and the messages
that triage enqueues. -/
def intakeOf (d : DocId) (s : Sys) (a : Action) (t : Sys) : Nat × Nat × Nat :=
  (if s.document d = none ∧ t.document d ≠ none then 1 else 0,
    if s.document d = none ∧ (t.document d).map Document.state = some .textPending then 1 else 0,
    if triages s a then messagesFor t d - messagesFor s d else 0)

theorem registers_of_triage (hs : Step site s a t) (h : triages s a = true) :
    ∃ gcsPath, Registers site gcsPath s.db t.db := by
  unfold triages at h
  split at h
  · next tid input =>
    split at h
    · next gcsPath htask =>
      obtain ⟨task, r, htask', hr, rfl⟩ := runTask_eq hs
      rw [htask] at htask'
      cases htask'
      cases hr
      refine ⟨gcsPath, ?_⟩
      rcases s.world.transact_cases (handleGcsPath site gcsPath)
        (.returned : Triage.Result → Next Unit Triage.Result) .raised with ⟨_, db, hc, he⟩ | ⟨_, he⟩
      · change Registers site gcsPath s.db (s.world.transact _ _ _).1.db
        rw [he]
        exact handleGcsPath_registers hc
      · change Registers site gcsPath s.db (s.world.transact _ _ _).1.db
        rw [he]
        exact .unchanged
    · cases h
  · cases h

/-- Whatever is not triage inserts nothing. -/
theorem absent_of_step (hs : Step site s a t) (h : triages s a = false) (hnone : s.document d = none) :
    t.document d = none := by
  rcases unchanged_of_step hs with ⟨tid, input, rfl⟩ | ⟨hdocs, _⟩
  · obtain ⟨task, r, htask, hr, rfl⟩ := runTask_eq hs
    refine (Task.step_performs hr).invariant (P := fun db => db.documents.lookup d = none) hnone
      fun db op db' hi hd hop => ?_
    rcases hop.absent hi with habsent | ⟨row, rfl⟩
    · exact habsent
    · obtain ⟨_, _, rfl, _⟩ := Task.Does.inserting hd
      simp only [triages, htask] at h
      cases h
  · rw [document, hdocs]
    exact hnone

/-- The first message of a row that waits for text. -/
structure Dispatches (site : Deployment) (d : DocId) (row : Document) (m : OutboxRow) : Prop where
  docId : m.docId = d
  topic : Ledger.routeTextProduction site row.hasTextLayer row.pageCount = .ok (m.topic, row.shardsTotal)
  payload : m.payload = Ledger.buildDispatchPayload m.topic d row.gcsPath row.pageCount

/-- The row is of an object whose content is the document's. -/
def Uploaded (site : Deployment) (d : DocId) (row : Document) : Prop :=
  ∃ blob, site.objects row.gcsPath = some blob ∧ d = crc32cToDocId blob.crc32c

/-- One triage seen from one document. -/
inductive Adds (site : Deployment) (d : DocId) (s t : Sys) : Prop
  | nothing : t.document d = s.document d → messagesFor t d = messagesFor s d → Adds site d s t
  | rejected (row : Document) : s.document d = none → t.document d = some row → Uploaded site d row →
      row.state = .review ∨ row.state = .failed → t.db.sent = s.db.sent → Adds site d s t
  | dispatched (row : Document) (m : OutboxRow) : s.document d = none → t.document d = some row →
      Uploaded site d row → row.state = .textPending → t.db.sent = m :: s.db.sent → Dispatches site d row m →
      Adds site d s t

theorem adds_of_registers {gcsPath : String} (h : Registers site gcsPath s.db t.db) (d : DocId) :
    Adds site d s t := by
  generalize hdb : t.db = db at h
  have hdoc : t.document d = db.documents.lookup d := congrArg (fun db : Db => db.documents.lookup d) hdb
  have hsent : t.db.sent = db.sent := congrArg Db.sent hdb
  cases h with
  | unchanged => exact .nothing hdoc (by rw [messagesFor, messagesFor, hsent])
  | @rejected blob row hblob hrow hstate hnone =>
    by_cases hd : d = crc32cToDocId blob.crc32c
    · subst hd
      have hup : Uploaded site _ row := ⟨blob, hrow.gcsPath ▸ hblob, rfl⟩
      exact .rejected row hnone (hdoc.trans (AList.lookup_insert _)) hup hstate hsent
    · exact .nothing (hdoc.trans (AList.lookup_insert_ne hd)) (by rw [messagesFor, messagesFor, hsent])
  | @dispatched blob row n topic hblob hrow hstate hpages hnone hroute =>
    by_cases hd : d = crc32cToDocId blob.crc32c
    · subst hd
      have hup : Uploaded site _ row := ⟨blob, hrow.gcsPath ▸ hblob, rfl⟩
      refine .dispatched row _ hnone (hdoc.trans (AList.lookup_insert _)) hup hstate hsent ⟨rfl, ?_, ?_⟩
      · rw [hpages, hrow.fresh.shardsTotal]
        exact hroute
      · rw [hrow.gcsPath, hpages]
    · refine .nothing (hdoc.trans (AList.lookup_insert_ne hd)) ?_
      rw [messagesFor, messagesFor, hsent, Db.insertOutbox_sent]
      exact List.countP_cons_of_neg (by simpa using Ne.symm hd)

/-- One row at most, its message with it, and no message without it. -/
def Counted (d : DocId) (s : Sys) (n : Nat × Nat × Nat) : Prop :=
  n.1 = (if s.document d = none then 0 else 1) ∧ n.2.2 = n.2.1 ∧ n.2.1 ≤ n.1

theorem counted_step {n : Nat × Nat × Nat} (h : Counted d s n) (hsound : Sound False site s)
    (hs : Step site s a t) : Counted d t (n + intakeOf d s a t) := by
  obtain ⟨hrows, hsent, hle⟩ := h
  cases htriage : triages s a with
  | false =>
    -- the row is there before and after, or neither
    have hsame : t.document d = none ↔ s.document d = none := by
      refine ⟨fun hnone => ?_, absent_of_step hs htriage⟩
      by_contra hsome
      obtain ⟨row, hrow⟩ := Option.ne_none_iff_exists'.mp hsome
      obtain ⟨row', hrow', _⟩ := grows_step hsound hs d row hrow
      rw [document, hrow'] at hnone
      cases hnone
    unfold Counted intakeOf
    rw [htriage]
    by_cases hnone : s.document d = none
    · simp [hnone, hsame.mpr hnone] at hrows ⊢
      omega
    · have hsome : t.document d ≠ none := fun h => hnone (hsame.mp h)
      simp [hnone, hsome] at hrows ⊢
      omega
  | true =>
    obtain ⟨gcsPath, hreg⟩ := registers_of_triage hs htriage
    unfold Counted intakeOf
    rw [htriage]
    cases adds_of_registers hreg d with
    | nothing hdoc hmsg =>
      by_cases hnone : s.document d = none
      · simp [hnone, hdoc, hmsg] at hrows ⊢
        omega
      · simp [hnone, hdoc, hmsg] at hrows ⊢
        omega
    | rejected row hnone hrow _ hstate hm =>
      have hnot : row.state ≠ .textPending := by
        rcases hstate with h | h <;> rw [h] <;> decide
      simp [hnone, hrow, hnot, messagesFor, hm] at hrows hsent hle ⊢
      omega
    | dispatched row m hnone hrow _ hstate hm hdisp =>
      simp [hnone, hrow, hstate, messagesFor, hm, hdisp.docId] at hrows hsent hle ⊢
      omega

/-- Intake alters no row that is there. -/
theorem intake_keeps (hs : Step site s a t) (h : intake s a = true) {row : Document}
    (hrow : s.document d = some row) : t.document d = some row := by
  rcases unchanged_of_step hs with ⟨tid, input, rfl⟩ | ⟨hdocs, _⟩
  · cases htriage : triages s (.run tid input) with
    | true =>
      obtain ⟨gcsPath, hreg⟩ := registers_of_triage hs htriage
      cases adds_of_registers hreg d with
      | nothing hdoc => exact hdoc.trans hrow
      | rejected _ hnone | dispatched _ _ hnone =>
        rw [hrow] at hnone
        cases hnone
    | false =>
      obtain ⟨task, r, htask, hr, rfl⟩ := runTask_eq hs
      simp only [intake, triages, htask] at h htriage
      cases task with
      | orphanScan pc =>
        cases hr
        have hsame : (OrphanDetector.step site s.world pc).1.db.documents = s.db.documents :=
          OrphanDetector.step_documents site s.world pc
        rw [document, ← hrow]
        exact congrArg (AList.lookup d) hsame
      | triage => cases htriage
      | _ => cases h
  · rw [document, hdocs]
    exact hrow

/-- In every run a document is inserted at most once; triage enqueues one message for it
if the row waits for text and none otherwise, in the transaction of the row; and from
every state a run reaches, intake alters no row that is there. -/
theorem intake_exactly_once {as : List Action} {rows waiting dispatched : Nat}
    (h : Tally (Step site) (intakeOf d) initial as s (rows, waiting, dispatched)) :
    rows ≤ 1 ∧ (rows = 1 ↔ s.document d ≠ none) ∧ waiting ≤ rows ∧ dispatched = waiting ∧
    ∀ a t, Step site s a t →
      (∀ row, s.document d = some row → intake s a = true → t.document d = some row) ∧
      (∀ row, s.document d = none → t.document d = some row → Uploaded site d row ∧
        (((row.state = .review ∨ row.state = .failed) ∧ t.db.sent = s.db.sent) ∨
          (row.state = .textPending ∧ ∃ m, t.db.sent = m :: s.db.sent ∧ Dispatches site d row m))) := by
  have hcount : Sound False site s ∧ Counted d s (rows, waiting, dispatched) := by
    refine h.invariant (P := fun s n => Sound False site s ∧ Counted d s n)
      ⟨sound_initial False site, rfl, rfl, le_rfl⟩ fun s n a t hi hs => ⟨?_, counted_step hi.2 hi.1 hs⟩
    exact sound_step hi.1 (fun hf => hf.elim) hs
  obtain ⟨_, hrows, hsent, hle⟩ := hcount
  refine ⟨?_, ?_, hle, hsent, fun a t hs => ⟨fun row hrow hi => intake_keeps hs hi hrow, ?_⟩⟩
  · by_cases hnone : s.document d = none <;> simp_all
  · by_cases hnone : s.document d = none <;> simp_all
  · intro row hnone hrow
    cases htriage : triages s a with
    | false =>
      rw [absent_of_step hs htriage hnone] at hrow
      cases hrow
    | true =>
      obtain ⟨gcsPath, hreg⟩ := registers_of_triage hs htriage
      cases adds_of_registers hreg d with
      | nothing hdoc =>
        rw [hdoc, hnone] at hrow
        cases hrow
      | rejected row' _ hrow' hup hstate hm =>
        cases hrow.symm.trans hrow'
        exact ⟨hup, Or.inl ⟨hstate, hm⟩⟩
      | dispatched row' m _ hrow' hup hstate hm hdisp =>
        cases hrow.symm.trans hrow'
        exact ⟨hup, Or.inr ⟨hstate, m, hm, hdisp⟩⟩

/-- One content under two names. -/
def uploadedTwice : Deployment :=
  .defaults fun path => if path = "a.pdf" ∨ path = "copy.pdf" then some invoicePdf else none

/-- The detector asks for both names at once, and both requests are delivered. -/
def bothTriaged : List Action :=
  [.spawn 0 (.orphanScan ["a.pdf", "copy.pdf"])] ++ Schedule.turns 0 3 ++ Schedule.publish 2 ++
    [.receive 0 .triageRequests 0 0] ++ Schedule.turns 0 1 ++ [.receive 0 .triageRequests 0 1] ++ Schedule.turns 0 1

theorem second_name_adds_nothing :
    ∃ s rows waiting dispatched,
      Tally (Step uploadedTwice) (intakeOf "crc32c-a") initial bothTriaged s (rows, waiting, dispatched) ∧
      rows = 1 ∧ dispatched = waiting := by
  obtain ⟨s, hrun, hs⟩ := exists_freeRun uploadedTwice bothTriaged (fun s => (s.document "crc32c-a").isSome)
    (by decide +kernel)
  obtain ⟨⟨rows, waiting, dispatched⟩, htally⟩ := Tally.of_run (f := intakeOf "crc32c-a") hrun
  obtain ⟨_, hrow, _, hsent, _⟩ := intake_exactly_once htally
  exact ⟨s, rows, waiting, dispatched, htally, hrow.mpr (Option.isSome_iff_ne_none.mp hs), hsent⟩

end DocPipeline.Audit

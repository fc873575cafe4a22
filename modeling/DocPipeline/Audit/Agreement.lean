import DocPipeline.Lifecycle.Agreement
import DocPipeline.Transport.Posting
import DocPipeline.Audit.Posting

/-!
# Do the ledger and the postings agree?

A document that is complete has been announced, whatever happens. The converse can be
undone by a late worker: its error branch sends the document to review without looking at
the state. And whatever the workers do, a document is auto-posted at most once, with the
result it keeps.
-/
namespace DocPipeline.Audit

set_option autoImplicit false

open Lib Lifecycle Sys

variable {site : Deployment} {s t : Sys} {a : Action}

/-! ## Announced if and only if complete -/

/-- A `document.extracted` message was enqueued for the document. -/
def Extracted (s : Sys) (d : DocId) : Prop :=
  ∃ m, m ∈ s.db.sent ∧ m.topic = .documentExtracted ∧ m.docId = d

def IsComplete (s : Sys) (d : DocId) : Prop := ∃ row, s.document d = some row ∧ row.state = .complete

/-- A closing write to `review` does not find the document complete. -/
def leavesComplete (s : Sys) (a : Action) : Bool :=
  match closing s a with
  | some (row, .review) => row.state ≠ .complete
  | _ => true

theorem leavesComplete_of_seen {σ : State DocId Fields String} {e : Event DocId Fields String}
    (hg : leavesComplete s a = true) (h : Seen site s a σ e) : LeavesComplete σ e := by
  cases h with
  | delivery => trivial
  | @operation db db' op e hd hs he =>
    obtain ⟨tid, input, rfl, task, htask, hd⟩ := hd.run
    cases hs with
    | insert | move | post | rekey | accept =>
      cases he
      trivial
    | note | fallThrough | split | recordShard | send | aside => cases he
    | @route _ row gates hrow =>
      obtain ⟨pc, rfl, rfl, hd⟩ := hd.closing rfl
      cases hd
      cases he
      intro r hr
      rw [ofDb_docs hrow] at hr
      cases hr
      show row.state ≠ .complete
      simpa only [leavesComplete, closing, htask, document, hrow, Option.bind_some, decide_eq_true_eq] using hg
    | @settle _ row fields gates hrow hnone =>
      obtain ⟨pc, rfl, rfl, hd⟩ := hd.closing rfl
      cases he
      intro r hr
      rw [ofDb_docs hrow] at hr
      cases hr
      show row.state ≠ .complete
      cases hd <;>
        simpa only [leavesComplete, closing, htask, document, hrow, Option.bind_some, hnone, if_true,
          decide_eq_true_eq] using hg

theorem announcing_run {Guard : Sys → Action → Prop} {as : List Action}
    (h : GuardedRun site Guard initial as s) : Announcing s.db.sent :=
  h.invariant (P := fun s => Announcing s.db.sent) (fun _ hr => nomatch hr)
    fun _ _ _ hi _ hs => announcing_step hs hi

/-- The messages of the topic are the announcements of the abstract model. -/
theorem extracted_iff (h : Announcing s.db.sent) {d : DocId} :
    Extracted s d ↔ ∃ a, a ∈ (ofDb s.db).announced ∧ a.docId = d := by
  constructor
  · rintro ⟨m, hm, htopic, hd⟩
    obtain ⟨_, _, payload, hpayload, hdoc⟩ := h m hm htopic
    refine ⟨announcement payload, List.mem_filterMap.mpr ⟨m, hm, ?_⟩, hdoc.trans hd⟩
    rw [announcementOf, htopic, hpayload]
  · rintro ⟨a, ha, hd⟩
    obtain ⟨m, hm, hann⟩ := List.mem_filterMap.mp ha
    unfold announcementOf at hann
    split at hann
    · next payload htopic hpayload =>
      cases hann
      obtain ⟨_, _, payload', hpayload', hdoc⟩ := h m hm htopic
      rw [hpayload] at hpayload'
      cases hpayload'
      exact ⟨m, hm, htopic, hdoc.symm.trans hd⟩
    · cases hann

theorem isComplete_iff {d : DocId} :
    IsComplete s d ↔ ∃ r, (ofDb s.db).docs d = some r ∧ r.state = .complete := by
  constructor
  · intro ⟨row, hrow, hc⟩
    exact ⟨record row, ofDb_docs hrow, hc⟩
  · intro ⟨r, hr, hc⟩
    obtain ⟨row, hrow, rfl⟩ := docs_ofDb hr
    exact ⟨row, hrow, hc⟩

/-- In a run that takes no complete document back to review, the documents announced are
the complete ones, and what is posted belongs to one of them. -/
theorem extracted_iff_complete {as : List Action}
    (h : GuardedRun site (fun s a => leavesComplete s a = true) initial as s) (d : DocId) :
    (Extracted s d ↔ IsComplete s d) ∧ (s.db.postedDocuments.lookup d ≠ none → IsComplete s d) := by
  have hlife := life_run (H := LeavesComplete) (fun _ _ _ _ => leavesComplete_of_seen) h
  have hann : AnnouncedComplete (ofDb s.db) := hlife.invariant (fun _ ha => nomatch ha)
    fun _ _ _ hi hg hs => announcedComplete_step hi hs hg
  have hcomplete : CompleteAnnounced (ofDb s.db) := hlife.invariant (fun _ _ hr => nomatch hr)
    fun _ _ _ hi _ hs => completeAnnounced_step hi hs
  have hposted : PostedAnnounced (ofDb s.db) := hlife.invariant (fun _ hp => absurd rfl hp)
    fun _ _ _ hi _ hs => postedAnnounced_step hi hs
  have hback : ∀ a, a ∈ (ofDb s.db).announced → a.docId = d → IsComplete s d := by
    intro a ha hd
    rw [isComplete_iff, ← hd]
    exact hann a ha
  have hiff := extracted_iff (announcing_run h) (d := d)
  refine ⟨⟨fun hext => ?_, fun hc => ?_⟩, fun hp => ?_⟩
  · obtain ⟨a, ha, hd⟩ := hiff.mp hext
    exact hback a ha hd
  · obtain ⟨r, hr, hstate⟩ := isComplete_iff.mp hc
    exact hiff.mpr (hcomplete d r hr hstate)
  · have hrow : (ofDb s.db).posted d ≠ none := by
      intro hnone
      exact hp (Option.map_eq_none_iff.mp hnone)
    obtain ⟨a, ha, hd⟩ := hposted d hrow
    exact hback a ha hd

/-- The posted document stays complete while the second scan goes to review. -/
theorem posted_scan_complete :
    ∃ s, GuardedRun twoScans (fun s a => leavesComplete s a = true) initial postedOnceEach s ∧
      Extracted s "crc32c-a" ∧ (Extracted s "crc32c-a" ↔ IsComplete s "crc32c-a") := by
  obtain ⟨s, hrun, hs⟩ := exists_guardedRun twoScans leavesComplete postedOnceEach
    (fun s => s.db.sent.any fun m => decide (m.topic = .documentExtracted) && decide (m.docId = "crc32c-a"))
    (by decide +kernel)
  simp only [List.any_eq_true, Bool.and_eq_true, decide_eq_true_eq] at hs
  exact ⟨s, hrun, hs, (extracted_iff_complete hrun "crc32c-a").1⟩

/-- Two runs on the first scan and one on the second have passed their gates, with no document
complete yet. The second scan is posted, and then the first scan by one of its runs; the other
one comes with the key of the second scan, and sends the posted document to review. -/
def sentBack : List Action :=
  bothWaiting ++ Schedule.extract 1 0 (verdictOn (reads "A")) ++ Schedule.extract 2 0 (verdictOn (reads "B")) ++
    Schedule.extract 3 1 (verdictOn (reads "B")) ++ Schedule.turns 3 2 ++ Schedule.turns 1 2 ++ Schedule.turns 2 3

theorem sent_back_announced :
    ¬ ∀ (site : Deployment) (as : List Action) (s : Sys) (d : DocId), FreeRun site initial as s →
      (Extracted s d ↔ IsComplete s d) := by
  intro hclaim
  obtain ⟨s, hrun, hs⟩ := exists_judgedRun twoScans (fun tid => reads (if tid = 1 then "A" else "B")) sentBack
    (fun s => (s.db.sent.any fun m => decide (m.topic = .documentExtracted) && decide (m.docId = "crc32c-a")) &&
      (s.document "crc32c-a").all fun row => row.state ≠ .complete) (by decide +kernel)
  simp only [Bool.and_eq_true, List.any_eq_true, decide_eq_true_eq] at hs
  obtain ⟨hext, hreview⟩ := hs
  obtain ⟨row, hrow, hc⟩ := (hclaim twoScans sentBack s "crc32c-a" hrun).mp hext
  rw [hrow, Option.all_some, decide_eq_true_eq] at hreview
  exact hreview hc

/-! ## At most one auto-post, with the result that is kept -/

/-- The message auto-posts the document. -/
def isAutoPost (d : DocId) (m : OutboxRow) : Bool :=
  match m.topic, m.payload with
  | .documentExtracted, .extracted payload => decide (payload.route = some "auto_post") && decide (payload.docId = d)
  | _, _ => false

theorem isAutoPost_inv {d : DocId} {m : OutboxRow} (h : isAutoPost d m = true) :
    ∃ payload, m.payload = .extracted payload ∧ announcementOf m = some (announcement payload) ∧
      (announcement payload).autoPost = true ∧ payload.docId = d := by
  unfold isAutoPost at h
  split at h
  · next payload htopic hpayload =>
    simp only [Bool.and_eq_true, decide_eq_true_eq] at h
    refine ⟨payload, hpayload, ?_, decide_eq_true h.1, h.2⟩
    rw [announcementOf, htopic, hpayload]
  · cases h

theorem autoOnce_run {Guard : Sys → Action → Prop} {as : List Action}
    (h : GuardedRun site Guard initial as s) : AutoOnce (ofDb s.db) :=
  (life_run (H := Always) (fun _ _ _ _ _ _ => trivial) h).invariant autoOnce_initial
    fun _ _ _ hi _ hs => autoOnce_step hi hs

/-- A recorded result survives every run. -/
theorem result_kept (ht : Transport site s) {as : List Action} (h : FreeRun site s as t) {d : DocId} {f : Fields}
    (hr : ∃ row, s.document d = some row ∧ row.extractionResult = some f) :
    ∃ row, t.document d = some row ∧ row.extractionResult = some f := by
  have hboth : Transport site t ∧ ∃ r, (ofDb t.db).docs d = some r ∧ r.result = some f := by
    refine h.invariant (P := fun t => Transport site t ∧ ∃ r, (ofDb t.db).docs d = some r ∧ r.result = some f)
      ⟨ht, ?_⟩ fun s a t hi _ hs => ⟨(transport_step hi.1 hs).1, ?_⟩
    · obtain ⟨row, hrow, hf⟩ := hr
      exact ⟨record row, ofDb_docs hrow, hf⟩
    · exact (life_step hi.1 hs).invariant hi.2 fun _ _ _ hr _ hs => result_step hs hr
  obtain ⟨r, hr, hf⟩ := hboth.2
  obtain ⟨row, hrow, rfl⟩ := docs_ofDb hr
  exact ⟨row, hrow, hf⟩

/-- In every run a document is auto-posted at most once, the message carries the recorded
result, and a recorded result never changes. -/
theorem auto_posts_recorded_result {as : List Action} (h : FreeRun site initial as s) (d : DocId) :
    s.db.sent.countP (isAutoPost d) ≤ 1 ∧
    (∀ m payload, m ∈ s.db.sent → isAutoPost d m = true → m.payload = .extracted payload →
      ∃ row f, s.document d = some row ∧ row.extractionResult = some f ∧ payload.fields = some f) ∧
    ∀ row f bs t, s.document d = some row → row.extractionResult = some f → FreeRun site s bs t →
      ∃ row', t.document d = some row' ∧ row'.extractionResult = some f := by
  have hinv := autoOnce_run h
  refine ⟨countP_le_one ?_, fun m payload hm hpost hpayload => ?_, fun row f bs t hrow hf hbs => ?_⟩
  · have honce := hinv.once
    simp only [ofDb, List.pairwise_filterMap] at honce
    refine honce.imp fun {m m'} hmm hm hm' => ?_
    obtain ⟨payload, _, hann, hauto, hd⟩ := isAutoPost_inv hm
    obtain ⟨payload', _, hann', hauto', hd'⟩ := isAutoPost_inv hm'
    exact hmm _ hann _ hann' hauto hauto' (hd.trans hd'.symm)
  · obtain ⟨payload', hpayload', hann, hauto, rfl⟩ := isAutoPost_inv hpost
    rw [hpayload] at hpayload'
    cases hpayload'
    obtain ⟨r, f, hr, hf, hres⟩ := hinv.holds _ (List.mem_filterMap.mpr ⟨m, hm, hann⟩) hauto
    obtain ⟨row, hrow, rfl⟩ := docs_ofDb hr
    exact ⟨row, f, hrow, hres, hf⟩
  · exact result_kept (transport_run h) hbs ⟨row, hrow, hf⟩

/-- Two runs on the first scan: the one that loses leaves the result of the winner. -/
theorem lost_race_keeps_result :
    ∃ s, FreeRun twoScans initial keyTaken s ∧ s.db.sent.countP (isAutoPost "crc32c-a") ≤ 1 := by
  obtain ⟨s, hrun, _⟩ := exists_freeRun twoScans keyTaken (fun _ => true) (by decide +kernel)
  exact ⟨s, hrun, (auto_posts_recorded_result hrun "crc32c-a").1⟩

end DocPipeline.Audit

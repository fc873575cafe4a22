import DocPipeline.Audit.Posting
import DocPipeline.Transport.Posting

/-!
# Does what was decided arrive downstream?

A committed offset says that every message below it is done with. The sink loop goes on
after a failed call, and its next commit says so of the message that failed. The override
sends a message without fields, and the sink posts what it finds.
-/
namespace DocPipeline.Audit

set_option autoImplicit false

open Lib Lifecycle Sys

variable {site : Deployment} {s t : Sys} {a : Action}

/-! ## A completed document keeps its posting -/

def announces (d : DocId) (row : OutboxRow) : Bool :=
  decide (row.topic = .documentExtracted) && decide (row.docId = d)

/-- The announcement of the document is in the outbox, or in the broker at an offset not
below the committed one, or its row is posted. -/
def postingKept (site : Deployment) (s : Sys) (d : DocId) : Bool :=
  let partition := site.partitioner .documentExtracted d
  s.db.outbox.any (announces d) ||
    ((s.broker .documentExtracted partition).drop (s.sinks partition).committed).any (announces d) ||
    (s.db.postedDocuments.lookup d).isSome

/-- The sink does not commit an offset of a partition on which a handler call has failed
since it was started. -/
def commitsCovered (s : Sys) : Action → Bool
  | .sink partition .commit => !(s.sinks partition).failed
  | _ => true

theorem announces_of_extracts {row : OutboxRow} {d : DocId} (h : Extracts row d) : announces d row = true := by
  simp [announces, h.topic, h.key]

/-- A message that has been sent is kept, wherever it is. -/
theorem postingKept_of_sent (ht : Transport site s) (hp : Posts s) {row : OutboxRow} {d : DocId}
    (hsent : row ∈ s.db.sent) (hrow : Extracts row d) : postingKept site s d = true := by
  simp only [postingKept, Bool.or_eq_true, List.any_eq_true]
  rcases ht.delivers.kept row hsent with hout | hpub
  · exact Or.inl (Or.inl ⟨row, hout, announces_of_extracts hrow⟩)
  · rw [Published, hrow.topic, hrow.key] at hpub
    obtain ⟨offset, hlt, hget⟩ := List.getElem_of_mem hpub
    by_cases hc : offset < (s.sinks (site.partitioner .documentExtracted d)).committed
    · obtain ⟨row', payload, hrow', hpayload, hposted⟩ := (hp.covers _).committed offset hc
      rw [List.getElem?_eq_getElem hlt, hget] at hrow'
      cases hrow'
      obtain ⟨payload', hpayload', hdoc⟩ := hrow.payload
      rw [hpayload] at hpayload'
      cases hpayload'
      exact Or.inr (Option.isSome_iff_ne_none.mpr (hdoc ▸ hposted))
    · have hle := Nat.le_of_not_lt hc
      refine Or.inl (Or.inr ⟨row, List.mem_iff_getElem?.mpr ⟨offset -
        (s.sinks (site.partitioner .documentExtracted d)).committed, ?_⟩, announces_of_extracts hrow⟩)
      rw [List.getElem?_drop, Nat.add_sub_cancel' hle, List.getElem?_eq_getElem hlt, hget]

/-- In a run whose sink commits only what it has handled, no completed document loses its
posting. -/
theorem complete_posting_kept {as : List Action}
    (h : GuardedRun site (fun s a => commitsCovered s a = true) initial as s) (d : DocId) (row : Document)
    (hrow : s.document d = some row) (hc : row.state = .complete) : postingKept site s d = true := by
  have hposts : Transport site s ∧ Posts s := by
    refine h.invariant (P := fun s => Transport site s ∧ Posts s) ⟨transport_initial, posts_initial⟩
      fun s a t hi hg hs => ⟨(transport_step hi.1 hs).1, posts_step hi.1 hi.2 hs fun partition he => ?_⟩
    subst he
    simpa [commitsCovered] using hg
  have hlife := life_run (H := fun _ _ => True) (fun _ _ _ _ _ _ => trivial) h
  have hannounced : CompleteAnnounced (ofDb s.db) :=
    hlife.invariant (fun _ _ hr => nomatch hr) fun _ _ _ hi _ hs => completeAnnounced_step hi hs
  obtain ⟨a, ha, hd⟩ := hannounced d (record row) (ofDb_docs hrow) hc
  obtain ⟨r, hr, hann⟩ := List.mem_filterMap.mp ha
  have htopic : r.topic = .documentExtracted := by
    unfold announcementOf at hann
    split at hann
    · assumption
    · cases hann
  have hext := hposts.2.announcing r hr htopic
  obtain ⟨payload, hpayload, hdoc⟩ := hext.payload
  rw [announcementOf, htopic, hpayload] at hann
  cases hann
  refine postingKept_of_sent hposts.1 hposts.2 hr ⟨htopic, ?_, payload, hpayload, hd⟩
  rw [← hdoc]
  exact hd

/-- Two documents are complete, and their announcements are in the broker. -/
def bothPosted : List Action :=
  bothWaiting ++ Schedule.extract 1 0 (verdictOn (reads "A")) ++ Schedule.extract 2 1 (verdictOn (reads "B")) ++
    Schedule.turns 1 2 ++ Schedule.turns 2 2 ++ Schedule.publish 2

/-- The first call fails, and the consumer is restarted. -/
def failedThenRestarted : List Action :=
  bothPosted ++ [.sink 0 .poll, .sink 0 .fail, .sink 0 .restart, .sink 0 .poll, .sink 0 .post, .sink 0 .commit]

theorem restarted_posting_kept :
    ∃ s, GuardedRun twoScans (fun s a => commitsCovered s a = true) initial failedThenRestarted s ∧
      (s.sinks 0).committed = 1 ∧ postingKept twoScans s "crc32c-b" = true := by
  obtain ⟨s, hrun, hs⟩ := exists_guardedRun twoScans commitsCovered failedThenRestarted
    (fun s => decide ((s.sinks 0).committed = 1) &&
      (s.document "crc32c-b").any fun (row : Document) => decide (row.state = .complete)) (by decide +kernel)
  rw [Bool.and_eq_true, Option.any_eq_true] at hs
  obtain ⟨hcommitted, row, hrow, hc⟩ := hs
  exact ⟨s, hrun, of_decide_eq_true hcommitted,
    complete_posting_kept hrun "crc32c-b" row hrow (of_decide_eq_true hc)⟩

/-- The first call fails, and the commit of the second message passes over the first. -/
def failedThenCommitted : List Action :=
  bothPosted ++ [.sink 0 .poll, .sink 0 .fail, .sink 0 .poll, .sink 0 .post, .sink 0 .commit]

theorem failed_message_lost :
    ¬ ∀ (site : Deployment) (as : List Action) (s : Sys), FreeRun site initial as s →
      ∀ d row, s.document d = some row → row.state = .complete → postingKept site s d = true := by
  intro hclaim
  obtain ⟨s, hrun, hs⟩ := exists_freeRun twoScans failedThenCommitted
    (fun s => (!postingKept twoScans s "crc32c-a") &&
      (s.document "crc32c-a").any fun (row : Document) => decide (row.state = .complete)) (by decide +kernel)
  rw [Bool.and_eq_true, Option.any_eq_true] at hs
  obtain ⟨hlost, row, hrow, hc⟩ := hs
  rw [hclaim twoScans failedThenCommitted s hrun "crc32c-a" row hrow (of_decide_eq_true hc)] at hlost
  cases hlost

/-! ## What is posted is what was extracted -/

/-- An override of a document that is not posted yet finds an empty result. -/
def overridesEmpty (s : Sys) : Action → Bool
  | .run tid _ =>
    match s.tasks tid with
    | some (.acceptReview docId _ _ (.committing _)) =>
      (s.document docId).all fun row =>
        (row.state ≠ .review && row.state ≠ .complete) || (s.db.postedDocuments.lookup docId).isSome ||
          row.extractionResult = some Fields.empty
    | _ => true
  | _ => true

theorem overridesEmpty_of_seen {σ : State DocId Fields String} {e : Event DocId Fields String}
    (hg : overridesEmpty s a = true) (h : Seen site s a σ e) : OverridesEmpty Fields.empty σ e := by
  cases h with
  | delivery => trivial
  | @operation db db' op e hd hs he =>
    obtain ⟨tid, input, rfl, task, htask, hd⟩ := hd.run
    cases hs with
    | insert | move | route | settle | post | rekey =>
      cases he
      trivial
    | note | fallThrough | split | recordShard | send | aside => cases he
    | @accept docId row gates payload hrow hstate _ _ _ =>
      cases he
      obtain ⟨reason, actor, _, rfl, rfl⟩ := hd.accepting
      intro r hr
      rw [ofDb_docs hrow] at hr
      cases hr
      simp only [overridesEmpty, htask, document, hrow, Option.all_some, Bool.or_eq_true, Bool.and_eq_true,
        decide_eq_true_eq] at hg
      rcases hg with (⟨hreview, hcomplete⟩ | hposted) | hempty
      · exact (hstate.elim hreview hcomplete).elim
      · refine Or.inl ?_
        obtain ⟨p, hp⟩ := Option.isSome_iff_exists.mp hposted
        simp [ofDb, hp]
      · exact Or.inr hempty

/-- In a run whose overrides have no fields to lose, what is posted is what was extracted. -/
theorem posted_is_extracted {as : List Action}
    (h : GuardedRun site (fun s a => overridesEmpty s a = true) initial as s) (d : DocId) (p : PostedDocument)
    (hp : s.db.postedDocuments.lookup d = some p) :
    ∃ row, s.document d = some row ∧ row.extractionResult = some p.fields := by
  have hlife := life_run (H := OverridesEmpty Fields.empty) (fun _ _ _ _ => overridesEmpty_of_seen) h
  have hinv : PostsResult Fields.empty (ofDb s.db) :=
    hlife.invariant postsResult_initial fun _ _ _ hi hg hs => postsResult_step hi hs hg
  obtain ⟨r, hr, hres⟩ := hinv.posted d p.fields (by simp only [ofDb, hp, Option.map_some])
  obtain ⟨row, hrow, rfl⟩ := docs_ofDb hr
  exact ⟨row, hrow, hres⟩

/-- The gates are exhausted, and the operator accepts the empty result. -/
def exhaustedAccepted : List Action :=
  Schedule.intake ["a.pdf"] ++ Schedule.textLayer 0 ++ Schedule.extract 1 0 (verdictOn (.invalid ["total_cents"])) ++
    Schedule.turns 1 1 ++ Schedule.acceptReview 1 "crc32c-a" ++ Schedule.publish 1 ++ [.sink 0 .poll, .sink 0 .post]

theorem accepted_posts_empty :
    ∃ s p row, GuardedRun oneInvoice (fun s a => overridesEmpty s a = true) initial exhaustedAccepted s ∧
      s.db.postedDocuments.lookup "crc32c-a" = some p ∧ s.document "crc32c-a" = some row ∧
      row.extractionResult = some p.fields := by
  obtain ⟨s, hrun, hs⟩ := exists_guardedRun oneInvoice overridesEmpty exhaustedAccepted
    (fun s => (s.db.postedDocuments.lookup "crc32c-a").isSome) (by decide +kernel)
  obtain ⟨p, hp⟩ := Option.isSome_iff_exists.mp hs
  obtain ⟨row, hrow, hres⟩ := posted_is_extracted hrun "crc32c-a" p hp
  exact ⟨s, p, row, hrun, hp, hrow, hres⟩

/-- The extracted fields are held for review, and the operator accepts them. -/
def heldAccepted : List Action :=
  Schedule.intake ["a.pdf"] ++ Schedule.textLayer 0 ++ Schedule.killSwitch 1 false ++
    Schedule.extract 1 0 (verdictOn (reads "A")) ++ Schedule.turns 1 2 ++ Schedule.acceptReview 1 "crc32c-a" ++
    Schedule.publish 1 ++ [.sink 0 .poll, .sink 0 .post]

/-- The accepted fields are lost on the way. -/
theorem accepted_fields_lost :
    ¬ ∀ (site : Deployment) (as : List Action) (s : Sys), FreeRun site initial as s →
      ∀ d row p, s.document d = some row → row.state = .complete → s.db.postedDocuments.lookup d = some p →
        row.extractionResult = some p.fields := by
  intro hclaim
  obtain ⟨s, hrun, hs⟩ := exists_judgedRun oneInvoice (fun _ => reads "A") heldAccepted
    (fun s =>
      ((s.document "crc32c-a").any fun (row : Document) =>
        decide (row.state = .complete) && decide (row.extractionResult = some sellerA)) &&
      (s.db.postedDocuments.lookup "crc32c-a").any fun p => decide (p.fields = Fields.empty)) (by decide +kernel)
  simp only [Bool.and_eq_true, Option.any_eq_true, decide_eq_true_eq] at hs
  obtain ⟨⟨row, hrow, hc, hres⟩, p, hp, hfields⟩ := hs
  have heq := hclaim oneInvoice heldAccepted s hrun "crc32c-a" row p hrow hc hp
  rw [hres, hfields] at heq
  revert heq
  decide

end DocPipeline.Audit

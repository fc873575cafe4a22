import DocPipeline.Audit.Intake
import DocPipeline.Gather.TextRun

/-!
# Uploads of one content

Triage decides by what one upload says of itself, its size, its type and what the reader
makes of it under that type; the key of the row is the checksum alone. So the first triage
of a content settles it for all later uploads: here objects come and go between the
runs, and every triage is told by what it would do if it were the first.
-/
namespace DocPipeline.Audit

set_option autoImplicit false

open Lib Lib.Transaction Sys Triage Ledger

/-- What changes over a history of uploads: the bucket, and the pipeline. -/
structure Inbox where
  objects : String → Option Blob := fun _ => none
  sys : Sys := Sys.initial

namespace Inbox

inductive Action where
  | upload (gcsPath : String) (blob : Blob)
  | remove (gcsPath : String)
  /-- One run of `handle_gcs_path`, whoever has asked for it. -/
  | handleGcsPath (gcsPath : String)
  | pipeline (a : Sys.Action)

/-- The deployment over the bucket of this moment. -/
def site (base : Deployment) (u : Inbox) : Deployment := { base with objects := u.objects }

def put (u : Inbox) (gcsPath : String) (blob : Option Blob) : Inbox :=
  { u with objects := fun path => if path = gcsPath then blob else u.objects path }

def handle (base : Deployment) (u : Inbox) (gcsPath : String) : Inbox :=
  let r : World × Next Unit Triage.Result :=
    u.sys.world.transact (Triage.handleGcsPath (u.site base) gcsPath) .returned .raised
  { u with sys := { u.sys with world := r.1 } }

def step (base : Deployment) (u : Inbox) : Action → Option Inbox
  | .upload gcsPath blob => some (u.put gcsPath (some blob))
  | .remove gcsPath => some (u.put gcsPath none)
  | .handleGcsPath gcsPath => some (u.handle base gcsPath)
  | .pipeline a => (u.sys.step (u.site base) a).map fun s => { u with sys := s }

def Step (base : Deployment) (u : Inbox) (a : Action) (v : Inbox) : Prop := u.step base a = some v

/-- The object that a step triages. -/
def triaged (u : Inbox) : Action → Option String
  | .handleGcsPath gcsPath => some gcsPath
  | .pipeline (.run tid _) =>
    match u.sys.tasks tid with
    | some (.triage gcsPath) => some gcsPath
    | _ => none
  | .upload _ _ | .remove _ | .pipeline _ => none

end Inbox

variable {base site : Deployment} {u v : Inbox} {a : Inbox.Action} {d : DocId} {db db' : Db} {gcsPath : String} {blob : Blob}

/-- Not empty, of an allowed type, readable under it and not encrypted, and within the ceiling. -/
def acceptable (site : Deployment) (blob : Blob) : Bool :=
  blob.size ≠ 0 && contentType blob ∈ Pdf.allowedMimeTypes && (pageCount blob).any (· ≤ site.hardPageCeiling)

/-! ## One triage -/

/-- What can be counted has a sample. -/
theorem sampleText_of_readPageCount {data : PdfRead} {ct : String} {n : Nat} (h : Pdf.readPageCount data ct = .ok n) :
    ∃ text, Pdf.sampleText data ct = .ok text := by
  unfold Pdf.readPageCount at h
  unfold Pdf.sampleText
  split at h
  · next hct =>
    rw [if_neg (not_not_intro hct)]
    cases data with
    | pages texts => exact ⟨_, rfl⟩
    | encrypted | corrupt => cases h
  · next hct => exact ⟨_, if_pos hct⟩

theorem acceptable_iff : acceptable site blob = true ↔
    blob.size ≠ 0 ∧ contentType blob ∈ Pdf.allowedMimeTypes ∧
      ∃ n, Pdf.readPageCount blob.data (contentType blob) = .ok n ∧ n ≤ site.hardPageCeiling := by
  simp only [acceptable, pageCount, Bool.and_eq_true, decide_eq_true_eq, and_assoc]
  cases Pdf.readPageCount blob.data (contentType blob) with
  | ok n => simp [Except.toOption]
  | error e => simp [Except.toOption]

/-- The first triage of a content, of an acceptable object. -/
theorem dispatched_of_acceptable (hblob : site.objects gcsPath = some blob) (h : acceptable site blob = true)
    (hnone : db.documents.lookup (crc32cToDocId blob.crc32c) = none) :
    ∃ db' row m, Commits (handleGcsPath site gcsPath) db .dispatched db' ∧
      db'.documents.lookup (crc32cToDocId blob.crc32c) = some row ∧ db'.sent = m :: db.sent ∧
        Dispatches site (crc32cToDocId blob.crc32c) row m := by
  obtain ⟨hsize, hmime, n, hread, hceiling⟩ := acceptable_iff.mp h
  obtain ⟨text, hsample⟩ := sampleText_of_readPageCount hread
  obtain ⟨topic, total, hroute⟩ :=
    Gather.route_succeeds site (some (Pdf.hasTextLayer site.unicode text)) n
  have hhandle : handleGcsPath site gcsPath = dispatch site (crc32cToDocId blob.crc32c) gcsPath text n := by
    simp only [handleGcsPath, hblob, if_neg hsize, if_neg (not_not_intro hmime), hread, if_neg (Nat.not_lt.mpr hceiling),
      hsample]
  let row : Document := {
    gcsPath := gcsPath
    state := .textPending
    pageCount := some n
    hasTextLayer := some (Pdf.hasTextLayer site.unicode text)
    shardsTotal := total
    docType := classifyDocType site.unicode text
    stateUpdatedAt := db.now }
  let inserted : Db := { db with documents := db.documents.insert (crc32cToDocId blob.crc32c) row }
  refine ⟨inserted.insertOutbox (crc32cToDocId blob.crc32c) topic
    (buildDispatchPayload topic (crc32cToDocId blob.crc32c) gcsPath (some n)), row, _, ?_, AList.lookup_insert _, rfl,
    ⟨rfl, hroute, rfl⟩⟩
  rw [hhandle]
  simp only [dispatch, hroute, commits_bind]
  refine ⟨true, inserted, insertInitialDocument_commits.mpr (.inl ⟨rfl, hnone, rfl⟩), ?_⟩
  simp only [if_true, commits_bind, enqueue_commits, commits_pure]
  exact ⟨⟨⟩, _, rfl, trivial, rfl⟩

theorem reject_inserts {docId : DocId} {state : DocState} {lastError : String} {pages : Option Nat} {result : Triage.Result}
    (hnone : db.documents.lookup docId = none) :
    ∃ db' row, Commits (reject docId gcsPath state lastError pages result) db result db' ∧
      db'.documents.lookup docId = some row ∧ db'.sent = db.sent := by
  let row : Document := {
    gcsPath := gcsPath, state := state, lastError := some lastError, pageCount := pages, stateUpdatedAt := db.now }
  refine ⟨{ db with documents := db.documents.insert docId row }, row, ?_, AList.lookup_insert _, rfl⟩
  rw [reject, commits_bind]
  exact ⟨true, _, insertInitialDocument_commits.mpr (.inl ⟨rfl, hnone, rfl⟩), commits_pure.mpr ⟨rfl, rfl⟩⟩

/-- The first triage of a content, of an object that is not acceptable. -/
theorem rejected_of_not_acceptable (hblob : site.objects gcsPath = some blob) (h : acceptable site blob = false)
    (hnone : db.documents.lookup (crc32cToDocId blob.crc32c) = none) :
    ∃ r db' row, Commits (handleGcsPath site gcsPath) db r db' ∧
      db'.documents.lookup (crc32cToDocId blob.crc32c) = some row ∧ db'.sent = db.sent := by
  simp only [handleGcsPath, hblob]
  by_cases hsize : blob.size = 0
  · rw [if_pos hsize]
    exact ⟨_, reject_inserts hnone⟩
  by_cases hmime : contentType blob ∈ Pdf.allowedMimeTypes
  · rw [if_neg hsize, if_neg (not_not_intro hmime)]
    cases hread : Pdf.readPageCount blob.data (contentType blob) with
    | error e => cases e <;> exact ⟨_, reject_inserts hnone⟩
    | ok n =>
      have hceiling : site.hardPageCeiling < n := by
        by_contra hle
        rw [acceptable_iff.mpr ⟨hsize, hmime, n, hread, Nat.not_lt.mp hle⟩] at h
        cases h
      simp only [if_pos hceiling]
      exact ⟨_, reject_inserts hnone⟩
  · rw [if_neg hsize, if_pos hmime]
    exact ⟨_, reject_inserts hnone⟩

/-- What a triage does to the row and the messages of a document: nothing to one it is not
about, and nothing to one that is there. -/
inductive Triages (site : Deployment) (gcsPath : String) (d : DocId) (db db' : Db) : Prop
  | apart : (∀ blob, site.objects gcsPath = some blob → crc32cToDocId blob.crc32c ≠ d) →
      db'.documents.lookup d = db.documents.lookup d →
      (db'.sent.countP fun m => m.docId = d) = (db.sent.countP fun m => m.docId = d) →
      Triages site gcsPath d db db'
  | known (blob : Blob) : site.objects gcsPath = some blob → crc32cToDocId blob.crc32c = d → db.documents.lookup d ≠ none →
      db' = db → Triages site gcsPath d db db'
  | rejected (blob : Blob) (row : Document) : site.objects gcsPath = some blob → crc32cToDocId blob.crc32c = d →
      db.documents.lookup d = none → acceptable site blob = false → db'.documents.lookup d = some row → db'.sent = db.sent →
      Triages site gcsPath d db db'
  | dispatched (blob : Blob) (row : Document) (m : OutboxRow) : site.objects gcsPath = some blob →
      crc32cToDocId blob.crc32c = d → db.documents.lookup d = none → acceptable site blob = true →
      db'.documents.lookup d = some row → db'.sent = m :: db.sent → Dispatches site d row m → Triages site gcsPath d db db'

theorem handleGcsPath_triages (w : World) (d : DocId) :
    Triages site gcsPath d w.db
      (w.transact (handleGcsPath site gcsPath) (.returned : Triage.Result → Next Unit Triage.Result) .raised).1.db := by
  by_cases hmine : ∃ blob, site.objects gcsPath = some blob ∧ crc32cToDocId blob.crc32c = d
  · obtain ⟨blob, hblob, rfl⟩ := hmine
    by_cases hnone : w.db.documents.lookup (crc32cToDocId blob.crc32c) = none
    · cases hacceptable : acceptable site blob with
      | true =>
        obtain ⟨db', row, m, hc, hrow, hsent, hm⟩ := dispatched_of_acceptable hblob hacceptable hnone
        rw [World.transact_of_commits _ _ hc]
        exact .dispatched blob row m hblob rfl hnone hacceptable hrow hsent hm
      | false =>
        obtain ⟨r, db', row, hc, hrow, hsent⟩ := rejected_of_not_acceptable hblob hacceptable hnone
        rw [World.transact_of_commits _ _ hc]
        exact .rejected blob row hblob rfl hnone hacceptable hrow hsent
    · refine .known blob hblob rfl hnone ?_
      rcases w.transact_cases (handleGcsPath site gcsPath) (.returned : Triage.Result → Next Unit Triage.Result) .raised
        with ⟨_, db, hc, he⟩ | ⟨_, he⟩
      · rw [he]
        cases handleGcsPath_registers hc with
        | unchanged => rfl
        | rejected hblob' _ _ habsent | dispatched hblob' _ _ _ habsent =>
          rw [hblob] at hblob'
          cases hblob'
          exact absurd habsent hnone
      · rw [he]
  · have hapart : ∀ blob, site.objects gcsPath = some blob → crc32cToDocId blob.crc32c ≠ d := fun blob hblob he =>
      hmine ⟨blob, hblob, he⟩
    rcases w.transact_cases (handleGcsPath site gcsPath) (.returned : Triage.Result → Next Unit Triage.Result) .raised
      with ⟨_, db, hc, he⟩ | ⟨_, he⟩
    · rw [he]
      cases handleGcsPath_registers hc with
      | unchanged => exact .apart hapart rfl rfl
      | rejected hblob => exact .apart hapart (AList.lookup_insert_ne (hapart _ hblob).symm) rfl
      | dispatched hblob =>
        refine .apart hapart (AList.lookup_insert_ne (hapart _ hblob).symm) ?_
        rw [Db.insertOutbox_sent]
        exact List.countP_cons_of_neg (by simpa using hapart _ hblob)
    · rw [he]
      exact .apart hapart rfl rfl

/-! ## Histories -/

theorem Inbox.triages_of_step (hs : u.Step base a v) (ha : u.triaged a = some gcsPath) :
    v.objects = u.objects ∧ ∀ d, Triages (u.site base) gcsPath d u.sys.db v.sys.db := by
  cases a with
  | handleGcsPath path =>
    cases ha
    cases hs
    exact ⟨rfl, handleGcsPath_triages u.sys.world⟩
  | pipeline act =>
    cases act with
    | run tid input =>
      obtain ⟨t, ht, rfl⟩ := Option.map_eq_some_iff.mp hs
      obtain ⟨task, r, htask, hr, rfl⟩ := runTask_eq ht
      simp only [triaged, htask] at ha
      cases task with
      | triage path =>
        cases ha
        cases hr
        exact ⟨rfl, handleGcsPath_triages u.sys.world⟩
      | orphanScan | textEmbedded | ocrSplit | ocrShard | extraction | sweep | forceRedrive | acceptReview | killSwitch =>
        cases ha
    | tick | spawn | receive | crash | relay | sink => cases ha
  | upload | remove => cases ha

/-- Whatever is not triage neither inserts a row nor deletes one. -/
theorem Inbox.rows_of_step (hs : u.Step base a v) (ha : u.triaged a = none) :
    v.sys.document d = none ↔ u.sys.document d = none := by
  cases a with
  | upload | remove =>
    cases hs
    exact Iff.rfl
  | handleGcsPath => cases ha
  | pipeline act =>
    obtain ⟨t, ht, rfl⟩ := Option.map_eq_some_iff.mp hs
    have htriages : triages u.sys act = false := by
      cases act with
      | run tid input =>
        simp only [triaged] at ha
        simp only [triages]
        cases htask : u.sys.tasks tid with
        | none => rfl
        | some task =>
          rw [htask] at ha
          cases task with
          | triage => cases ha
          | orphanScan | textEmbedded | ocrSplit | ocrShard | extraction | sweep | forceRedrive | acceptReview | killSwitch =>
            rfl
      | tick | spawn | receive | crash | relay | sink => rfl
    refine ⟨fun hnone => ?_, absent_of_step ht htriages⟩
    by_contra hsome
    rcases Gather.unchanged_of_step ht with ⟨tid, input, rfl⟩ | ⟨hdocs, _⟩
    · obtain ⟨task, r, htask, hr, rfl⟩ := runTask_eq ht
      have hpresent : r.1.db.documents.lookup d ≠ none :=
        (Task.step_performs hr).invariant (P := fun db => db.documents.lookup d ≠ none) hsome
          fun db op db' hi _ hop => hop.present hi
      exact hpresent hnone
    · rw [document, hdocs] at hnone
      exact hsome hnone

/-- The step triages the content for the first time, as an object that is rejected. -/
def rejectsFirst (base : Deployment) (d : DocId) (u : Inbox) (a : Inbox.Action) : Bool :=
  match (u.triaged a).bind u.objects with
  | some blob => crc32cToDocId blob.crc32c = d && (u.sys.document d).isNone && !acceptable base blob
  | none => false

/-- First rejections of a content, and messages that triage enqueues for it. -/
def uploadsOf (base : Deployment) (d : DocId) (u : Inbox) (a : Inbox.Action) (v : Inbox) : Nat × Nat :=
  (if rejectsFirst base d u a = true then 1 else 0,
    if (u.triaged a).isSome = true then messagesFor v.sys d - messagesFor u.sys d else 0)

/-- What has made the row, if it is there: one rejection, or one dispatch. -/
def Settles (d : DocId) (u : Inbox) (n : Nat × Nat) : Prop :=
  n = if u.sys.document d = none then (0, 0) else if n.1 = 0 then (0, 1) else (1, 0)

theorem rejectsFirst_of {blob : Blob} (ha : u.triaged a = some gcsPath) (hblob : u.objects gcsPath = some blob) :
    rejectsFirst base d u a = (crc32cToDocId blob.crc32c = d && (u.sys.document d).isNone && !acceptable base blob) := by
  rw [rejectsFirst, ha, Option.bind_some, hblob]

theorem settles_step {n : Nat × Nat} (hi : Settles d u n) (hs : u.Step base a v) :
    Settles d v (n + uploadsOf base d u a v) := by
  cases ha : u.triaged a with
  | none =>
    have hnothing : uploadsOf base d u a v = (0, 0) := by
      simp [uploadsOf, rejectsFirst, ha]
    have hrows := Inbox.rows_of_step (d := d) hs ha
    unfold Settles
    rw [hnothing]
    change n = _
    simp only [hrows]
    exact hi
  | some gcsPath =>
    obtain ⟨_, htriages⟩ := Inbox.triages_of_step hs ha
    unfold Settles at hi ⊢
    cases htriages d with
    | apart hapart hdoc hmsg =>
      have hfirst : rejectsFirst base d u a = false := by
        cases hblob : u.objects gcsPath with
        | none => rw [rejectsFirst, ha, Option.bind_some, hblob]
        | some blob =>
          rw [rejectsFirst_of ha hblob, decide_eq_false (hapart blob hblob), Bool.false_and, Bool.false_and]
      have hnothing : uploadsOf base d u a v = (0, 0) := by
        simp [uploadsOf, hfirst, messagesFor, hmsg]
      have hsame : v.sys.document d = u.sys.document d := hdoc
      rw [hnothing, hsame]
      exact hi
    | known blob hblob hd hsome hsame =>
      have hfirst : rejectsFirst base d u a = false := by
        rw [rejectsFirst_of ha hblob, Option.isNone_eq_false_iff.mpr (Option.isSome_iff_ne_none.mpr hsome), Bool.and_false,
          Bool.false_and]
      have hnothing : uploadsOf base d u a v = (0, 0) := by
        simp [uploadsOf, hfirst, messagesFor, hsame]
      have hrow : v.sys.document d = u.sys.document d := congrArg (fun db : Db => db.documents.lookup d) hsame
      rw [hnothing, hrow]
      exact hi
    | rejected blob row hblob hd hnone hno hrow hsent =>
      have hfirst : rejectsFirst base d u a = true := by
        have hno' : acceptable base blob = false := hno
        rw [rejectsFirst_of ha hblob, decide_eq_true hd, hno', document, hnone]
        rfl
      have hone : uploadsOf base d u a v = (1, 0) := by
        simp [uploadsOf, hfirst, messagesFor, hsent]
      rw [document, hnone, if_pos rfl] at hi
      rw [document, hrow, hone, hi]
      rfl
    | dispatched blob row m hblob hd hnone hyes hrow hsent hm =>
      have hfirst : rejectsFirst base d u a = false := by
        have hyes' : acceptable base blob = true := hyes
        rw [rejectsFirst_of ha hblob, hyes', Bool.not_true, Bool.and_false]
      have hone : uploadsOf base d u a v = (0, 1) := by
        simp [uploadsOf, hfirst, ha, messagesFor, hsent, hm.docId]
      rw [document, hnone, if_pos rfl] at hi
      rw [document, hrow, hone, hi]
      rfl

theorem settles_run {as : List Inbox.Action} {n : Nat × Nat} (h : Tally (Inbox.Step base) (uploadsOf base d) {} as u n) :
    Settles d u n :=
  h.invariant (P := Settles d) rfl fun _ _ _ _ hi hs => settles_step hi hs

/-- Over every history of uploads, removals, triage runs and steps of the pipeline: after a
triage of an acceptable object a message for its content has been enqueued by this or an
earlier triage exactly if no earlier triage was the first of this content and rejected it. -/
theorem good_upload_dispatched_iff {as : List Inbox.Action} {rejections dispatches : Nat}
    (h : Tally (Inbox.Step base) (uploadsOf base (crc32cToDocId blob.crc32c)) {} as u (rejections, dispatches))
    (hs : u.Step base a v) (ha : u.triaged a = some gcsPath) (hblob : u.objects gcsPath = some blob)
    (hgood : acceptable base blob = true) :
    0 < dispatches + (uploadsOf base (crc32cToDocId blob.crc32c) u a v).2 ↔ rejections = 0 := by
  have hbefore : Settles (crc32cToDocId blob.crc32c) u (rejections, dispatches) := settles_run h
  have hafter := settles_step hbefore hs
  have hfirst : (uploadsOf base (crc32cToDocId blob.crc32c) u a v).1 = 0 := by
    simp [uploadsOf, rejectsFirst_of ha hblob, hgood]
  have hpresent : v.sys.document (crc32cToDocId blob.crc32c) ≠ none := by
    obtain ⟨_, htriages⟩ := Inbox.triages_of_step hs ha
    cases htriages (crc32cToDocId blob.crc32c) with
    | apart hapart => exact absurd rfl (hapart blob hblob)
    | known _ _ _ hsome hsame =>
      exact fun hnone => hsome ((congrArg (fun db : Db => db.documents.lookup _) hsame).symm.trans hnone)
    | rejected _ row _ _ _ _ hrow | dispatched _ row _ _ _ _ _ hrow =>
      rw [document, hrow]
      exact Option.some_ne_none row
  unfold Settles at hafter
  rw [if_neg hpresent] at hafter
  change (rejections + (uploadsOf base _ u a v).1, dispatches + (uploadsOf base _ u a v).2) =
    if rejections + (uploadsOf base _ u a v).1 = 0 then (0, 1) else (1, 0) at hafter
  rw [hfirst, Nat.add_zero] at hafter
  split at hafter
  · have hone := (Prod.mk.inj hafter).2
    omega
  · have hzero := (Prod.mk.inj hafter).2
    omega

/-- The bytes of an invoice, uploaded with a type. -/
def invoiceAs (contentType : String) : Blob := { invoicePdf with contentType := some contentType }

def emptyBucket : Deployment := .defaults fun _ => none

def uploadAndTriage (gcsPath : String) (blob : Blob) : List Inbox.Action :=
  [.upload gcsPath blob, .handleGcsPath gcsPath]

def pdfUploaded : Inbox := ({} : Inbox).put "a.pdf" (some (invoiceAs Pdf.pdfType))

theorem clean_upload_dispatched :
    ∃ rejections dispatches,
      Tally (Inbox.Step emptyBucket) (uploadsOf emptyBucket "crc32c-a") {}
        [.upload "a.pdf" (invoiceAs Pdf.pdfType)] pdfUploaded (rejections, dispatches) ∧ rejections = 0 ∧
      0 < dispatches + (uploadsOf emptyBucket "crc32c-a" pdfUploaded (.handleGcsPath "a.pdf")
        (pdfUploaded.handle emptyBucket "a.pdf")).2 := by
  have htally : Tally (Inbox.Step emptyBucket) (uploadsOf emptyBucket "crc32c-a") {}
      [.upload "a.pdf" (invoiceAs Pdf.pdfType)] pdfUploaded (0, 0) := Tally.nil.snoc rfl
  have hstep : pdfUploaded.Step emptyBucket (.handleGcsPath "a.pdf") (pdfUploaded.handle emptyBucket "a.pdf") := rfl
  have hblob : pdfUploaded.objects "a.pdf" = some (invoiceAs Pdf.pdfType) := rfl
  exact ⟨0, 0, htally, rfl, (good_upload_dispatched_iff htally hstep rfl hblob (by decide +kernel)).mpr rfl⟩

def wrongTypeTriaged : Inbox := (({} : Inbox).put "a.txt" (some (invoiceAs "text/plain"))).handle emptyBucket "a.txt"

def uploadedAgain : Inbox := wrongTypeTriaged.put "a.pdf" (some (invoiceAs Pdf.pdfType))

/-- Uploaded with a type that is not allowed and rejected, then uploaded as a PDF: the second
triage finds a duplicate, and nothing has ever been enqueued. -/
theorem good_upload_shadowed :
    ∃ rejections dispatches,
      Tally (Inbox.Step emptyBucket) (uploadsOf emptyBucket "crc32c-a") {}
        (uploadAndTriage "a.txt" (invoiceAs "text/plain") ++ [.upload "a.pdf" (invoiceAs Pdf.pdfType)]) uploadedAgain
        (rejections, dispatches) ∧
      uploadedAgain.Step emptyBucket (.handleGcsPath "a.pdf") (uploadedAgain.handle emptyBucket "a.pdf") ∧
      uploadedAgain.objects "a.pdf" = some (invoiceAs Pdf.pdfType) ∧
      acceptable emptyBucket (invoiceAs Pdf.pdfType) = true ∧
      ¬0 < dispatches + (uploadsOf emptyBucket "crc32c-a" uploadedAgain (.handleGcsPath "a.pdf")
        (uploadedAgain.handle emptyBucket "a.pdf")).2 := by
  have htally : Tally (Inbox.Step emptyBucket) (uploadsOf emptyBucket "crc32c-a") {}
      (uploadAndTriage "a.txt" (invoiceAs "text/plain") ++ [.upload "a.pdf" (invoiceAs Pdf.pdfType)]) uploadedAgain _ :=
    ((Tally.nil.snoc rfl).snoc rfl).snoc rfl
  exact ⟨_, _, htally, rfl, rfl, by decide +kernel, by decide +kernel⟩

end DocPipeline.Audit

import DocPipeline.Core.Operation
import DocPipeline.Stages.Triage
import DocPipeline.Effects.TextProduction

/-!
# What intake does to the ledger

Triage inserts the first row of a document and sends its first message, in one
transaction, so the message carries the path and the page count of the row.
-/
namespace DocPipeline

set_option autoImplicit false

open Lib Lib.Transaction Ledger

namespace OrphanDetector

inductive Does : Db → Operation → Prop
  | detect {db : Db} {docId : DocId} {gcsPath : String} :
      Does db (.send docId .triageRequests (.triage gcsPath))

theorem step_performs (site : Deployment) (w : World) (pc : Pc) :
    Performs Does w.db (step site w pc).1.db := by
  cases pc with
  | listing paths => exact Reaches.refl _
  | checkingPending orphans => exact Reaches.refl _
  | enqueueing orphans =>
    refine w.transact_performs _ _ _ fun _ db h => performs_enqueueMany h ?_ ?_
    · intro r hr
      obtain ⟨o, _, rfl⟩ := List.mem_map.mp hr
      exact fun h => nomatch h
    · intro db₁ r hr _
      obtain ⟨o, _, rfl⟩ := List.mem_map.mp hr
      exact .detect

theorem step_documents (site : Deployment) (w : World) (pc : Pc) :
    (step site w pc).1.db.documents = w.db.documents := by
  cases pc with
  | listing paths | checkingPending orphans => rfl
  | enqueueing orphans =>
    simp only [step]
    rcases w.transact_cases (enqueueMany (orphans.map fun o => (o.1, .triageRequests, .triage o.2)))
      (.returned : Unit → Next Pc Unit) .raised with ⟨_, _, hc, he⟩ | ⟨_, he⟩ <;> rw [he]
    exact (enqueueMany_sent hc).1

end OrphanDetector

namespace Triage

variable {site : Deployment} {gcsPath : String}

/-- The row triage inserts for an object, as far as its columns depend on the object. -/
structure Admits (gcsPath : String) (blob : Blob) (row : Document) : Prop where
  fresh : row.Fresh
  gcsPath : row.gcsPath = gcsPath
  pageCount : ∀ n, row.pageCount = some n → Triage.pageCount blob = some n
  counted : row.state = .textPending → ∃ n, row.pageCount = some n
  textLayer : row.hasTextLayer = some true → contentType blob = Pdf.pdfType ∧ ∃ n, row.pageCount = some n

inductive Does (site : Deployment) (gcsPath : String) : Db → Operation → Prop
  | insert {db : Db} {blob : Blob} {row : Document} : site.objects gcsPath = some blob →
      Admits gcsPath blob row → Does site gcsPath db (.insert (crc32cToDocId blob.crc32c) row)
  | dispatch {db : Db} {blob : Blob} {row : Document} {n : Nat} {topic : Topic} :
      site.objects gcsPath = some blob → Admits gcsPath blob row → row.pageCount = some n →
      db.documents.lookup (crc32cToDocId blob.crc32c) = some row →
      routeTextProduction site row.hasTextLayer (some n) = .ok (topic, 1) →
      Does site gcsPath db (.send (crc32cToDocId blob.crc32c) topic
        (buildDispatchPayload topic (crc32cToDocId blob.crc32c) gcsPath (some n)))

/-- What one triage of an object commits: nothing, or a row that was not there, together
with its first message when the row waits for text. -/
inductive Registers (site : Deployment) (gcsPath : String) (db : Db) : Db → Prop
  | unchanged : Registers site gcsPath db db
  | rejected {blob : Blob} {row : Document} : site.objects gcsPath = some blob → Admits gcsPath blob row →
      row.state = .review ∨ row.state = .failed → db.documents.lookup (crc32cToDocId blob.crc32c) = none →
      Registers site gcsPath db { db with documents := db.documents.insert (crc32cToDocId blob.crc32c) row }
  | dispatched {blob : Blob} {row : Document} {n : Nat} {topic : Topic} : site.objects gcsPath = some blob →
      Admits gcsPath blob row → row.state = .textPending → row.pageCount = some n →
      db.documents.lookup (crc32cToDocId blob.crc32c) = none →
      routeTextProduction site row.hasTextLayer (some n) = .ok (topic, 1) →
      Registers site gcsPath db
        (Db.insertOutbox { db with documents := db.documents.insert (crc32cToDocId blob.crc32c) row }
          (crc32cToDocId blob.crc32c) topic
          (buildDispatchPayload topic (crc32cToDocId blob.crc32c) gcsPath (some n)))

theorem reject_registers {db db' : Db} {blob : Blob} {state : DocState} {lastError : String}
    {pageCount : Option Nat} {result r : Result} (hblob : site.objects gcsPath = some blob)
    (hstate : state = .review ∨ state = .failed)
    (hpages : ∀ n, pageCount = some n → Triage.pageCount blob = some n)
    (h : Commits (reject (crc32cToDocId blob.crc32c) gcsPath state lastError pageCount result) db r db') :
    Registers site gcsPath db db' := by
  simp only [reject, commits_bind, commits_pure] at h
  obtain ⟨_, m, hins, _, rfl⟩ := h
  rcases insertInitialDocument_commits.mp hins with ⟨_, hnone, rfl⟩ | ⟨_, rfl, _⟩
  · refine .rejected hblob ⟨⟨Or.inr hstate, rfl, rfl, rfl, rfl, rfl, rfl⟩, rfl, hpages, ?_, ?_⟩ hstate hnone
    · intro h
      rw [show state = .textPending from h] at hstate
      rcases hstate with h | h <;> cases h
    · intro h
      cases h
  · exact .unchanged

/-- Only a PDF has a sample, so only a PDF can look as if it had a text layer. -/
theorem textLayer_pdf {blob : Blob} {text : String}
    (hs : Pdf.sampleText blob.data (contentType blob) = .ok text)
    (ht : Pdf.hasTextLayer site.unicode text = true) : contentType blob = Pdf.pdfType := by
  by_contra hct
  unfold Pdf.sampleText at hs
  rw [if_pos hct] at hs
  cases hs
  simp [Pdf.hasTextLayer] at ht

theorem dispatch_registers {db db' : Db} {blob : Blob} {text : String} {n : Nat} {r : Result}
    (hblob : site.objects gcsPath = some blob) (hpages : Triage.pageCount blob = some n)
    (hsample : Pdf.sampleText blob.data (contentType blob) = .ok text)
    (h : Commits (dispatch site (crc32cToDocId blob.crc32c) gcsPath text n) db r db') :
    Registers site gcsPath db db' := by
  unfold dispatch at h
  simp only at h
  split at h
  · exact absurd h commits_throw
  · next topic total hroute =>
    simp only [commits_bind] at h
    obtain ⟨inserted, m, hins, h⟩ := h
    have htotal : total = 1 := by
      by_cases htl : some (Pdf.hasTextLayer site.unicode text) = some true
      · unfold routeTextProduction at hroute
        rw [if_pos htl] at hroute
        cases hroute
        rfl
      · exact (PdfWorker.route_ocr htl hroute).1
    subst htotal
    rcases insertInitialDocument_commits.mp hins with ⟨rfl, hnone, rfl⟩ | ⟨rfl, rfl, _⟩
    · simp only [if_true, commits_bind, commits_pure, enqueue_commits] at h
      obtain ⟨_, _, rfl, _, rfl⟩ := h
      refine .dispatched hblob ⟨⟨Or.inl rfl, rfl, rfl, rfl, rfl, rfl, rfl⟩, rfl, ?_, fun _ => ⟨n, rfl⟩, fun ht => ?_⟩
        rfl rfl hnone hroute
      · intro k hk
        cases hk
        exact hpages
      · exact ⟨textLayer_pdf hsample (Option.some.inj ht), n, rfl⟩
    · simp only [Bool.false_eq_true, if_false, commits_pure] at h
      obtain ⟨_, rfl⟩ := h
      exact .unchanged

theorem handleGcsPath_registers {db db' : Db} {r : Result}
    (h : Commits (handleGcsPath site gcsPath) db r db') : Registers site gcsPath db db' := by
  unfold handleGcsPath at h
  split at h
  · rw [commits_pure] at h
    rw [h.2]
    exact .unchanged
  · next blob hblob =>
    simp only [commits_ite] at h
    rcases h with ⟨_, h⟩ | ⟨_, ⟨_, h⟩ | ⟨_, h⟩⟩
    · exact reject_registers hblob (Or.inr rfl) (fun _ hn => by cases hn) h
    · exact reject_registers hblob (Or.inr rfl) (fun _ hn => by cases hn) h
    · split at h
      · exact reject_registers hblob (Or.inl rfl) (fun _ hn => by cases hn) h
      · exact reject_registers hblob (Or.inl rfl) (fun _ hn => by cases hn) h
      · next n hread =>
        have hpages : Triage.pageCount blob = some n := by
          unfold Triage.pageCount
          rw [hread]
          rfl
        rw [commits_ite] at h
        rcases h with ⟨_, h⟩ | ⟨_, h⟩
        · exact reject_registers hblob (Or.inl rfl) (fun k hk => by cases hk; exact hpages) h
        · split at h
          · exact absurd h commits_throw
          · next text hsample => exact dispatch_registers hblob hpages hsample h

theorem reject_pages {db db' : Db} {docId d : DocId} {row : Document} {state : DocState} {lastError : String}
    {pageCount : Option Nat} {result r : Result} (h : Commits (reject docId gcsPath state lastError pageCount result) db r db')
    (hnone : db.documents.lookup d = none) (hrow : db'.documents.lookup d = some row) : row.pageCount = pageCount := by
  simp only [reject, commits_bind, commits_pure] at h
  obtain ⟨_, m, hins, _, rfl⟩ := h
  rcases insertInitialDocument_commits.mp hins with ⟨_, _, rfl⟩ | ⟨_, rfl, _⟩
  · rw [Table.lookup_insert_ite] at hrow
    split at hrow
    · cases hrow
      rfl
    · rw [hnone] at hrow
      cases hrow
  · rw [hnone] at hrow
    cases hrow

/-- The row of a dispatched document waits for text. -/
theorem dispatch_waits {db db' : Db} {docId d : DocId} {row : Document} {sample : String} {n : Nat} {r : Result}
    (h : Commits (dispatch site docId gcsPath sample n) db r db') (hnone : db.documents.lookup d = none)
    (hrow : db'.documents.lookup d = some row) : row.state = .textPending := by
  unfold dispatch at h
  simp only at h
  split at h
  · exact absurd h commits_throw
  · simp only [commits_bind] at h
    obtain ⟨inserted, m, hins, h⟩ := h
    rcases insertInitialDocument_commits.mp hins with ⟨rfl, _, rfl⟩ | ⟨rfl, rfl, _⟩
    · simp only [if_true, commits_bind, commits_pure, enqueue_commits] at h
      obtain ⟨_, _, rfl, _, rfl⟩ := h
      rw [Db.insertOutbox_documents, Table.lookup_insert_ite] at hrow
      split at hrow
      · cases hrow
        rfl
      · rw [hnone] at hrow
        cases hrow
    · simp only [Bool.false_eq_true, if_false, commits_pure] at h
      rw [← h.2, hnone] at hrow
      cases hrow

/-- What triage rejects with a page count has too many pages. -/
theorem handleGcsPath_ceiling {db db' : Db} {r : Result} {d : DocId} {row : Document} {n : Nat}
    (h : Commits (handleGcsPath site gcsPath) db r db') (hnone : db.documents.lookup d = none)
    (hrow : db'.documents.lookup d = some row) (hstate : row.state ≠ .textPending) (hn : row.pageCount = some n) :
    site.hardPageCeiling < n := by
  have hno : ∀ {k : Option Nat}, row.pageCount = k → k ≠ none := fun hk he => by rw [hn] at hk; exact nomatch hk.trans he
  unfold handleGcsPath at h
  split at h
  · rw [commits_pure] at h
    rw [← h.2, hnone] at hrow
    cases hrow
  · simp only [commits_ite] at h
    rcases h with ⟨_, h⟩ | ⟨_, ⟨_, h⟩ | ⟨_, h⟩⟩
    · exact absurd rfl (hno (reject_pages h hnone hrow))
    · exact absurd rfl (hno (reject_pages h hnone hrow))
    · split at h
      · exact absurd rfl (hno (reject_pages h hnone hrow))
      · exact absurd rfl (hno (reject_pages h hnone hrow))
      · rw [commits_ite] at h
        rcases h with ⟨hceiling, h⟩ | ⟨_, h⟩
        · cases hn.symm.trans (reject_pages h hnone hrow)
          exact hceiling
        · split at h
          · exact absurd h commits_throw
          · exact absurd (dispatch_waits h hnone hrow) hstate

theorem handleGcsPath_performs {db db' : Db} {r : Result}
    (h : Commits (handleGcsPath site gcsPath) db r db') : Performs (Does site gcsPath) db db' := by
  cases handleGcsPath_registers h with
  | unchanged => exact Reaches.refl _
  | rejected hblob hrow _ hnone => exact Reaches.single (.insert hblob hrow) (.insert hnone hrow.fresh)
  | dispatched hblob hrow _ hpages hnone hroute =>
    refine (Reaches.single (.insert hblob hrow) (.insert hnone hrow.fresh)).trans
      (Reaches.single (.dispatch hblob hrow hpages (AList.lookup_insert _) hroute) (.send ?_))
    rcases PdfWorker.route_topic hroute with rfl | rfl | rfl <;> decide

end Triage
end DocPipeline

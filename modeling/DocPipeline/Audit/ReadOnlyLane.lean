import DocPipeline.Reconciliation.ReadOnlyLane
import DocPipeline.Audit.Overflow
import DocPipeline.Schedule

/-!
# Does the read-only lane report on every document?

Each document has its own exit, and four of the five append a result. The fifth, for a
backend that raises, names an exception the module does not know; the gates can raise on
what a backend replies; and the ledger is asked with texts it has to be able to hold. Each
time the call has nothing to return.
-/
namespace DocPipeline.Audit

set_option autoImplicit false

open Operator Gates

variable {config : GateConfig} {backend : Backend} {tier : String} {w : World} {i : Nat} {docId : DocId}
  {docIds : List DocId} {result : ReplayResult} {results : List ReplayResult}

/-- What the lane should say of a document. -/
inductive ReportsOn (config : GateConfig) (backend : Backend) (tier : String) (w : World) (docId : DocId) (i : Nat) :
    ReplayResult → Prop
  | unknown : w.db.documents.lookup docId = none →
      ReportsOn config backend tier w docId i { docId := docId, error := some "not_found" }
  | notAssembled {doc : Document} : w.db.documents.lookup docId = some doc → w.bucket.assembled docId = none →
      ReportsOn config backend tier w docId i { docId := docId, error := some "not_yet_assembled" }
  | refused {doc : Document} {assembled : Artifact} {kind : Funnel.ErrorKind} {message : String} :
      w.db.documents.lookup docId = some doc → w.bucket.assembled docId = some assembled →
      backend i docId tier (sourceText assembled) 0 = .error kind message →
      ReportsOn config backend tier w docId i { docId := docId, tier := some tier, error := some kind.name }
  | invalid {doc : Document} {assembled : Artifact} {errors : List String} :
      w.db.documents.lookup docId = some doc → w.bucket.assembled docId = some assembled →
      backend i docId tier (sourceText assembled) 0 = .invalid errors →
      ReportsOn config backend tier w docId i
        { docId := docId, tier := some tier, fields := some .empty
          gates := some (.schema ⟨.fail, some (.errors errors)⟩) }
  | scored {doc : Document} {assembled : Artifact} {model : ExtractedFields} {report : GateReport} :
      w.db.documents.lookup docId = some doc → w.bucket.assembled docId = some assembled →
      backend i docId tier (sourceText assembled) 0 = .valid model →
      runAll config w.db docId doc.docType model.modelDump (sourceText assembled) = .ok report →
      ReportsOn config backend tier w docId i
        { docId := docId, tier := some tier, fields := some model.modelDump, gates := some (.all report) }

/-- A document whose id the ledger cannot be asked for; or an assembled one for which the
backend raises, or replies what the gates raise on. -/
inductive Spoils (backend : Backend) (tier : String) (w : World) (docId : DocId) (i : Nat) : Prop
  | unaskable : '\x00' ∈ docId.toList → Spoils backend tier w docId i
  | raises {doc : Document} {assembled : Artifact} {kind : Funnel.ErrorKind} {message : String} :
      w.db.documents.lookup docId = some doc → w.bucket.assembled docId = some assembled →
      backend i docId tier (sourceText assembled) 0 = .error kind message → Spoils backend tier w docId i
  | crashes {doc : Document} {assembled : Artifact} {model : ExtractedFields} :
      w.db.documents.lookup docId = some doc → w.bucket.assembled docId = some assembled →
      backend i docId tier (sourceText assembled) 0 = .valid model → Crashes model.modelDump → Spoils backend tier w docId i
  | unsendable {doc : Document} {assembled : Artifact} {model : ExtractedFields} {vendor invoiceNo : String} :
      w.db.documents.lookup docId = some doc → w.bucket.assembled docId = some assembled →
      backend i docId tier (sourceText assembled) 0 = .valid model →
      model.modelDump.seller = some vendor → model.modelDump.invoiceNo = some invoiceNo → vendor ≠ "" → invoiceNo ≠ "" →
      '\x00' ∈ vendor.toList ∨ '\x00' ∈ invoiceNo.toList → Spoils backend tier w docId i

theorem refused_iff {parameter : String} : refused parameter = true ↔ '\x00' ∈ parameter.toList :=
  List.contains_iff_mem

theorem dedupeRefused_iff {vendor invoiceNo : Option String} : dedupeRefused vendor invoiceNo = true ↔
    ∃ v n, vendor = some v ∧ invoiceNo = some n ∧ v ≠ "" ∧ n ≠ "" ∧ ('\x00' ∈ v.toList ∨ '\x00' ∈ n.toList) := by
  unfold dedupeRefused
  split
  · simp [refused_iff, and_assoc]
  · next hnone =>
    constructor
    · exact nofun
    · rintro ⟨v, n, rfl, rfl, -⟩
      exact absurd rfl (hnone v n rfl)

theorem run_get {α : Type} (f : World → Lane α) : (get >>= f).run w = (f w).run w := rfl

/-- A step that writes nothing, and what comes after it. -/
theorem run_bind {α β : Type} {t : Lane α} {r : Except ReplayError α} (h : t.run w = (r, w)) (f : α → Lane β) :
    (t >>= f).run w = ExceptT.bindCont f r w := by
  have hstate : (t >>= f).run w = ExceptT.bindCont f (t.run w).1 (t.run w).2 := rfl
  rw [hstate, h]

theorem replayDocument_spoiled (config : GateConfig) (h : Spoils backend tier w docId i) :
    ∃ e, (replayDocument config backend tier i docId).run w = (.error e, w) := by
  cases hsent : refused docId with
  | true =>
    refine ⟨.dataError, ?_⟩
    simp only [replayDocument, hsent, if_true]
    rfl
  | false =>
    cases h with
    | unaskable hid =>
      rw [refused_iff.mpr hid] at hsent
      cases hsent
    | raises hrow hassembled hreply =>
      refine ⟨.nameError "ExtractionError", ?_⟩
      simp only [replayDocument, hsent, Bool.false_eq_true, if_false, run_get, hrow, hassembled, hreply]
      rfl
    | @crashes doc assembled model hrow hassembled hreply hcrash =>
      have hraise : runAll config w.db docId doc.docType model.modelDump (sourceText assembled) = .error .overflowError :=
        runAll_raises_iff.mpr (overflows_iff_crashes.mpr hcrash)
      refine ⟨.overflowError, ?_⟩
      simp only [replayDocument, hsent, Bool.false_eq_true, if_false, run_get, hrow, hassembled, hreply, hraise]
      rfl
    | @unsendable doc assembled model vendor invoiceNo hrow hassembled hreply hvendor hno hv hn hnul =>
      have hdedupe : dedupeRefused model.modelDump.seller model.modelDump.invoiceNo = true :=
        dedupeRefused_iff.mpr ⟨vendor, invoiceNo, hvendor, hno, hv, hn, hnul⟩
      cases hgates : runAll config w.db docId doc.docType model.modelDump (sourceText assembled) with
      | error e =>
        cases e
        refine ⟨.overflowError, ?_⟩
        simp only [replayDocument, hsent, Bool.false_eq_true, if_false, run_get, hrow, hassembled, hreply, hgates]
        rfl
      | ok report =>
        refine ⟨.dataError, ?_⟩
        simp only [replayDocument, hsent, Bool.false_eq_true, if_false, run_get, hrow, hassembled, hreply, hgates, hdedupe,
          if_true]
        rfl

theorem replayDocument_reports (config : GateConfig) (h : ¬Spoils backend tier w docId i) :
    ∃ result, (replayDocument config backend tier i docId).run w = (.ok result, w) ∧
      ReportsOn config backend tier w docId i result := by
  have hsent : refused docId = false := Bool.eq_false_iff.mpr fun hid => h (.unaskable (refused_iff.mp hid))
  cases hrow : w.db.documents.lookup docId with
  | none =>
    refine ⟨_, ?_, .unknown hrow⟩
    simp only [replayDocument, hsent, Bool.false_eq_true, if_false, run_get, hrow]
    rfl
  | some doc =>
    cases hassembled : w.bucket.assembled docId with
    | none =>
      refine ⟨_, ?_, .notAssembled hrow hassembled⟩
      simp only [replayDocument, hsent, Bool.false_eq_true, if_false, run_get, hrow, hassembled]
      rfl
    | some assembled =>
      cases hreply : backend i docId tier (sourceText assembled) 0 with
      | error kind message => exact absurd (.raises hrow hassembled hreply) h
      | invalid errors =>
        refine ⟨_, ?_, .invalid hrow hassembled hreply⟩
        simp only [replayDocument, hsent, Bool.false_eq_true, if_false, run_get, hrow, hassembled, hreply]
        rfl
      | valid model =>
        have hfine : ¬Overflows model.modelDump := fun ho =>
          h (.crashes hrow hassembled hreply (overflows_iff_crashes.mp ho))
        have hdedupe : dedupeRefused model.modelDump.seller model.modelDump.invoiceNo = false := by
          refine Bool.eq_false_iff.mpr fun hd => ?_
          obtain ⟨vendor, invoiceNo, hvendor, hno, hv, hn, hnul⟩ := dedupeRefused_iff.mp hd
          exact h (.unsendable hrow hassembled hreply hvendor hno hv hn hnul)
        have hscored : ∃ report, runAll config w.db docId doc.docType model.modelDump (sourceText assembled) = .ok report :=
          runAll_total hfine
        obtain ⟨report, hreport⟩ := hscored
        refine ⟨_, ?_, .scored hrow hassembled hreply hreport⟩
        simp only [replayDocument, hsent, hdedupe, Bool.false_eq_true, if_false, run_get, hrow, hassembled, hreply, hreport]
        rfl

/-- The loop, from its `i`-th document on: every document reported on, or nothing returned. -/
theorem replayFrom_run (config : GateConfig) (backend : Backend) (tier : String) (w : World) (docIds : List DocId)
    (i : Nat) :
    ((∀ p, p ∈ docIds.zipIdx i → ¬Spoils backend tier w p.1 p.2) → ∃ results,
      (replayFrom config backend tier i docIds).run w = (.ok results, w) ∧
      List.Forall₂ (fun p => ReportsOn config backend tier w p.1 p.2) (docIds.zipIdx i) results) ∧
    (∀ p, p ∈ docIds.zipIdx i → Spoils backend tier w p.1 p.2 →
      ∃ e, (replayFrom config backend tier i docIds).run w = (.error e, w)) := by
  induction docIds generalizing i with
  | nil => exact ⟨fun _ => ⟨[], rfl, .nil⟩, nofun⟩
  | cons docId rest ih =>
    obtain ⟨ihfine, ihspoiled⟩ := ih (i + 1)
    simp only [replayFrom, List.zipIdx_cons, List.mem_cons, forall_eq_or_imp]
    by_cases hspoiled : Spoils backend tier w docId i
    · obtain ⟨e, he⟩ := replayDocument_spoiled config hspoiled
      have hraise : (replayDocument config backend tier i docId >>= fun result =>
          replayFrom config backend tier (i + 1) rest >>= fun results => pure (result :: results)).run w =
            (.error e, w) := by
        rw [run_bind he]
        rfl
      exact ⟨fun h => absurd hspoiled h.1, fun _ => ⟨e, hraise⟩, fun _ _ _ => ⟨e, hraise⟩⟩
    · obtain ⟨result, hrun, hreports⟩ := replayDocument_reports config hspoiled
      refine ⟨fun h => ?_, fun h => absurd h hspoiled, fun p hp hspoils => ?_⟩
      · obtain ⟨results, hrest, hall⟩ := ihfine h.2
        refine ⟨result :: results, ?_, .cons hreports hall⟩
        rw [run_bind hrun]
        change (replayFrom config backend tier (i + 1) rest >>= _).run w = _
        rw [run_bind hrest]
        rfl
      · obtain ⟨e, he⟩ := ihspoiled p hp hspoils
        refine ⟨e, ?_⟩
        rw [run_bind hrun]
        change (replayFrom config backend tier (i + 1) rest >>= _).run w = _
        rw [run_bind he]
        rfl

def parkedAt (gcsPath : String) : Document := { gcsPath := gcsPath, state := .review }

/-- Two assembled invoices. -/
def twoAssembled : World where
  db := { documents := ((∅ : Lib.Table DocId Document).insert "a" (parkedAt "a.pdf")).insert "b" (parkedAt "b.pdf") }
  bucket := (({} : Bucket).writeAssembled "a" ⟨"pypdf", "v1", [⟨0, "Total: 1.00"⟩]⟩).writeAssembled "b"
    ⟨"pypdf", "v1", [⟨0, "Total: 2.00"⟩]⟩

def refusesSecond : Backend := fun i _ _ _ _ => if i = 1 then .error .refusal "" else .invalid ["total_cents"]

end DocPipeline.Audit

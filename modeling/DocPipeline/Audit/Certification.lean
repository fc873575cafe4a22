import DocPipeline.Audit.Recording
import DocPipeline.Effects.Funnel

/-!
# What is posted stands in the document

The pages, the funnel, the ledger and the sink together. When the objects of the inbox are
left alone, OCR reads the document's own images and the verdict is the funnel's on the text in
hand, then what a row has as its result, what is announced and what the sink has posted is either the empty dictionary or
the dump of a schema-valid reply, each of whose values is in the document's own text, and
which adds up on an invoice. No order of steps, repetition or crash comes between the gates
and what they were run on.
-/
namespace DocPipeline.Audit

set_option autoImplicit false

open Lib Sys Gather Gates

variable {site : Deployment} {config : GateConfig} {engine : DocId → Nat → String} {s : Sys} {a : Action}
  {db db' : Db} {d : DocId} {fields : Fields}

/-- The fields are a reply that the gates let through on the whole text of the document. -/
def Vouched (site : Deployment) (config : GateConfig) (engine : DocId → Nat → String) (db : Db) (d : DocId)
    (fields : Fields) : Prop :=
  ∃ row texts model, db.documents.lookup d = some row ∧ Texts site engine d row texts ∧
    fields = ExtractedFields.modelDump model ∧ Grounded config fields ("\n".intercalate texts) ∧
    (row.docType = .invoice → AddsUp fields)

theorem Vouched.mono (h : Vouched site config engine db d fields) (ho : db.Outlives db') :
    Vouched site config engine db' d fields := by
  obtain ⟨row, texts, model, hrow, htexts, hdump, hgrounded, hadds⟩ := h
  obtain ⟨row', hrow', hout⟩ := ho.rows d row hrow
  exact ⟨row', texts, model, hrow', htexts.congr hout.gcsPath hout.pageCount, hdump, hgrounded,
    fun htype => hadds (hout.docType ▸ htype)⟩

/-- A step that records a verdict is given the funnel's on the text in hand, whatever the models
replied and whatever the ledger held at each tier. -/
def Judged (config : GateConfig) (s : Sys) : Action → Prop
  | .run tid input => ∀ d assembled attemptNo row, s.tasks tid = some (.extraction d (.extracting assembled attemptNo)) →
      s.document d = some row → ∃ ledger replies made,
        Funnel.runFunnel config ledger ⟨d, row.docType, Operator.sourceText assembled⟩ attemptNo replies =
          .ok (input.verdict, made)
  | _ => True

/-- What the funnel accepts on the whole text is vouched for. -/
theorem vouched_established (site : Deployment) (config : GateConfig) (engine : DocId → Nat → String) :
    Established site (Rightful site engine) (fun s a => readsOwn engine s a = true ∧ Judged config s a)
      (Vouched site config engine) where
  initially := rightful_initial site engine
  kept hi hg hs := rightful_step hi hg.1 hs
  sound hi := hi.provided.sound
  mono := Vouched.mono
  accepted := by
    intro s tid input d assembled attemptNo fields hi hg htask hfields
    obtain ⟨row, texts, hrow, htexts, hpages⟩ := hi.whole htask
    obtain ⟨ledger, replies, made, hfunnel⟩ := hg.2 d assembled attemptNo row htask hrow
    obtain ⟨tier, i, model, report, _, hdump, hrun, hblocked⟩ := Funnel.runFunnel_returns hfunnel hfields
    have hnot := (GateReport.blocked_iff_of_runAll hrun).not.mp (ne_true_of_eq_false hblocked)
    simp only [not_or, not_and, not_not] at hnot
    obtain ⟨hgrounded, hadds, _⟩ := hnot
    rw [sourceText_whole hpages] at hgrounded
    exact ⟨row, texts, model, hrow, htexts, hdump, hgrounded, hadds⟩

/-- When OCR reads a document's own images and every verdict is the funnel's on the text in
hand, no result, auto-post or posted row has fields of its document that are not vouched for. -/
theorem recorded_vouched {as : List Action}
    (h : GuardedRun site (fun s a => readsOwn engine s a = true ∧ Judged config s a) initial as s) (d : DocId) :
    (∀ row fields, s.document d = some row → row.extractionResult = some fields →
      fields = Fields.empty ∨ Vouched site config engine s.db d fields) ∧
    (∀ fields, (d, fields) ∈ autoPosts s → Vouched site config engine s.db d fields) ∧
    ∀ row, s.db.postedDocuments.lookup d = some row →
      row.fields = Fields.empty ∨ Vouched site config engine s.db d row.fields := by
  obtain ⟨hresult, hannounced, hposted⟩ := attests_run (vouched_established site config engine) h d
  exact ⟨hresult, hannounced, hposted⟩

theorem judged_of_repliedBy {replies : Funnel.Source → Nat → Tier → Nat → Funnel.Reply}
    (h : RepliedBy config replies s a) : Judged config s a := by
  cases a with
  | run tid input =>
    intro d assembled attemptNo row htask hrow
    obtain ⟨ledger, made, hfunnel⟩ := h d assembled attemptNo row htask hrow
    exact ⟨ledger, _, made, hfunnel⟩
  | tick | spawn | receive | crash | relay | sink => trivial

def invoiceReply : ExtractedFields where
  invoiceNo := some "1"
  totalCents := some 500
  lineItems := some [⟨"Widget", 500⟩]

/-- The model answers with prose, and then reads the invoice. -/
def proseFirst : Tier → Nat → Funnel.Reply
  | .cheap, 0 => .error .unparseable "Here is the invoice"
  | _, _ => .valid invoiceReply

/-- The funnel's verdict on the invoice. -/
def invoiceVerdict : Extraction.Verdict :=
  match Funnel.runFunnel .defaults (fun _ => {}) ⟨"crc32c-a", .invoice, invoiceText⟩ 1 proseFirst with
  | .ok (verdict, _) => verdict
  | .error _ => ⟨none, {}, 0, []⟩

/-- The invoice from the bucket to the sink. -/
def judgedAndPosted : List Action :=
  Schedule.intake ["a.pdf"] ++ Schedule.textLayer 0 ++ Schedule.extract 1 0 invoiceVerdict ++ Schedule.turns 1 2 ++
    Schedule.publish 1 ++ [.sink 0 .poll, .sink 0 .post]

theorem invoice_vouched :
    ∃ s row, GuardedRun oneInvoice (fun s a => readsOwn readsScan s a = true ∧ Judged .defaults s a) initial
        judgedAndPosted s ∧
      s.db.postedDocuments.lookup "crc32c-a" = some row ∧ row.fields = invoiceReply.modelDump ∧
      (row.fields = Fields.empty ∨ Vouched oneInvoice .defaults readsScan s.db "crc32c-a" row.fields) := by
  obtain ⟨s, hrun, hs⟩ := exists_guardedRun oneInvoice
    (fun s a => readsOwn readsScan s a && judgedBy .defaults (fun _ _ _ => proseFirst) s a) judgedAndPosted
    (fun s => (s.db.postedDocuments.lookup "crc32c-a").any fun row => decide (row.fields = invoiceReply.modelDump))
    (by decide +kernel)
  obtain ⟨row, hrow, hfields⟩ := (Option.any_eq_true ..).mp hs
  have hguarded : GuardedRun oneInvoice (fun s a => readsOwn readsScan s a = true ∧ Judged .defaults s a) initial
      judgedAndPosted s := by
    refine hrun.mono fun s a hg => ?_
    obtain ⟨hreads, hjudged⟩ := (Bool.and_eq_true _ _).mp hg
    exact ⟨hreads, judged_of_repliedBy (repliedBy_of_judgedBy hjudged)⟩
  exact ⟨s, row, hguarded, hrow, of_decide_eq_true hfields, (recorded_vouched hguarded "crc32c-a").2.2 row hrow⟩

end DocPipeline.Audit

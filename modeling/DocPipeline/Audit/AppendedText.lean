import DocPipeline.Effects.Funnel
import DocPipeline.Schedule

/-!
# Text appended to an invoice

The document type triage computes decides whether arithmetic applies, and triage reads it
off the same text an attacker can append to. The gate holds on an invoice followed by
anything exactly as long as neither keyword of the classifier occurs in the whole.
-/
namespace DocPipeline.Audit

set_option autoImplicit false

open Funnel Gates

/-- The total is missing, or is not the sum of the line items and the tax. -/
def Mismatched (model : ExtractedFields) : Prop :=
  model.totalCents ≠ some (computedSubtotal (model.lineItems.getD []) + model.taxCents.getD 0)

instance : DecidablePred Mismatched := fun _ => inferInstanceAs (Decidable (_ ≠ _))

/-- The document as the funnel sees it, with the type triage computes from its text. -/
def triaged (config : GateConfig) (docId : DocId) (text : String) : Source :=
  ⟨docId, classifyDocType config.unicode text, text⟩

/-- Whatever the ledger holds and the models answer, no mismatched extraction comes back. -/
def HoldsArithmetic (config : GateConfig) (docId : DocId) (text : String) : Prop :=
  ∀ (ledger : Tier → Db) (attemptNo : Nat) (replies : Tier → Nat → Reply) (model : ExtractedFields),
    Mismatched model → ∀ verdict calls,
      runFunnel config ledger (triaged config docId text) attemptNo replies = .ok (verdict, calls) →
      verdict.fields ≠ some model.modelDump

/-- The words the classifier looks for, in the text without case. -/
def HasKeyword (config : GateConfig) (text : String) : Prop :=
  "credit memo".toList <:+: (config.unicode.lower text).toList ∨
  "receipt".toList <:+: (config.unicode.lower text).toList

variable {config : GateConfig} {docId : DocId} {text : String}

theorem classify_invoice_iff : classifyDocType config.unicode text = .invoice ↔ ¬ HasKeyword config text := by
  rw [HasKeyword, ← Pdf.occursIn_iff, ← Pdf.occursIn_iff]
  dsimp only [classifyDocType]
  generalize Pdf.occursIn "credit memo".toList _ = memo
  generalize Pdf.occursIn "receipt".toList _ = receipt
  cases memo <;> cases receipt <;> simp

theorem not_addsUp_of_mismatched {model : ExtractedFields} (h : Mismatched model) :
    ¬ AddsUp model.modelDump := by
  rintro ⟨items, total, hi, _, ht, _, hsum⟩
  apply h
  have hi : model.lineItems = some items := hi
  have ht : model.totalCents = some total := ht
  rw [ht, hi, hsum]
  rfl

/-- An invoice's extraction is returned only if it adds up. -/
theorem addsUp_of_accepts {ledger : Tier → Db} {source : Source} {replies : Tier → Nat → Reply}
    {fields : Fields} (h : Accepts config ledger source replies fields) (hd : source.docType = .invoice) :
    AddsUp fields := by
  obtain ⟨tier, i, model, report, _, _, hg, hb⟩ := h
  by_contra hn
  have hblocked : report.blocked = true :=
    (GateReport.blocked_iff_of_runAll hg).mpr (.inr (.inl ⟨hd, hn⟩))
  rw [hb] at hblocked
  cases hblocked

/-- The reply that leaves everything out. -/
def nothing : ExtractedFields := {}

theorem nothing_passes {db : Db} {docType : DocType} (hd : docType ≠ .invoice) :
    ∃ report, runAll config db docId docType nothing.modelDump text = .ok report ∧
      report.blocked = false := by
  have hno : ¬ Overflows nothing.modelDump := by
    rintro (⟨cents, hc, _⟩ | ⟨issue, due, hc, _⟩)
    · cases hc
    · cases hc.1
  obtain ⟨report, hr⟩ := runAll_total hno
  refine ⟨report, hr, ?_⟩
  rw [← Bool.not_eq_true, GateReport.blocked_iff_of_runAll hr]
  rintro (hg | ⟨hi, _⟩ | ⟨vendor, invoiceNo, hv, _⟩)
  · exact hg ⟨rfl, rfl, rfl⟩
  · exact hd hi
  · cases hv

/-- Text appended to an invoice leaves the arithmetic gate in force exactly when the whole
has neither keyword. -/
theorem appended_text_harmless_iff (config : GateConfig) (docId : DocId) (invoiceText appended : String) :
    HoldsArithmetic config docId (invoiceText ++ appended) ↔ ¬ HasKeyword config (invoiceText ++ appended) := by
  rw [← classify_invoice_iff]
  constructor
  · intro h
    by_contra hd
    obtain ⟨report, hr, hb⟩ := nothing_passes hd
    let ledger : Tier → Db := fun _ => {}
    let replies : Tier → Nat → Reply := fun _ _ => .valid nothing
    have hreply : replies .cheap 0 = .valid nothing := rfl
    have hrun : ∃ verdict calls, runFunnel config ledger
        (triaged config docId (invoiceText ++ appended)) 1 replies = .ok (verdict, calls) ∧
        verdict.fields = some nothing.modelDump := runFunnel_first hreply hr hb
    obtain ⟨verdict, calls, hrun, hf⟩ := hrun
    have hmis : Mismatched nothing := fun h => Option.noConfusion rfl (heq_of_eq h)
    exact h ledger 1 replies nothing hmis verdict calls hrun hf
  · intro hd ledger attemptNo replies model hm verdict calls hrun hf
    have hacc := runFunnel_returns hrun hf
    exact not_addsUp_of_mismatched hm (addsUp_of_accepts hacc hd)

def paidText : String := "INV-1\nSeller: Acme\nLine Item: Widget | 100.00\nTotal: 100.00\n"

def receiptFooter : String := "Receipt total: $0.01"

def injectedTotal : ExtractedFields where
  invoiceNo := some "INV-1"
  seller := some "Acme"
  totalCents := some 1
  lineItems := some [⟨"Widget", 10000⟩]

/-- An invoice by its own text is returned with the footer's total. -/
theorem receipt_footer_accepted :
    classifyDocType .ascii paidText = .invoice ∧ Mismatched injectedTotal ∧
    (runFunnel .defaults (fun _ => {}) (triaged .defaults "crc32c-a" (paidText ++ receiptFooter)) 1
      (fun _ _ => .valid injectedTotal)).toOption.map (fun r => r.1.fields) =
        some (some injectedTotal.modelDump) := by
  decide +kernel

end DocPipeline.Audit

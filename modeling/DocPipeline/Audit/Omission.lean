import DocPipeline.Core.GatesSpec
import DocPipeline.Schedule

/-!
# Leaving fields out of an extraction

The blocking decision on an extraction and on the same extraction with some of its keys
left out. Grounding and the duplicate check look only at the keys that are there, so an
objection they raise goes when its key goes; arithmetic asks for the line items and the
total, and takes a missing subtotal or tax as no objection.
-/
namespace DocPipeline.Audit

set_option autoImplicit false

open Gates

/-- The keys a reply may leave out; `doc_type` and `currency` then take their defaults. -/
inductive FieldKey where
  | docType | invoiceNo | invoiceDate | dueDate | seller | buyer | currency
  | totalCents | subtotalCents | taxCents | iban | lineItems
  deriving DecidableEq, Repr

def without (keys : List FieldKey) (model : ExtractedFields) : ExtractedFields :=
  { docType := if .docType ∈ keys then .invoice else model.docType
    invoiceNo := if .invoiceNo ∈ keys then none else model.invoiceNo
    invoiceDate := if .invoiceDate ∈ keys then none else model.invoiceDate
    dueDate := if .dueDate ∈ keys then none else model.dueDate
    seller := if .seller ∈ keys then none else model.seller
    buyer := if .buyer ∈ keys then none else model.buyer
    currency := if .currency ∈ keys then "USD" else model.currency
    totalCents := if .totalCents ∈ keys then none else model.totalCents
    subtotalCents := if .subtotalCents ∈ keys then none else model.subtotalCents
    taxCents := if .taxCents ∈ keys then none else model.taxCents
    iban := if .iban ∈ keys then none else model.iban
    lineItems := if .lineItems ∈ keys then none else model.lineItems }

section
variable (config : GateConfig) (db : Db) (docId : DocId) (docType : DocType) (text : String)

/-- The gates give a report on the extraction, and it blocks. -/
def Rejects (model : ExtractedFields) : Prop :=
  ∃ report, runAll config db docId docType model.modelDump text = .ok report ∧ report.blocked = true

/-- The line items and the total are kept, and what is kept adds up. -/
def KeptAddsUp (keys : List FieldKey) (model : ExtractedFields) : Prop :=
  FieldKey.lineItems ∉ keys ∧ FieldKey.totalCents ∉ keys ∧
  ∃ items total, model.lineItems = some items ∧ items ≠ [] ∧ model.totalCents = some total ∧
    (∀ declared, FieldKey.subtotalCents ∉ keys → model.subtotalCents = some declared →
      declared = computedSubtotal items) ∧
    total = computedSubtotal items + if FieldKey.taxCents ∈ keys then 0 else model.taxCents.getD 0

/-- What still speaks against the extraction without the keys: a value that is kept and
is not in the text, an invoice whose kept amounts are too few or do not add up, or a
business key that is kept and taken. -/
def Standing (keys : List FieldKey) (model : ExtractedFields) : Prop :=
  (FieldKey.invoiceNo ∉ keys ∧ ungrounded config.unicode model.invoiceNo text = true) ∨
  (FieldKey.seller ∉ keys ∧ ungrounded config.unicode model.seller text = true) ∨
  (FieldKey.totalCents ∉ keys ∧ ungroundedTotal model.totalCents text = .ok true) ∨
  (docType = .invoice ∧ ¬ KeptAddsUp keys model) ∨
  (FieldKey.seller ∉ keys ∧ FieldKey.invoiceNo ∉ keys ∧ Taken db docId model.modelDump)

instance (model : ExtractedFields) : Decidable (Rejects config db docId docType text model) :=
  decidable_of_iff
    ((runAll config db docId docType model.modelDump text).toOption.any GateReport.blocked = true) (by
      unfold Rejects
      cases runAll config db docId docType model.modelDump text <;> simp [Except.toOption])

end

variable {config : GateConfig} {db : Db} {docId : DocId} {docType : DocType} {text : String}
  {model : ExtractedFields} {keys : List FieldKey}

theorem rejects_iff {report : GateReport}
    (h : runAll config db docId docType model.modelDump text = .ok report) :
    Rejects config db docId docType text model ↔ ¬ Grounded config model.modelDump text ∨
      (docType = .invoice ∧ ¬ AddsUp model.modelDump) ∨ Taken db docId model.modelDump := by
  rw [← GateReport.blocked_iff_of_runAll h, Rejects, h]
  simp

theorem omit_addsUp_iff : AddsUp (without keys model).modelDump ↔ KeptAddsUp keys model := by
  unfold AddsUp KeptAddsUp without ExtractedFields.modelDump
  by_cases hl : FieldKey.lineItems ∈ keys
  · simp [hl]
  by_cases ht : FieldKey.totalCents ∈ keys
  · simp [ht]
  by_cases hs : FieldKey.subtotalCents ∈ keys <;> by_cases hx : FieldKey.taxCents ∈ keys <;>
    simp [hl, ht, hs, hx]

theorem omit_taken_iff : Taken db docId (without keys model).modelDump ↔
    FieldKey.seller ∉ keys ∧ FieldKey.invoiceNo ∉ keys ∧ Taken db docId model.modelDump := by
  unfold Taken without ExtractedFields.modelDump
  by_cases hv : FieldKey.seller ∈ keys
  · simp [hv]
  by_cases hn : FieldKey.invoiceNo ∈ keys
  · simp [hn]
  · simp [hv, hn]

theorem omit_ungroundedTotal {missing : Bool} (h : ungroundedTotal model.totalCents text = .ok missing) :
    ungroundedTotal (without keys model).totalCents text =
      .ok (decide (FieldKey.totalCents ∉ keys) && missing) := by
  unfold without
  by_cases ht : FieldKey.totalCents ∈ keys
  · simp [ht, ungroundedTotal]
  · simpa [ht] using h

theorem omit_ungrounded {value : Option String} {key : FieldKey} :
    ungrounded config.unicode (if key ∈ keys then none else value) text =
      (decide (key ∉ keys) && ungrounded config.unicode value text) := by
  by_cases hk : key ∈ keys <;> simp [hk, ungrounded]

theorem omit_grounded_iff {missing : Bool} (h : ungroundedTotal model.totalCents text = .ok missing) :
    ¬ Grounded config (without keys model).modelDump text ↔
      (FieldKey.invoiceNo ∉ keys ∧ ungrounded config.unicode model.invoiceNo text = true) ∨
      (FieldKey.seller ∉ keys ∧ ungrounded config.unicode model.seller text = true) ∨
      (FieldKey.totalCents ∉ keys ∧ ungroundedTotal model.totalCents text = .ok true) := by
  have ht : ungroundedTotal (without keys model).modelDump.totalCents text =
      .ok (decide (FieldKey.totalCents ∉ keys) && missing) := omit_ungroundedTotal h
  have hn : ungrounded config.unicode (without keys model).modelDump.invoiceNo text =
      (decide (FieldKey.invoiceNo ∉ keys) && ungrounded config.unicode model.invoiceNo text) := omit_ungrounded
  have hs : ungrounded config.unicode (without keys model).modelDump.seller text =
      (decide (FieldKey.seller ∉ keys) && ungrounded config.unicode model.seller text) := omit_ungrounded
  unfold Grounded
  rw [ht, hn, hs, h]
  simp
  grind

/-- Without some of its keys an extraction raises nothing it did not raise with them. -/
theorem omit_runAll {report : GateReport}
    (h : runAll config db docId docType model.modelDump text = .ok report) :
    ∃ report', runAll config db docId docType (without keys model).modelDump text = .ok report' := by
  apply runAll_total
  intro hov
  have hnot : ¬ Overflows model.modelDump := by
    intro hov'
    rw [runAll_raises_iff.mpr hov'] at h
    cases h
  apply hnot
  rcases hov with ⟨cents, hc, hn⟩ | ⟨issue, due, ⟨hi, hie, hd, hde⟩, hr⟩
  · have hkept : model.totalCents = some cents := (Option.ite_none_left_eq_some.mp hc).2
    exact .inl ⟨cents, hkept, hn⟩
  · have hissue : model.invoiceDate = some issue := (Option.ite_none_left_eq_some.mp hi).2
    have hdue : model.dueDate = some due := (Option.ite_none_left_eq_some.mp hd).2
    exact .inr ⟨issue, due, ⟨hissue, hie, hdue, hde⟩, hr⟩

/-- Leaving keys out of a rejected extraction keeps it rejected exactly when something
still speaks against it. -/
theorem omission_rejected_iff (config : GateConfig) (db : Db) (docId : DocId) (docType : DocType)
    (text : String) (model : ExtractedFields) (keys : List FieldKey)
    (h : Rejects config db docId docType text model) :
    Rejects config db docId docType text (without keys model) ↔
      Standing config db docId docType text keys model := by
  obtain ⟨report, hr, _⟩ := h
  obtain ⟨⟨missing, hm⟩, _⟩ := grounding_ok (runAll_ok.mp hr).1
  obtain ⟨report', hr'⟩ := @omit_runAll _ _ _ _ _ _ keys _ hr
  rw [rejects_iff hr', omit_grounded_iff hm, omit_addsUp_iff, omit_taken_iff, Standing]
  simp only [or_assoc]

/-- An invoice whose reply names a seller the text does not have. -/
def ghostText : String := "Invoice No: INV-1\nSeller: Acme\nLine Item: Widget | 1.00\nTotal: 1.00"

def ghostSeller : ExtractedFields where
  invoiceNo := some "INV-1"
  seller := some "Ghost Corp"
  totalCents := some 100
  lineItems := some [⟨"Widget", 100⟩]

theorem ghost_rejected_without_number :
    Rejects .defaults {} "crc32c-a" .invoice ghostText (without [.invoiceNo] ghostSeller) :=
  (omission_rejected_iff .defaults {} "crc32c-a" .invoice ghostText ghostSeller [.invoiceNo]
    (by decide +kernel)).mpr (.inr (.inl (by decide +kernel)))

/-- Without the seller nothing objects any more. -/
theorem ghost_accepted_without_seller :
    Rejects .defaults {} "crc32c-a" .invoice ghostText ghostSeller ∧
    (runAll .defaults {} "crc32c-a" .invoice (without [.seller] ghostSeller).modelDump
      ghostText).toOption.map GateReport.blocked = some false := by
  decide +kernel

end DocPipeline.Audit

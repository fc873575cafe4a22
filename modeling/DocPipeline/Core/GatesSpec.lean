import DocPipeline.Core.Gates

/-!
# What each blocking gate asks

The outcomes of the three blocking gates as conditions on the fields, the document and
the ledger, and from them the blocking decision of a whole report.
-/
namespace DocPipeline.Gates

set_option autoImplicit false

variable {config : GateConfig} {db : Db} {docId : DocId} {docType : DocType} {fields : Fields}
  {text : String}

/-- Every value grounding looks for is in the text. -/
def Grounded (config : GateConfig) (fields : Fields) (text : String) : Prop :=
  ungrounded config.unicode fields.invoiceNo text = false ∧
  ungrounded config.unicode fields.seller text = false ∧
  ungroundedTotal fields.totalCents text = .ok false

/-- The line items, the tax and the declared amounts agree. -/
def AddsUp (fields : Fields) : Prop :=
  ∃ items total, fields.lineItems = some items ∧ items ≠ [] ∧ fields.totalCents = some total ∧
    (∀ declared, fields.subtotalCents = some declared → declared = computedSubtotal items) ∧
    total = computedSubtotal items + fields.taxCents.getD 0

/-- Another complete document holds the business key of the fields. -/
def Taken (db : Db) (docId : DocId) (fields : Fields) : Prop :=
  ∃ vendor invoiceNo, fields.seller = some vendor ∧ vendor ≠ "" ∧
    fields.invoiceNo = some invoiceNo ∧ invoiceNo ≠ "" ∧
    (completeHolder db docId vendor invoiceNo).isSome

theorem grounding_ok {g : GateResult} (h : grounding config fields text = .ok g) :
    (∃ missing, ungroundedTotal fields.totalCents text = .ok missing) ∧
    ((g.outcome = .pass ∧ Grounded config fields text) ∨
      (g.outcome = .fail ∧ ¬ Grounded config fields text)) := by
  unfold grounding at h
  match ht : ungroundedTotal fields.totalCents text with
  | .error e => rw [ht] at h; cases h
  | .ok total =>
    rw [ht] at h
    have hg := Except.ok.inj h
    refine ⟨⟨total, rfl⟩, ?_⟩
    rw [← hg]
    unfold Grounded
    rw [ht]
    cases ungrounded config.unicode fields.invoiceNo text <;>
      cases ungrounded config.unicode fields.seller text <;> cases total <;> simp

theorem grounding_raises_iff : grounding config fields text = .error .overflowError ↔
    ∃ cents, fields.totalCents = some cents ∧ Money.moneyReprs cents = none := by
  unfold grounding ungroundedTotal
  match fields.totalCents with
  | none => simp [pure, Except.pure, bind, Except.bind]
  | some cents =>
    match hr : Money.moneyReprs cents with
    | none => simp [hr, bind, Except.bind]
    | some reprs => simp [hr, pure, Except.pure, bind, Except.bind]

theorem totalAgainst_pass_iff {computed : Int} {total : Option Int} :
    (arithmetic.totalAgainst computed total).outcome = .pass ↔ total = some computed := by
  cases total with
  | none => simp [arithmetic.totalAgainst]
  | some t =>
    by_cases h : t = computed
    · simp [arithmetic.totalAgainst, h]
    · simp [arithmetic.totalAgainst, h]

theorem totalAgainst_applies (computed : Int) (total : Option Int) :
    (arithmetic.totalAgainst computed total).outcome ≠ .notApplicable := by
  cases total with
  | none => simp [arithmetic.totalAgainst]
  | some t =>
    by_cases h : t = computed
    · simp [arithmetic.totalAgainst, h]
    · simp [arithmetic.totalAgainst, h]

/-- On an invoice the gate passes what adds up and nothing else. -/
theorem arithmetic_pass_iff :
    (arithmetic docType fields).outcome = .pass ↔ docType = .invoice ∧ AddsUp fields := by
  unfold arithmetic AddsUp
  by_cases hd : docType = .invoice
  · match hi : fields.lineItems with
    | none => simp [hd]
    | some [] => simp [hd]
    | some (item :: items) =>
      match hs : fields.subtotalCents with
      | none => simp [hd, totalAgainst_pass_iff]
      | some declared =>
        by_cases he : declared = computedSubtotal (item :: items)
        · simp [hd, totalAgainst_pass_iff, Option.filter, he]
        · simp [hd, Option.filter, he]
  · simp [hd]

theorem arithmetic_notApplicable_iff :
    (arithmetic docType fields).outcome = .notApplicable ↔ docType ≠ .invoice := by
  unfold arithmetic
  by_cases hd : docType = .invoice
  · rw [if_neg (by simp [hd])]
    match fields.lineItems with
    | none => simp [hd]
    | some [] => simp [hd]
    | some (item :: items) =>
      dsimp only
      split
      · simp [hd]
      · simp [hd, totalAgainst_applies]
  · simp [hd]

theorem arithmetic_not_accepted : (arithmetic docType fields).outcome ≠ .accepted := by
  unfold arithmetic arithmetic.totalAgainst
  grind

/-- The gate blocks the invoices that do not add up, missing amounts included. -/
theorem arithmetic_blocks_iff :
    (arithmetic docType fields).outcome = .fail ∨ (arithmetic docType fields).outcome = .inconclusive ↔
      docType = .invoice ∧ ¬ AddsUp fields := by
  have hp : (arithmetic docType fields).outcome = .pass ↔ _ := arithmetic_pass_iff
  have hn : (arithmetic docType fields).outcome = .notApplicable ↔ _ := arithmetic_notApplicable_iff
  have ha : (arithmetic docType fields).outcome ≠ .accepted := arithmetic_not_accepted
  cases ho : (arithmetic docType fields).outcome <;> simp only [ho] at hp hn ha <;> simp_all

theorem grounding_blocks_iff {g : GateResult} (h : grounding config fields text = .ok g) :
    g.outcome = .fail ∨ g.outcome = .inconclusive ↔ ¬ Grounded config fields text := by
  rcases (grounding_ok h).2 with ⟨hp, hg⟩ | ⟨hf, hg⟩
  · simp [hp, hg]
  · simp [hf, hg]

theorem businessDedupe_blocks_iff :
    (businessDedupe db docId fields.seller fields.invoiceNo).outcome = .fail ∨
      (businessDedupe db docId fields.seller fields.invoiceNo).outcome = .inconclusive ↔
    Taken db docId fields := by
  unfold businessDedupe Taken
  match fields.seller, fields.invoiceNo with
  | none, _ => simp
  | some _, none => simp
  | some vendor, some invoiceNo =>
    by_cases he : vendor = "" ∨ invoiceNo = ""
    · simp [he]
      grind
    · match hc : completeHolder db docId vendor invoiceNo with
      | none => simp [he, hc]
      | some holder =>
        simp [he, hc]
        grind

theorem dateReasons_raises_iff {issue due : String} : dateReasons issue due = .error .overflowError ↔
    ∃ dIssue dDue, Date.fromIsoformat issue = some dIssue ∧ Date.fromIsoformat due = some dDue ∧
      dIssue ≤ dDue ∧ Date.addDays dIssue 365 = none := by
  unfold dateReasons
  match Date.fromIsoformat issue, Date.fromIsoformat due with
  | none, _ => simp
  | some _, none => simp
  | some dIssue, some dDue =>
    by_cases hlt : dDue < dIssue
    · simp [hlt]
    · cases ha : Date.addDays dIssue 365 <;> simp [hlt, ha, Nat.le_of_not_lt hlt]

/-- The dates are compared only when both are there. -/
def ComparesDates (fields : Fields) (issue due : String) : Prop :=
  fields.invoiceDate = some issue ∧ issue ≠ "" ∧ fields.dueDate = some due ∧ due ≠ ""

theorem plausibility_raises_iff : plausibility config docType fields = .error .overflowError ↔
    ∃ issue due, ComparesDates fields issue due ∧ dateReasons issue due = .error .overflowError := by
  unfold plausibility ComparesDates
  match fields.invoiceDate, fields.dueDate with
  | none, _ => simp [pure, Except.pure, bind, Except.bind]
  | some _, none => simp [pure, Except.pure, bind, Except.bind]
  | some issue, some due =>
    by_cases he : issue = "" ∨ due = ""
    · simp [he, pure, Except.pure, bind, Except.bind]
      grind
    · cases hd : dateReasons issue due <;> simp [he, hd, pure, Except.pure, bind, Except.bind]
      grind

theorem runAll_ok {report : GateReport} :
    runAll config db docId docType fields text = .ok report ↔
    grounding config fields text = .ok report.grounding ∧
    plausibility config docType fields = .ok report.plausibility ∧
    report.arithmetic = arithmetic docType fields ∧ report.ibanMod97 = ibanMod97 config fields ∧
    report.businessDedupe = businessDedupe db docId fields.seller fields.invoiceNo := by
  obtain ⟨rg, ra, ri, rp, rb⟩ := report
  unfold runAll
  cases grounding config fields text <;> cases plausibility config docType fields <;>
    simp [pure, Except.pure, bind, Except.bind]
  grind

/-- The two ways the gates can raise. -/
def Overflows (fields : Fields) : Prop :=
  (∃ cents, fields.totalCents = some cents ∧ Money.moneyReprs cents = none) ∨
  ∃ issue due, ComparesDates fields issue due ∧ dateReasons issue due = .error .overflowError

theorem runAll_raises_iff :
    runAll config db docId docType fields text = .error .overflowError ↔ Overflows fields := by
  rw [Overflows, ← @grounding_raises_iff config _ text, ← @plausibility_raises_iff config docType]
  unfold runAll
  cases grounding config fields text with
  | error e => simp [bind, Except.bind]
  | ok g =>
    cases plausibility config docType fields with
    | error e => simp [bind, Except.bind]
    | ok p => simp [pure, Except.pure, bind, Except.bind]

theorem runAll_total (h : ¬ Overflows fields) :
    ∃ report, runAll config db docId docType fields text = .ok report := by
  match hr : runAll config db docId docType fields text with
  | .ok report => exact ⟨report, rfl⟩
  | .error .overflowError => exact absurd (runAll_raises_iff.mp hr) h

end DocPipeline.Gates

namespace DocPipeline.GateReport

set_option autoImplicit false

open Gates

theorem blocked_iff {report : GateReport} : report.blocked = true ↔
    (report.grounding.outcome = .fail ∨ report.grounding.outcome = .inconclusive) ∨
    (report.arithmetic.outcome = .fail ∨ report.arithmetic.outcome = .inconclusive) ∨
    (report.businessDedupe.outcome = .fail ∨ report.businessDedupe.outcome = .inconclusive) := by
  simp [blocked, blockingFail, blockingInconclusive, entries, blockingGates, onInconclusive]
  grind

/-- The blocking decision: a value that is not in the text, an invoice that does not add
up, or a business key another complete document holds. -/
theorem blocked_iff_of_runAll {config : GateConfig} {db : Db} {docId : DocId} {docType : DocType}
    {fields : Fields} {text : String} {report : GateReport}
    (h : runAll config db docId docType fields text = .ok report) :
    report.blocked = true ↔ ¬ Grounded config fields text ∨ (docType = .invoice ∧ ¬ AddsUp fields) ∨
      Taken db docId fields := by
  obtain ⟨hg, _, ha, _, hb⟩ := runAll_ok.mp h
  rw [blocked_iff, grounding_blocks_iff hg, ha, arithmetic_blocks_iff, hb, businessDedupe_blocks_iff]

end DocPipeline.GateReport

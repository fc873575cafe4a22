import Mathlib.Algebra.Order.Ring.Int
import DocPipeline.Core.Artifact
import DocPipeline.Text.Date
import DocPipeline.Text.Json
import DocPipeline.Text.Money

/-!
# The extraction schema and the quality gates

`core/models.py` and `core/gates.py`. A gate reads the dumped dictionary, never the
validated object. Two of them can raise: grounding through the float division of an
amount, plausibility through the addition of a year to a date; both raise
`OverflowError`, which no caller up to the worker's loop catches. The SELECT of the dedupe
gate is one the database answers: a parameter it refuses, with U+0000 in it, is not seen here.
-/
namespace DocPipeline

set_option autoImplicit false

/-- A schema-valid reply. Only `doc_type` and `currency` have defaults of their own. -/
structure ExtractedFields where
  docType : DocType := .invoice
  invoiceNo : Option String := none
  invoiceDate : Option String := none
  dueDate : Option String := none
  seller : Option String := none
  buyer : Option String := none
  currency : String := "USD"
  totalCents : Option Int := none
  subtotalCents : Option Int := none
  taxCents : Option Int := none
  iban : Option String := none
  lineItems : Option (List LineItem) := none
  deriving DecidableEq, Repr

/-- `model_dump(exclude_none=True)`. -/
def ExtractedFields.modelDump (model : ExtractedFields) : Fields :=
  { docType := some model.docType
    invoiceNo := model.invoiceNo
    invoiceDate := model.invoiceDate
    dueDate := model.dueDate
    seller := model.seller
    buyer := model.buyer
    currency := some model.currency
    totalCents := model.totalCents
    subtotalCents := model.subtotalCents
    taxCents := model.taxCents
    iban := model.iban
    lineItems := model.lineItems }

/-- The tables of Unicode the gates use, and the constants of `config.py` the funnel
reads. `decimal` is the value of a decimal digit of any script. -/
structure GateConfig where
  unicode : UnicodeTables
  upper : String → String
  decimal : Char → Option Nat
  plausibleTotalCeilingCents : Int
  maxRepairAttempts : Nat

inductive GateError where
  | overflowError
  deriving DecidableEq, Repr

inductive GateName where
  | grounding | arithmetic | ibanMod97 | plausibility | businessDedupe
  deriving DecidableEq, Repr

inductive OnInconclusive where
  | block | allow
  deriving DecidableEq, Repr

namespace Gates

def blockingGates : List GateName := [.grounding, .arithmetic, .businessDedupe]

/-- `ON_INCONCLUSIVE.get`. -/
def onInconclusive : GateName → Option OnInconclusive
  | .grounding => some .block
  | .arithmetic => some .block
  | .ibanMod97 => some .allow
  | .businessDedupe => some .block
  | .plausibility => none

/-- A key whose value is there, is not empty, and is not in the text up to case. -/
def ungrounded (unicode : UnicodeTables) (value : Option String) (sourceText : String) : Bool :=
  match value with
  | none => false
  | some val =>
    val ≠ "" && !Pdf.occursIn (unicode.lower val).toList (unicode.lower sourceText).toList

/-- No rendering of the amount is in the text. -/
def ungroundedTotal (total : Option Int) (sourceText : String) : Except GateError Bool :=
  match total with
  | none => .ok false
  | some cents =>
    match Money.moneyReprs cents with
    | none => .error .overflowError
    | some reprs => .ok (!reprs.any fun r => Pdf.occursIn r.toList sourceText.toList)

def grounding (config : GateConfig) (fields : Fields) (sourceText : String) :
    Except GateError GateResult := do
  let total ← ungroundedTotal fields.totalCents sourceText
  let missing :=
    (if ungrounded config.unicode fields.invoiceNo sourceText then ["invoice_no"] else []) ++
    (if ungrounded config.unicode fields.seller sourceText then ["seller"] else []) ++
    (if total then ["total_cents"] else [])
  return if missing = [] then ⟨.pass, none⟩ else ⟨.fail, some (.missingFields missing)⟩

def computedSubtotal (items : List LineItem) : Int := (items.map LineItem.amountCents).sum

def arithmetic (docType : DocType) (fields : Fields) : GateResult :=
  if docType ≠ .invoice then ⟨.notApplicable, none⟩
  else match fields.lineItems with
    | none | some [] => ⟨.inconclusive, some (.reason "no_line_items")⟩
    | some items =>
      let computed := computedSubtotal items
      let tax := fields.taxCents.getD 0
      match fields.subtotalCents.filter (· ≠ computed) with
      | some declared => ⟨.fail, some (.mismatch "subtotal_mismatch" computed declared)⟩
      | none => totalAgainst (computed + tax) fields.totalCents
where
  totalAgainst (computed : Int) : Option Int → GateResult
    | none => ⟨.inconclusive, some (.totalMissing computed)⟩
    | some total =>
      if total ≠ computed then ⟨.fail, some (.mismatch "total_mismatch" computed total)⟩
      else ⟨.pass, none⟩

/-- `int(c, 36)`; none for `ValueError`. -/
def base36 (config : GateConfig) (c : Char) : Option Nat :=
  if 'a' ≤ c && c ≤ 'z' then some (c.toNat - 'a'.toNat + 10)
  else if 'A' ≤ c && c ≤ 'Z' then some (c.toNat - 'A'.toNat + 10)
  else config.decimal c

/-- `int(numeric)` of decimal digits; none for `ValueError`. -/
def intOfDigits (numeric : List Char) : Option Nat :=
  if numeric = [] ∨ maxStrDigits < numeric.length then none
  else some (numeric.foldl (fun acc c => acc * 10 + (c.toNat - 48)) 0)

def ibanMod97 (config : GateConfig) (fields : Fields) : GateResult :=
  match fields.iban with
  | none | some "" => ⟨.notApplicable, none⟩
  | some iban =>
    let cleaned := (config.upper (String.ofList (iban.toList.filter (· ≠ ' ')))).toList
    let rearranged := cleaned.drop 4 ++ cleaned.take 4
    let remainder := do
      let values ← rearranged.mapM (base36 config)
      let n ← intOfDigits (values.flatMap fun v => (toString v).toList)
      return n % 97
    match remainder with
    | none => ⟨.fail, some (.reason "malformed_iban")⟩
    | some r => if r = 1 then ⟨.pass, none⟩ else ⟨.fail, some (.reason "checksum_mismatch")⟩

def totalReasons (config : GateConfig) (docType : DocType) : Option Int → List String
  | none => ["total_missing"]
  | some total =>
    let checked := if docType = .creditMemo then (total.natAbs : Int) else total
    if 0 < checked ∧ checked ≤ config.plausibleTotalCeilingCents then [] else ["total_out_of_range"]

/-- The year is added only to an issue date that is not after the due date. -/
def dateReasons (issue due : String) : Except GateError (List String) :=
  match Date.fromIsoformat issue, Date.fromIsoformat due with
  | some dIssue, some dDue =>
    if dDue < dIssue then .ok ["due_date_out_of_range"]
    else match Date.addDays dIssue 365 with
      | none => .error .overflowError
      | some latest => .ok (if dDue ≤ latest then [] else ["due_date_out_of_range"])
  | _, _ => .ok ["unparseable_dates"]

def plausibility (config : GateConfig) (docType : DocType) (fields : Fields) :
    Except GateError GateResult := do
  let dates ← match fields.invoiceDate, fields.dueDate with
    | some issue, some due => if issue = "" ∨ due = "" then .ok [] else dateReasons issue due
    | _, _ => .ok []
  let reasons := totalReasons config docType fields.totalCents ++ dates
  return if reasons = [] then ⟨.pass, none⟩ else ⟨.fail, some (.reasons reasons)⟩

/-- The row the SELECT finds. The unique index leaves it no choice of another one. -/
def completeHolder (db : Db) (docId : DocId) (vendor invoiceNo : String) : Option DocId :=
  (db.documents.rows.find? fun r =>
    decide (r.2.vendor = some vendor) && decide (r.2.invoiceNo = some invoiceNo) &&
      r.1 ≠ docId && decide (r.2.state = .complete)).map Prod.fst

def businessDedupe (db : Db) (docId : DocId) (vendor invoiceNo : Option String) : GateResult :=
  match vendor, invoiceNo with
  | some vendor, some invoiceNo =>
    if vendor = "" ∨ invoiceNo = "" then ⟨.notApplicable, none⟩
    else match completeHolder db docId vendor invoiceNo with
      | some holder => ⟨.fail, some (.duplicateOf holder)⟩
      | none => ⟨.pass, none⟩
  | _, _ => ⟨.notApplicable, none⟩

end Gates

/-- The dictionary `run_all` returns. -/
structure GateReport where
  grounding : GateResult
  arithmetic : GateResult
  ibanMod97 : GateResult
  plausibility : GateResult
  businessDedupe : GateResult
  deriving DecidableEq, Repr

namespace GateReport

def entries (report : GateReport) : List (GateName × GateResult) := [
  (.grounding, report.grounding),
  (.arithmetic, report.arithmetic),
  (.ibanMod97, report.ibanMod97),
  (.plausibility, report.plausibility),
  (.businessDedupe, report.businessDedupe)]

def blockingFail (report : GateReport) : Bool :=
  report.entries.any fun e => decide (e.2.outcome = .fail) && decide (e.1 ∈ Gates.blockingGates)

def blockingInconclusive (report : GateReport) : Bool :=
  report.entries.any fun e =>
    decide (e.2.outcome = .inconclusive) && decide (Gates.onInconclusive e.1 = some .block)

/-- The funnel's blocking decision. -/
def blocked (report : GateReport) : Bool := report.blockingFail || report.blockingInconclusive

end GateReport

def Gates.runAll (config : GateConfig) (db : Db) (docId : DocId) (docType : DocType) (fields : Fields)
    (sourceText : String) : Except GateError GateReport := do
  return {
    grounding := ← grounding config fields sourceText
    arithmetic := arithmetic docType fields
    ibanMod97 := ibanMod97 config fields
    plausibility := ← plausibility config docType fields
    businessDedupe := businessDedupe db docId fields.seller fields.invoiceNo }

end DocPipeline

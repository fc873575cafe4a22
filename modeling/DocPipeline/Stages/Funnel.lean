import DocPipeline.Core.Gates
import DocPipeline.Stages.Extraction

/-!
# The extraction funnel

`run_funnel`: for each tier a repair loop that asks the model until a reply passes the
schema, then the gates on that reply. What the model answers to each call is an input,
and so is the ledger each tier's duplicate check sees. The gate results accumulate over
the tiers; the schema entry of a tier is written when its loop ends.
-/
namespace DocPipeline.Funnel

set_option autoImplicit false

inductive ErrorKind where
  | contextOverflow | refusal | transient | unparseable
  deriving DecidableEq, Repr

def ErrorKind.name : ErrorKind → String
  | .contextOverflow => "context_overflow"
  | .refusal => "refusal"
  | .transient => "transient"
  | .unparseable => "unparseable"

/-- What one call gives: an object that `validate_schema` accepts or refuses, or an
`ExtractionError`. -/
inductive Reply where
  | valid (model : ExtractedFields)
  | invalid (errors : List String)
  | error (kind : ErrorKind) (message : String)
  deriving DecidableEq, Repr

/-- The replies after which the same tier is asked again, while it has calls left. -/
def Reply.asksAgain : Reply → Bool
  | .invalid _ | .error .unparseable _ | .error .transient _ => true
  | .valid _ | .error .refusal _ | .error .contextOverflow _ => false

/-- What the next call of the same tier is told about the last one. -/
inductive RepairHint where
  | notJson (message : String)
  | schemaErrors (errors : List String)
  deriving DecidableEq, Repr

structure Call where
  tier : Tier
  repairHint : Option RepairHint
  deriving DecidableEq, Repr

/-- What the loops share: `gate_results`, the ledger writes so far, and the calls made. -/
structure Session where
  gateResults : GateResults
  repairs : Nat := 0
  attempts : List AttemptRow := []
  calls : List Call := []

def producer : Tier → String
  | .cheap => "cheap"
  | .strong => "strong"

def tiers : List Tier := [.cheap, .strong]

def layoutCacheMiss : GateResults :=
  { layoutCache := some ⟨.notApplicable, some (.reason "v1_stub_always_miss")⟩ }

def schemaFail (detail : GateDetail) : GateResult := ⟨.fail, some detail⟩

def transientRow (docId : DocId) (attemptNo : Nat) (tier : Tier) : AttemptRow :=
  { docId := docId
    stage := "extraction"
    attemptNo := attemptNo
    producerOrModel := some (producer tier)
    outcome := some "retry"
    errorClass := some "transient"
    errorMsg := some ErrorKind.transient.name }

def Session.setSchema (s : Session) (result : GateResult) : Session :=
  { s with gateResults := { s.gateResults with schema := some result } }

/-- `if schema_result_json: gate_results["schema"] = schema_result_json`. -/
def Session.recordSchema (s : Session) : Option GateResult → Session
  | none => s
  | some result => s.setSchema result

/-- How a tier's repair loop ends: the refusal returns from the funnel at once. -/
inductive Asked where
  | refused
  | nothing (schema : Option GateResult)
  | replied (model : ExtractedFields)

/-- The repair loop with `n` calls left; `schema` and `hint` are its local variables. -/
def ask (docId : DocId) (attemptNo : Nat) (tier : Tier) (replies : Nat → Reply) :
    Nat → Nat → Option GateResult → Option RepairHint → Session → Session × Asked
  | 0, _, schema, _, s => (s, .nothing schema)
  | n + 1, i, schema, hint, s =>
    let s := { s with calls := s.calls ++ [⟨tier, hint⟩] }
    match replies i with
    | .error .refusal _ => (s.setSchema (schemaFail (.reason "refusal")), .refused)
    | .error .contextOverflow _ =>
      (s.setSchema (schemaFail (.reason "context_overflow")), .nothing schema)
    | .error .unparseable message =>
      ask docId attemptNo tier replies n (i + 1) (some (schemaFail (.unparseable message)))
        (some (.notJson message)) { s with repairs := s.repairs + 1 }
    | .error .transient _ =>
      ask docId attemptNo tier replies n (i + 1) schema hint
        { s with attempts := s.attempts ++ [transientRow docId attemptNo tier] }
    | .valid model => (s, .replied model)
    | .invalid errors =>
      ask docId attemptNo tier replies n (i + 1) (some (schemaFail (.errors errors)))
        (some (.schemaErrors errors)) { s with repairs := s.repairs + 1 }

/-- `gate_results.update` with the five gates, and the tier. -/
def Session.recordGates (s : Session) (report : GateReport) (tier : Tier) : Session :=
  { s with gateResults := { s.gateResults with
      grounding := some report.grounding
      arithmetic := some report.arithmetic
      ibanMod97 := some report.ibanMod97
      plausibility := some report.plausibility
      businessDedupe := some report.businessDedupe
      tierUsed := some tier } }

inductive Decision where
  | refused
  | escalate
  | accepted (fields : Fields)

/-- The document as the funnel sees it: the row's id and type, and the assembled text. -/
structure Source where
  docId : DocId
  docType : DocType
  text : String

/-- `EXTRACTION_TIER_COUNT`. -/
def extractionTierCount : Nat := 2

/-- `EXTRACTION_BUDGET_SECONDS`, for a `LITELLM_TIMEOUT_SECONDS` of whole seconds. -/
def extractionBudgetSeconds (config : GateConfig) (timeout : Nat) : Nat :=
  extractionTierCount * (config.maxRepairAttempts + 1) * timeout

/-- `_BUDGET_MARGIN_SECONDS`. -/
def budgetMarginSeconds : Nat := 300

/-- `EXTRACT_STUCK_THRESHOLD_SECONDS` when the model is a real one. -/
def extractStuckThresholdSeconds (config : GateConfig) (timeout : Nat) : Nat :=
  extractionBudgetSeconds config timeout + budgetMarginSeconds

section
variable (config : GateConfig) (ledger : Tier → Db) (source : Source) (attemptNo : Nat)
  (replies : Tier → Nat → Reply)

def runTier (tier : Tier) (s : Session) : Except GateError (Session × Decision) :=
  match ask source.docId attemptNo tier (replies tier) (config.maxRepairAttempts + 1) 0 none none s with
  | (s, .refused) => .ok (s, .refused)
  | (s, .nothing schema) => .ok (s.recordSchema schema, .escalate)
  | (s, .replied model) => do
    let s := s.setSchema ⟨.pass, none⟩
    let fields := model.modelDump
    let report ← Gates.runAll config (ledger tier) source.docId source.docType fields source.text
    let s := s.recordGates report tier
    return if report.blocked then (s, .escalate) else (s, .accepted fields)

def runTiers : List Tier → Session → Except GateError (Session × Option Fields)
  | [], s => .ok (s, none)
  | tier :: rest, s => do
    match ← runTier config ledger source attemptNo replies tier s with
    | (s, .accepted fields) => .ok (s, some fields)
    | (s, .refused) => .ok (s, none)
    | (s, .escalate) => runTiers rest s

/-- The calls up to the end of a tier's loop, which are all it makes. -/
def tierCalls (tier : Tier) (s : Session) : List Call :=
  (ask source.docId attemptNo tier (replies tier) (config.maxRepairAttempts + 1) 0 none none s).1.calls

def tiersCalls : List Tier → Session → List Call
  | [], s => s.calls
  | tier :: rest, s =>
    match runTier config ledger source attemptNo replies tier s with
    | .ok (s, .escalate) => tiersCalls rest s
    | _ => tierCalls config source attemptNo replies tier s

/-- The calls `run_funnel` makes, whether it returns or raises. -/
def callsMade : List Call :=
  tiersCalls config ledger source attemptNo replies tiers { gateResults := layoutCacheMiss }

/-- `run_funnel`, with the calls it made beside its result. -/
def runFunnel : Except GateError (Extraction.Verdict × List Call) := do
  let (s, fields) ← runTiers config ledger source attemptNo replies tiers { gateResults := layoutCacheMiss }
  return (⟨fields, s.gateResults, s.repairs, s.attempts⟩, s.calls)

end

end DocPipeline.Funnel

import DocPipeline.Stages.DeterministicExtractor
import DocPipeline.Stages.Funnel

/-!
# The programmed backend

`DeterministicExtractor`: a behaviour for a document and an attempt, else for the document,
else the extraction of the text. The answer is the same for every tier and whatever the
repair hint says. The schema takes what is made of an extraction and refuses a total that is
no number; what it says then is a parameter.
-/
namespace DocPipeline.DeterministicExtractor

set_option autoImplicit false

open Funnel

/-- The behaviours the backend tells apart; any other is `correct`. -/
inductive Behavior where
  | contextOverflow | refusal | status429 | status529 | timeout | schemaInvalid | swappedRoles | notGrounded
  | injectedTotal | divergeOnRedelivery | correct
  deriving DecidableEq, Repr

/-- A behaviour and the keyword argument that is read. -/
structure Spec where
  behavior : Behavior
  totalCents : Option Int := none
  deriving DecidableEq, Repr

/-- `_behaviors`, by document and attempt; `none` for every attempt. -/
abbrev Behaviors := DocId × Option Nat → Option Spec

/-- What the backend returns: a dictionary of fields, or the one whose total is no number. -/
inductive Answer where
  | fields (fields : Fields)
  | notANumber
  deriving DecidableEq, Repr

namespace Behaviors

def clear : Behaviors := fun _ => none

def set (behaviors : Behaviors) (docId : DocId) (attemptNo : Option Nat) (spec : Spec) : Behaviors :=
  Function.update behaviors (docId, attemptNo) (some spec)

def lookup (behaviors : Behaviors) (docId : DocId) (attemptNo : Nat) : Option Spec :=
  (behaviors (docId, some attemptNo)).or (behaviors (docId, none))

/-- The spec that is followed. -/
def spec (behaviors : Behaviors) (docId : DocId) (attemptNo : Nat) : Spec :=
  (behaviors.lookup docId attemptNo).getD { behavior := .correct }

end Behaviors

def swapRoles (fields : Fields) : Fields := { fields with seller := fields.buyer, buyer := fields.seller }

/-- `(fields.get("total_cents") or 0) + cents`. -/
def addToTotal (cents : Int) (fields : Fields) : Fields := { fields with totalCents := some (fields.totalCents.getD 0 + cents) }

def setTotal (cents : Int) (fields : Fields) : Fields := { fields with totalCents := some cents }

/-- `extract` under a spec; an error carries its message. -/
def Spec.extract (config : GateConfig) (spec : Spec) (sourceText : String) (attemptNo : Nat) :
    Except (ErrorKind × String) Answer :=
  let fields := defaultExtract config sourceText
  match spec.behavior with
  | .contextOverflow => .error (.contextOverflow, ErrorKind.contextOverflow.name)
  | .refusal => .error (.refusal, ErrorKind.refusal.name)
  | .status429 => .error (.transient, "429")
  | .status529 => .error (.transient, "529")
  | .timeout => .error (.transient, "timeout")
  | .schemaInvalid => .ok .notANumber
  | .swappedRoles => .ok (.fields (swapRoles fields))
  | .notGrounded => .ok (.fields (addToTotal 999999 fields))
  | .injectedTotal => .ok (.fields (setTotal (spec.totalCents.getD 1) fields))
  | .divergeOnRedelivery => .ok (.fields (if 2 ≤ attemptNo then addToTotal 100 fields else fields))
  | .correct => .ok (.fields fields)

def Behaviors.extract (config : GateConfig) (behaviors : Behaviors) (docId : DocId) (sourceText : String) (attemptNo : Nat) :
    Except (ErrorKind × String) Answer :=
  (behaviors.spec docId attemptNo).extract config sourceText attemptNo

/-- `model_validate` of a dictionary of fields: the defaults of the schema where a key is missing. -/
def modelValidate (fields : Fields) : ExtractedFields where
  docType := fields.docType.getD .invoice
  invoiceNo := fields.invoiceNo
  invoiceDate := fields.invoiceDate
  dueDate := fields.dueDate
  seller := fields.seller
  buyer := fields.buyer
  currency := fields.currency.getD "USD"
  totalCents := fields.totalCents
  subtotalCents := fields.subtotalCents
  taxCents := fields.taxCents
  iban := fields.iban
  lineItems := fields.lineItems

/-- What the repair loop sees of a call. -/
def replyTo (errors : List String) : Except (ErrorKind × String) Answer → Reply
  | .error (kind, message) => .error kind message
  | .ok .notANumber => .invalid errors
  | .ok (.fields fields) => .valid (modelValidate fields)

/-- `_call_model` when the mode is not `real`, for every tier and call. -/
def Behaviors.replies (config : GateConfig) (errors : List String) (behaviors : Behaviors) (source : Source)
    (attemptNo : Nat) : Tier → Nat → Reply :=
  fun _ _ => replyTo errors (behaviors.extract config source.docId source.text attemptNo)

/-! ## The table -/

namespace Behaviors

variable (behaviors : Behaviors) (docId other : DocId) (spec : Spec)

/-- A behaviour of every attempt stands where the attempt has none of its own. -/
theorem lookup_set_every (attemptNo : Nat) : (behaviors.set docId none spec).lookup docId attemptNo =
    (behaviors (docId, some attemptNo)).or (some spec) := by
  simp [lookup, set]

theorem lookup_set_other {key : Option Nat} (h : other ≠ docId) (attemptNo : Nat) :
    (behaviors.set docId key spec).lookup other attemptNo = behaviors.lookup other attemptNo := by
  have hne : ∀ k : Option Nat, (other, k) ≠ (docId, key) := by
    intro k he
    cases he
    exact h rfl
  simp [lookup, set, Function.update_of_ne (hne _)]

end Behaviors

/-! ## What the schema makes of fields -/

@[simp] theorem modelDump_modelValidate (fields : Fields) : (modelValidate fields).modelDump =
    { fields with docType := some (fields.docType.getD .invoice), currency := some (fields.currency.getD "USD") } := rfl

end DocPipeline.DeterministicExtractor

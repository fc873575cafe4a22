import DocPipeline.Stages.Funnel

/-!
# The read-only lane

`operator.replay_documents`: one look at the row, one at the assembled artifact, one call of
the backend and the gates, for each document asked for. An exception leaves the loop and
takes the results of all documents with it.
-/
namespace DocPipeline.Operator

set_option autoImplicit false

/-- What the lane can raise. The module does not import `ExtractionError`, so the clause
that should catch one raises in its place. -/
inductive ReplayError where
  | nameError (name : String)
  | overflowError
  | dataError
  deriving DecidableEq, Repr

/-- The value of `gates`: the five gates, or the schema's refusal alone. -/
inductive ReplayGates where
  | all (report : GateReport)
  | schema (result : GateResult)
  deriving DecidableEq, Repr

/-- One dictionary of the list; `path` is always `replay`. -/
structure ReplayResult where
  docId : DocId
  path : String := "replay"
  tier : Option String := none
  error : Option String := none
  fields : Option Fields := none
  gates : Option ReplayGates := none
  deriving DecidableEq, Repr

/-- What the backend does at each call: how many calls the loop has passed before it, the
document, the tier, the text and the attempt number. -/
abbrev Backend := Nat → DocId → String → String → Nat → Funnel.Reply

abbrev Lane := ExceptT ReplayError (StateM World)

/-- The pages in order, one under the other. -/
def sourceText (assembled : Artifact) : String := "\n".intercalate ((Extraction.sortPages assembled.pages).map Page.text)

/-- PostgreSQL has no U+0000 in a text, and psycopg raises on a parameter with one. -/
def refused (parameter : String) : Bool := parameter.toList.contains '\x00'

/-- `business_dedupe` asks the ledger, and with a parameter that is refused. -/
def dedupeRefused (vendor invoiceNo : Option String) : Bool :=
  match vendor, invoiceNo with
  | some vendor, some invoiceNo => vendor ≠ "" && invoiceNo ≠ "" && (refused vendor || refused invoiceNo)
  | _, _ => false

section
variable (config : GateConfig) (backend : Backend) (tier : String)

def replayDocument (i : Nat) (docId : DocId) : Lane ReplayResult := do
  if refused docId then
    throw .dataError
  let w ← get
  match w.db.documents.lookup docId with
  | none => return { docId := docId, error := some "not_found" }
  | some doc =>
    match w.bucket.assembled docId with
    | none => return { docId := docId, error := some "not_yet_assembled" }
    | some assembled =>
      match backend i docId tier (sourceText assembled) 0 with
      | .error _ _ => throw (.nameError "ExtractionError")
      | .invalid errors =>
        return {
          docId := docId, tier := some tier, fields := some .empty
          gates := some (.schema ⟨.fail, some (.errors errors)⟩) }
      | .valid model =>
        let fields := model.modelDump
        match Gates.runAll config w.db docId doc.docType fields (sourceText assembled) with
        | .error .overflowError => throw .overflowError
        | .ok report =>
          -- the SELECT of the last gate
          if dedupeRefused fields.seller fields.invoiceNo then
            throw .dataError
          return { docId := docId, tier := some tier, fields := some fields, gates := some (.all report) }

def replayFrom (i : Nat) : List DocId → Lane (List ReplayResult)
  | [] => return []
  | docId :: rest => do
    let result ← replayDocument config backend tier i docId
    let results ← replayFrom (i + 1) rest
    return result :: results

def replayDocuments (docIds : List DocId) : Lane (List ReplayResult) := replayFrom config backend tier 0 docIds

end
end DocPipeline.Operator

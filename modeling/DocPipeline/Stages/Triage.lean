import DocPipeline.Core.Artifact

/-!
# Intake: the orphan detector and triage

`handle_gcs_path` is one transaction: the object it reads never changes. The
detector's two lookups and its inserts are three statements that others interleave.
-/
namespace DocPipeline

set_option autoImplicit false

open Ledger

namespace OrphanDetector

inductive Pc where
  | listing (paths : List String)
  | checkingPending (orphans : List (DocId × String))
  | enqueueing (orphans : List (DocId × String))

/-- `paths` are the names the bucket listing returned. -/
def candidates (site : Deployment) (paths : List String) : List (DocId × String) :=
  paths.filterMap fun path => (site.objects path).map fun blob => (crc32cToDocId blob.crc32c, path)

def alreadyPendingTriage (db : Db) (docId : DocId) : Bool :=
  db.outbox.any fun r => decide (r.topic = .triageRequests) && decide (r.docId = docId)

def step (site : Deployment) (w : World) : Pc → World × Next Pc Unit
  | .listing paths =>
    (w, .goto (.checkingPending
      ((candidates site paths).filter fun c => (w.db.documents.lookup c.1).isNone)))
  | .checkingPending orphans =>
    (w, .goto (.enqueueing (orphans.filter fun o => !alreadyPendingTriage w.db o.1)))
  | .enqueueing orphans =>
    w.transact (enqueueMany (orphans.map fun o => (o.1, .triageRequests, .triage o.2))) .returned .raised

end OrphanDetector

namespace Triage

inductive Result where
  | notFound | zeroByte | unsupportedMime | encrypted | corrupt | pageCeiling | duplicate | dispatched
  deriving DecidableEq, Repr

/-- `info.content_type or "application/octet-stream"`. -/
def contentType (blob : Blob) : String :=
  match blob.contentType with
  | some "" => "application/octet-stream"
  | some ct => ct
  | none => "application/octet-stream"

/-- The page count triage reads, when it gets that far. -/
def pageCount (blob : Blob) : Option Nat := (Pdf.readPageCount blob.data (contentType blob)).toOption

/-- Everything after the page ceiling check. -/
def dispatch (site : Deployment) (docId : DocId) (gcsPath sample : String) (pageCount : Nat) :
    Tx Result := do
  let textLayer := Pdf.hasTextLayer site.unicode sample
  match routeTextProduction site (some textLayer) (some pageCount) with
  | .error e => throw e
  | .ok (topic, shardsTotal) =>
    let inserted ← insertInitialDocument docId {
      gcsPath := gcsPath
      state := .textPending
      pageCount := some pageCount
      hasTextLayer := some textLayer
      shardsTotal := shardsTotal
      docType := classifyDocType site.unicode sample }
    if inserted then
      enqueue docId topic (buildDispatchPayload topic docId gcsPath (some pageCount))
      return .dispatched
    else return .duplicate

def reject (docId : DocId) (gcsPath : String) (state : DocState) (lastError : String)
    (pageCount : Option Nat) (result : Result) : Tx Result := do
  let _ ← insertInitialDocument docId {
    gcsPath := gcsPath, state := state, lastError := some lastError, pageCount := pageCount }
  return result

def handleGcsPath (site : Deployment) (gcsPath : String) : Tx Result :=
  match site.objects gcsPath with
  | none => return .notFound
  | some blob =>
    let docId := crc32cToDocId blob.crc32c
    let ct := contentType blob
    if blob.size = 0 then reject docId gcsPath .failed "zero_byte_object" none .zeroByte
    else if ct ∉ Pdf.allowedMimeTypes then
      reject docId gcsPath .failed ("unsupported_mime:" ++ ct) none .unsupportedMime
    else match Pdf.readPageCount blob.data ct, Pdf.sampleText blob.data ct with
      | .error .encryptedPdf, _ => reject docId gcsPath .review "encrypted_pdf" none .encrypted
      | .error (.corruptPdf message), _ =>
        reject docId gcsPath .review ("corrupt_pdf:" ++ message) none .corrupt
      | .ok n, sample =>
        if site.hardPageCeiling < n then
          reject docId gcsPath .review ("page_ceiling_exceeded:" ++ toString n) (some n) .pageCeiling
        else match sample with
          | .error _ => throw .valueError
          | .ok text => dispatch site docId gcsPath text n

end Triage
end DocPipeline

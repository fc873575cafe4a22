import DocPipeline.Lib.Consumer
import DocPipeline.Core.Outbox

/-!
# The sink

`handle_document_extracted` fills in defaults for the keys it does not find and keeps
the first row of a document for ever.
-/
namespace DocPipeline

set_option autoImplicit false

namespace Sink

def postedRow (payload : ExtractedPayload) : PostedDocument :=
  ⟨payload.route.getD "auto_post", payload.fields.getD Fields.empty⟩

/-- The INSERT of `post_document`; a message of another shape has no `doc_id` to read. -/
def handleDocumentExtracted (db : Db) : Payload → Option Db
  | .extracted payload =>
    some { db with postedDocuments := db.postedDocuments.insertNew payload.docId (postedRow payload) }
  | _ => none

inductive Act where
  | poll | post | fail | commit | restart

/-- One step of the loop on a partition whose messages are `log`. -/
def step (db : Db) (log : List OutboxRow) (c : Lib.Consumer) : Act → Option (Db × Lib.Consumer)
  | .poll => (c.poll log.length).map fun c => (db, c)
  | .post =>
    match c.inHand.bind (log[·]?) with
    | none => none
    | some row =>
      if c.handled then none
      else (handleDocumentExtracted db row.payload).map fun db => (db, c.handle)
  | .fail => c.fail.map fun c => (db, c)
  | .commit => c.commit.map fun c => (db, c)
  | .restart => some (db, c.restart)

end Sink
end DocPipeline

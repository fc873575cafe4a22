import DocPipeline.Text.Codec
import DocPipeline.System

/-!
# Messages as JSON

The dictionaries the stages put on the outbox, what `jsonb` and the broker make of them, and
what a handler finds under the keys it looks up. Gate results are sent along and read by
nobody, so that how their details are printed is a parameter.
-/
namespace DocPipeline

set_option autoImplicit false

open Json

variable {F β : Type}

def DocType.name : DocType → String
  | .invoice => "invoice"
  | .receipt => "receipt"
  | .creditMemo => "credit_memo"

def DocType.ofName (name : String) : Option DocType :=
  if name = "invoice" then some .invoice
  else if name = "receipt" then some .receipt
  else if name = "credit_memo" then some .creditMemo
  else none

def docTypeCodec : Codec F DocType DocType :=
  Codec.str.imap (fun t => some t.name) DocType.ofName (fun t => t) fun t _ h => by
    cases h
    cases t <;> rfl

def LineItem.record : Record ["description", "amount_cents"] F LineItem LineItem :=
  ((Record.make LineItem.mk).ap (.field "description" LineItem.description .str)).ap
    (.field "amount_cents" LineItem.amountCents .int)

/-- `model_dump(exclude_none=True)`. -/
def Fields.record : Record ["doc_type", "invoice_no", "invoice_date", "due_date", "seller", "buyer", "currency",
    "total_cents", "subtotal_cents", "tax_cents", "iban", "line_items"] F Fields Fields :=
  ((((((((((((Record.make Fields.mk).ap (.optional "doc_type" Fields.docType docTypeCodec)).ap
    (.optional "invoice_no" Fields.invoiceNo .str)).ap
    (.optional "invoice_date" Fields.invoiceDate .str)).ap
    (.optional "due_date" Fields.dueDate .str)).ap
    (.optional "seller" Fields.seller .str)).ap
    (.optional "buyer" Fields.buyer .str)).ap
    (.optional "currency" Fields.currency .str)).ap
    (.optional "total_cents" Fields.totalCents .int)).ap
    (.optional "subtotal_cents" Fields.subtotalCents .int)).ap
    (.optional "tax_cents" Fields.taxCents .int)).ap
    (.optional "iban" Fields.iban .str)).ap
    (.optional "line_items" Fields.lineItems LineItem.record.toCodec.list)

@[simp] theorem docTypeCodec_value : (docTypeCodec : Codec F DocType DocType).value = id := rfl

@[simp] theorem LineItem.record_value : (LineItem.record (F := F)).value = id := rfl

@[simp] theorem Fields.record_value : (Fields.record (F := F)).value = id := by
  funext fields
  cases fields
  simp [Fields.record]

def GateOutcome.name : GateOutcome → String
  | .pass => "pass"
  | .fail => "fail"
  | .inconclusive => "inconclusive"
  | .notApplicable => "not_applicable"
  | .accepted => "accepted"

def Tier.name : Tier → String
  | .cheap => "cheap"
  | .strong => "strong"

/-- `GateResult.to_json`. -/
def GateResult.record (details : Codec F GateDetail β) : Record ["outcome", "detail"] F GateResult Unit :=
  ((Record.make fun (_ _ : Unit) => ()).ap
    (Record.unread (.field "outcome" (fun gate => gate.outcome.name) .str))).ap
    (Record.unread (.optional "detail" GateResult.detail details))

/-- A gate's key, if it has a result. -/
def GateResults.gate (details : Codec F GateDetail β) (key : String) (get : GateResults → Option GateResult) :
    Record [key] F GateResults Unit :=
  Record.unread (.optional key get (GateResult.record details).toCodec)

def GateResults.record (details : Codec F GateDetail β) : Record ["layout_cache", "schema", "grounding", "arithmetic",
    "iban_mod97", "plausibility", "business_dedupe", "tier_used", "kill_switch", "completeness", "operator_override"]
    F GateResults Unit :=
  (((((((((((Record.make fun (_ _ _ _ _ _ _ _ _ _ _ : Unit) => ()).ap
    (gate details "layout_cache" GateResults.layoutCache)).ap
    (gate details "schema" GateResults.schema)).ap
    (gate details "grounding" GateResults.grounding)).ap
    (gate details "arithmetic" GateResults.arithmetic)).ap
    (gate details "iban_mod97" GateResults.ibanMod97)).ap
    (gate details "plausibility" GateResults.plausibility)).ap
    (gate details "business_dedupe" GateResults.businessDedupe)).ap
    (Record.unread (.optional "tier_used" (fun gates => gates.tierUsed.map Tier.name) .str))).ap
    (gate details "kill_switch" GateResults.killSwitch)).ap
    (gate details "completeness" GateResults.completeness)).ap
    (gate details "operator_override" GateResults.operatorOverride)

namespace Payload

/-- `{"gcs_path": path}`. -/
def triageRecord : Record ["gcs_path"] F String String := .field "gcs_path" (fun path => path) .str

/-- What `build_dispatch_payload` sends to `text.embedded` and `ocr.split`, whose handlers
count the pages themselves. -/
def dispatchRecord : Record ["doc_id", "gcs_path", "page_count"] F (DocId × String × Option Nat) (DocId × String) :=
  (((Record.make fun docId gcsPath (_ : Unit) => (docId, gcsPath)).ap (.field "doc_id" (fun p => p.1) .str)).ap
    (.field "gcs_path" (fun p => p.2.1) .str)).ap
    (Record.unread (.field "page_count" (fun p => p.2.2) (Codec.nat.nullable rfl)))

def shardRecord : Record ["doc_id", "shard_idx", "shards_total", "page_start", "page_end", "shard_gcs_path"] F
    ShardPayload ShardPayload :=
  ((((((Record.make ShardPayload.mk).ap (.field "doc_id" ShardPayload.docId .str)).ap
    (.field "shard_idx" ShardPayload.shardIdx .nat)).ap
    (.field "shards_total" ShardPayload.shardsTotal .nat)).ap
    (.field "page_start" ShardPayload.pageStart .nat)).ap
    (.field "page_end" ShardPayload.pageEnd .nat)).ap
    (.field "shard_gcs_path" ShardPayload.shardGcsPath .str)

/-- `{"doc_id": doc_id}`. -/
def completedRecord : Record ["doc_id"] F DocId DocId := .field "doc_id" (fun docId => docId) .str

/-- The keys of either producer of `document.extracted`, and the three that the sink reads:
`payload["doc_id"]`, `payload.get("route", "auto_post")` and `payload.get("fields", {})`. -/
def extractedRecord (details : Codec F GateDetail β) : Record ["doc_id", "event", "route", "producer",
    "funnel_version", "fields", "gates", "operator_override"] F ExtractedPayload (DocId × PostedDocument) :=
  ((((((((Record.make fun docId (_ : Unit) route (_ _ : Unit) fields (_ _ : Unit) =>
      (docId, (⟨route.getD "auto_post", fields.getD Fields.empty⟩ : PostedDocument))).ap
    (.field "doc_id" ExtractedPayload.docId .str)).ap
    (Record.unread (.optional "event" ExtractedPayload.event .str))).ap
    (.optional "route" ExtractedPayload.route .str)).ap
    (Record.unread (.optional "producer" ExtractedPayload.producer .str))).ap
    (Record.unread (.optional "funnel_version" ExtractedPayload.funnelVersion .nat))).ap
    (.optional "fields" ExtractedPayload.fields Fields.record.toCodec)).ap
    (Record.unread (.optional "gates" ExtractedPayload.gates (GateResults.record details).toCodec))).ap
    (Record.unread (.optional "operator_override" ExtractedPayload.operatorOverride .bool))

@[simp] theorem extractedRecord_value (details : Codec F GateDetail β) (payload : ExtractedPayload) :
    (extractedRecord details).value payload = (payload.docId, Sink.postedRow payload) := by
  simp [extractedRecord, Sink.postedRow]

/-- The dictionary of a payload. -/
def encode (details : Codec F GateDetail β) : Payload → Option (Json F)
  | .triage gcsPath => triageRecord.toCodec.encode gcsPath
  | .dispatch docId gcsPath pageCount => dispatchRecord.toCodec.encode (docId, gcsPath, pageCount)
  | .shard payload => shardRecord.toCodec.encode payload
  | .completed docId => completedRecord.toCodec.encode docId
  | .extracted payload => (extractedRecord details).toCodec.encode payload

end Payload

/-- What a handler finds in a dictionary. -/
def Task.ofJson (topic : Topic) (v : Json F) : Option Task :=
  match topic with
  | .triageRequests => (Payload.triageRecord.toCodec.decode v).map .triage
  | .textEmbedded => (Payload.dispatchRecord.toCodec.decode v).map fun p => .textEmbedded p.1 p.2 .uploading
  | .ocrSplit => (Payload.dispatchRecord.toCodec.decode v).map fun p => .ocrSplit p.1 p.2 .beginning
  | .ocrShard => (Payload.shardRecord.toCodec.decode v).map fun payload => .ocrShard payload .beginning
  | .ocrCompleted => (Payload.completedRecord.toCodec.decode v).map fun docId => .extraction docId .opening
  | .documentExtracted => none

/-- What the sink posts of a dictionary. -/
def Sink.ofJson (details : Codec F GateDetail β) (v : Json F) : Option (DocId × PostedDocument) :=
  (Payload.extractedRecord details).toCodec.decode v

/-! ## The texts -/

section
variable (floats : Floats F) (jsonb : Json F → Json F) (details : Codec F GateDetail β)

/-- `json.dumps` of what the payload's column gives back. -/
def Payload.text (payload : Payload) : Option Text :=
  (payload.encode details).map fun v => dumps floats (jsonb v)

/-- The run that a message's value starts. -/
def Task.ofText (topic : Topic) (t : Text) : Option Task := (loads floats t).toOption.bind (Task.ofJson topic)

def Sink.ofText (t : Text) : Option (DocId × PostedDocument) := (loads floats t).toOption.bind (Sink.ofJson details)

/-- The INSERT of `post_document`, for a message's value. -/
def Sink.handleText (db : Db) (t : Text) : Option Db :=
  (Sink.ofText floats details t).map fun r => { db with postedDocuments := db.postedDocuments.insertNew r.1 r.2 }

/-- One step of the sink's loop on a partition that holds texts. -/
def Sink.textStep (db : Db) (log : List OutboxRow) (c : Lib.Consumer) : Act → Option (Db × Lib.Consumer)
  | .post =>
    match c.inHand.bind (log[·]?) with
    | none => none
    | some row =>
      if c.handled then none
      else ((row.payload.text floats jsonb details).bind (Sink.handleText floats details db)).map fun db => (db, c.handle)
  | act => Sink.step db log c act

namespace Sys

/-- A step of the pipeline whose messages are texts. -/
def textStep (site : Deployment) (s : Sys) : Action → Option Sys
  | .receive tid topic partition offset =>
    (((s.broker topic partition)[offset]?.bind fun row => row.payload.text floats jsonb details).bind
      (Task.ofText floats topic)).bind (s.startTask tid)
  | .sink partition act =>
    (Sink.textStep floats jsonb details s.world.db (s.broker .documentExtracted partition) (s.sinks partition) act).map
      fun r =>
        { s with
          world := { s.world with db := r.1 }
          sinks := fun p => if p = partition then r.2 else s.sinks p }
  | a => s.step site a

def TextStep (site : Deployment) (s : Sys) (a : Action) (t : Sys) : Prop :=
  s.textStep floats jsonb details site a = some t

/-- Every message sent so far has a text, and a dictionary that the column takes. -/
def Prints (takes : Json F → Prop) (s : Sys) (_ : Action) : Prop :=
  ∀ row, row ∈ s.db.sent → ∃ v, row.payload.encode details = some v ∧ takes v

end Sys
end

end DocPipeline

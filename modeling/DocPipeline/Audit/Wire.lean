import DocPipeline.Transport.Delivery
import DocPipeline.Transport.Wire
import DocPipeline.Audit.Reply
import DocPipeline.Audit.Certification

/-!
# What is received is what was sent

Each topic carries payloads of one shape, whichever handler, sweep or operator sends them. A
handler therefore finds under its keys exactly what the sender put there, and the pipeline
whose messages are texts takes the runs of the one whose messages are payloads.
-/
namespace DocPipeline.Audit

set_option autoImplicit false

open Lib Lib.Transaction Json Ledger Sys

variable {F β : Type} {site : Deployment} {s t : Sys} {a : Action}

/-- The shape of a topic's payloads. -/
inductive OfTopic : Topic → Payload → Prop
  | triage {gcsPath : String} : OfTopic .triageRequests (.triage gcsPath)
  | embedded {docId : DocId} {gcsPath : String} {pageCount : Option Nat} :
      OfTopic .textEmbedded (.dispatch docId gcsPath pageCount)
  | split {docId : DocId} {gcsPath : String} {pageCount : Option Nat} :
      OfTopic .ocrSplit (.dispatch docId gcsPath pageCount)
  | shard {payload : ShardPayload} : OfTopic .ocrShard (.shard payload)
  | completed {docId : DocId} : OfTopic .ocrCompleted (.completed docId)
  | extracted {payload : ExtractedPayload} : OfTopic .documentExtracted (.extracted payload)

theorem ofTopic_dispatch {hasTextLayer : Option Bool} {pageCount pages : Option Nat} {topic : Topic} {total : Nat}
    (docId : DocId) (gcsPath : String) (h : routeTextProduction site hasTextLayer pageCount = .ok (topic, total)) :
    OfTopic topic (buildDispatchPayload topic docId gcsPath pages) := by
  rcases PdfWorker.route_topic h with rfl | rfl | rfl
  · exact .embedded
  · exact .shard
  · exact .split

theorem ofTopic_redrive {docId : DocId} {row : Document} {topic : Topic} {payload : Payload}
    (h : Sweeper.Redrives site docId row topic payload) : OfTopic topic payload := by
  cases h with
  | dispatch _ _ hroute => exact ofTopic_dispatch _ _ hroute
  | shard => exact .shard
  | split => exact .split
  | completed => exact .completed

theorem ofTopic_send {start db : Db} {task : Task} {docId : DocId} {topic : Topic} {payload : Payload}
    (h : task.Does site start db (.send docId topic payload)) : OfTopic topic payload := by
  cases task with
  | orphanScan =>
    cases h
    exact .triage
  | triage =>
    cases h with
    | dispatch _ _ _ _ hroute => exact ofTopic_dispatch _ _ hroute
  | textEmbedded =>
    obtain ⟨_, _, _, h⟩ := h
    cases h with
    | completed => exact .completed
    | dispatch _ hroute => exact ofTopic_dispatch _ _ hroute
  | ocrSplit =>
    cases h
    exact .shard
  | ocrShard =>
    cases h
    exact .completed
  | sweep =>
    cases h with
    | redrive hr => exact ofTopic_redrive hr
  | forceRedrive =>
    cases h with
    | redrive hr => exact ofTopic_redrive hr
  | extraction | acceptReview | killSwitch => cases h

/-- Every row ever enqueued has its topic's shape. -/
def Shaped (db : Db) : Prop := ∀ row, row ∈ db.sent → OfTopic row.topic row.payload

theorem shaped_cons {db db' : Db} {row : OutboxRow} (h : Shaped db) (hsent : db'.sent = row :: db.sent)
    (hrow : OfTopic row.topic row.payload) : Shaped db' := by
  intro r hr
  rw [hsent] at hr
  rcases List.mem_cons.mp hr with rfl | hr
  · exact hrow
  · exact h r hr

theorem shaped_operation {task : Task} {start db db' : Db} {op : Operation} (h : Shaped db)
    (hdoes : task.Does site start db op) (hs : op.Step db db') : Shaped db' := by
  cases hs with
  | insert | move | note | fallThrough | split | recordShard | route | settle | rekey => exact h
  | send => exact shaped_cons h rfl (ofTopic_send hdoes)
  | post | accept => exact shaped_cons h rfl .extracted
  | aside hsame =>
    rw [Shaped, hsame.sent]
    exact h

theorem shaped_step (h : Shaped s.db) (hs : Step site s a t) : Shaped t.db := by
  rcases step_cases hs with hp | ⟨partition, act, rfl, hsink⟩ | ⟨hkeep, _⟩
  · refine hp.invariant (P := Shaped) h fun db op db' hdb hdoes hstep => ?_
    obtain ⟨_, _, _, task, _, hdoes⟩ := hdoes.run
    exact shaped_operation hdb hdoes hstep
  · rcases sink_posts hsink with heq | ⟨_, _, _, _, _, heq⟩ <;> (rw [heq]; exact h)
  · rw [Shaped, hkeep.sent]
    exact h

theorem shaped_run {Guard : Sys → Action → Prop} {as : List Action} (h : GuardedRun site Guard initial as s) :
    Shaped s.db := by
  refine h.invariant (P := fun s => Shaped s.db) ?_ fun _ _ _ hi _ hs => shaped_step hi hs
  intro row hrow
  cases hrow

/-! ## Reading a message -/

variable {floats : Floats F} {takes : Json F → Prop} {jsonb : Json F → Json F} {details : Codec F GateDetail β}

/-- What a reader makes of a text, wherever the reader goes on from its dictionary. -/
theorem read_printed {keys : List String} {α γ δ : Type} (r : Record keys F α γ) (hstore : Rereads takes jsonb) {x : α}
    {v : Json F} (h : r.toCodec.encode x = some v) (hv : takes v) (next : γ → δ) :
    ((loads floats (dumps floats (jsonb v))).toOption.bind fun w => (r.toCodec.decode w).map next) =
      some (next (r.value x)) := by
  calc
    _ = ((loads floats (dumps floats (jsonb v))).toOption.bind r.toCodec.decode).map next := (Option.map_bind ..).symm
    _ = some (next (r.value x)) := by rw [r.read_text hstore h hv, Option.map_some]

theorem ofText_text (hstore : Rereads takes jsonb) {topic : Topic} {payload : Payload} {v : Json F}
    (hcarries : OfTopic topic payload) (henc : payload.encode details = some v) (hv : takes v) :
    Task.ofText floats topic (dumps floats (jsonb v)) = Task.ofMessage topic payload := by
  cases hcarries with
  | triage => exact read_printed _ hstore henc hv _
  | embedded | split => exact read_printed _ hstore henc hv _
  | shard => exact read_printed _ hstore henc hv _
  | completed => exact read_printed _ hstore henc hv _
  | extracted => exact Option.bind_fun_none _

theorem handleText_text (hstore : Rereads takes jsonb) (db : Db) {payload : Payload} {v : Json F}
    (hcarries : OfTopic .documentExtracted payload) (henc : payload.encode details = some v) (hv : takes v) :
    Sink.handleText floats details db (dumps floats (jsonb v)) = Sink.handleDocumentExtracted db payload := by
  cases hcarries with
  | extracted =>
    unfold Sink.handleText Sink.ofText Sink.ofJson
    rw [(Payload.extractedRecord details).read_text hstore henc hv, Payload.extractedRecord_value]
    rfl

/-! ## Runs -/

/-- What the broker holds has its topic's shape, and a dictionary where every message has one. -/
theorem message_of_offset (hdelivers : Delivers site s.db s.broker) (hshaped : Shaped s.db)
    (hprints : Prints details takes s a) {topic : Topic} {partition offset : Nat} {row : OutboxRow}
    (hrow : (s.broker topic partition)[offset]? = some row) :
    OfTopic topic row.payload ∧ ∃ v, row.payload.encode details = some v ∧ takes v := by
  obtain ⟨hsent, rfl, _⟩ := hdelivers.stored _ _ row (List.mem_of_getElem? hrow)
  exact ⟨hshaped row hsent, hprints row hsent⟩

theorem sink_textStep (hstore : Rereads takes jsonb) (hdelivers : Delivers site s.db s.broker) (hshaped : Shaped s.db)
    (hprints : Prints details takes s a) (partition : Nat) (act : Sink.Act) :
    Sink.textStep floats jsonb details s.db (s.broker .documentExtracted partition) (s.sinks partition) act =
      Sink.step s.db (s.broker .documentExtracted partition) (s.sinks partition) act := by
  cases act with
  | post =>
    simp only [Sink.textStep, Sink.step]
    cases hrow : (s.sinks partition).inHand.bind ((s.broker .documentExtracted partition)[·]?) with
    | none => rfl
    | some row =>
      obtain ⟨offset, _, hoffset⟩ := Option.bind_eq_some_iff.mp hrow
      obtain ⟨hcarries, v, henc, hv⟩ := message_of_offset hdelivers hshaped hprints hoffset
      simp only [Payload.text, henc, Option.map_some, Option.bind_some, handleText_text hstore s.db hcarries henc hv]
  | poll | fail | commit | restart => rfl

theorem textStep_eq (hstore : Rereads takes jsonb) (hdelivers : Delivers site s.db s.broker) (hshaped : Shaped s.db)
    (hprints : Prints details takes s a) : s.textStep floats jsonb details site a = s.step site a := by
  cases a with
  | receive tid topic partition offset =>
    simp only [textStep, Sys.step]
    cases hrow : (s.broker topic partition)[offset]? with
    | none => rfl
    | some row =>
      obtain ⟨hcarries, v, henc, hv⟩ := message_of_offset hdelivers hshaped hprints hrow
      rw [Option.bind_some, Option.bind_some, Payload.text, henc, Option.map_some, Option.bind_some,
        ofText_text hstore hcarries henc hv]
  | sink partition act =>
    simp only [textStep, Sys.step, Sys.runSink, sink_textStep hstore hdelivers hshaped hprints]
  | tick | spawn | run | crash | relay => rfl

/-- As long as every message has a text and `jsonb` takes it, the pipeline that sends and parses
JSON takes exactly the runs of the one that hands payloads over, whatever order `jsonb` gives
the keys. -/
theorem json_run_iff (hstore : Rereads takes jsonb) {as : List Action} :
    Run (TextStep floats jsonb details site) (Prints details takes) initial as t ↔
      GuardedRun site (Prints details takes) initial as t := by
  symm
  refine Run.congr (P := fun s => Delivers site s.db s.broker ∧ Shaped s.db) ?_ ?_
  · intro as s hrun
    exact ⟨(transport_run hrun).delivers, shaped_run hrun⟩
  · intro s a t hinv hprints
    unfold TextStep Sys.Step
    rw [textStep_eq hstore hinv.1 hinv.2 hprints]

/-! The invoice and its messages, in the order `jsonb` keeps keys of ASCII characters, shorter
keys first. It refuses a string with U+0000. -/

def NulFree (v : Json F) : Prop := ∀ s, s ∈ v.strings → Point.char '\x00' ∉ s

instance (v : Json F) : Decidable (NulFree v) := inferInstanceAs (Decidable (∀ s, s ∈ v.strings → _))

def pointCode : Point → Nat
  | .char c => c.toNat
  | .surrogate n => 0xd800 + n

def jsonbBefore (s t : Str) : Bool :=
  s.length < t.length || (s.length == t.length && decide (s.map pointCode ≤ t.map pointCode))

/-- `{"reason": reason}`. -/
def reasonDetail : Codec Unit GateDetail String :=
  (Record.field "reason" (fun reason => reason) .str).toCodec.imap
    (fun detail => match detail with
      | .reason reason => some reason
      | _ => none)
    some (fun detail => match detail with
      | .reason reason => reason
      | _ => "") fun detail _ h => by
    cases detail <;> cases h
    rfl

theorem invoice_read_from_json :
    ∃ s row, Run (TextStep nanOnly (sortKeys jsonbBefore) reasonDetail oneInvoice) (Prints reasonDetail NulFree)
        initial judgedAndPosted s ∧
      s.db.postedDocuments.lookup "crc32c-a" = some row ∧ row.fields = invoiceReply.modelDump := by
  obtain ⟨s, hrun, hs⟩ := exists_guardedRun oneInvoice
    (fun s _ => s.db.sent.all fun row => (row.payload.encode reasonDetail).any fun v => decide (NulFree v)) judgedAndPosted
    (fun s => (s.db.postedDocuments.lookup "crc32c-a").any fun row => decide (row.fields = invoiceReply.modelDump))
    (by decide +kernel)
  obtain ⟨row, hrow, hfields⟩ := (Option.any_eq_true ..).mp hs
  have hprints : GuardedRun oneInvoice (Prints reasonDetail NulFree) initial judgedAndPosted s := by
    refine hrun.mono fun s _ hg row hrow => ?_
    obtain ⟨v, henc, hv⟩ := (Option.any_eq_true ..).mp (List.all_eq_true.mp hg row hrow)
    exact ⟨v, henc, of_decide_eq_true hv⟩
  have hstore : Rereads NulFree (sortKeys (F := Unit) jsonbBefore) := Rereads.sorted jsonbBefore (Parts.strings _)
  exact ⟨s, row, (json_run_iff hstore).mpr hprints, hrow, of_decide_eq_true hfields⟩

end DocPipeline.Audit

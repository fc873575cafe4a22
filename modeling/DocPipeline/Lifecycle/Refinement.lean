import DocPipeline.Transport.Delivery
import DocPipeline.Lifecycle.Posting

/-!
# The ledger refines the life of its documents

A database is read as a state of the abstract model. Every operation is one of its
events or changes nothing it sees, so a run of the pipeline is a run of the model, and
a guard on the pipeline's steps becomes a guard on the events.
-/
namespace DocPipeline.Lifecycle

set_option autoImplicit false

open Lib

def record (row : Document) : Record Fields String :=
  ⟨row.state, row.extractionResult, (row.vendor, row.invoiceNo)⟩

/-- The business key of the extracted fields. -/
def pair (fields : Fields) : Option String × Option String := (fields.seller, fields.invoiceNo)

def announcement (payload : ExtractedPayload) : Announcement DocId Fields :=
  ⟨payload.docId, payload.fields, decide (payload.route = some "auto_post")⟩

def announcementOf (row : OutboxRow) : Option (Announcement DocId Fields) :=
  match row.topic, row.payload with
  | .documentExtracted, .extracted payload => some (announcement payload)
  | _, _ => none

def change (c : StateChange) : DocId × DocState × DocState := (c.docId, c.fromState, c.toState)

theorem change_injective : Function.Injective change := by
  rintro ⟨_, _, _⟩ ⟨_, _, _⟩ h
  cases h
  rfl

def ofDb (db : Db) : State DocId Fields String where
  docs d := (db.documents.lookup d).map record
  history := db.history.map change
  announced := db.sent.filterMap announcementOf
  posted d := (db.postedDocuments.lookup d).map PostedDocument.fields

abbrev LifeStep := Step (D := DocId) pair Fields.empty

variable {db db' : Db} {docId : DocId}

theorem ofDb_docs {row : Document} (h : db.documents.lookup docId = some row) :
    (ofDb db).docs docId = some (record row) := by
  simp only [ofDb, h, Option.map_some]

theorem docs_ofDb {r : Record Fields String} (h : (ofDb db).docs docId = some r) :
    ∃ row, db.documents.lookup docId = some row ∧ record row = r := Option.map_eq_some_iff.mp h

theorem ofDb_write (row row' : Document) :
    ofDb (db.write docId row row') = (ofDb db).put docId (record row) (record row') := by
  unfold ofDb State.put
  congr 1
  · funext d
    rw [Db.write_lookup, Function.update_apply]
    split <;> rfl
  · rw [Db.write_history]
    change _ = if row.state = row'.state then _ else _
    split <;> rfl

/-- A write of columns the model does not see. -/
theorem ofDb_write_same {row row' : Document} (hrow : db.documents.lookup docId = some row)
    (h : record row' = record row) : ofDb (db.write docId row row') = ofDb db := by
  rw [ofDb_write, h]
  unfold State.put
  rw [if_pos rfl, ← ofDb_docs hrow, Function.update_eq_self]

theorem ofDb_insertOutbox {topic : Topic} {payload : Payload} (h : topic ≠ .documentExtracted) :
    ofDb (db.insertOutbox docId topic payload) = ofDb db := by
  unfold ofDb
  simp only [Db.insertOutbox_documents, Db.insertOutbox_history, Db.insertOutbox_sent,
    Db.insertOutbox_postedDocuments, List.filterMap_cons]
  cases topic with
  | documentExtracted => exact absurd rfl h
  | triageRequests | textEmbedded | ocrSplit | ocrShard | ocrCompleted => rfl

theorem ofDb_announce (payload : ExtractedPayload) :
    ofDb (db.insertOutbox docId .documentExtracted (.extracted payload)) =
      (ofDb db).announce (announcement payload) := rfl

/-- The index accepts a key exactly when it is free. -/
theorem holdsKey_iff {vendor invoiceNo : Option String} :
    db.holdsKey docId vendor invoiceNo = false ↔ (ofDb db).Free docId (vendor, invoiceNo) := by
  have hany : db.holdsKey docId vendor invoiceNo = true ↔ Full (vendor, invoiceNo) ∧
      ∃ d row, d ≠ docId ∧ db.documents.lookup d = some row ∧ (row.vendor, row.invoiceNo) = (vendor, invoiceNo) := by
    unfold Db.holdsKey Full
    simp only [Bool.and_eq_true, List.any_eq_true, decide_eq_true_eq, Option.isSome_iff_ne_none, ne_eq,
      Prod.mk.injEq, Prod.exists, Table.mem_rows]
    constructor
    · rintro ⟨hfull, d, row, hrow, ⟨hd, hv⟩, hi⟩
      exact ⟨hfull, d, row, hd, hrow, hv, hi⟩
    · rintro ⟨hfull, d, row, hd, hrow, hv, hi⟩
      exact ⟨hfull, d, row, hrow, ⟨hd, hv⟩, hi⟩
  rw [Bool.eq_false_iff, ne_eq, hany]
  constructor
  · intro hnot hfull d r hd hr hkey
    obtain ⟨row, hrow, rfl⟩ := docs_ofDb hr
    exact hnot ⟨hfull, d, row, hd, hrow, hkey⟩
  · rintro hfree ⟨hfull, d, row, hd, hrow, hkey⟩
    exact hfree hfull d (record row) hd (ofDb_docs hrow) hkey

end DocPipeline.Lifecycle

namespace DocPipeline.Operation

open Lib Lifecycle

/-- The event an operation is, when the abstract model sees it. -/
def event : Operation → Option (Event DocId Fields String)
  | .insert docId row => some (.insert docId row.state)
  | .move docId toState => some (.move docId toState)
  | .route docId _ => some (.route docId)
  | .settle docId fields _ => some (.settle docId fields)
  | .post docId fields _ _ => some (.post docId fields)
  | .rekey docId vendor invoiceNo => some (.rekey docId (vendor, invoiceNo))
  | .accept docId _ _ => some (.accept docId)
  | _ => none

variable {db db' : Db} {op : Operation}

/-- An operation is a step of the model under its event, or no step at all. -/
theorem Step.refines (h : Step db op db') :
    (∃ e, op.event = some e ∧ LifeStep (ofDb db) e (ofDb db')) ∨ ofDb db' = ofDb db := by
  cases h with
  | @insert d row hnone hfresh =>
    refine Or.inl ⟨_, rfl, ?_⟩
    have heq : ofDb { db with documents := db.documents.insert d row } = (ofDb db).enter d row.state := by
      unfold ofDb State.enter
      congr 1
      funext d'
      rw [Table.lookup_insert_ite, Function.update_apply]
      split
      · rw [Option.map_some, record, hfresh.extractionResult, hfresh.vendor, hfresh.invoiceNo]
      · rfl
    rw [heq]
    exact .insert (by simp only [ofDb, hnone, Option.map_none]) hfresh.state
  | move hrow hallowed hc hr =>
    refine Or.inl ⟨_, rfl, ?_⟩
    rw [ofDb_write]
    exact .move (ofDb_docs hrow) hallowed hc hr
  | note hrow | fallThrough hrow | split hrow => exact Or.inr (ofDb_write_same hrow rfl)
  | @recordShard d row shardIdx hrow _ =>
    have hcounted : ofDb (db.countShard d shardIdx row) =
        ofDb { db with documentShards := (d, shardIdx) :: db.documentShards } := ofDb_write_same hrow rfl
    exact Or.inr hcounted
  | send htopic => exact Or.inr (ofDb_insertOutbox htopic)
  | route hrow =>
    refine Or.inl ⟨_, rfl, ?_⟩
    rw [ofDb_write]
    exact .route (ofDb_docs hrow)
  | settle hrow hnone =>
    refine Or.inl ⟨_, rfl, ?_⟩
    rw [ofDb_write]
    exact .settle (ofDb_docs hrow) hnone
  | post hrow hnone hkey hann =>
    refine Or.inl ⟨_, rfl, ?_⟩
    rw [ofDb_announce, ofDb_write, announcement, hann.docId, hann.fields, hann.route]
    exact .post (ofDb_docs hrow) hnone (holdsKey_iff.mp hkey)
  | rekey hrow hsome hkey =>
    refine Or.inl ⟨_, rfl, ?_⟩
    rw [ofDb_write]
    exact .rekey (ofDb_docs hrow) hsome (holdsKey_iff.mp hkey)
  | accept hrow hstate hdoc hroute hfields =>
    refine Or.inl ⟨_, rfl, ?_⟩
    rw [ofDb_announce, ofDb_write, announcement, hdoc, hroute, hfields]
    exact .accept (ofDb_docs hrow) hstate
  | aside hsame =>
    refine Or.inr ?_
    unfold ofDb
    rw [hsame.documents, hsame.history, hsame.sent, hsame.postedDocuments]

end DocPipeline.Operation

namespace DocPipeline.Sys

open Lib Lifecycle

variable {site : Deployment} {s t : Sys} {a : Action}

/-- The events a step of the system can be in the abstract model. -/
inductive Seen (site : Deployment) (s : Sys) (a : Action) :
    State DocId Fields String → Event DocId Fields String → Prop
  | operation {db db' : Db} {op : Operation} {e : Event DocId Fields String} :
      s.Does site a db op → op.Step db db' → op.event = some e → Seen site s a (ofDb db) e
  | delivery {σ : State DocId Fields String} {announcement : Announcement DocId Fields} :
      Seen site s a σ (.deliver announcement)

theorem ofDb_initial : ofDb initial.db = State.initial := by
  unfold ofDb State.initial
  congr 1

theorem life_performs {May : Db → Operation → Prop} {db db' : Db}
    {H : State DocId Fields String → Event DocId Fields String → Prop} (hp : Performs May db db')
    (hmay : ∀ db op db' e, May db op → op.Step db db' → op.event = some e → H (ofDb db) e) :
    Reaches LifeStep H (ofDb db) (ofDb db') := by
  refine hp.relates (R := fun db db' => Reaches LifeStep H (ofDb db) (ofDb db')) (fun _ => .refl _)
    (fun _ _ _ h k => h.trans k) fun db op db' hm hs => ?_
  rcases hs.refines with ⟨e, he, hstep⟩ | heq
  · exact .single (hmay db op db' e hm hs he) hstep
  · rw [heq]
    exact .refl _

/-- A step of the pipeline is a run of the model through the events it can be. -/
theorem life_step (h : Transport site s) (hs : Step site s a t) :
    Reaches LifeStep (Seen site s a) (ofDb s.db) (ofDb t.db) := by
  rcases step_cases hs with hp | ⟨partition, act, rfl, hsink⟩ | ⟨hkeep, hposted⟩
  · exact life_performs hp fun _ _ _ _ hd hs he => .operation hd hs he
  · rcases sink_posts hsink with heq | ⟨offset, row, payload, hrow, hpayload, heq⟩
    · rw [heq]
      exact .refl _
    · obtain ⟨hsent, htopic, _⟩ := h.delivers.stored _ _ row (List.mem_of_getElem? hrow)
      have hann : announcement payload ∈ (ofDb s.db).announced := by
        refine List.mem_filterMap.mpr ⟨row, hsent, ?_⟩
        rw [announcementOf, htopic, hpayload]
      have hstore : ofDb t.db = (ofDb s.db).store payload.docId (payload.fields.getD Fields.empty) := by
        rw [heq]
        unfold ofDb State.store
        congr 1
        funext d
        rw [Table.lookup_insertNew, Function.update_apply]
        split
        · change _ = some (((s.db.postedDocuments.lookup payload.docId).map PostedDocument.fields).getD _)
          cases s.db.postedDocuments.lookup payload.docId <;> rfl
        · rfl
      rw [hstore]
      exact .single .delivery (.deliver hann)
  · have heq : ofDb t.db = ofDb s.db := by
      unfold ofDb
      rw [hkeep.documents, hkeep.history, hkeep.sent, hposted]
    rw [heq]
    exact .refl _

/-- A guarded run of the pipeline is a guarded life of its documents. -/
theorem life_run {Guard : Sys → Action → Prop} {H : State DocId Fields String → Event DocId Fields String → Prop}
    {as : List Action} (hguard : ∀ s a σ e, Guard s a → Seen site s a σ e → H σ e)
    (h : GuardedRun site Guard initial as s) : Reaches LifeStep H State.initial (ofDb s.db) := by
  have hboth : Transport site s ∧ Reaches LifeStep H State.initial (ofDb s.db) := by
    refine h.invariant (P := fun s => Transport site s ∧ Reaches LifeStep H State.initial (ofDb s.db))
      ⟨transport_initial, ofDb_initial ▸ .refl _⟩ fun s a t hi hg hs => ?_
    exact ⟨(transport_step hi.1 hs).1, hi.2.trans ((life_step hi.1 hs).mono fun σ e => hguard s a σ e hg)⟩
  exact hboth.2

end DocPipeline.Sys

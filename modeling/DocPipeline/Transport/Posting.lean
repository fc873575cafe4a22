import DocPipeline.Lifecycle.Refinement

/-!
# What the sink has posted of its partition

The broker only appends, and a posted row stays, so an offset that has been posted stays
posted. What the sink loop keeps is the cover of its consumer, as long as it does not
commit after a failed call.
-/
namespace DocPipeline

set_option autoImplicit false

open Lib Lifecycle

/-- The message announces the document downstream. -/
structure Extracts (row : OutboxRow) (docId : DocId) : Prop where
  topic : row.topic = .documentExtracted
  key : row.docId = docId
  payload : ∃ payload, row.payload = .extracted payload ∧ payload.docId = docId

/-- Every message of the topic carries its own key in its payload. -/
def Announcing (sent : List OutboxRow) : Prop :=
  ∀ row, row ∈ sent → row.topic = .documentExtracted → Extracts row row.docId

theorem Operation.Step.announcing {db db' : Db} {op : Operation} (h : op.Step db db')
    (hi : Announcing db.sent) : Announcing db'.sent := by
  have hcons : ∀ {row : OutboxRow} {sent : List OutboxRow}, Announcing sent →
      (row.topic = .documentExtracted → Extracts row row.docId) → Announcing (row :: sent) := by
    intro row sent hi hrow r hr ht
    rcases List.mem_cons.mp hr with rfl | hr
    · exact hrow ht
    · exact hi r hr ht
  cases h with
  | insert | move | note | fallThrough | split | recordShard | route | settle | rekey => exact hi
  | send htopic => exact hcons hi fun ht => absurd ht htopic
  | post _ _ _ hann => exact hcons hi fun _ => ⟨rfl, rfl, _, rfl, hann.docId⟩
  | accept _ _ hdoc _ _ => exact hcons hi fun _ => ⟨rfl, rfl, _, rfl, hdoc⟩
  | aside hsame =>
    rw [Announcing, hsame.sent]
    exact hi

/-- The document of the message at this offset has its posted row. -/
def PostedAt (db : Db) (log : List OutboxRow) (offset : Nat) : Prop :=
  ∃ row payload, log[offset]? = some row ∧ row.payload = .extracted payload ∧
    db.postedDocuments.lookup payload.docId ≠ none

theorem PostedAt.mono {db db' : Db} {log log' : List OutboxRow} {offset : Nat} (h : PostedAt db log offset)
    (hlog : log <+: log')
    (hposted : ∀ d, db.postedDocuments.lookup d ≠ none → db'.postedDocuments.lookup d ≠ none) :
    PostedAt db' log' offset := by
  obtain ⟨row, payload, hrow, hpayload, hp⟩ := h
  obtain ⟨hlt, _⟩ := List.getElem?_eq_some_iff.mp hrow
  obtain ⟨rest, rfl⟩ := hlog
  exact ⟨row, payload, by rw [List.getElem?_append_left hlt, hrow], hpayload, hposted _ hp⟩

namespace Sink

theorem posts_lookup {db : Db} (payload : ExtractedPayload) (d : DocId)
    (h : d = payload.docId ∨ db.postedDocuments.lookup d ≠ none) :
    (db.postedDocuments.insertNew payload.docId (postedRow payload)).lookup d ≠ none := by
  rw [Table.lookup_insertNew]
  split
  · exact Option.some_ne_none _
  · next hd => exact h.resolve_left hd

/-- A step of the loop keeps what the consumer covers, unless it commits after a failure. -/
theorem step_covers {db db' : Db} {log : List OutboxRow} {c c' : Consumer} {act : Act}
    (h : c.Covers (PostedAt db log)) (hs : step db log c act = some (db', c'))
    (hcommit : act = .commit → c.failed = false) : c'.Covers (PostedAt db' log) := by
  cases act with
  | poll =>
    obtain ⟨c₁, hc, heq⟩ := Option.map_eq_some_iff.mp hs
    cases heq
    exact h.poll hc
  | post =>
    simp only [step] at hs
    split at hs
    · cases hs
    · next row hrow =>
      split at hs
      · cases hs
      · obtain ⟨db₁, hdb, heq⟩ := Option.map_eq_some_iff.mp hs
        cases heq
        unfold handleDocumentExtracted at hdb
        split at hdb
        · next payload hpayload =>
          cases hdb
          refine (h.mono fun offset hd => hd.mono (List.prefix_refl _) fun d hp =>
            posts_lookup payload d (Or.inr hp)).handle fun offset ho => ?_
          rw [ho, Option.bind_some] at hrow
          exact ⟨row, payload, hrow, hpayload, posts_lookup payload _ (Or.inl rfl)⟩
        · cases hdb
  | fail =>
    obtain ⟨c₁, hc, heq⟩ := Option.map_eq_some_iff.mp hs
    cases heq
    exact h.fail hc
  | commit =>
    obtain ⟨c₁, hc, heq⟩ := Option.map_eq_some_iff.mp hs
    cases heq
    exact h.commit (hcommit rfl) hc
  | restart =>
    cases hs
    exact h.restart

end Sink

namespace Sys

variable {site : Deployment} {s t : Sys} {a : Action}

theorem relay_log {shared shared' : Relay.Shared} {relay relay' : Relay} {act : Relay.Act}
    (h : Relay.step site shared relay act = some (shared', relay')) (topic : Topic) (partition : Nat) :
    shared.broker topic partition <+: shared'.broker topic partition := by
  cases act with
  | store | resend =>
    simp only [Relay.step] at h
    split at h <;> cases h
    simp only [Broker.publish, Broker.append]
    split
    · exact List.prefix_append _ _
    · exact List.prefix_refl _
  | claim batchCap =>
    simp only [Relay.step] at h
    split at h
    · cases h
    · split at h <;> (cases h; exact List.prefix_refl _)
  | produce | fail =>
    simp only [Relay.step] at h
    split at h <;> cases h
    exact List.prefix_refl _
  | finish =>
    simp only [Relay.step] at h
    split at h
    · split at h <;> (cases h; exact List.prefix_refl _)
    · cases h
  | abort | crash =>
    cases h
    exact List.prefix_refl _

/-- The broker only appends. -/
theorem log_grows (h : Step site s a t) (topic : Topic) (partition : Nat) :
    s.broker topic partition <+: t.broker topic partition := by
  cases step_kind h with
  | idle | ran => exact List.prefix_refl _
  | relayed hrelay =>
    obtain ⟨⟨_, _⟩, hr, rfl⟩ := Option.map_eq_some_iff.mp hrelay
    exact relay_log hr topic partition
  | sunk hsink =>
    obtain ⟨_, _, rfl⟩ := Option.map_eq_some_iff.mp hsink
    exact List.prefix_refl _

/-- A posted row stays. -/
theorem posted_kept (ht : Transport site s) (h : Step site s a t) {d : DocId}
    (hp : s.db.postedDocuments.lookup d ≠ none) : t.db.postedDocuments.lookup d ≠ none := by
  have hlife : (ofDb s.db).posted d ≠ none → (ofDb t.db).posted d ≠ none := by
    refine (life_step ht h).relates (R := fun σ τ => σ.posted d ≠ none → τ.posted d ≠ none) (fun _ => id) ?_
      fun _ _ _ _ hs => posted_mono hs
    intro σ τ υ hfirst hrest hp
    exact hrest (hfirst hp)
  simpa [ofDb] using hlife (by simpa [ofDb] using hp)

theorem announcing_step (h : Step site s a t) (hi : Announcing s.db.sent) : Announcing t.db.sent := by
  rcases step_cases h with hp | ⟨partition, act, rfl, hsink⟩ | ⟨hkeep, _⟩
  · exact hp.invariant (P := fun db => Announcing db.sent) hi fun _ _ _ hi _ hs => hs.announcing hi
  · rcases sink_posts hsink with heq | ⟨_, _, _, _, _, heq⟩ <;> (rw [heq]; exact hi)
  · rw [Announcing, hkeep.sent]
    exact hi

/-- Only the sink's own steps touch its consumer. -/
theorem sink_of_step (h : Step site s a t) (partition : Nat) :
    t.sinks partition = s.sinks partition ∨ ∃ act, a = .sink partition act ∧
      Sink.step s.db (s.broker .documentExtracted partition) (s.sinks partition) act =
        some (t.db, t.sinks partition) ∧ t.broker = s.broker := by
  cases step_kind h with
  | idle | ran => exact Or.inl rfl
  | relayed hrelay =>
    obtain ⟨_, _, rfl⟩ := Option.map_eq_some_iff.mp hrelay
    exact Or.inl rfl
  | @sunk p act _ hsink =>
    obtain ⟨⟨db, c⟩, hs, rfl⟩ := Option.map_eq_some_iff.mp hsink
    by_cases hp : partition = p
    · subst hp
      refine Or.inr ⟨act, rfl, ?_, rfl⟩
      simp only [if_true]
      exact hs
    · exact Or.inl (if_neg hp)

/-- What the sinks have covered is posted; and the messages of the topic announce. -/
structure Posts (s : Sys) : Prop where
  announcing : Announcing s.db.sent
  covers : ∀ partition, (s.sinks partition).Covers (PostedAt s.db (s.broker .documentExtracted partition))

theorem posts_initial : Posts initial :=
  ⟨fun _ h => (nomatch h), fun _ => Consumer.covers_initial _⟩

theorem posts_step (ht : Transport site s) (hi : Posts s) (h : Step site s a t)
    (hcommit : ∀ partition, a = .sink partition .commit → (s.sinks partition).failed = false) : Posts t := by
  refine ⟨announcing_step h hi.announcing, fun partition => ?_⟩
  rcases sink_of_step h partition with hsame | ⟨act, rfl, hs, hbroker⟩
  · rw [hsame]
    exact (hi.covers partition).mono fun offset hd =>
      hd.mono (log_grows h .documentExtracted partition) fun d hp => posted_kept ht h hp
  · rw [hbroker]
    exact Sink.step_covers (hi.covers partition) hs fun he => hcommit partition (he ▸ rfl)

end Sys
end DocPipeline

import DocPipeline.Effects.Pipeline
import DocPipeline.Transport.Batch

/-!
# No message is lost between the outbox and the broker

A row leaves the outbox only when the call that claimed it has seen every one of its
messages stored. The queue of a producer outlives the call, so a row of an earlier call
may still be on its way; that only duplicates it. Nothing is assumed about locks.
-/
namespace DocPipeline

set_option autoImplicit false

open Lib

namespace Operation

variable {db db' : Db} {op : Operation}

/-- An operation leaves the outbox alone or appends one new row. -/
theorem Step.outbox (h : Step db op db') :
    (db'.sent = db.sent ∧ db'.outbox = db.outbox ∧ db'.outboxSeq = db.outboxSeq) ∨
    ∃ docId topic payload, db'.sent = ⟨db.outboxSeq, docId, topic, payload⟩ :: db.sent ∧
      db'.outbox = db.outbox ++ [⟨db.outboxSeq, docId, topic, payload⟩] ∧
      db'.outboxSeq = db.outboxSeq + 1 := by
  cases h with
  | insert | move | note | fallThrough | split | recordShard | route | settle | rekey =>
    exact Or.inl ⟨rfl, rfl, rfl⟩
  | send | post | accept => exact Or.inr ⟨_, _, _, rfl, rfl, rfl⟩
  | aside hsame => exact Or.inl ⟨hsame.sent, hsame.outbox, hsame.outboxSeq⟩

end Operation

/-- The broker holds the row, in the partition its key selects. -/
def Published (site : Deployment) (broker : Broker) (row : OutboxRow) : Prop :=
  row ∈ broker row.topic (site.partitioner row.topic row.docId)

/-- Every row ever enqueued is in the outbox or has been published. -/
structure Delivers (site : Deployment) (db : Db) (broker : Broker) : Prop where
  enqueued : ∀ r, r ∈ db.outbox → r ∈ db.sent
  stored : ∀ topic partition r, r ∈ broker topic partition →
    r ∈ db.sent ∧ r.topic = topic ∧ partition = site.partitioner topic r.docId
  numbered : ∀ r, r ∈ db.sent → r.id < db.outboxSeq
  distinct : ∀ r r', r ∈ db.sent → r' ∈ db.sent → r.id = r'.id → r = r'
  kept : ∀ r, r ∈ db.sent → r ∈ db.outbox ∨ Published site broker r

/-- What an open call of a relay knows about the rows it claimed. -/
structure Working (site : Deployment) (sent : List OutboxRow) (broker : Broker) (relay : Relay) : Prop where
  toProduce : ∀ r, r ∈ relay.toProduce → r ∈ sent
  queue : ∀ k r, (k, r) ∈ relay.queue → r ∈ sent
  batch : ∀ rows, relay.batch = some rows → ∀ r, r ∈ rows → r ∈ sent ∧
    (r ∈ relay.toProduce ∨ (relay.call, r) ∈ relay.queue ∨ 0 < relay.failures ∨ Published site broker r)

variable {site : Deployment} {db db' : Db} {broker broker' : Broker} {relay : Relay}

theorem Broker.mem_publish {row r : OutboxRow} {topic : Topic} {partition : Nat} :
    r ∈ broker.publish site row topic partition ↔ r ∈ broker topic partition ∨
      (r = row ∧ topic = row.topic ∧ partition = site.partitioner row.topic row.docId) := by
  unfold Broker.publish Broker.append
  split
  · next h =>
    rw [List.mem_append, List.mem_singleton]
    exact or_congr_right ⟨fun he => ⟨he, h⟩, fun he => he.1⟩
  · next h => exact ⟨Or.inl, fun h' => h'.resolve_right fun he => h he.2⟩

theorem published_publish (row : OutboxRow) : Published site (broker.publish site row) row :=
  Broker.mem_publish.mpr (Or.inr ⟨rfl, rfl, rfl⟩)

theorem Working.mono {sent sent' : List OutboxRow} (h : Working site sent broker relay)
    (hs : ∀ r, r ∈ sent → r ∈ sent') (hb : ∀ r, Published site broker r → Published site broker' r) :
    Working site sent' broker' relay :=
  ⟨fun r hr => hs r (h.toProduce r hr), fun k r hr => hs r (h.queue k r hr), fun rows hrows r hr =>
    ⟨hs r (h.batch rows hrows r hr).1, (h.batch rows hrows r hr).2.imp id (Or.imp id (Or.imp id (hb r)))⟩⟩

theorem working_closed {sent : List OutboxRow} (h : Working site sent broker relay) :
    Working site sent broker relay.closed :=
  ⟨fun _ hr => (nomatch hr), h.queue, fun _ hrows => (nomatch hrows)⟩

theorem working_initial (site : Deployment) (sent : List OutboxRow) (broker : Broker) :
    Working site sent broker {} :=
  ⟨fun _ hr => (nomatch hr), fun _ _ hr => (nomatch hr), fun _ hrows => (nomatch hrows)⟩

theorem Delivers.operation {op : Operation} (h : Delivers site db broker) (hs : op.Step db db') :
    Delivers site db' broker ∧ ∀ r, r ∈ db.sent → r ∈ db'.sent := by
  rcases hs.outbox with ⟨hsent, hout, hseq⟩ | ⟨docId, topic, payload, hsent, hout, hseq⟩
  · refine ⟨⟨?_, ?_, ?_, ?_, ?_⟩, fun r hr => hsent ▸ hr⟩
    · rw [hout, hsent]
      exact h.enqueued
    · rw [hsent]
      exact h.stored
    · rw [hsent, hseq]
      exact h.numbered
    · rw [hsent]
      exact h.distinct
    · rw [hsent, hout]
      exact h.kept
  · have hgrow : ∀ r, r ∈ db.sent → r ∈ db'.sent := fun r hr => by
      rw [hsent]
      exact List.mem_cons_of_mem _ hr
    refine ⟨⟨?_, ?_, ?_, ?_, ?_⟩, hgrow⟩
    · intro r hr
      rw [hout, List.mem_append, List.mem_singleton] at hr
      rcases hr with hr | rfl
      · exact hgrow r (h.enqueued r hr)
      · rw [hsent]
        exact List.mem_cons_self
    · intro t p r hr
      obtain ⟨hr, hrest⟩ := h.stored t p r hr
      exact ⟨hgrow r hr, hrest⟩
    · intro r hr
      rw [hsent, List.mem_cons] at hr
      rw [hseq]
      rcases hr with rfl | hr
      · exact Nat.lt_succ_self _
      · exact Nat.lt_succ_of_lt (h.numbered r hr)
    · intro r r' hr hr' hid
      rw [hsent, List.mem_cons] at hr hr'
      rcases hr with rfl | hr <;> rcases hr' with rfl | hr'
      · rfl
      · exact absurd hid.symm (Nat.ne_of_lt (h.numbered r' hr'))
      · exact absurd hid (Nat.ne_of_lt (h.numbered r hr))
      · exact h.distinct r r' hr hr' hid
    · intro r hr
      rw [hsent, List.mem_cons] at hr
      rw [hout, List.mem_append, List.mem_singleton]
      rcases hr with rfl | hr
      · exact Or.inl (Or.inr rfl)
      · exact (h.kept r hr).imp Or.inl id

/-- Storing a message of the queue. -/
theorem Delivers.publish {row : OutboxRow} (h : Delivers site db broker) (hrow : row ∈ db.sent) :
    Delivers site db (broker.publish site row) := by
  refine ⟨h.enqueued, fun t p r hr => ?_, h.numbered, h.distinct, fun r hr => ?_⟩
  · rcases Broker.mem_publish.mp hr with hr | ⟨rfl, rfl, rfl⟩
    · exact h.stored t p r hr
    · exact ⟨hrow, rfl, rfl⟩
  · exact (h.kept r hr).imp id fun hp => Broker.mem_publish.mpr (Or.inl hp)

/-- The rows of a call may be deleted once each has been published: ids are distinct. -/
theorem Delivers.delete {rows : List OutboxRow} (h : Delivers site db broker)
    (hrows : ∀ r, r ∈ rows → r ∈ db.sent ∧ Published site broker r) :
    Delivers site (Relay.deleteOutbox db (rows.map OutboxRow.id)) broker := by
  refine ⟨fun r hr => h.enqueued r (List.mem_of_mem_filter hr), h.stored, h.numbered, h.distinct,
    fun r hr => ?_⟩
  rcases h.kept r hr with hout | hp
  · by_cases hid : r.id ∈ rows.map OutboxRow.id
    · obtain ⟨r', hr', hid'⟩ := List.mem_map.mp hid
      obtain ⟨hsent', hp'⟩ := hrows r' hr'
      exact Or.inr (h.distinct r' r hsent' hr hid' ▸ hp')
    · exact Or.inl (List.mem_filter.mpr ⟨hout, by simpa using hid⟩)
  · exact Or.inr hp

/-- A step of a relay publishes at most messages of its queue. -/
theorem Published.step {shared shared' : Relay.Shared} {relay' : Relay} {act : Relay.Act}
    (hs : Relay.step site shared relay act = some (shared', relay')) (r : OutboxRow)
    (h : Published site shared.broker r) : Published site shared'.broker r := by
  cases act with
  | claim batchCap =>
    simp only [Relay.step] at hs
    split at hs
    · cases hs
    · split at hs <;> (cases hs; exact h)
  | produce | fail =>
    simp only [Relay.step] at hs
    split at hs <;> cases hs
    exact h
  | store | resend =>
    simp only [Relay.step] at hs
    split at hs <;> cases hs
    exact Broker.mem_publish.mpr (Or.inl h)
  | finish =>
    simp only [Relay.step] at hs
    split at hs
    · split at hs <;> (cases hs; exact h)
    · cases hs
  | abort | crash =>
    cases hs
    exact h

/-- An acknowledged message is in the broker. -/
theorem published_of_acked {shared shared' : Relay.Shared} {relay' : Relay} {idx k : Nat} {row : OutboxRow}
    (hs : Relay.step site shared relay (.store idx true) = some (shared', relay'))
    (hidx : relay.queue[idx]? = some (k, row)) : Published site shared'.broker row := by
  simp only [Relay.step, hidx] at hs
  cases hs
  exact published_publish row

/-- One step of a relay keeps every message, and what its call knows. -/
theorem relay_step {shared shared' : Relay.Shared} {relay' : Relay} {act : Relay.Act}
    (h : Delivers site shared.db shared.broker) (hw : Working site shared.db.sent shared.broker relay)
    (hs : Relay.step site shared relay act = some (shared', relay')) :
    Delivers site shared'.db shared'.broker ∧ Working site shared'.db.sent shared'.broker relay' ∧
      shared'.db.sent = shared.db.sent ∧
      ∀ r, Published site shared.broker r → Published site shared'.broker r := by
  have hcovered : Covered (Published site shared.broker) relay :=
    fun rows hrows r hr => (hw.batch rows hrows r hr).2
  have hpub := Published.step hs
  have hnext : Covered (Published site shared'.broker) relay' :=
    hcovered.step hs hpub fun idx k row he hidx => published_of_acked (he ▸ hs) hidx
  -- the rows a call handles come from the outbox or from the call itself
  have hworking : (∀ r, r ∈ relay'.toProduce → r ∈ shared'.db.sent) →
      (∀ k r, (k, r) ∈ relay'.queue → r ∈ shared'.db.sent) →
      (∀ rows, relay'.batch = some rows → ∀ r, r ∈ rows → r ∈ shared'.db.sent) →
      Working site shared'.db.sent shared'.broker relay' :=
    fun hp hq hb => ⟨hp, hq, fun rows hrows r hr => ⟨hb rows hrows r hr, hnext rows hrows r hr⟩⟩
  have hbatch : ∀ rows, relay.batch = some rows → ∀ r, r ∈ rows → r ∈ shared.db.sent :=
    fun rows hrows r hr => (hw.batch rows hrows r hr).1
  cases act with
  | claim batchCap =>
    simp only [Relay.step] at hs
    split at hs
    · cases hs
    · split at hs
      · cases hs
        exact ⟨h, hw, rfl, hpub⟩
      · next hrows =>
        cases hs
        have hclaimed : ∀ r, r ∈ Relay.claimOutboxBatch shared.db shared.locks batchCap → r ∈ shared.db.sent :=
          fun r hr => h.enqueued r (List.mem_of_mem_filter (List.mem_of_mem_take hr))
        refine ⟨h, hworking hclaimed hw.queue fun rows hb r hr => ?_, rfl, hpub⟩
        cases hb
        exact hclaimed r hr
  | produce =>
    simp only [Relay.step] at hs
    split at hs <;> cases hs
    next row rest hrest =>
    have hrow : row ∈ shared.db.sent := hw.toProduce row (by rw [hrest]; exact List.mem_cons_self)
    refine ⟨h, hworking (fun r hr => hw.toProduce r ?_) (fun k r hr => ?_) hbatch, rfl, hpub⟩
    · rw [hrest]
      exact List.mem_cons_of_mem _ hr
    · rw [List.mem_append, List.mem_singleton, Prod.mk.injEq] at hr
      rcases hr with hr | ⟨_, rfl⟩
      · exact hw.queue k r hr
      · exact hrow
  | store idx acked =>
    simp only [Relay.step] at hs
    split at hs <;> cases hs
    next k row hidx =>
    have hrow : row ∈ shared.db.sent := hw.queue k row (List.mem_of_getElem? hidx)
    have hqueue : ∀ k r, (k, r) ∈ relay.queue.eraseIdx idx → r ∈ shared.db.sent :=
      fun k r hr => hw.queue k r (List.mem_of_mem_eraseIdx hr)
    refine ⟨h.publish hrow, ?_, rfl, hpub⟩
    cases acked with
    | true => exact hworking hw.toProduce hqueue hbatch
    | false =>
      simp only [Bool.false_eq_true, if_false, Relay.reportError_toProduce, Relay.reportError_queue,
        Relay.reportError_batch] at hworking
      exact hworking hw.toProduce hqueue hbatch
  | resend idx =>
    simp only [Relay.step] at hs
    split at hs <;> cases hs
    next k row hidx =>
    exact ⟨h.publish (hw.queue k row (List.mem_of_getElem? hidx)), hworking hw.toProduce hw.queue hbatch, rfl, hpub⟩
  | fail idx =>
    simp only [Relay.step] at hs
    split at hs <;> cases hs
    have hqueue : ∀ k r, (k, r) ∈ relay.queue.eraseIdx idx → r ∈ shared.db.sent :=
      fun k r hr => hw.queue k r (List.mem_of_mem_eraseIdx hr)
    refine ⟨h, ?_, rfl, hpub⟩
    simp only [Relay.reportError_toProduce, Relay.reportError_queue, Relay.reportError_batch] at hworking
    exact hworking hw.toProduce hqueue hbatch
  | finish =>
    simp only [Relay.step] at hs
    split at hs
    · next rows hrows hproduce =>
      split at hs
      · next hdone =>
        cases hs
        exact ⟨h.delete fun r hr => ⟨hbatch rows hrows r hr, hcovered.settled hrows hproduce hdone.1 hdone.2 r hr⟩,
          working_closed hw, rfl, hpub⟩
      · cases hs
        exact ⟨h, working_closed hw, rfl, hpub⟩
    · cases hs
  | abort =>
    cases hs
    exact ⟨h, working_closed hw, rfl, hpub⟩
  | crash =>
    cases hs
    exact ⟨h, working_initial site _ _, rfl, hpub⟩

namespace Sys

/-- The transport invariant of the whole system. -/
structure Transport (site : Deployment) (s : Sys) : Prop where
  delivers : Delivers site s.db s.broker
  working : ∀ rid, Working site s.db.sent s.broker (s.relays rid)

variable {s t : Sys} {a : Action}

theorem transport_initial : Transport site initial := by
  refine ⟨⟨?_, ?_, ?_, ?_, ?_⟩, fun rid => working_initial site _ _⟩
  · exact fun _ h => nomatch h
  · exact fun _ _ _ h => nomatch h
  · exact fun _ h => nomatch h
  · exact fun _ _ h => nomatch h
  · exact fun _ h => nomatch h

theorem Transport.congr (h : Transport site s) (hsent : t.db.sent = s.db.sent) (hout : t.db.outbox = s.db.outbox)
    (hseq : t.db.outboxSeq = s.db.outboxSeq) (hbroker : t.broker = s.broker) (hrelays : t.relays = s.relays) :
    Transport site t := by
  obtain ⟨⟨he, hb, hn, hd, hk⟩, hw⟩ := h
  refine ⟨⟨?_, ?_, ?_, ?_, ?_⟩, ?_⟩
  all_goals simp only [hsent, hout, hseq, hbroker, hrelays]
  all_goals assumption

/-- Operations append to the outbox and leave the broker and the relays alone. -/
theorem Transport.performs {May : Db → Operation → Prop} (h : Transport site s)
    (hp : Performs May s.db t.db) (hbroker : t.broker = s.broker) (hrelays : t.relays = s.relays) :
    Transport site t ∧ ∀ r, r ∈ s.db.sent → r ∈ t.db.sent := by
  have hrun : Delivers site t.db s.broker ∧ ∀ r, r ∈ s.db.sent → r ∈ t.db.sent := by
    refine hp.invariant (P := fun db => Delivers site db s.broker ∧ ∀ r, r ∈ s.db.sent → r ∈ db.sent)
      ⟨h.delivers, fun _ hr => hr⟩ fun db op db' hi _ hs => ?_
    obtain ⟨hd, hgrow⟩ := hi.1.operation hs
    exact ⟨hd, fun r hr => hgrow r (hi.2 r hr)⟩
  refine ⟨⟨hbroker ▸ hrun.1, fun rid => ?_⟩, hrun.2⟩
  rw [hbroker, hrelays]
  exact (h.working rid).mono hrun.2 fun _ hp => hp

/-- Every step of the system keeps the transport invariant, and forgets no message. -/
theorem transport_step (h : Transport site s) (hs : Step site s a t) :
    Transport site t ∧ ∀ r, r ∈ s.db.sent → r ∈ t.db.sent := by
  cases step_kind hs with
  | idle => exact ⟨h.congr rfl rfl rfl rfl rfl, fun _ hr => hr⟩
  | ran _ hr => exact h.performs (Task.step_performs hr) rfl rfl
  | @relayed rid act _ hrelay =>
    obtain ⟨⟨shared, relay⟩, hr, rfl⟩ := Option.map_eq_some_iff.mp hrelay
    obtain ⟨hd, hw, hsent, hb⟩ := relay_step h.delivers (h.working rid) hr
    refine ⟨⟨hd, fun i => ?_⟩, fun r hr => hsent ▸ hr⟩
    by_cases hi : i = rid
    · simp only [hi, if_true]
      exact hw
    · simp only [hi, if_false]
      exact (h.working i).mono (fun r hr => hsent ▸ hr) hb
  | sunk hsink =>
    rcases sink_posts hsink with heq | ⟨_, _, _, _, _, heq⟩
    all_goals
      obtain ⟨_, _, rfl⟩ := Option.map_eq_some_iff.mp hsink
      refine ⟨h.congr ?_ ?_ ?_ rfl rfl, fun r hr => ?_⟩
      all_goals rw [heq]
      exact hr

theorem transport_run {Guard : Sys → Action → Prop} {as : List Action}
    (h : GuardedRun site Guard initial as s) : Transport site s :=
  h.invariant transport_initial fun _ _ _ hi _ hs => (transport_step hi hs).1

end Sys
end DocPipeline

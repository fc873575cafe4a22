import DocPipeline.Core.Ledger

/-!
# The outbox relay and its producer

One `relay_once` call claims rows, hands each to the producer, waits in `flush`, and
deletes the rows only when nothing is left in the producer's queue and no callback of
this call reported an error. The queue outlives a failed call: its messages keep the
callback of the call that produced them. A producer that misses an acknowledgement sends its
message once more by itself, and the broker keeps both. `locks` are the ids held by open claims.
-/
namespace DocPipeline

set_option autoImplicit false

/-- Messages by topic and partition. A message keeps the outbox row it was made from. -/
abbrev Broker := Topic → Nat → List OutboxRow

namespace Broker

def append (broker : Broker) (topic : Topic) (partition : Nat) (row : OutboxRow) : Broker :=
  fun t p => if t = topic ∧ p = partition then broker t p ++ [row] else broker t p

def publish (site : Deployment) (broker : Broker) (row : OutboxRow) : Broker :=
  broker.append row.topic (site.partitioner row.topic row.docId) row

end Broker

structure Relay where
  call : Nat := 0
  batch : Option (List OutboxRow) := none
  toProduce : List OutboxRow := []
  queue : List (Nat × OutboxRow) := []
  failures : Nat := 0

namespace Relay

inductive Act where
  | claim (batchCap : Nat)
  | produce
  /-- The broker stored the message; its callback reports success or, when the
  acknowledgement was lost, an error. -/
  | store (idx : Nat) (acked : Bool)
  /-- The broker stored the message, and the producer tries it again. -/
  | resend (idx : Nat)
  | fail (idx : Nat)
  /-- `flush` has returned. -/
  | finish
  /-- An exception in the call: roll back, the producer lives on. -/
  | abort
  | crash

/-- `claim_outbox_batch`: the oldest rows that no open claim holds. -/
def claimOutboxBatch (db : Db) (locks : List Nat) (batchCap : Nat) : List OutboxRow :=
  (db.outbox.filter fun r => r.id ∉ locks).take batchCap

def batchIds (relay : Relay) : List Nat := (relay.batch.getD []).map OutboxRow.id

def release (relay : Relay) (locks : List Nat) : List Nat := locks.filter (· ∉ relay.batchIds)

/-- The call is over: no open batch. -/
def closed (relay : Relay) : Relay := { relay with batch := none, toProduce := [], failures := 0 }

def deleteOutbox (db : Db) (ids : List Nat) : Db :=
  { db with outbox := db.outbox.filter fun r => r.id ∉ ids }

/-- A callback of call `k` reports an error: only the open call's closure is looked at. -/
def reportError (relay : Relay) (k : Nat) : Relay :=
  if k = relay.call then { relay with failures := relay.failures + 1 } else relay

@[simp] theorem reportError_batch (relay : Relay) (k : Nat) : (relay.reportError k).batch = relay.batch := by
  unfold reportError
  split <;> rfl

@[simp] theorem reportError_toProduce (relay : Relay) (k : Nat) :
    (relay.reportError k).toProduce = relay.toProduce := by
  unfold reportError
  split <;> rfl

@[simp] theorem reportError_queue (relay : Relay) (k : Nat) : (relay.reportError k).queue = relay.queue := by
  unfold reportError
  split <;> rfl

/-- Database, broker, row locks and the relay itself. -/
structure Shared where
  db : Db
  broker : Broker
  locks : List Nat

def step (site : Deployment) (s : Shared) (relay : Relay) : Act → Option (Shared × Relay)
  | .claim batchCap =>
    match relay.batch with
    | some _ => none
    | none =>
      match claimOutboxBatch s.db s.locks batchCap with
      | [] => some (s, relay)
      | rows => some ({ s with locks := s.locks ++ rows.map OutboxRow.id },
          { relay with call := relay.call + 1, batch := some rows, toProduce := rows, failures := 0 })
  | .produce =>
    match relay.toProduce with
    | [] => none
    | row :: rest =>
      some (s, { relay with toProduce := rest, queue := relay.queue ++ [(relay.call, row)] })
  | .store idx acked =>
    match relay.queue[idx]? with
    | none => none
    | some (k, row) =>
      let relay := { relay with queue := relay.queue.eraseIdx idx }
      some ({ s with broker := s.broker.publish site row },
        if acked then relay else relay.reportError k)
  | .resend idx =>
    match relay.queue[idx]? with
    | none => none
    | some (_, row) => some ({ s with broker := s.broker.publish site row }, relay)
  | .fail idx =>
    match relay.queue[idx]? with
    | none => none
    | some (k, _) => some (s, { relay with queue := relay.queue.eraseIdx idx }.reportError k)
  | .finish =>
    match relay.batch, relay.toProduce with
    | some rows, [] =>
      if relay.queue = [] ∧ relay.failures = 0 then
        some ({ s with
          db := deleteOutbox s.db (rows.map OutboxRow.id)
          locks := relay.release s.locks }, relay.closed)
      else some ({ s with locks := relay.release s.locks }, relay.closed)
    | _, _ => none
  | .abort => some ({ s with locks := relay.release s.locks }, relay.closed)
  | .crash => some ({ s with locks := relay.release s.locks }, {})

/-- The call has seen every message of its batch settled without an error, and commits. -/
def commits (relay : Relay) : Act → Bool
  | .finish => relay.queue.isEmpty && decide (relay.failures = 0)
  | _ => false

variable {site : Deployment} {shared shared' : Shared} {relay relay' : Relay} {act : Act}

/-- A step claims a batch, ends the call, with or without deleting its rows, or leaves the
batch, the locks and the database alone. -/
theorem step_cases (h : step site shared relay act = some (shared', relay')) :
    (relay'.batch = relay.batch ∧ shared'.locks = shared.locks ∧ shared'.db = shared.db) ∨
    (∃ batchCap, relay.batch = none ∧
      relay'.batch = some (claimOutboxBatch shared.db shared.locks batchCap) ∧
      shared'.locks = shared.locks ++ (claimOutboxBatch shared.db shared.locks batchCap).map OutboxRow.id ∧
      shared'.db = shared.db) ∨
    (relay'.batch = none ∧ shared'.locks = relay.release shared.locks ∧
      (shared'.db = shared.db ∨ ∃ rows, act = .finish ∧ relay.batch = some rows ∧ relay.toProduce = [] ∧
        relay.queue = [] ∧ relay.failures = 0 ∧
        shared'.db = deleteOutbox shared.db (rows.map OutboxRow.id))) := by
  cases act with
  | claim batchCap =>
    simp only [step] at h
    split at h
    · cases h
    · next hnone =>
      split at h
      · cases h
        exact Or.inl ⟨rfl, rfl, rfl⟩
      · next hrows =>
        cases h
        exact Or.inr (Or.inl ⟨batchCap, hnone, rfl, rfl, rfl⟩)
  | produce =>
    simp only [step] at h
    split at h <;> cases h
    exact Or.inl ⟨rfl, rfl, rfl⟩
  | store idx acked =>
    simp only [step] at h
    split at h <;> cases h
    refine Or.inl ⟨?_, rfl, rfl⟩
    split
    · rfl
    · rw [reportError_batch]
  | resend idx =>
    simp only [step] at h
    split at h <;> cases h
    exact Or.inl ⟨rfl, rfl, rfl⟩
  | fail idx =>
    simp only [step] at h
    split at h <;> cases h
    exact Or.inl ⟨reportError_batch _ _, rfl, rfl⟩
  | finish =>
    simp only [step] at h
    split at h
    · next rows hbatch hproduce =>
      split at h
      · next hdone =>
        cases h
        exact Or.inr (Or.inr ⟨rfl, rfl, Or.inr ⟨rows, rfl, hbatch, hproduce, hdone.1, hdone.2, rfl⟩⟩)
      · cases h
        exact Or.inr (Or.inr ⟨rfl, rfl, Or.inl rfl⟩)
    · cases h
  | abort | crash =>
    cases h
    exact Or.inr (Or.inr ⟨rfl, rfl, Or.inl rfl⟩)

end Relay
end DocPipeline

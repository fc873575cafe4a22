import Mathlib.Algebra.BigOperators.Group.Finset.Basic
import DocPipeline.Audit.Relay

/-!
# How often is a message published?

A row of the outbox is handed to a producer once by each call that claims it, and a call
holds it alone. So every copy the broker has of it beyond the first goes back to a call
that ended without deleting its rows, or to the producer itself: messages still in its
queue, or stored with their acknowledgement lost, are produced again by the next claim, and a
message whose acknowledgement is late is sent again by the producer.
-/
namespace DocPipeline.Audit

set_option autoImplicit false

open Lib Sys

/-- How many of the rows have the id. -/
def copies (id : Nat) (rows : List OutboxRow) : Nat := rows.countP fun r => decide (r.id = id)

/-- Messages of the row that a relay may still hand to the broker. -/
def pending (id : Nat) (relay : Relay) : Nat := copies id relay.toProduce + copies id (relay.queue.map Prod.snd)

/-- The call is over after this. -/
def endsCall : Relay.Act → Bool
  | .finish | .abort | .crash => true
  | _ => false

/-- The call holds the row, and ends without deleting it. -/
def lostCall (id : Nat) (relay : Relay) (act : Relay.Act) : Nat :=
  if endsCall act && !relay.commits act && decide (id ∈ relay.batchIds) then 1 else 0

/-- The producer sends a message of the row that the broker has stored. -/
def resent (id : Nat) (relay : Relay) : Relay.Act → Nat
  | .resend idx => (relay.queue[idx]?).elim 0 fun m => copies id [m.2]
  | _ => 0

/-- The lost calls that held the row, and the producer's own repetitions of its message. -/
def repeated (id : Nat) (s : Sys) (a : Action) (_ : Sys) : Nat :=
  match a with
  | .relay rid act => lostCall id (s.relays rid) act + resent id (s.relays rid) act
  | _ => 0

section
variable {id : Nat} {rows : List OutboxRow}

theorem copies_pos : 0 < copies id rows ↔ id ∈ rows.map OutboxRow.id := by
  simp [copies, List.countP_pos_iff, List.mem_map]

theorem copies_eq_zero (h : id ∉ rows.map OutboxRow.id) : copies id rows = 0 :=
  Nat.eq_zero_of_not_pos fun hp => h (copies_pos.mp hp)

theorem copies_le_one (h : (rows.map OutboxRow.id).Nodup) : copies id rows ≤ 1 := by
  have hcount : copies id rows = (rows.map OutboxRow.id).count id := by
    rw [List.count, List.countP_map]
    exact List.countP_congr fun r _ => by simp
  exact hcount ▸ List.nodup_iff_count_le_one.mp h id

theorem copies_cons (r : OutboxRow) (rows : List OutboxRow) :
    copies id (r :: rows) = copies id rows + copies id [r] := by
  rw [← List.singleton_append, copies, List.countP_append, Nat.add_comm]
  rfl

theorem copies_append (rows' : List OutboxRow) : copies id (rows ++ rows') = copies id rows + copies id rows' :=
  List.countP_append ..

/-- What is taken off a queue is one message less in it. -/
theorem copies_eraseIdx (id : Nat) {queue : List (Nat × OutboxRow)} {idx k : Nat} {row : OutboxRow}
    (h : queue[idx]? = some (k, row)) :
    copies id ((queue.eraseIdx idx).map Prod.snd) + copies id [row] = copies id (queue.map Prod.snd) := by
  obtain ⟨hlt, hget⟩ := List.getElem?_eq_some_iff.mp h
  have hperm := (List.getElem_cons_eraseIdx_perm hlt).map Prod.snd
  rw [hget, List.map_cons] at hperm
  rw [← copies_cons]
  exact hperm.countP_eq _

end

/-! ## One step of a relay -/

section
variable {site : Deployment} {shared shared' : Relay.Shared} {relay relay' : Relay} {act : Relay.Act}

/-- What the broker has of the row in a partition, and what a relay may still add. -/
def load (id : Nat) (topic : Topic) (partition : Nat) (broker : Broker) (relay : Relay) : Nat :=
  copies id (broker topic partition) + pending id relay

theorem copies_publish (site : Deployment) (id : Nat) (topic : Topic) (partition : Nat) (broker : Broker)
    (row : OutboxRow) : copies id (broker.publish site row topic partition) ≤
      copies id (broker topic partition) + copies id [row] := by
  unfold Broker.publish Broker.append
  split
  · rw [copies_append]
  · exact Nat.le_add_right _ _

/-- A call works on its batch, claims one, or ends: with its rows deleted when it commits, and
as they were when it does not. Only a claim adds messages, and the producer that repeats one. -/
theorem relay_moves (id : Nat) (topic : Topic) (partition : Nat)
    (h : Relay.step site shared relay act = some (shared', relay')) :
    (endsCall act = false ∧ relay'.batch = relay.batch ∧ shared'.db = shared.db ∧
      load id topic partition shared'.broker relay' ≤
        load id topic partition shared.broker relay + resent id relay act) ∨
    (∃ batchCap, endsCall act = false ∧ relay.batch = none ∧
      relay'.batch = some (Relay.claimOutboxBatch shared.db shared.locks batchCap) ∧ shared'.db = shared.db ∧
      load id topic partition shared'.broker relay' ≤ load id topic partition shared.broker relay +
        copies id (Relay.claimOutboxBatch shared.db shared.locks batchCap)) ∨
    (endsCall act = true ∧ relay'.batch = none ∧
      load id topic partition shared'.broker relay' ≤ load id topic partition shared.broker relay ∧
      ((relay.commits act = true ∧ shared'.db = Relay.deleteOutbox shared.db relay.batchIds) ∨
        (relay.commits act = false ∧ shared'.db = shared.db))) := by
  cases act with
  | claim batchCap =>
    simp only [Relay.step] at h
    split at h
    · cases h
    · next hnone =>
      split at h
      · cases h
        exact Or.inl ⟨rfl, rfl, rfl, Nat.le_refl _⟩
      · cases h
        refine Or.inr (Or.inl ⟨batchCap, rfl, hnone, rfl, rfl, ?_⟩)
        simp only [load, pending]
        omega
  | produce =>
    simp only [Relay.step] at h
    split at h <;> cases h
    next row rest hrest =>
    refine Or.inl ⟨rfl, rfl, rfl, ?_⟩
    simp only [load, pending, hrest, copies_cons row rest, List.map_append, copies_append, List.map_cons, List.map_nil]
    omega
  | store idx acked =>
    simp only [Relay.step] at h
    split at h <;> cases h
    next k row hidx =>
    refine Or.inl ⟨rfl, ?_, rfl, ?_⟩
    · split
      · rfl
      · rw [Relay.reportError_batch]
    · have hqueue := copies_eraseIdx id hidx
      have hstored := copies_publish site id topic partition shared.broker row
      split
      all_goals simp only [load, pending, Relay.reportError_toProduce, Relay.reportError_queue]
      all_goals omega
  | resend idx =>
    simp only [Relay.step] at h
    split at h <;> cases h
    next k row hidx =>
    refine Or.inl ⟨rfl, rfl, rfl, ?_⟩
    have hstored := copies_publish site id topic partition shared.broker row
    simp only [load, pending, resent, hidx, Option.elim_some]
    omega
  | fail idx =>
    simp only [Relay.step] at h
    split at h <;> cases h
    next k row hidx =>
    refine Or.inl ⟨rfl, Relay.reportError_batch _ _, rfl, ?_⟩
    have hqueue := copies_eraseIdx id hidx
    simp only [load, pending, Relay.reportError_toProduce, Relay.reportError_queue]
    omega
  | finish =>
    simp only [Relay.step] at h
    split at h
    · next rows hbatch hproduce =>
      have hids : relay.batchIds = rows.map OutboxRow.id := by rw [Relay.batchIds, hbatch, Option.getD_some]
      split at h
      · next hdone =>
        cases h
        refine Or.inr (Or.inr ⟨rfl, rfl, ?_, Or.inl ⟨?_, by rw [hids]⟩⟩)
        · simp [load, pending, Relay.closed, copies]
        · simp [Relay.commits, hdone.1, hdone.2]
      · next hdone =>
        cases h
        refine Or.inr (Or.inr ⟨rfl, rfl, ?_, Or.inr ⟨?_, rfl⟩⟩)
        · simp [load, pending, Relay.closed, copies]
        · simpa [Relay.commits] using hdone
    · cases h
  | abort | crash =>
    cases h
    refine Or.inr (Or.inr ⟨rfl, rfl, ?_, Or.inr ⟨rfl, rfl⟩⟩)
    simp [load, pending, Relay.closed, copies]

end

/-! ## The outbox -/

/-- The outbox and what was ever sent grow by the same rows, numbered on. -/
def Extends (db db' : Db) : Prop :=
  ∃ rows, rows.map OutboxRow.id = List.range' db.outboxSeq rows.length ∧ db'.outbox = db.outbox ++ rows ∧
    db'.sent = rows.reverse ++ db.sent ∧ db'.outboxSeq = db.outboxSeq + rows.length

theorem Extends.of_eq {db db' : Db} (hsent : db'.sent = db.sent) (hout : db'.outbox = db.outbox)
    (hseq : db'.outboxSeq = db.outboxSeq) : Extends db db' :=
  ⟨[], rfl, by rw [hout, List.append_nil], by rw [hsent]; rfl, hseq⟩

theorem Extends.trans {db m db' : Db} (h : Extends db m) (k : Extends m db') : Extends db db' := by
  obtain ⟨rows, hids, hout, hsent, hseq⟩ := h
  obtain ⟨rows', hids', hout', hsent', hseq'⟩ := k
  refine ⟨rows ++ rows', ?_, ?_, ?_, ?_⟩
  · rw [List.map_append, hids, hids', hseq, List.length_append, ← List.range'_append_1]
  · rw [hout', hout, List.append_assoc]
  · rw [hsent', hsent, List.reverse_append, List.append_assoc]
  · rw [hseq', hseq, List.length_append, Nat.add_assoc]

theorem extends_performs {May : Db → Operation → Prop} {db db' : Db} (h : Performs May db db') : Extends db db' := by
  refine h.relates (fun _ => .of_eq rfl rfl rfl) (fun _ _ _ => Extends.trans) fun _ _ _ _ hs => ?_
  rcases hs.outbox with ⟨hsent, hout, hseq⟩ | ⟨docId, topic, payload, hsent, hout, hseq⟩
  · exact .of_eq hsent hout hseq
  · exact ⟨[_], rfl, hout, hsent, hseq⟩

variable {site : Deployment} {s t : Sys} {a : Action} {id : Nat}

/-- Only relays touch the broker, and only they take rows out of the outbox. -/
theorem step_extends (h : Step site s a t) :
    (∃ rid act, a = .relay rid act ∧ s.runRelay site rid act = some t) ∨
    (Extends s.db t.db ∧ t.broker = s.broker ∧ t.relays = s.relays) := by
  cases step_kind h with
  | idle => exact Or.inr ⟨.of_eq rfl rfl rfl, rfl, rfl⟩
  | ran _ hr => exact Or.inr ⟨extends_performs (Task.step_performs hr), rfl, rfl⟩
  | relayed hrelay => exact Or.inl ⟨_, _, rfl, hrelay⟩
  | sunk hsink =>
    refine Or.inr ⟨?_, ?_⟩
    · rcases sink_posts hsink with hdb | ⟨_, _, _, _, _, hdb⟩
      all_goals
        rw [hdb]
        exact .of_eq rfl rfl rfl
    · obtain ⟨_, _, rfl⟩ := Option.map_eq_some_iff.mp hsink
      exact ⟨rfl, rfl⟩

/-- The queue the relays work on: ids are distinct, and an open call's rows are still there. -/
structure Queued (db : Db) (relays : Nat → Relay) : Prop where
  nodup : (db.outbox.map OutboxRow.id).Nodup
  below : ∀ r, r ∈ db.outbox → r.id < db.outboxSeq
  waiting : ∀ rid rows, (relays rid).batch = some rows → ∀ r, r ∈ rows → r ∈ db.outbox

theorem queued_initial : Queued initial.db initial.relays := by
  refine ⟨List.nodup_nil, fun r hr => ?_, fun rid rows hrows => ?_⟩
  · cases hr
  · cases hrows

theorem Queued.extends {db db' : Db} {relays : Nat → Relay} (h : Queued db relays) (hext : Extends db db') :
    Queued db' relays := by
  obtain ⟨rows, hids, hout, _, hseq⟩ := hext
  have hnew : ∀ r, r ∈ rows → db.outboxSeq ≤ r.id ∧ r.id < db'.outboxSeq := by
    intro r hr
    have hid := List.mem_map_of_mem (f := OutboxRow.id) hr
    rw [hids, List.mem_range'_1] at hid
    exact hseq ▸ hid
  refine ⟨?_, fun r hr => ?_, fun rid rows' hrows r hr => ?_⟩
  · rw [hout, List.map_append, List.nodup_append]
    refine ⟨h.nodup, hids ▸ List.nodup_range', fun i hi j hj he => ?_⟩
    obtain ⟨r, hr, rfl⟩ := List.mem_map.mp hi
    obtain ⟨r', hr', rfl⟩ := List.mem_map.mp hj
    have hlt := h.below r hr
    have hle := (hnew r' hr').1
    omega
  · rw [hout, List.mem_append] at hr
    rcases hr with hr | hr
    · have hlt := h.below r hr
      omega
    · exact (hnew r hr).2
  · rw [hout]
    exact List.mem_append_left _ (h.waiting rid rows' hrows r hr)

section
variable {shared shared' : Relay.Shared} {relays : Nat → Relay} {rid : Nat} {relay' : Relay} {act : Relay.Act}

/-- Rows leave the outbox only with the call that holds them. -/
theorem Queued.relay (h : Queued shared.db relays) (hex : Exclusive relays shared.locks)
    (hs : Relay.step site shared (relays rid) act = some (shared', relay')) :
    Queued shared'.db (fun i => if i = rid then relay' else relays i) := by
  have hsame : shared'.db = shared.db → (∀ rows, relay'.batch = some rows → ∀ r, r ∈ rows → r ∈ shared.db.outbox) →
      Queued shared'.db (fun i => if i = rid then relay' else relays i) := by
    intro hdb hown
    rw [hdb]
    refine ⟨h.nodup, h.below, fun i rows hrows => ?_⟩
    by_cases hi : i = rid
    · rw [if_pos hi] at hrows
      exact hown rows hrows
    · rw [if_neg hi] at hrows
      exact h.waiting i rows hrows
  rcases relay_moves 0 .triageRequests 0 hs with
    ⟨_, hbatch, hdb, _⟩ | ⟨batchCap, _, _, hbatch, hdb, _⟩ | ⟨_, hbatch, _, hend⟩
  · exact hsame hdb fun rows hrows => h.waiting rid rows (hbatch ▸ hrows)
  · refine hsame hdb fun rows hrows r hr => ?_
    rw [hbatch] at hrows
    cases hrows
    exact List.mem_of_mem_filter (List.mem_of_mem_take hr)
  · rcases hend with ⟨_, hdb⟩ | ⟨_, hdb⟩
    · rw [hdb]
      refine ⟨h.nodup.sublist (List.filter_sublist.map _), fun r hr => h.below r (List.mem_of_mem_filter hr),
        fun i rows hrows r hr => ?_⟩
      by_cases hi : i = rid
      · rw [if_pos hi, hbatch] at hrows
        cases hrows
      · rw [if_neg hi] at hrows
        refine List.mem_filter.mpr ⟨h.waiting i rows hrows r hr, decide_eq_true fun hheld => ?_⟩
        obtain ⟨rows', hrows', r', hr', hid⟩ := Relay.mem_batchIds.mp hheld
        exact hex.disjoint rid i rows' rows (Ne.symm hi) hrows' hrows r' r hr' hr hid
    · refine hsame hdb fun rows hrows => ?_
      rw [hbatch] at hrows
      cases hrows

/-! ## Accounting for the copies -/

/-- The row has left the outbox, or an open call holds it. -/
def Taken (id : Nat) (db : Db) (relays : Nat → Relay) : Prop :=
  (id ∈ db.sent.map OutboxRow.id ∧ id ∉ db.outbox.map OutboxRow.id) ∨ ∃ rid, id ∈ (relays rid).batchIds

/-- What the broker has of a row and the relays may still add to it. -/
def total (N id : Nat) (topic : Topic) (partition : Nat) (broker : Broker) (relays : Nat → Relay) : Nat :=
  copies id (broker topic partition) + ∑ rid ∈ Finset.range N, pending id (relays rid)

/-- Every copy goes back to a lost call or a repetition, one to the call that holds or deleted the row. -/
def Accounted (N id : Nat) (topic : Topic) (partition : Nat) (db : Db) (broker : Broker) (relays : Nat → Relay)
    (lost : Nat) : Prop :=
  total N id topic partition broker relays ≤ lost ∨
    (Taken id db relays ∧ total N id topic partition broker relays ≤ lost + 1)

theorem total_update {N : Nat} (topic : Topic) (partition : Nat) (broker broker' : Broker) (relay' : Relay)
    (hrid : rid < N) :
    total N id topic partition broker' (fun i => if i = rid then relay' else relays i) +
        load id topic partition broker (relays rid) =
      total N id topic partition broker relays + load id topic partition broker' relay' := by
  have hmem := Finset.mem_range.mpr hrid
  have hrest : ∑ i ∈ (Finset.range N).erase rid, pending id (if i = rid then relay' else relays i) =
      ∑ i ∈ (Finset.range N).erase rid, pending id (relays i) :=
    Finset.sum_congr rfl fun i hi => by rw [if_neg (Finset.ne_of_mem_erase hi)]
  have hnew := Finset.add_sum_erase (Finset.range N) (fun i => pending id (if i = rid then relay' else relays i)) hmem
  have hold := Finset.add_sum_erase (Finset.range N) (fun i => pending id (relays i)) hmem
  simp only [if_true, hrest] at hnew
  simp only [total, load]
  omega

/-- A call that claims the row has it alone. -/
theorem not_taken_of_claimed {batchCap : Nat} (hex : Exclusive relays shared.locks)
    (hid : id ∈ (Relay.claimOutboxBatch shared.db shared.locks batchCap).map OutboxRow.id) :
    ¬Taken id shared.db relays := by
  obtain ⟨r, hr, rfl⟩ := List.mem_map.mp hid
  rintro (⟨_, hgone⟩ | ⟨i, hheld⟩)
  · exact hgone (List.mem_map_of_mem (List.mem_of_mem_filter (List.mem_of_mem_take hr)))
  · obtain ⟨rows, hrows, r', hr', hid⟩ := Relay.mem_batchIds.mp hheld
    exact Relay.not_locked_of_claimed hr (hid ▸ hex.locked i rows hrows r' hr')

/-- A row stays taken, unless the call that holds it ends. -/
theorem Taken.relay (h : Taken id shared.db relays) (hsent : shared'.db.sent = shared.db.sent)
    (hout : ∀ r, r ∈ shared'.db.outbox → r ∈ shared.db.outbox)
    (hheld : id ∈ (relays rid).batchIds → id ∈ relay'.batchIds ∨ id ∉ shared'.db.outbox.map OutboxRow.id ∧
      id ∈ shared.db.sent.map OutboxRow.id) :
    Taken id shared'.db (fun i => if i = rid then relay' else relays i) := by
  rcases h with ⟨hin, hgone⟩ | ⟨i, hi⟩
  · refine Or.inl ⟨hsent ▸ hin, fun hmem => hgone ?_⟩
    obtain ⟨r, hr, rfl⟩ := List.mem_map.mp hmem
    exact List.mem_map_of_mem (hout r hr)
  · by_cases he : i = rid
    · subst he
      rcases hheld hi with hnext | ⟨hgone, hin⟩
      · exact Or.inr ⟨i, by simpa using hnext⟩
      · exact Or.inl ⟨hsent ▸ hin, hgone⟩
    · exact Or.inr ⟨i, by simpa [he] using hi⟩

variable {N lost : Nat} {topic : Topic} {partition : Nat}

/-- A step of a relay accounts for what it adds. -/
theorem Accounted.relay (h : Accounted N id topic partition shared.db shared.broker relays lost)
    (hq : Queued shared.db relays) (hsent : ∀ r, r ∈ shared.db.outbox → r ∈ shared.db.sent)
    (hex : Exclusive relays shared.locks) (hrid : rid < N)
    (hs : Relay.step site shared (relays rid) act = some (shared', relay')) :
    Accounted N id topic partition shared'.db shared'.broker (fun i => if i = rid then relay' else relays i)
      (lost + (lostCall id (relays rid) act + resent id (relays rid) act)) := by
  have hsum : total N id topic partition shared'.broker (fun i => if i = rid then relay' else relays i) + _ = _ :=
    total_update topic partition shared.broker shared'.broker relay' hrid
  rcases relay_moves id topic partition hs with
    ⟨_, hbatch, hdb, hload⟩ | ⟨batchCap, _, hnone, hbatch, hdb, hload⟩ | ⟨hends, hbatch, hload, hend⟩
  · have hids : relay'.batchIds = (relays rid).batchIds := by rw [Relay.batchIds, hbatch, Relay.batchIds]
    rcases h with h | ⟨htaken, h⟩
    · exact Or.inl (by omega)
    · refine Or.inr ⟨htaken.relay (congrArg Db.sent hdb) (fun r hr => hdb ▸ hr) fun hheld => Or.inl (hids ▸ hheld), ?_⟩
      omega
  · by_cases hid : id ∈ (Relay.claimOutboxBatch shared.db shared.locks batchCap).map OutboxRow.id
    · have hone : copies id (Relay.claimOutboxBatch shared.db shared.locks batchCap) ≤ 1 :=
        copies_le_one (hq.nodup.sublist (((List.take_sublist ..).trans List.filter_sublist).map _))
      have hfree := h.resolve_right fun htaken => not_taken_of_claimed hex hid htaken.1
      refine Or.inr ⟨Or.inr ⟨rid, ?_⟩, by omega⟩
      simpa [Relay.batchIds, hbatch] using hid
    · have hzero := copies_eq_zero hid
      rcases h with h | ⟨htaken, h⟩
      · exact Or.inl (by omega)
      · refine Or.inr ⟨htaken.relay (congrArg Db.sent hdb) (fun r hr => hdb ▸ hr) fun hheld => ?_, by omega⟩
        simp [Relay.batchIds, hnone] at hheld
  · have hout : ∀ r, r ∈ shared'.db.outbox → r ∈ shared.db.outbox := by
      intro r hr
      rcases hend with ⟨_, hdb⟩ | ⟨_, hdb⟩
      · rw [hdb] at hr
        exact List.mem_of_mem_filter hr
      · exact hdb ▸ hr
    have hkept : shared'.db.sent = shared.db.sent := by
      rcases hend with ⟨_, hdb⟩ | ⟨_, hdb⟩ <;> rw [hdb]
      rfl
    rcases h with h | ⟨htaken, h⟩
    · exact Or.inl (by omega)
    · by_cases hheld : id ∈ (relays rid).batchIds
      · rcases hend with ⟨_, hdb⟩ | ⟨hcommits, _⟩
        · -- a committed call leaves the row among the sent ones only
          obtain ⟨rows, hrows, r, hr, hid⟩ := Relay.mem_batchIds.mp hheld
          refine Or.inr ⟨htaken.relay hkept hout fun _ => Or.inr ⟨?_, ?_⟩, by omega⟩
          · rw [hdb]
            intro hmem
            obtain ⟨r', hr', hid'⟩ := List.mem_map.mp hmem
            exact of_decide_eq_true (List.mem_filter.mp hr').2 (hid' ▸ hheld)
          · exact hid ▸ List.mem_map_of_mem (hsent r (hq.waiting rid rows hrows r hr))
        · have hlost : lostCall id (relays rid) act = 1 := by simp [lostCall, hends, hcommits, hheld]
          exact Or.inl (by omega)
      · exact Or.inr ⟨htaken.relay hkept hout fun h => absurd h hheld, by omega⟩

end

/-- Only relays below `N` run. -/
def Below (N : Nat) (a : Action) : Prop := ∀ rid act, a = .relay rid act → rid < N

theorem exists_below (as : List Action) : ∃ N, ∀ a, a ∈ as → Below N a := by
  induction as with
  | nil => exact ⟨0, fun a ha => nomatch ha⟩
  | cons a as ih =>
    obtain ⟨N, hN⟩ := ih
    have hone : ∃ M, Below M a := by
      cases a with
      | relay rid act =>
        refine ⟨rid + 1, fun rid' act' he => ?_⟩
        cases he
        exact Nat.lt_succ_self rid
      | tick | spawn | receive | run | crash | sink => exact ⟨0, fun rid act he => nomatch he⟩
    obtain ⟨M, hM⟩ := hone
    refine ⟨max N M, fun b hb rid act he => ?_⟩
    rcases List.mem_cons.mp hb with rfl | hb
    · exact Nat.lt_of_lt_of_le (hM rid act he) (Nat.le_max_right N M)
    · exact Nat.lt_of_lt_of_le (hN b hb rid act he) (Nat.le_max_left N M)

/-! ## Runs -/

variable {N lost : Nat} {topic : Topic} {partition : Nat} {row : OutboxRow}

theorem Taken.extends {db db' : Db} {relays : Nat → Relay} (h : Taken id db relays) (hext : Extends db db')
    (hnumbered : ∀ r, r ∈ db.sent → r.id < db.outboxSeq) : Taken id db' relays := by
  obtain ⟨rows, hids, hout, hsent, _⟩ := hext
  rcases h with ⟨hin, hgone⟩ | hheld
  · obtain ⟨r, hr, rfl⟩ := List.mem_map.mp hin
    have hlt := hnumbered r hr
    left
    rw [hsent, hout, List.map_append, List.map_append, List.mem_append, List.mem_append, hids, List.mem_range'_1]
    exact ⟨Or.inr hin, fun hmem => hmem.elim hgone fun hnew => by omega⟩
  · exact Or.inr hheld

/-- The relays' queue and the account of one row, over a run. -/
structure Kept (site : Deployment) (N id : Nat) (topic : Topic) (partition : Nat) (s : Sys) (lost : Nat) : Prop where
  transport : Transport site s
  exclusive : Exclusive s.relays s.locks
  queued : Queued s.db s.relays
  accounted : Accounted N id topic partition s.db s.broker s.relays lost

theorem kept_step (h : Kept site N id topic partition s lost) (hbelow : Below N a) (hs : Step site s a t) :
    Kept site N id topic partition t (lost + repeated id s a t) := by
  refine ⟨(transport_step h.transport hs).1, exclusive_step h.exclusive hs, ?_, ?_⟩
  · rcases step_extends hs with ⟨rid, act, rfl, hrelay⟩ | ⟨hext, _, hrelays⟩
    · obtain ⟨⟨shared, relay⟩, hr, rfl⟩ := Option.map_eq_some_iff.mp hrelay
      have hqueued : Queued (Relay.Shared.mk s.world.db s.broker s.locks).db s.relays := h.queued
      exact hqueued.relay h.exclusive hr
    · rw [hrelays]
      exact h.queued.extends hext
  · rcases step_extends hs with ⟨rid, act, rfl, hrelay⟩ | ⟨hext, hbroker, hrelays⟩
    · obtain ⟨⟨shared, relay⟩, hr, rfl⟩ := Option.map_eq_some_iff.mp hrelay
      have haccounted : Accounted N id topic partition (Relay.Shared.mk s.world.db s.broker s.locks).db
        (Relay.Shared.mk s.world.db s.broker s.locks).broker s.relays lost := h.accounted
      exact haccounted.relay h.queued h.transport.delivers.enqueued h.exclusive (hbelow rid act rfl) hr
    · rw [hbroker, hrelays]
      rcases h.accounted with hle | ⟨htaken, hle⟩
      · exact Or.inl (Nat.le_add_right_of_le hle)
      · exact Or.inr ⟨htaken.extends hext h.transport.delivers.numbered, by omega⟩

theorem kept_run {as : List Action} (h : Tally (Step site) (repeated id) initial as s lost) (topic : Topic)
    (partition : Nat) : ∃ N, Kept site N id topic partition s lost := by
  obtain ⟨N, hN⟩ := exists_below as
  refine ⟨N, (h.labelled hN).invariant ?_ fun _ _ _ _ hk hs => kept_step hk hs.1 hs.2⟩
  refine ⟨transport_initial, exclusive_initial, queued_initial, Or.inl (Nat.le_of_eq ?_)⟩
  exact Nat.add_eq_zero_iff.mpr ⟨rfl, Finset.sum_eq_zero fun _ _ => rfl⟩

/-- A row that has left the outbox is in its own partition, at least once, and no row is ever
there more often than once and once more for each call that was lost while it held the row and
each repetition by a producer; while no call holds it, these account for every copy. -/
theorem copies_from_lost_calls {as : List Action} (h : Tally (Step site) (repeated row.id) initial as s lost)
    (hrow : row ∈ s.db.sent) :
    (∀ topic partition, copies row.id (s.broker topic partition) ≠ 0 →
      topic = row.topic ∧ partition = site.partitioner row.topic row.docId) ∧
    copies row.id (s.broker row.topic (site.partitioner row.topic row.docId)) ≤ lost + 1 ∧
    (row ∈ s.db.outbox → (∀ rid, row.id ∉ (s.relays rid).batchIds) →
      copies row.id (s.broker row.topic (site.partitioner row.topic row.docId)) ≤ lost) ∧
    (row ∉ s.db.outbox → 1 ≤ copies row.id (s.broker row.topic (site.partitioner row.topic row.docId))) := by
  obtain ⟨N, hkept⟩ := kept_run h row.topic (site.partitioner row.topic row.docId)
  have hdelivers := hkept.transport.delivers
  have hle : copies row.id (s.broker row.topic (site.partitioner row.topic row.docId)) ≤
      total N row.id row.topic (site.partitioner row.topic row.docId) s.broker s.relays := Nat.le_add_right ..
  refine ⟨fun topic partition hne => ?_, ?_, fun hin hfree => ?_, fun hgone => ?_⟩
  · obtain ⟨r, hr, hid⟩ := List.mem_map.mp (copies_pos.mp (Nat.pos_of_ne_zero hne))
    obtain ⟨hsent, htopic, hpartition⟩ := hdelivers.stored topic partition r hr
    obtain rfl := hdelivers.distinct r row hsent hrow hid
    exact ⟨htopic.symm, htopic ▸ hpartition⟩
  · rcases hkept.accounted with hbound | ⟨_, hbound⟩ <;> omega
  · rcases hkept.accounted with hbound | ⟨htaken, _⟩
    · exact hle.trans hbound
    · rcases htaken with ⟨_, hgone⟩ | ⟨rid, hheld⟩
      · exact absurd (List.mem_map_of_mem hin) hgone
      · exact absurd hheld (hfree rid)
  · exact copies_pos.mpr (List.mem_map_of_mem ((hdelivers.kept row hrow).resolve_left hgone))

/-- The broker stores the message and, as the producer tries it again, a second time. The
acknowledgement is lost, and the next call sends it once more. -/
def unacknowledged : List Action :=
  [.spawn 0 (.orphanScan ["a.pdf"])] ++ Schedule.turns 0 3 ++
    [.relay 0 (.claim 50), .relay 0 .produce, .relay 0 (.resend 0), .relay 0 (.store 0 false), .relay 0 .finish] ++
    Schedule.publish 1

theorem unacknowledged_sent_again :
    ∃ s row, Tally (Step oneInvoice) (repeated row.id) initial unacknowledged s 2 ∧ row ∈ s.db.sent ∧
      row ∉ s.db.outbox ∧ copies row.id (s.broker row.topic 0) = 3 ∧
      copies row.id (s.broker row.topic (oneInvoice.partitioner row.topic row.docId)) ≤ 2 + 1 := by
  have hruns : ((unacknowledged.foldlM (tallyNext (Sys.step oneInvoice) (fun _ _ => true) (repeated 1)) (initial, 0)).any
      fun r => decide (r.2 = 2) && r.1.db.outbox.isEmpty && r.1.db.sent.any fun row =>
        decide (row.id = 1 ∧ copies row.id (r.1.broker row.topic 0) = 3)) = true := by decide +kernel
  obtain ⟨⟨s, lost⟩, hrun, htest⟩ := (Option.any_eq_true ..).mp hruns
  simp only [Bool.and_eq_true, decide_eq_true_eq, List.isEmpty_iff, List.any_eq_true] at htest
  obtain ⟨⟨rfl, hout⟩, row, hrow, hid, hthrice⟩ := htest
  have htally : Tally (Step oneInvoice) (repeated row.id) initial unacknowledged s 2 :=
    hid ▸ (tally_of_foldlM hrun).mono fun _ _ _ h => h.2
  exact ⟨s, row, htally, hrow, by simp [hout], hthrice, (copies_from_lost_calls htally hrow).2.1⟩

end DocPipeline.Audit

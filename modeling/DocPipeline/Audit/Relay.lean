import DocPipeline.Audit.StateMachine
import DocPipeline.Transport.Delivery

/-!
# Is a row in the outbox until the broker has it?

A relay deletes the rows of its batch in one transaction, when every message of the call
has been acknowledged. Producers outlive the call that filled their queue, so the
acknowledged message may be an earlier call's; it was made from the same row.
-/
namespace DocPipeline.Audit

set_option autoImplicit false

open Lib Sys

variable {site : Deployment} {s t : Sys} {a : Action}

/-- The broker acknowledges a message made from the row: its callback reports no error. -/
def Acknowledges (row : OutboxRow) (s : Sys) (a : Action) : Prop :=
  ∃ rid idx k, a = .relay rid (.store idx true) ∧ (s.relays rid).queue[idx]? = some (k, row)

/-- The run has acknowledged the row. -/
abbrev Acknowledged (site : Deployment) (as : List Action) (s : Sys) (row : OutboxRow) : Prop :=
  Fired (Step site) Always initial as (Acknowledges row) s

/-! ## What a step does to the outbox -/

/-- No row is taken away, and a row that is new among the sent ones waits in the outbox. -/
structure Appends (db db' : Db) : Prop where
  outbox : ∀ r, r ∈ db.outbox → r ∈ db'.outbox
  sent : ∀ r, r ∈ db'.sent → r ∈ db.sent ∨ r ∈ db'.outbox

theorem appends_of_eq {db db' : Db} (hsent : db'.sent = db.sent) (hout : db'.outbox = db.outbox) : Appends db db' :=
  ⟨fun _ hr => hout ▸ hr, fun _ hr => Or.inl (hsent ▸ hr)⟩

theorem appends_operation {db db' : Db} {op : Operation} (h : op.Step db db') : Appends db db' := by
  rcases h.outbox with ⟨hsent, hout, _⟩ | ⟨docId, topic, payload, hsent, hout, _⟩
  · exact appends_of_eq hsent hout
  · constructor
    · intro r hr
      rw [hout]
      exact List.mem_append_left _ hr
    · intro r hr
      rw [hsent, List.mem_cons] at hr
      rw [hout]
      exact hr.symm.imp id fun he => List.mem_append_right _ (List.mem_singleton.mpr he)

theorem appends_performs {May : Db → Operation → Prop} {db db' : Db} (h : Performs May db db') : Appends db db' := by
  refine h.relates (fun _ => appends_of_eq rfl rfl) (fun _ _ _ h k => ⟨fun r hr => k.outbox r (h.outbox r hr), ?_⟩)
    fun _ _ _ _ => appends_operation
  intro r hr
  rcases k.sent r hr with hr | hr
  · exact (h.sent r hr).imp id (k.outbox r)
  · exact Or.inr hr

/-- Rows leave the outbox only by the commit of a call that has settled each of its messages. -/
theorem outbox_of_step (h : Step site s a t) :
    Appends s.db t.db ∨ ∃ rid rows, a = .relay rid .finish ∧ (s.relays rid).batch = some rows ∧
      (s.relays rid).toProduce = [] ∧ (s.relays rid).queue = [] ∧ (s.relays rid).failures = 0 ∧
      t.db = Relay.deleteOutbox s.db (rows.map OutboxRow.id) := by
  cases step_kind h with
  | idle => exact Or.inl (appends_of_eq rfl rfl)
  | ran _ hr => exact Or.inl (appends_performs (Task.step_performs hr))
  | @relayed rid act _ hrelay =>
    obtain ⟨⟨shared, relay⟩, hr, rfl⟩ := Option.map_eq_some_iff.mp hrelay
    rcases Relay.step_cases hr with ⟨_, _, hdb⟩ | ⟨_, _, _, _, hdb⟩ | ⟨_, _, hdb | ⟨rows, rfl, hrest⟩⟩
    · exact Or.inl (appends_of_eq (congrArg Db.sent hdb) (congrArg Db.outbox hdb))
    · exact Or.inl (appends_of_eq (congrArg Db.sent hdb) (congrArg Db.outbox hdb))
    · exact Or.inl (appends_of_eq (congrArg Db.sent hdb) (congrArg Db.outbox hdb))
    · exact Or.inr ⟨rid, rows, rfl, hrest⟩
  | sunk hsink =>
    rcases sink_posts hsink with hdb | ⟨_, _, _, _, _, hdb⟩
    all_goals
      rw [hdb]
      exact Or.inl (appends_of_eq rfl rfl)

/-- A relay step that does not commit leaves the outbox as it is. -/
theorem outbox_of_uncommitted {rid : Nat} {act : Relay.Act} (h : Step site s (.relay rid act) t)
    (hc : (s.relays rid).commits act = false) : t.db.outbox = s.db.outbox := by
  obtain ⟨⟨shared, relay⟩, hr, rfl⟩ := Option.map_eq_some_iff.mp h
  rcases Relay.step_cases hr with ⟨_, _, hdb⟩ | ⟨_, _, _, _, hdb⟩ | ⟨_, _, hdb | ⟨_, rfl, _, _, hqueue, hfail, _⟩⟩
  · exact congrArg Db.outbox hdb
  · exact congrArg Db.outbox hdb
  · exact congrArg Db.outbox hdb
  · simp [Relay.commits, hqueue, hfail] at hc

/-! ## What a run has acknowledged -/

theorem exclusive_step (h : Exclusive s.relays s.locks) (hs : Step site s a t) : Exclusive t.relays t.locks := by
  rcases relayed_of_step hs with ⟨rid, act, rfl, hs⟩ | ⟨_, hrelays, hlocks⟩
  · obtain ⟨⟨shared, relay⟩, hr, rfl⟩ := Option.map_eq_some_iff.mp hs
    have hold : Exclusive s.relays (Relay.Shared.mk s.world.db s.broker s.locks).locks := h
    exact hold.step hr
  · rw [hrelays, hlocks]
    exact h

/-- Each relay's account of its batch, in terms of what a run has acknowledged. -/
theorem covered_step {Known Known' : OutboxRow → Prop} (h : ∀ rid, Covered Known (s.relays rid))
    (hs : Step site s a t) (hk : ∀ r, Known r → Known' r) (hack : ∀ r, Acknowledges r s a → Known' r) :
    ∀ rid, Covered Known' (t.relays rid) := by
  intro i
  rcases relayed_of_step hs with ⟨rid, act, rfl, hs⟩ | ⟨_, hrelays, _⟩
  · obtain ⟨⟨shared, relay⟩, hr, rfl⟩ := Option.map_eq_some_iff.mp hs
    by_cases hi : i = rid
    · simp only [hi, if_true]
      exact (h rid).step hr hk fun idx k row he hidx => hack row ⟨rid, idx, k, he ▸ rfl, hidx⟩
    · simp only [hi, if_false]
      exact (h i).mono hk
  · rw [hrelays]
    exact (h i).mono hk

/-- What a run has established of the rows it enqueued. -/
structure Relayed (site : Deployment) (as : List Action) (s : Sys) : Prop where
  exclusive : Exclusive s.relays s.locks
  covered : ∀ rid, Covered (Acknowledged site as s) (s.relays rid)
  kept : ∀ r, r ∈ s.db.sent → r ∈ s.db.outbox ∨ Acknowledged site as s r

theorem relayed_initial : Relayed site [] initial :=
  ⟨exclusive_initial, fun _ => covered_closed rfl, fun _ hr => nomatch hr⟩

/-- The rows a commit deletes have been acknowledged: ids are distinct. -/
theorem acknowledged_of_deleted {as : List Action} {rid : Nat} {rows : List OutboxRow} {row : OutboxRow}
    (h : Relayed site as s) (ht : Transport site s) (hbatch : (s.relays rid).batch = some rows)
    (hproduce : (s.relays rid).toProduce = []) (hqueue : (s.relays rid).queue = [])
    (hfail : (s.relays rid).failures = 0) (hrow : row ∈ s.db.outbox)
    (hgone : row ∉ (Relay.deleteOutbox s.db (rows.map OutboxRow.id)).outbox) : Acknowledged site as s row := by
  have hid : row.id ∈ rows.map OutboxRow.id := by
    by_contra hid
    exact hgone (List.mem_filter.mpr ⟨hrow, decide_eq_true hid⟩)
  obtain ⟨row', hrow', hid⟩ := List.mem_map.mp hid
  have hsent : row' ∈ s.db.sent := (((ht.working rid).batch rows hbatch) row' hrow').1
  have heq : row' = row := ht.delivers.distinct row' row hsent (ht.delivers.enqueued row hrow) hid
  exact heq ▸ (h.covered rid).settled hbatch hproduce hqueue hfail row' hrow'

theorem relayed_step {as : List Action} (h : Relayed site as s) (ht : Transport site s)
    (hrun : FreeRun site initial as s) (hs : Step site s a t) : Relayed site (as ++ [a]) t := by
  have hkeep : ∀ r, Acknowledged site as s r → Acknowledged site (as ++ [a]) t r :=
    fun r hr => hr.snoc trivial hs
  refine ⟨exclusive_step h.exclusive hs, covered_step h.covered hs hkeep fun r hr => .last hrun hr hs, ?_⟩
  intro r hr
  rcases outbox_of_step hs with happ | ⟨rid, rows, _, hbatch, hproduce, hqueue, hfail, hdb⟩
  · rcases happ.sent r hr with hold | hout
    · exact (h.kept r hold).imp (happ.outbox r) (hkeep r)
    · exact Or.inl hout
  · rw [hdb] at hr ⊢
    rcases h.kept r hr with hout | hack
    · by_cases hgone : r ∈ (Relay.deleteOutbox s.db (rows.map OutboxRow.id)).outbox
      · exact Or.inl hgone
      · exact Or.inr (hkeep r (acknowledged_of_deleted h ht hbatch hproduce hqueue hfail hout hgone))
    · exact Or.inr (hkeep r hack)

theorem relayed_run {as : List Action} (h : FreeRun site initial as s) : Relayed site as s := by
  induction h with
  | nil => exact relayed_initial
  | snoc hrun _ hs ih => exact relayed_step ih (transport_run hrun) hrun hs

/-- A row stays in the outbox until the broker has acknowledged a message made from it,
whatever the relays meet, and no two of them have it in hand at once. -/
theorem row_kept_until_acknowledged {as : List Action} (h : FreeRun site initial as s) :
    (∀ a t r, Step site s a t → r ∈ s.db.outbox → r ∉ t.db.outbox →
      ∃ rid, a = .relay rid .finish ∧ (s.relays rid).commits .finish = true ∧ Acknowledged site as s r) ∧
    (∀ rid act t, Step site s (.relay rid act) t → (s.relays rid).commits act = false →
      t.db.outbox = s.db.outbox) ∧
    (∀ rid rid' rows rows', rid ≠ rid' → (s.relays rid).batch = some rows →
      (s.relays rid').batch = some rows' → ∀ r, r ∈ rows → r ∉ rows') ∧
    ∀ r, r ∈ s.db.sent → r ∈ s.db.outbox ∨ Acknowledged site as s r := by
  have hrelayed := relayed_run h
  refine ⟨?_, fun rid act t => outbox_of_uncommitted, ?_, hrelayed.kept⟩
  · intro a t r hs hr hgone
    rcases outbox_of_step hs with happ | ⟨rid, rows, rfl, hbatch, hproduce, hqueue, hfail, hdb⟩
    · exact absurd (happ.outbox r hr) hgone
    · rw [hdb] at hgone
      exact ⟨rid, rfl, by simp [Relay.commits, hqueue, hfail],
        acknowledged_of_deleted hrelayed (transport_run h) hbatch hproduce hqueue hfail hr hgone⟩
  · intro rid rid' rows rows' hne hbatch hbatch' r hr hr'
    exact hrelayed.exclusive.disjoint rid rid' rows rows' hne hbatch hbatch' r r hr hr' rfl

/-- A call hears of a failed delivery, a second relay finds the row locked, and the next
call of the first has it acknowledged. -/
def retriedDelivery : List Action :=
  [.spawn 0 (.orphanScan ["a.pdf"])] ++ Schedule.turns 0 3 ++
    [.relay 0 (.claim 50), .relay 1 (.claim 50), .relay 0 .produce, .relay 0 (.fail 0), .relay 0 .finish] ++
    Schedule.publish 1

theorem retried_row_acknowledged :
    ∃ s r, FreeRun oneInvoice initial retriedDelivery s ∧ s.db.outbox = [] ∧ r ∈ s.db.sent ∧
      Acknowledged oneInvoice retriedDelivery s r := by
  obtain ⟨s, hrun, hs⟩ := exists_freeRun oneInvoice retriedDelivery
    (fun s => s.db.outbox.isEmpty && !s.db.sent.isEmpty) (by decide +kernel)
  rw [Bool.and_eq_true, List.isEmpty_iff] at hs
  obtain ⟨hout, hsent⟩ := hs
  obtain ⟨r, hr⟩ := List.exists_mem_of_ne_nil s.db.sent (by simpa using hsent)
  have hkept := (row_kept_until_acknowledged hrun).2.2.2 r hr
  rw [hout] at hkept
  exact ⟨s, r, hrun, hout, hr, hkept.resolve_left fun hmem => nomatch hmem⟩

end DocPipeline.Audit

import DocPipeline.Core.Outbox

/-!
# The batch of an open relay call

While its call is open, every row of a batch is still to be produced, is in the producer's
queue under the number of this call, has reported an error to it, or is known to be with
the broker. Two open batches never share a row: a claim skips the locked ids, and a call
frees only its own.
-/
namespace DocPipeline

set_option autoImplicit false

variable {site : Deployment} {shared shared' : Relay.Shared} {relay relay' : Relay} {act : Relay.Act}

/-! ## What a call knows of its rows -/

/-- Where the rows of an open batch are. -/
def Covered (Known : OutboxRow → Prop) (relay : Relay) : Prop :=
  ∀ rows, relay.batch = some rows → ∀ r, r ∈ rows →
    r ∈ relay.toProduce ∨ (relay.call, r) ∈ relay.queue ∨ 0 < relay.failures ∨ Known r

variable {Known Known' : OutboxRow → Prop}

theorem covered_closed (h : relay.batch = none) : Covered Known relay := by
  intro rows hrows
  rw [h] at hrows
  cases hrows

theorem Covered.mono (h : Covered Known relay) (hk : ∀ r, Known r → Known' r) : Covered Known' relay :=
  fun rows hrows r hr => (h rows hrows r hr).imp id (Or.imp id (Or.imp id (hk r)))

/-- Taking a message off the queue loses its row only if the call hears of an error. -/
theorem Covered.eraseIdx {idx k failures : Nat} {row : OutboxRow} (h : Covered Known relay)
    (hidx : relay.queue[idx]? = some (k, row)) (hk : ∀ r, Known r → Known' r)
    (hrow : k = relay.call → 0 < failures ∨ Known' row) (hfail : relay.failures ≤ failures) :
    Covered Known' { relay with queue := relay.queue.eraseIdx idx, failures := failures } := by
  intro rows hrows r hr
  rcases h rows hrows r hr with hp | hq | hf | hknown
  · exact Or.inl hp
  · by_cases heq : (relay.call, r) = (k, row)
    · obtain ⟨hcall, rfl⟩ := Prod.mk.inj heq
      exact Or.inr (Or.inr (hrow hcall.symm))
    · obtain ⟨i, hi⟩ := List.mem_iff_getElem?.mp hq
      have hne : i ≠ idx := by
        intro he
        rw [he, hidx] at hi
        exact heq (Option.some.inj hi).symm
      exact Or.inr (Or.inl (List.mem_eraseIdx_iff_getElem?.mpr ⟨i, hne, hi⟩))
  · exact Or.inr (Or.inr (Or.inl (Nat.lt_of_lt_of_le hf hfail)))
  · exact Or.inr (Or.inr (Or.inr (hk r hknown)))

/-- A step keeps its call's account of the batch, if an acknowledged row becomes known. -/
theorem Covered.step (h : Covered Known relay) (hs : Relay.step site shared relay act = some (shared', relay'))
    (hk : ∀ r, Known r → Known' r)
    (hack : ∀ idx k row, act = .store idx true → relay.queue[idx]? = some (k, row) → Known' row) :
    Covered Known' relay' := by
  cases act with
  | claim batchCap =>
    simp only [Relay.step] at hs
    split at hs
    · cases hs
    · split at hs
      · cases hs
        exact h.mono hk
      · cases hs
        intro rows hrows r hr
        cases hrows
        exact Or.inl hr
  | produce =>
    simp only [Relay.step] at hs
    split at hs <;> cases hs
    next row rest hrest =>
    intro rows hrows r hr
    rcases h rows hrows r hr with hp | hq | hknown
    · rw [hrest, List.mem_cons] at hp
      rcases hp with rfl | hp
      · exact Or.inr (Or.inl (List.mem_append_right _ (List.mem_singleton.mpr rfl)))
      · exact Or.inl hp
    · exact Or.inr (Or.inl (List.mem_append_left _ hq))
    · exact Or.inr (Or.inr (hknown.imp id (hk r)))
  | store idx acked =>
    simp only [Relay.step] at hs
    split at hs <;> cases hs
    next k row hidx =>
    cases acked with
    | true => exact h.eraseIdx hidx hk (fun _ => Or.inr (hack idx k row rfl hidx)) (Nat.le_refl _)
    | false =>
      simp only [Bool.false_eq_true, if_false, Relay.reportError]
      split
      · exact h.eraseIdx hidx hk (fun _ => Or.inl (Nat.succ_pos _)) (Nat.le_succ _)
      · next hcall => exact h.eraseIdx hidx hk (fun he => absurd he hcall) (Nat.le_refl _)
  | resend idx =>
    simp only [Relay.step] at hs
    split at hs <;> cases hs
    exact h.mono hk
  | fail idx =>
    simp only [Relay.step] at hs
    split at hs <;> cases hs
    next k row hidx =>
    simp only [Relay.reportError]
    split
    · exact h.eraseIdx hidx hk (fun _ => Or.inl (Nat.succ_pos _)) (Nat.le_succ _)
    · next hcall => exact h.eraseIdx hidx hk (fun he => absurd he hcall) (Nat.le_refl _)
  | finish =>
    simp only [Relay.step] at hs
    split at hs
    · split at hs <;> (cases hs; exact covered_closed rfl)
    · cases hs
  | abort | crash =>
    cases hs
    exact covered_closed rfl

/-- A call that commits knows of each of its rows. -/
theorem Covered.settled {rows : List OutboxRow} (h : Covered Known relay) (hbatch : relay.batch = some rows)
    (hproduce : relay.toProduce = []) (hqueue : relay.queue = []) (hfail : relay.failures = 0) :
    ∀ r, r ∈ rows → Known r := by
  intro r hr
  have hcase := h rows hbatch r hr
  rw [hproduce, hqueue, hfail] at hcase
  rcases hcase with hp | hq | hf | hknown
  · cases hp
  · cases hq
  · exact absurd hf (Nat.lt_irrefl 0)
  · exact hknown

/-! ## Open batches are disjoint -/

/-- The ids of an open batch are locked, and no two relays hold the same one. -/
structure Exclusive (relays : Nat → Relay) (locks : List Nat) : Prop where
  locked : ∀ rid rows, (relays rid).batch = some rows → ∀ r, r ∈ rows → r.id ∈ locks
  disjoint : ∀ rid rid' rows rows', rid ≠ rid' → (relays rid).batch = some rows →
    (relays rid').batch = some rows' → ∀ r r', r ∈ rows → r' ∈ rows' → r.id ≠ r'.id

theorem exclusive_initial : Exclusive (fun _ => {}) [] :=
  ⟨fun _ _ h => (nomatch h), fun _ _ _ _ _ h => (nomatch h)⟩

theorem Relay.mem_batchIds {id : Nat} :
    id ∈ relay.batchIds ↔ ∃ rows, relay.batch = some rows ∧ ∃ r, r ∈ rows ∧ r.id = id := by
  unfold Relay.batchIds
  cases relay.batch with
  | none => simp
  | some rows => simp

theorem Relay.not_locked_of_claimed {db : Db} {locks : List Nat} {batchCap : Nat} {r : OutboxRow}
    (h : r ∈ claimOutboxBatch db locks batchCap) : r.id ∉ locks :=
  of_decide_eq_true (List.mem_filter.mp (List.mem_of_mem_take h)).2

theorem Exclusive.step {relays : Nat → Relay} {rid : Nat} (h : Exclusive relays shared.locks)
    (hs : Relay.step site shared (relays rid) act = some (shared', relay')) :
    Exclusive (fun i => if i = rid then relay' else relays i) shared'.locks := by
  -- what the relays other than `rid` hold does not change
  have hown : ∀ {i rows}, (if i = rid then relay' else relays i).batch = some rows →
      (i = rid ∧ relay'.batch = some rows) ∨ (i ≠ rid ∧ (relays i).batch = some rows) := by
    intro i rows hb
    by_cases hi : i = rid
    · rw [if_pos hi] at hb
      exact Or.inl ⟨hi, hb⟩
    · rw [if_neg hi] at hb
      exact Or.inr ⟨hi, hb⟩
  rcases Relay.step_cases hs with ⟨hbatch, hlocks, _⟩ | ⟨batchCap, _, hbatch, hlocks, _⟩ | ⟨hbatch, hlocks, _⟩
  · have hsame : ∀ {i rows}, (if i = rid then relay' else relays i).batch = some rows →
        (relays i).batch = some rows := by
      intro i rows hb
      rcases hown hb with ⟨hi, hb⟩ | ⟨_, hb⟩
      · rw [hbatch] at hb
        rw [hi]
        exact hb
      · exact hb
    rw [hlocks]
    exact ⟨fun i rows hb => h.locked i rows (hsame hb),
      fun i j rows rows' hne hb hb' => h.disjoint i j rows rows' hne (hsame hb) (hsame hb')⟩
  · rw [hlocks]
    constructor
    · intro i rows hb r hr
      rcases hown hb with ⟨_, hb⟩ | ⟨_, hb⟩
      · rw [hbatch] at hb
        cases hb
        exact List.mem_append_right _ (List.mem_map_of_mem hr)
      · exact List.mem_append_left _ (h.locked i rows hb r hr)
    · intro i j rows rows' hne hb hb' r r' hr hr' hid
      rcases hown hb with ⟨hi, hb⟩ | ⟨_, hb⟩ <;> rcases hown hb' with ⟨hj, hb'⟩ | ⟨_, hb'⟩
      · exact hne (hi.trans hj.symm)
      · rw [hbatch] at hb
        cases hb
        exact Relay.not_locked_of_claimed hr (hid ▸ h.locked j rows' hb' r' hr')
      · rw [hbatch] at hb'
        cases hb'
        exact Relay.not_locked_of_claimed hr' (hid ▸ h.locked i rows hb r hr)
      · exact h.disjoint i j rows rows' hne hb hb' r r' hr hr' hid
  · have hopen : ∀ {i rows}, (if i = rid then relay' else relays i).batch = some rows →
        i ≠ rid ∧ (relays i).batch = some rows := by
      intro i rows hb
      rcases hown hb with ⟨_, hb⟩ | hb
      · rw [hbatch] at hb
        cases hb
      · exact hb
    constructor
    · intro i rows hb r hr
      obtain ⟨hi, hb⟩ := hopen hb
      have hkept : r.id ∉ (relays rid).batchIds := by
        intro hmem
        obtain ⟨rows', hb', r', hr', hid⟩ := Relay.mem_batchIds.mp hmem
        exact h.disjoint rid i rows' rows (Ne.symm hi) hb' hb r' r hr' hr hid
      rw [hlocks]
      exact List.mem_filter.mpr ⟨h.locked i rows hb r hr, decide_eq_true hkept⟩
    · intro i j rows rows' hne hb hb'
      exact h.disjoint i j rows rows' hne (hopen hb).2 (hopen hb').2

end DocPipeline

import DocPipeline.Audit.Attempts
import DocPipeline.Audit.Record
import DocPipeline.Effects.Funnel

/-!
# How soon and how often does the sweeper take a document?

Every statement that writes a state stamps it with the start of its transaction, the claim of
a sweep and the opening of an extraction included. A transaction that began long ago stamps
into the past, so what follows needs a bound on how old a transaction gets before it writes.
With one, no sweep selects a document before the threshold of its stage, less that bound,
has passed since anything last happened to it, and a threshold that is derived from the
extraction budget never meets a run that ends within the budget less the bound.
The counters only go up, so the attempt caps bound what sweeps take back over the whole
life of a document: no operator's re-drive starts them again.
-/
namespace DocPipeline.Audit

set_option autoImplicit false

open Lib Lib.Transaction Sys Gather

variable {site : Deployment} {s t m : Sys} {a : Action} {d : DocId} {row : Document} {lag : Nat}

/-- The step is the claim of a sweep, and the document is among the rows it selects. -/
def claims (site : Deployment) (d : DocId) (s : Sys) : Action → Bool
  | .run tid _ =>
    match s.tasks tid with
    | some (.sweep (.claiming cap locked)) => decide (d ∈ (Sweeper.claimStuckBatch site s.db cap locked).map Prod.fst)
    | _ => false
  | _ => false

/-- How long a state of the stage may last. -/
def stuckThreshold (site : Deployment) (state : DocState) : Nat :=
  if state.isText then site.stuckThresholdSeconds else site.extractStuckThresholdSeconds

theorem stuckThreshold_lt {now : Nat} (h : Sweeper.stuck site now row = true) :
    row.stateUpdatedAt + stuckThreshold site row.state < now := by
  rcases stuck_iff.mp h with ⟨hstate | hstate, hlate⟩ | ⟨hstate | hstate, hlate⟩ <;>
  · rw [stuckThreshold, hstate]
    exact hlate

/-- What a claim selects is stuck. -/
theorem claims_stuck (h : claims site d s a = true) :
    ∃ tid input cap locked row, a = .run tid input ∧ s.tasks tid = some (.sweep (.claiming cap locked)) ∧
      s.document d = some row ∧ (d, row) ∈ Sweeper.claimStuckBatch site s.db cap locked ∧
      Sweeper.stuck site s.db.now row = true := by
  unfold claims at h
  split at h
  · next tid input =>
    split at h
    · next cap locked htask =>
      obtain ⟨⟨_, row⟩, hr, rfl⟩ := List.mem_map.mp (of_decide_eq_true h)
      have hsorted := List.mem_of_mem_take hr
      rw [List.mem_insertionSort, List.mem_filter, Bool.and_eq_true] at hsorted
      exact ⟨tid, input, cap, locked, row, rfl, htask, (Sweeper.claimStuckBatch_current _ hr).1, hr, hsorted.2.1⟩
    · cases h
  · cases h

/-- A claim goes through, and leaves of the document what a sweep makes of it. -/
theorem claims_swept (h : claims site d s a = true) (hs : Step site s a t) :
    ∃ row, s.document d = some row ∧ t.document d = some (Sweeper.swept site row s.db.now) ∧
      row.state.inFlight = true := by
  obtain ⟨tid, input, cap, locked, row, rfl, htask, hrow, hr, hstuck⟩ := claims_stuck h
  obtain ⟨task, r, htask', hr', rfl⟩ := runTask_eq hs
  obtain rfl := Option.some.inj (htask.symm.trans htask')
  cases hr'
  have hrows : ∀ r, r ∈ Sweeper.claimStuckBatch site s.db cap locked → s.db.documents.lookup r.1 = some r.2 :=
    fun r hr => (Sweeper.claimStuckBatch_current r hr).1
  obtain ⟨db', hc, hswept⟩ := Sweeper.claimRows_succeeds site hrows Sweeper.claimStuckBatch_nodup
  have hbatch : Commits (Sweeper.claimBatch site cap locked) s.db
      ((Sweeper.claimStuckBatch site s.db cap locked).filter fun r => !Sweeper.capped site r.2) db' := by
    simp only [Sweeper.claimBatch, commits_bind, commits_get]
    exact ⟨s.db, s.db, ⟨rfl, rfl⟩, hc⟩
  refine ⟨row, hrow, ?_, Sweeper.stuck_inFlight hstuck⟩
  simp only [Sys.document, Sweeper.step, World.transact_of_commits _ _ hbatch]
  exact hswept _ hr

/-! ## How soon -/

/-- The transaction of a handler's step began at most `lag` seconds ago. -/
def Prompt (lag : Nat) (s : Sys) (a : Action) : Prop := ∀ tid input, a = .run tid input → s.clock ≤ s.db.now + lag

def prompt (lag : Nat) (s : Sys) : Action → Bool
  | .run _ _ => decide (s.clock ≤ s.db.now + lag)
  | _ => true

theorem prompt_iff : prompt lag s a = true ↔ Prompt lag s a := by
  unfold prompt Prompt
  cases a with
  | run tid input => exact ⟨fun h _ _ _ => of_decide_eq_true h, fun h => decide_eq_true (h tid input rfl)⟩
  | tick | spawn | receive | crash | relay | sink =>
    refine ⟨fun _ tid input he => ?_, fun _ => rfl⟩
    cases he

/-- The time goes on, and no transaction begins in the future. -/
theorem clock_of_step (hs : Step site s a t) : s.clock ≤ t.clock ∧ (s.db.now ≤ s.clock → t.db.now ≤ t.clock) := by
  have hstart : ∀ {tid : Nat} {task : Task}, s.startTask tid task = some t →
      s.clock ≤ t.clock ∧ (s.db.now ≤ s.clock → t.db.now ≤ t.clock) := by
    intro tid task h
    unfold startTask at h
    split at h <;> cases h
    exact ⟨Nat.le_refl _, id⟩
  cases a with
  | tick seconds age =>
    cases hs
    exact ⟨Nat.le_add_right _ _, fun _ => Nat.sub_le _ _⟩
  | spawn tid job => exact hstart hs
  | receive tid topic partition offset =>
    obtain ⟨_, _, h⟩ := Option.bind_eq_some_iff.mp hs
    exact hstart h
  | crash tid =>
    cases hs
    exact ⟨Nat.le_refl _, id⟩
  | run tid input =>
    obtain ⟨_, r, _, hr, rfl⟩ := runTask_eq hs
    exact ⟨Nat.le_refl _, fun h => (Task.step_lasts hr).now.le.trans h⟩
  | relay rid act =>
    obtain ⟨r, hr, rfl⟩ := Option.map_eq_some_iff.mp hs
    refine ⟨Nat.le_refl _, fun h => ?_⟩
    rcases Relay.step_cases hr with ⟨_, _, hdb⟩ | ⟨_, _, _, _, hdb⟩ | ⟨_, _, hdb | ⟨_, _, _, _, _, _, hdb⟩⟩ <;>
      exact hdb ▸ h
  | sink partition act =>
    have hclock : t.clock = s.clock := by
      obtain ⟨_, _, rfl⟩ := Option.map_eq_some_iff.mp hs
      rfl
    refine ⟨hclock.ge, fun h => ?_⟩
    rw [hclock]
    rcases sink_posts hs with hdb | ⟨_, _, _, _, _, hdb⟩ <;> exact hdb ▸ h

theorem now_le_clock {as : List Action} (h : FreeRun site initial as s) : s.db.now ≤ s.clock :=
  h.invariant (P := fun s => s.db.now ≤ s.clock) (Nat.le_refl 0) fun _ _ _ hi _ hs => (clock_of_step hs).2 hi

/-- A step stamps a row it writes with a time that is not too old, or leaves its stamp and its state. -/
theorem stamped_of_step (hprompt : Prompt lag s a) (hs : Step site s a t) (hrow : t.document d = some row) :
    s.clock ≤ row.stateUpdatedAt + lag ∨ ∃ old, s.document d = some old ∧
      old.stateUpdatedAt = row.stateUpdatedAt ∧ old.state = row.state := by
  have hkept : t.db.documents = s.db.documents → s.document d = some row := fun he => by
    rw [Sys.document, ← he]
    exact hrow
  cases step_kind hs with
  | idle => exact Or.inr ⟨row, hrow, rfl, rfl⟩
  | relayed hrelay => exact Or.inr ⟨row, hkept (relay_keeps hrelay).1.documents, rfl, rfl⟩
  | sunk hsink =>
    refine Or.inr ⟨row, hkept ?_, rfl, rfl⟩
    rcases sink_posts hsink with hdb | ⟨_, _, _, _, _, hdb⟩ <;> rw [hdb]
  | @ran tid input _ _ htask hr =>
    have hlasts := Task.step_lasts hr
    have hlag := hprompt tid input rfl
    cases hold : s.document d with
    | none => exact Or.inl (hlasts.fresh d row hold hrow ▸ hlag)
    | some old =>
      obtain ⟨row', hrow', hout⟩ := hlasts.rows d old hold
      obtain rfl := Option.some.inj (hrow.symm.trans hrow')
      rcases hout.stamped with hnow | hsame
      · exact Or.inl (hnow ▸ hlag)
      · exact Or.inr ⟨old, rfl, hsame.1.symm, hsame.2.symm⟩

/-- A step that changes the state of the document, opens an extraction of it, or claims it. -/
inductive Touches (site : Deployment) (d : DocId) (s : Sys) (a : Action) (t : Sys) : Prop
  | moved : (t.document d).map Document.state ≠ (s.document d).map Document.state → Touches site d s a t
  | opened {tid : Nat} : s.tasks tid = some (.extraction d .opening) → t.tasks tid = some (.extraction d .selecting) →
      Touches site d s a t
  | claimed : claims site d s a = true → Touches site d s a t

theorem swept_time (site : Deployment) (row : Document) (now : Nat) : (Sweeper.swept site row now).stateUpdatedAt = now := by
  unfold Sweeper.swept
  split <;> rfl

/-- Whatever touches a document stamps it. -/
theorem Touches.stamps (h : Touches site d s a t) (hprompt : Prompt lag s a) (hs : Step site s a t) :
    ∃ row, t.document d = some row ∧ s.clock ≤ row.stateUpdatedAt + lag := by
  cases h with
  | claimed hclaim =>
    obtain ⟨tid, input, _, _, _, rfl, _⟩ := claims_stuck hclaim
    obtain ⟨row, _, hswept, _⟩ := claims_swept hclaim hs
    exact ⟨_, hswept, (swept_time site row s.db.now).symm ▸ hprompt tid input rfl⟩
  | @opened tid hbefore hafter =>
    rcases extraction_of_step hs hafter with hsame | hpc | ⟨input, pc', rfl, hat, hgoto⟩
    · rw [hbefore] at hsame
      cases hsame
    · cases hpc
    · obtain rfl : Extraction.Pc.opening = pc' := by
        rw [hbefore] at hat
        cases hat
        rfl
      obtain ⟨task, r, htask, hr, rfl⟩ := runTask_eq hs
      obtain rfl := Option.some.inj (hbefore.symm.trans htask)
      cases hr
      obtain ⟨row, _, _, hdb⟩ := Extraction.opening_goto hgoto
      refine ⟨row.moved .extractRunning s.db.now, ?_, hprompt tid input rfl⟩
      change ((Extraction.step site d input.verdict s.world .opening).1.db).documents.lookup d = _
      rw [hdb]
      exact Db.write_lookup_self ..
  | moved hne =>
    cases hrow : t.document d with
    | some row =>
      refine ⟨row, rfl, (stamped_of_step hprompt hs hrow).resolve_right ?_⟩
      rintro ⟨old, hold, _, hstate⟩
      refine hne ?_
      rw [hrow, hold, Option.map_some, Option.map_some, hstate]
    | none =>
      refine absurd ?_ hne
      cases hold : s.document d with
      | none => rw [hrow]
      | some old =>
        obtain ⟨row, hrow'⟩ := document_stays hs hold
        cases hrow.symm.trans hrow'

/-- The stamp of a touch is the earliest that any later state has. -/
theorem stamp_of_touch {as bs : List Action} (hbefore : FreeRun site initial as s) (hprompt : Prompt lag s a)
    (hs : Step site s a m) (htouch : Touches site d s a m) (hafter : GuardedRun site (Prompt lag) m bs t)
    (hrow : t.document d = some row) : s.clock ≤ row.stateUpdatedAt + lag ∧ t.db.now ≤ t.clock := by
  have hstamped := htouch.stamps hprompt hs
  have hall : s.clock ≤ t.clock ∧ t.db.now ≤ t.clock ∧
      ∃ row, t.document d = some row ∧ s.clock ≤ row.stateUpdatedAt + lag := by
    refine hafter.invariant (P := fun t => s.clock ≤ t.clock ∧ t.db.now ≤ t.clock ∧
      ∃ row, t.document d = some row ∧ s.clock ≤ row.stateUpdatedAt + lag)
      ⟨(clock_of_step hs).1, (clock_of_step hs).2 (now_le_clock hbefore), hstamped⟩ fun m a t hi hprompt hs => ?_
    obtain ⟨hle, hnow, row, hrow, hstamp⟩ := hi
    obtain ⟨hgoes, hnow'⟩ := clock_of_step hs
    obtain ⟨row', hrow'⟩ := document_stays hs hrow
    refine ⟨hle.trans hgoes, hnow' hnow, row', hrow', ?_⟩
    rcases stamped_of_step hprompt hs hrow' with hlater | ⟨old, hold, htime, _⟩
    · exact hle.trans hlater
    · obtain rfl := Option.some.inj (hrow.symm.trans hold)
      exact htime ▸ hstamp
  obtain ⟨_, hnow, row', hrow', hstamp⟩ := hall
  obtain rfl := Option.some.inj (hrow.symm.trans hrow')
  exact ⟨hstamp, hnow⟩

/-- As long as no transaction is older than `lag` when it writes, no sweep selects a document
until more than the threshold of its stage, less the lag, has passed since its state was last
changed, an extraction of it opened or a sweep claimed it. -/
theorem claimed_after_threshold {as bs : List Action} {b : Action} (hbefore : FreeRun site initial as s)
    (hprompt : Prompt lag s a) (hs : Step site s a m) (htouch : Touches site d s a m)
    (hafter : GuardedRun site (Prompt lag) m bs t) (hclaim : claims site d t b = true) :
    ∃ row, t.document d = some row ∧ s.clock + stuckThreshold site row.state < t.clock + lag := by
  obtain ⟨_, _, _, _, row, _, _, hrow, _, hstuck⟩ := claims_stuck hclaim
  obtain ⟨hstamp, hnow⟩ := stamp_of_touch hbefore hprompt hs htouch hafter hrow
  have hlate := stuckThreshold_lt hstuck
  exact ⟨row, hrow, by omega⟩

/-- A worker has received the message, and opens the document next. -/
def extractorReady : List Action :=
  Schedule.intake ["a.pdf"] ++ Schedule.textLayer 0 ++ [.receive 1 .ocrCompleted 0 0]

/-- The opening is in a transaction of five seconds ago, and a sweep comes 26 seconds later. -/
theorem swept_after_wait :
    ∃ s m t, FreeRun oneInvoice initial (extractorReady ++ [.tick 5 5]) s ∧ Step oneInvoice s (.run 1 {}) m ∧
      GuardedRun oneInvoice (Prompt 5) m [.tick 26 0, .spawn 2 (.sweep 50 [])] t ∧
      claims oneInvoice "crc32c-a" t (.run 2 {}) = true ∧
      ∃ row, t.document "crc32c-a" = some row ∧ s.clock + stuckThreshold oneInvoice row.state < t.clock + 5 := by
  have hruns : ((exec oneInvoice initial (extractorReady ++ [.tick 5 5])).any fun s => prompt 5 s (.run 1 {}) &&
      (s.step oneInvoice (.run 1 {})).any fun m =>
        decide ((m.document "crc32c-a").map Document.state ≠ (s.document "crc32c-a").map Document.state) &&
          (execWhile (step oneInvoice) (prompt 5) m [.tick 26 0, .spawn 2 (.sweep 50 [])]).any fun t =>
            claims oneInvoice "crc32c-a" t (.run 2 {})) = true := by decide +kernel
  obtain ⟨s, hs, hrest⟩ := (Option.any_eq_true ..).mp hruns
  obtain ⟨hprompt, hrest⟩ := (Bool.and_eq_true _ _).mp hrest
  obtain ⟨m, hm, hrest⟩ := (Option.any_eq_true ..).mp hrest
  obtain ⟨hmoved, hrest⟩ := (Bool.and_eq_true _ _).mp hrest
  obtain ⟨t, ht, hclaim⟩ := (Option.any_eq_true ..).mp hrest
  have hafter := (run_of_execWhile ht).mono fun _ _ h => prompt_iff.mp h
  exact ⟨s, m, t, freeRun_of_exec hs, hm, hafter, hclaim,
    claimed_after_threshold (freeRun_of_exec hs) (prompt_iff.mp hprompt) hm (.moved (of_decide_eq_true hmoved)) hafter
      hclaim⟩

/-- With a real model, the threshold leaves every run its budget: while the calls of its funnel
and a margin that covers the lag may still be running, no sweep selects its document out of an
extraction state. -/
theorem working_run_not_claimed (config : GateConfig) (timeout : Nat) (ledger : Tier → Db) (source : Funnel.Source)
    (attemptNo : Nat) (replies : Tier → Nat → Funnel.Reply) {tid : Nat} {as bs : List Action} {b : Action}
    (hreal : site.extractStuckThresholdSeconds = Funnel.extractStuckThresholdSeconds config timeout)
    (hbefore : FreeRun site initial as s) (hprompt : Prompt lag s a) (hs : Step site s a m)
    (hopening : s.tasks tid = some (.extraction d .opening)) (hopened : m.tasks tid = some (.extraction d .selecting))
    (hafter : GuardedRun site (Prompt lag) m bs t)
    (helapsed : t.clock + lag ≤ s.clock +
      (Funnel.callsMade config ledger source attemptNo replies).length * timeout + Funnel.budgetMarginSeconds)
    (hrow : t.document d = some row) (hstate : row.state.isText = false) : claims site d t b = false := by
  by_contra hclaim
  obtain ⟨row', hrow', hlate⟩ := claimed_after_threshold hbefore hprompt hs (.opened hopening hopened) hafter
    (Bool.not_eq_false _ ▸ hclaim)
  obtain rfl := Option.some.inj (hrow.symm.trans hrow')
  have hcalls : (Funnel.callsMade config ledger source attemptNo replies).length ≤
      Funnel.extractionTierCount * (config.maxRepairAttempts + 1) := by
    simpa [Funnel.callsMade, Funnel.tiers, Funnel.extractionTierCount] using
      Funnel.tiersCalls_length_le Funnel.tiers { gateResults := Funnel.layoutCacheMiss }
  have htime := Nat.mul_le_mul_right timeout hcalls
  rw [stuckThreshold, hstate, hreal, Funnel.extractStuckThresholdSeconds, Funnel.extractionBudgetSeconds] at hlate
  simp only [Bool.false_eq_true, if_false] at hlate
  omega

/-- One invoice, before models that may take 200 seconds a call. -/
def slowModels : Deployment :=
  { oneInvoice with extractStuckThresholdSeconds := Funnel.extractStuckThresholdSeconds .defaults 200 }

/-- No call is answered in time. -/
def neverInTime (_ : Tier) (_ : Nat) : Funnel.Reply := .error .transient "timed out"

def atOpening : Task → Bool
  | .extraction docId .opening => decide (docId = "crc32c-a")
  | _ => false

def atSelecting : Task → Bool
  | .extraction docId .selecting => decide (docId = "crc32c-a")
  | _ => false

theorem eq_of_atOpening {task : Task} (h : atOpening task = true) : task = .extraction "crc32c-a" .opening := by
  unfold atOpening at h
  split at h
  · rw [of_decide_eq_true h]
  · cases h

theorem eq_of_atSelecting {task : Task} (h : atSelecting task = true) : task = .extraction "crc32c-a" .selecting := by
  unfold atSelecting at h
  split at h
  · rw [of_decide_eq_true h]
  · cases h

/-- Six calls that time out and what is left of the margin take 1490 seconds, which is not too long. -/
theorem slow_run_left_alone :
    ∃ s m t row, FreeRun slowModels initial extractorReady s ∧ Step slowModels s (.run 1 {}) m ∧
      GuardedRun slowModels (Prompt 10) m [.tick 1490 0, .spawn 2 (.sweep 50 [])] t ∧
      t.document "crc32c-a" = some row ∧ row.state = .extractRunning ∧
      claims slowModels "crc32c-a" t (.run 2 {}) = false := by
  have hruns : ((exec slowModels initial extractorReady).any fun s => prompt 10 s (.run 1 {}) &&
      (s.tasks 1).any atOpening && (s.step slowModels (.run 1 {})).any fun m => (m.tasks 1).any atSelecting &&
        (execWhile (step slowModels) (prompt 10) m [.tick 1490 0, .spawn 2 (.sweep 50 [])]).any fun t =>
          decide (t.clock + 10 ≤ s.clock + 1500) &&
            (t.document "crc32c-a").any fun row => decide (row.state = .extractRunning)) = true := by decide +kernel
  obtain ⟨s, hs, hrest⟩ := (Option.any_eq_true ..).mp hruns
  obtain ⟨hfirst, hrest⟩ := (Bool.and_eq_true _ _).mp hrest
  obtain ⟨hprompt, hopening⟩ := (Bool.and_eq_true _ _).mp hfirst
  obtain ⟨m, hm, hrest⟩ := (Option.any_eq_true ..).mp hrest
  obtain ⟨hopened, hrest⟩ := (Bool.and_eq_true _ _).mp hrest
  obtain ⟨t, ht, hrest⟩ := (Option.any_eq_true ..).mp hrest
  obtain ⟨htime, hrest⟩ := (Bool.and_eq_true _ _).mp hrest
  obtain ⟨row, hrow, hstate⟩ := (Option.any_eq_true ..).mp hrest
  obtain ⟨first, hfirst, hat⟩ := (Option.any_eq_true ..).mp hopening
  obtain ⟨next, hnext, hat'⟩ := (Option.any_eq_true ..).mp hopened
  have hrunning := of_decide_eq_true hstate
  have hafter := (run_of_execWhile ht).mono fun _ _ h => prompt_iff.mp h
  have hcalls : (Funnel.callsMade .defaults (fun _ => {}) ⟨"crc32c-a", .invoice, ""⟩ 1 neverInTime).length = 6 := by
    decide +kernel
  refine ⟨s, m, t, row, freeRun_of_exec hs, hm, hafter, hrow, hrunning,
    working_run_not_claimed .defaults 200 (fun _ => {}) ⟨"crc32c-a", .invoice, ""⟩ 1 neverInTime rfl (freeRun_of_exec hs)
      (prompt_iff.mp hprompt) hm (eq_of_atOpening hat ▸ hfirst) (eq_of_atSelecting hat' ▸ hnext) hafter ?_ hrow ?_⟩
  · rw [hcalls]
    exact of_decide_eq_true htime
  · rw [hrunning]
    rfl

/-! ## How often -/

/-- A stage that sweeps take documents back in: where from, where to, and the counter whose cap
says how often. -/
structure Stage (site : Deployment) where
  running : DocState
  pending : DocState
  attempts : Document → Nat
  maxAttempts : Nat
  ne : running ≠ pending
  rises : ∀ {row row' : Document}, Outcome site row row' → row.state = running → row'.state = pending →
    attempts row < maxAttempts ∧ attempts row' = attempts row + 1
  lasts : ∀ {row row' : Document}, row.Outlives row' → attempts row ≤ attempts row'

def Stage.text (site : Deployment) : Stage site where
  running := .textRunning
  pending := .textPending
  attempts := Document.textAttempts
  maxAttempts := site.maxTextAttempts
  ne := by decide
  rises := by
    intro row row' h hrunning hpending
    cases h with
    | textAgain _ hlt _ hrise _ => exact ⟨hlt, hrise⟩
    | gaveUp _ hstate _ _ => cases hpending.symm.trans hstate
    | extractAgain hstate _ _ _ _ => cases hrunning.symm.trans hstate
    | kept hstate _ _ _ => rcases hstate with hs | hs <;> cases hrunning.symm.trans hs
  lasts h := h.textAttempts

def Stage.extract (site : Deployment) : Stage site where
  running := .extractRunning
  pending := .extractPending
  attempts := Document.extractAttempts
  maxAttempts := site.maxExtractAttempts
  ne := by decide
  rises := by
    intro row row' h hrunning hpending
    cases h with
    | extractAgain _ hlt _ hrise _ => exact ⟨hlt, hrise⟩
    | gaveUp _ hstate _ _ => cases hpending.symm.trans hstate
    | textAgain hstate _ _ _ _ => cases hrunning.symm.trans hstate
    | kept hstate _ _ _ => rcases hstate with hs | hs <;> cases hrunning.symm.trans hs
  lasts h := h.extractAttempts

/-- A sweep's take-back of the document in the stage. -/
def takenBack (stage : Stage site) (d : DocId) (s : Sys) (a : Action) (t : Sys) : Nat :=
  if bySweeper s a && moves d stage.running stage.pending s t then 1 else 0

/-- A sweep's step leaves a document alone, or is the claim that selects it. -/
theorem claims_of_sweeper (h : bySweeper s a = true) (hs : Step site s a t) :
    t.document d = s.document d ∨ claims site d s a = true := by
  unfold bySweeper at h
  split at h
  · next tid input =>
    split at h
    · next pc htask =>
      obtain ⟨task, r, htask', hr, rfl⟩ := runTask_eq hs
      obtain rfl := Option.some.inj (htask.symm.trans htask')
      cases pc with
      | claiming cap locked =>
        rcases marked_of_task hr rfl d with hkept | ⟨row, row', _, _, hmarked⟩
        · exact Or.inl hkept
        · cases hmarked with
          | swept hmem =>
            right
            simp only [claims, htask]
            exact decide_eq_true (List.mem_map_of_mem hmem)
      | redriving claimed =>
        left
        cases hr
        cases claimed with
        | nil => rfl
        | cons r rest =>
          simp only [Sys.document, Sweeper.step]
          rcases s.world.transact_cases (Sweeper.redriveDocument site r.1 r.2)
            (fun _ => (.goto (.redriving rest) : Next Sweeper.Pc Unit)) .raised with ⟨_, db, hc, he⟩ | ⟨_, he⟩
          · rw [he]
            exact congrArg (AList.lookup d) (Sweeper.redriveDocument_kept hc).1
          · rw [he]
    · cases h
  · cases h

theorem moves_states {before after : DocState} (h : moves d before after s t = true) :
    ∃ row row', s.document d = some row ∧ row.state = before ∧ t.document d = some row' ∧ row'.state = after := by
  rw [moves, Bool.and_eq_true, Option.any_eq_true, Option.any_eq_true] at h
  obtain ⟨⟨row, hrow, hbefore⟩, row', hrow', hafter⟩ := h
  exact ⟨row, row', hrow, of_decide_eq_true hbefore, hrow', of_decide_eq_true hafter⟩

/-- A take-back is one that the counter of the stage allowed, and counts. -/
theorem rises_of_takenBack (stage : Stage site) (h : bySweeper s a = true)
    (hmoves : moves d stage.running stage.pending s t = true) (hs : Step site s a t) :
    ∃ row row', s.document d = some row ∧ t.document d = some row' ∧ stage.attempts row < stage.maxAttempts ∧
      stage.attempts row' = stage.attempts row + 1 := by
  obtain ⟨row, row', hrow, hbefore, hrow', hafter⟩ := moves_states hmoves
  rcases claims_of_sweeper h hs with hkept | hclaim
  · rw [hkept, hrow] at hrow'
    cases hrow'
    exact absurd (hbefore.symm.trans hafter) stage.ne
  · obtain ⟨row₁, hrow₁, hswept, hflight⟩ := claims_swept hclaim hs
    obtain rfl := Option.some.inj (hrow.symm.trans hrow₁)
    obtain rfl := Option.some.inj (hrow'.symm.trans hswept)
    obtain ⟨hlt, hrise⟩ := stage.rises (outcome_swept hflight) hbefore hafter
    exact ⟨row, _, hrow, hrow', hlt, hrise⟩

/-- The take-backs of the stage are within its cap, and the counter has seen them all. -/
structure Paced (stage : Stage site) (d : DocId) (s : Sys) (n : Nat) : Prop where
  sound : Sound False site s
  within : n ≤ stage.maxAttempts
  absent : s.document d = none → n = 0
  counted : ∀ row, s.document d = some row → n ≤ stage.attempts row

theorem paced_initial (stage : Stage site) : Paced stage d initial 0 where
  sound := sound_initial False site
  within := Nat.zero_le _
  absent _ := rfl
  counted _ h := by cases h

theorem paced_step {stage : Stage site} {n : Nat} (h : Paced stage d s n) (hs : Step site s a t) :
    Paced stage d t (n + takenBack stage d s a t) := by
  have hout := outlives_step h.sound hs
  have hsound := sound_step h.sound (fun hf => hf.elim) hs
  unfold takenBack
  split
  · next hback =>
    obtain ⟨hsweeper, hmoves⟩ := (Bool.and_eq_true _ _).mp hback
    obtain ⟨row, row', hrow, hrow', hlt, hrise⟩ := rises_of_takenBack stage hsweeper hmoves hs
    have hcounted := h.counted row hrow
    refine ⟨hsound, by omega, fun hnone => ?_, fun row₁ hrow₁ => ?_⟩
    · rw [hrow'] at hnone
      cases hnone
    · obtain rfl := Option.some.inj (hrow'.symm.trans hrow₁)
      omega
  · refine ⟨hsound, h.within, fun hnone => h.absent ?_, fun row' hrow' => ?_⟩
    · cases hrow : s.document d with
      | none => rfl
      | some row =>
        obtain ⟨row', hrow', _⟩ := hout.rows d row hrow
        cases hnone.symm.trans hrow'
    · cases hrow : s.document d with
      | none =>
        rw [h.absent hrow]
        exact Nat.zero_le _
      | some row =>
        obtain ⟨row₁, hrow₁, hlasts⟩ := hout.rows d row hrow
        obtain rfl := Option.some.inj (hrow'.symm.trans hrow₁)
        exact (h.counted row hrow).trans (stage.lasts hlasts)

theorem paced_run {stage : Stage site} {as : List Action} {n : Nat}
    (h : Tally (Step site) (takenBack stage d) initial as s n) : Paced stage d s n :=
  h.invariant (paced_initial stage) fun _ _ _ _ hi hs => paced_step hi hs

/-- Over the whole life of a document, whatever operators do, sweeps take it back from
`text_running` at most `MAX_TEXT_ATTEMPTS` times and from `extract_running` at most
`MAX_EXTRACT_ATTEMPTS` times, and its counters have seen each of them. -/
theorem taken_back_within_caps {as : List Action} {text extract : Nat}
    (htext : Tally (Step site) (takenBack (.text site) d) initial as s text)
    (hextract : Tally (Step site) (takenBack (.extract site) d) initial as s extract) :
    text ≤ site.maxTextAttempts ∧ extract ≤ site.maxExtractAttempts ∧
      ∀ row, s.document d = some row → text ≤ row.textAttempts ∧ extract ≤ row.extractAttempts := by
  have ht := paced_run htext
  have he := paced_run hextract
  exact ⟨ht.within, he.within, fun row hrow => ⟨ht.counted row hrow, he.counted row hrow⟩⟩

/-- The document of a run that does not come back in time is taken back once. -/
theorem lost_run_taken_back :
    ∃ s text, Tally (Step oneInvoice) (takenBack (.text oneInvoice) "crc32c-a") initial lateWorker s text ∧
      Tally (Step oneInvoice) (takenBack (.extract oneInvoice) "crc32c-a") initial lateWorker s 1 ∧
      text ≤ 5 ∧ 1 ≤ 5 ∧
      ∀ row, s.document "crc32c-a" = some row → text ≤ row.textAttempts ∧ 1 ≤ row.extractAttempts := by
  have hruns : (lateWorker.foldlM (tallyNext (Sys.step oneInvoice) (fun _ _ => true)
      (takenBack (.extract oneInvoice) "crc32c-a")) (initial, 0)).any (fun r => decide (r.2 = 1)) = true := by
    decide +kernel
  obtain ⟨⟨s, extract⟩, hrun, hone⟩ := (Option.any_eq_true ..).mp hruns
  obtain rfl := of_decide_eq_true hone
  have hextract : Tally (Step oneInvoice) (takenBack (.extract oneInvoice) "crc32c-a") initial lateWorker s 1 :=
    (tally_of_foldlM hrun).mono fun _ _ _ h => h.2
  obtain ⟨text, htext⟩ := Tally.of_run (f := takenBack (.text oneInvoice) "crc32c-a") hextract.run
  exact ⟨s, text, htext, hextract, taken_back_within_caps htext hextract⟩

end DocPipeline.Audit

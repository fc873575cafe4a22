import DocPipeline.Audit.Pace
import DocPipeline.Audit.Posting

/-!
# How long can the sweeper pass a document over?

A sweep that passes over a document it could take is full, of documents that were stuck
longer or matter more. What it takes it stamps, no further back than transactions are old, and
so does not take again before a threshold has passed. Within a threshold, then, only so many
sweeps can pass over a document that has been stuck for long enough as the others in flight
fill.
-/
namespace DocPipeline.Audit

set_option autoImplicit false

open Lib Sys Gather

variable {site : Deployment} {s t m : Sys} {a : Action} {d e : DocId} {row : Document} {lag time : Nat}

/-- The documents in flight. -/
def inFlight (db : Db) : List DocId := (db.documents.rows.filter fun r => r.2.state.inFlight).map Prod.fst

theorem nodup_inFlight (db : Db) : (inFlight db).Nodup :=
  (Table.nodup_rows db.documents).sublist (List.filter_sublist.map _)

theorem mem_inFlight {db : Db} : d ∈ inFlight db ↔ ∃ row, db.documents.lookup d = some row ∧ row.state.inFlight = true := by
  unfold inFlight
  constructor
  · intro h
    obtain ⟨⟨_, row⟩, hr, rfl⟩ := List.mem_map.mp h
    obtain ⟨hrow, hflight⟩ := List.mem_filter.mp hr
    exact ⟨row, Table.mem_rows.mp hrow, hflight⟩
  · rintro ⟨row, hrow, hflight⟩
    exact List.mem_map.mpr ⟨(d, row), List.mem_filter.mpr ⟨Table.mem_rows.mpr hrow, hflight⟩, rfl⟩

/-- The row has been written since `time`. -/
def touchedSince (time : Nat) (s : Sys) (d : DocId) : Bool :=
  (s.document d).any fun row => decide (time ≤ row.stateUpdatedAt)

theorem touchedSince_iff :
    touchedSince time s d = true ↔ ∃ row, s.document d = some row ∧ time ≤ row.stateUpdatedAt := by
  rw [touchedSince, Option.any_eq_true]
  exact ⟨fun ⟨row, hrow, ht⟩ => ⟨row, hrow, of_decide_eq_true ht⟩, fun ⟨row, hrow, ht⟩ => ⟨row, hrow, decide_eq_true ht⟩⟩

/-- What a state has of an earlier one: rows not written since are as they were. -/
def Steady (time : Nat) (s t : Sys) : Prop :=
  ∀ d row, t.document d = some row → row.stateUpdatedAt < time →
    ∃ old, s.document d = some old ∧ old.stateUpdatedAt = row.stateUpdatedAt ∧ old.state = row.state

/-- A sweep's claim. -/
def sweepsNow (s : Sys) : Action → Bool
  | .run tid _ =>
    match s.tasks tid with
    | some (.sweep (.claiming _ _)) => true
    | _ => false
  | _ => false

/-- Sweeps take at least `cap` rows, and find the document's row unlocked. -/
def SweepsAtLeast (cap : Nat) (d : DocId) (s : Sys) (a : Action) : Prop :=
  ∀ tid input n locked, a = .run tid input → s.tasks tid = some (.sweep (.claiming n locked)) → cap ≤ n ∧ d ∉ locked

theorem sweepsNow_inv (h : sweepsNow s a = true) :
    ∃ tid input n locked, a = .run tid input ∧ s.tasks tid = some (.sweep (.claiming n locked)) := by
  unfold sweepsNow at h
  split at h
  · next tid input =>
    split at h
    · next n locked htask => exact ⟨tid, input, n, locked, rfl, htask⟩
    · cases h
  · cases h

/-- A batch that leaves out a row it could take is full. -/
theorem batch_full {db : Db} {cap : Nat} {locked : List DocId} (hrow : db.documents.lookup d = some row)
    (hstuck : Sweeper.stuck site db.now row = true) (hlocked : d ∉ locked)
    (hleft : d ∉ (Sweeper.claimStuckBatch site db cap locked).map Prod.fst) :
    (Sweeper.claimStuckBatch site db cap locked).length = cap := by
  unfold Sweeper.claimStuckBatch at hleft ⊢
  rw [List.length_take]
  refine Nat.min_eq_left (Nat.le_of_not_lt fun hshort => hleft ?_)
  rw [List.take_of_length_le (Nat.le_of_lt hshort)]
  refine List.mem_map.mpr ⟨(d, row), ?_, rfl⟩
  rw [List.mem_insertionSort, List.mem_filter, Bool.and_eq_true]
  exact ⟨Table.mem_rows.mpr hrow, hstuck, decide_eq_true hlocked⟩

/-- Among distinct elements, more of them meet the wider test. -/
theorem countP_gain {α : Type} {p q : α → Bool} {all gained : List α} (hall : all.Nodup) (hgained : gained.Nodup)
    (hsub : gained ⊆ all) (hmono : ∀ x, p x = true → q x = true)
    (hnew : ∀ x, x ∈ gained → p x = false ∧ q x = true) : all.countP p + gained.length ≤ all.countP q := by
  rw [List.countP_eq_length_filter, List.countP_eq_length_filter, ← List.length_append]
  refine (List.subperm_of_subset (List.nodup_append'.mpr ⟨hall.filter p, hgained, ?_⟩) ?_).length_le
  · intro x hx hx'
    exact absurd (List.mem_filter.mp hx).2 (by simp [(hnew x hx').1])
  · intro x hx
    rcases List.mem_append.mp hx with hp | hg
    · obtain ⟨hmem, hp⟩ := List.mem_filter.mp hp
      exact List.mem_filter.mpr ⟨hmem, hmono x hp⟩
    · exact List.mem_filter.mpr ⟨hsub hg, (hnew x hg).2⟩

/-- Time is within one threshold of either stage. -/
def Within (site : Deployment) (start now : Nat) : Prop :=
  now ≤ start + site.stuckThresholdSeconds ∧ now ≤ start + site.extractStuckThresholdSeconds

/-- What is stuck within a threshold of `time` was in flight at `s`, and has not been written since. -/
theorem stuck_untouched (hsteady : Steady time s m) (hnow : m.db.now ≤ m.clock) (hwithin : Within site time m.clock)
    (hrow : m.document e = some row) (hstuck : Sweeper.stuck site m.db.now row = true) :
    e ∈ inFlight s.db ∧ touchedSince time m e = false := by
  have hlate := stuckThreshold_lt hstuck
  have hbefore : row.stateUpdatedAt < time := by
    obtain ⟨htext, hextract⟩ := hwithin
    unfold stuckThreshold at hlate
    split at hlate <;> omega
  constructor
  · obtain ⟨old, hold, _, hstate⟩ := hsteady e row hrow hbefore
    exact mem_inFlight.mpr ⟨old, hold, hstate ▸ Sweeper.stuck_inFlight hstuck⟩
  · refine Bool.eq_false_iff.mpr fun htouched => ?_
    obtain ⟨row', hrow', ht⟩ := touchedSince_iff.mp htouched
    obtain rfl := Option.some.inj (hrow.symm.trans hrow')
    omega

/-- A document stuck at `time` stays stuck until its row is written. -/
theorem stuck_of_untouched (hout : s.db.Outlives m.db) (hsteady : Steady time s m) (hnow : time ≤ m.db.now)
    (hrow : s.document d = some row) (hstuck : Sweeper.stuck site time row = true)
    (huntouched : touchedSince time m d = false) :
    ∃ row', m.document d = some row' ∧ Sweeper.stuck site m.db.now row' = true := by
  obtain ⟨row', hrow', _⟩ := hout.rows d row hrow
  have hbefore : row'.stateUpdatedAt < time := by
    by_contra hle
    exact absurd (touchedSince_iff.mpr ⟨row', hrow', Nat.le_of_not_lt hle⟩) (by simp [huntouched])
  obtain ⟨old, hold, htime, hstate⟩ := hsteady d row' hrow' hbefore
  obtain rfl := Option.some.inj (hrow.symm.trans hold)
  refine ⟨row', hrow', ?_⟩
  refine stuck_iff.mpr ?_
  rcases stuck_iff.mp hstuck with ⟨hold, hlate⟩ | ⟨hold, hlate⟩
  · exact .text (hstate ▸ hold) (by omega)
  · exact .extract (hstate ▸ hold) (by omega)

/-- The sweeps so far have written that many of the documents in flight at `s`, as long as a
threshold has not passed and `d` has been left alone. -/
structure Served (site : Deployment) (lag cap : Nat) (d : DocId) (s : Sys) (time : Nat) (m : Sys) (n : Nat) : Prop where
  sound : Sound False site m
  punctual : m.db.now ≤ m.clock
  late : time + lag ≤ m.clock
  outlives : s.db.Outlives m.db
  steady : Steady time s m
  served : Within site time m.clock → touchedSince time m d = false →
    n * cap ≤ (inFlight s.db).countP (touchedSince time m)

def sweepCount (s : Sys) (a : Action) (_ : Sys) : Nat := if sweepsNow s a then 1 else 0

theorem touched_kept (hprompt : Prompt lag m a) (hlate : time + lag ≤ m.clock) (hs : Step site m a t)
    (h : touchedSince time m e = true) : touchedSince time t e = true := by
  obtain ⟨row, hrow, htime⟩ := touchedSince_iff.mp h
  obtain ⟨row', hrow'⟩ := document_stays hs hrow
  refine touchedSince_iff.mpr ⟨row', hrow', ?_⟩
  rcases stamped_of_step hprompt hs hrow' with hstamp | ⟨old, hold, hkept, _⟩
  · omega
  · obtain rfl := Option.some.inj (hrow.symm.trans hold)
    exact hkept ▸ htime

theorem steady_step (h : Steady time s m) (hprompt : Prompt lag m a) (hlate : time + lag ≤ m.clock)
    (hs : Step site m a t) : Steady time s t := by
  intro e row hrow hbefore
  rcases stamped_of_step hprompt hs hrow with hstamp | ⟨old, hold, htime, hstate⟩
  · omega
  · obtain ⟨first, hfirst, htime', hstate'⟩ := h e old hold (htime ▸ hbefore)
    exact ⟨first, hfirst, htime'.trans htime, hstate'.trans hstate⟩

/-- One more sweep has passed `d` over, and written as many documents again. -/
theorem served_sweep {cap n : Nat} (h : Served site lag cap d s time m n) (hrow : s.document d = some row)
    (hstuck : Sweeper.stuck site time row = true) (hguard : SweepsAtLeast cap d m a) (hprompt : Prompt lag m a)
    (hs : Step site m a t) (hwithin : Within site time m.clock) (huntouched : touchedSince time t d = false)
    (hsweep : sweepsNow m a = true) :
    (inFlight s.db).countP (touchedSince time m) + cap ≤ (inFlight s.db).countP (touchedSince time t) := by
  have hkept : ∀ e, touchedSince time m e = true → touchedSince time t e = true := fun e he =>
    touched_kept hprompt h.late hs he
  obtain ⟨tid, input, n, locked, rfl, htask⟩ := sweepsNow_inv hsweep
  obtain ⟨hcap, hlocked⟩ := hguard tid input n locked rfl htask
  have hnow : time ≤ m.db.now := by
    have hlag := hprompt tid input rfl
    have hlate := h.late
    omega
  have huntouched' : touchedSince time m d = false :=
    Bool.eq_false_iff.mpr fun ht => absurd (hkept d ht) (by simp [huntouched])
  have hclaims : ∀ e, e ∈ (Sweeper.claimStuckBatch site m.db n locked).map Prod.fst →
      claims site e m (.run tid input) = true := by
    intro e he
    simp only [claims, htask]
    exact decide_eq_true he
  have hafter : ∀ e, e ∈ (Sweeper.claimStuckBatch site m.db n locked).map Prod.fst → touchedSince time t e = true := by
    intro e he
    obtain ⟨row, _, hswept, _⟩ := claims_swept (hclaims e he) hs
    exact touchedSince_iff.mpr ⟨_, hswept, hnow.trans (swept_time site row m.db.now).ge⟩
  have hbefore : ∀ e, e ∈ (Sweeper.claimStuckBatch site m.db n locked).map Prod.fst →
      e ∈ inFlight s.db ∧ touchedSince time m e = false := by
    intro e he
    obtain ⟨_, _, _, _, row, _, _, hrow, _, hstuck⟩ := claims_stuck (hclaims e he)
    exact stuck_untouched h.steady h.punctual hwithin hrow hstuck
  obtain ⟨row', hrow', hstuck'⟩ := stuck_of_untouched h.outlives h.steady hnow hrow hstuck huntouched'
  have hleft : d ∉ (Sweeper.claimStuckBatch site m.db n locked).map Prod.fst := fun hd =>
    absurd (hafter d hd) (by simp [huntouched])
  have hfull := batch_full hrow' hstuck' hlocked hleft
  have hgain := countP_gain (p := touchedSince time m) (q := touchedSince time t) (nodup_inFlight s.db)
    Sweeper.claimStuckBatch_nodup (fun e he => (hbefore e he).1) hkept fun e he => ⟨(hbefore e he).2, hafter e he⟩
  rw [List.length_map, hfull] at hgain
  exact (Nat.add_le_add_left hcap _).trans hgain

theorem served_step {cap n : Nat} (hrow : s.document d = some row) (hstuck : Sweeper.stuck site time row = true)
    (h : Served site lag cap d s time m n) (hguard : SweepsAtLeast cap d m a) (hprompt : Prompt lag m a)
    (hs : Step site m a t) : Served site lag cap d s time t (n + sweepCount m a t) := by
  obtain ⟨hgoes, hpunctual⟩ := clock_of_step hs
  refine ⟨sound_step h.sound (fun hf => hf.elim) hs, hpunctual h.punctual, h.late.trans hgoes,
    h.outlives.trans (outlives_step h.sound hs), steady_step h.steady hprompt h.late hs, fun hwithin huntouched => ?_⟩
  have hwithin' : Within site time m.clock := ⟨hgoes.trans hwithin.1, hgoes.trans hwithin.2⟩
  have huntouched' : touchedSince time m d = false :=
    Bool.eq_false_iff.mpr fun ht => absurd (touched_kept hprompt h.late hs ht) (by simp [huntouched])
  have hserved := h.served hwithin' huntouched'
  unfold sweepCount
  split
  · next hsweep =>
    have hgain := served_sweep h hrow hstuck hguard hprompt hs hwithin' huntouched hsweep
    rw [Nat.add_mul, Nat.one_mul]
    omega
  · exact hserved.trans (List.countP_mono_left fun e _ he => touched_kept hprompt h.late hs he)

/-- No stuck document is starved. Whatever else runs, and however documents that matter more
keep coming, with no transaction older than `lag` when it writes: once the sweeps within a
threshold could have taken every document that was in flight, the row of a document that had
been stuck for `lag` has been written. -/
theorem stuck_document_reached {cap sweeps : Nat} {as bs : List Action} (hbefore : FreeRun site initial as s)
    (hrow : s.document d = some row) (htime : time + lag ≤ s.clock) (hstuck : Stuck site time row)
    (hrun : Tally (fun s a t => SweepsAtLeast cap d s a ∧ Prompt lag s a ∧ Step site s a t) sweepCount s bs t sweeps)
    (hwithin : Within site time t.clock) (henough : (inFlight s.db).length ≤ sweeps * cap) :
    ∃ row', t.document d = some row' ∧ row.stateUpdatedAt < time ∧ time ≤ row'.stateUpdatedAt := by
  have hstuck' := stuck_iff.mpr hstuck
  have hstart : Served site lag cap d s time s 0 :=
    ⟨sound_run hbefore, now_le_clock hbefore, htime, .refl _, fun _ row hrow _ => ⟨row, hrow, rfl, rfl⟩,
      fun _ _ => by rw [Nat.zero_mul]; exact Nat.zero_le _⟩
  have hserved : Served site lag cap d s time t sweeps :=
    hrun.invariant hstart fun _ _ _ _ hi hs => served_step hrow hstuck' hi hs.1 hs.2.1 hs.2.2
  have hwritten : touchedSince time t d = true := by
    by_contra huntouched
    have hcount := hserved.served hwithin (Bool.eq_false_iff.mpr huntouched)
    have hall := (henough.trans hcount).antisymm List.countP_le_length
    have hd : d ∈ inFlight s.db := mem_inFlight.mpr ⟨row, hrow, Sweeper.stuck_inFlight hstuck'⟩
    exact huntouched (List.countP_eq_length.mp hall.symm d hd)
  obtain ⟨row', hrow', hlater⟩ := touchedSince_iff.mp hwritten
  have hlate := stuckThreshold_lt hstuck'
  exact ⟨row', hrow', by omega, hlater⟩

/-! Two documents wait, and two sweeps take one row each. -/

def atLeastOne (d : DocId) (s : Sys) : Action → Bool
  | .run tid _ =>
    match s.tasks tid with
    | some (.sweep (.claiming n locked)) => decide (1 ≤ n ∧ d ∉ locked)
    | _ => true
  | _ => true

theorem sweepsAtLeast_of_atLeastOne (h : atLeastOne d s a = true) : SweepsAtLeast 1 d s a := by
  rintro tid input n locked rfl htask
  simp only [atLeastOne, htask] at h
  exact of_decide_eq_true h

def oneRowSweeps : List Action :=
  [.spawn 5 (.sweep 1 [])] ++ Schedule.turns 5 3 ++ [.tick 10 5, .spawn 6 (.sweep 1 [])] ++ Schedule.turns 6 3

/-- The second sweep stamps with a time five seconds past. -/
theorem both_swept :
    ∃ s t row row', FreeRun twoScans initial (bothWaiting ++ [.tick 36 0]) s ∧
      Tally (fun s a t => SweepsAtLeast 1 "crc32c-b" s a ∧ Prompt 5 s a ∧ Step twoScans s a t) sweepCount s oneRowSweeps
        t 2 ∧
      s.document "crc32c-b" = some row ∧ t.document "crc32c-b" = some row' ∧
      row.stateUpdatedAt < 31 ∧ 31 ≤ row'.stateUpdatedAt := by
  have hruns : ((exec twoScans initial (bothWaiting ++ [.tick 36 0])).any fun s =>
      decide ((inFlight s.db).length ≤ 2 ∧ 31 + 5 ≤ s.clock) && (s.document "crc32c-b").any fun row =>
        Sweeper.stuck twoScans 31 row &&
          (oneRowSweeps.foldlM (tallyNext (Sys.step twoScans) (fun s a => atLeastOne "crc32c-b" s a && prompt 5 s a)
            sweepCount) (s, 0)).any fun r => decide (r.2 = 2 ∧ r.1.clock ≤ 31 + 30)) = true := by decide +kernel
  obtain ⟨s, hs, hrest⟩ := (Option.any_eq_true ..).mp hruns
  obtain ⟨hfew, hrest⟩ := (Bool.and_eq_true _ _).mp hrest
  obtain ⟨row, hrow, hrest⟩ := (Option.any_eq_true ..).mp hrest
  obtain ⟨hstuck, hrest⟩ := (Bool.and_eq_true _ _).mp hrest
  obtain ⟨⟨t, sweeps⟩, ht, hlast⟩ := (Option.any_eq_true ..).mp hrest
  obtain ⟨rfl, htime⟩ := of_decide_eq_true hlast
  have htally : Tally (fun s a t => SweepsAtLeast 1 "crc32c-b" s a ∧ Prompt 5 s a ∧ Step twoScans s a t) sweepCount s
      oneRowSweeps t 2 := (tally_of_foldlM ht).mono fun _ _ _ h => by
    obtain ⟨hsweeps, hprompt⟩ := (Bool.and_eq_true _ _).mp h.1
    exact ⟨sweepsAtLeast_of_atLeastOne hsweeps, prompt_iff.mp hprompt, h.2⟩
  obtain ⟨hcount, hclock⟩ := of_decide_eq_true hfew
  obtain ⟨row', hrow', hbefore, hwritten⟩ := stuck_document_reached (freeRun_of_exec hs) hrow hclock
    (stuck_iff.mp hstuck) htally ⟨htime, htime⟩ hcount
  exact ⟨s, t, row, row', freeRun_of_exec hs, htally, hrow, hrow', hbefore, hwritten⟩

end DocPipeline.Audit

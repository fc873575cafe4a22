import DocPipeline.Audit.Verdict

/-!
# Can an extraction crash the funnel?

Four of the five gates catch what their partial operations raise, or have none. The
division of the total raises for an amount that no double holds, and the year that
plausibility adds to the issue date can pass the last date there is. Neither raises
`ValueError`. The funnel returns exactly when it does not run the gates on such fields.
-/
namespace DocPipeline.Audit

set_option autoImplicit false

open Funnel Gates

/-- A total beyond the doubles, or dates in order whose first is in the last year. -/
inductive Crashes (fields : Fields) : Prop
  | total {cents : Int} : fields.totalCents = some cents → Money.overflowCents ≤ cents.natAbs → Crashes fields
  | dates {issue due : String} {dIssue dDue : Nat} : fields.invoiceDate = some issue → fields.dueDate = some due →
      Date.fromIsoformat issue = some dIssue → Date.fromIsoformat due = some dDue → dIssue ≤ dDue →
      Date.maxOrdinal < dIssue + 365 → Crashes fields

theorem addDays_eq_none_iff {ordinal days : Nat} : Date.addDays ordinal days = none ↔ Date.maxOrdinal < ordinal + days := by
  unfold Date.addDays
  split <;> simp_all

theorem nonempty_of_date {text : String} {ordinal : Nat} (h : Date.fromIsoformat text = some ordinal) : text ≠ "" := by
  rintro rfl
  cases h

theorem overflows_iff_crashes {fields : Fields} : Overflows fields ↔ Crashes fields := by
  constructor
  · rintro (⟨cents, hc, hnone⟩ | ⟨issue, due, ⟨hi, _, hd, _⟩, hraise⟩)
    · exact .total hc (Money.moneyReprs_eq_none_iff.mp hnone)
    · obtain ⟨dIssue, dDue, hI, hD, hle, hadd⟩ := dateReasons_raises_iff.mp hraise
      exact .dates hi hd hI hD hle (addDays_eq_none_iff.mp hadd)
  · rintro (⟨hc, hcents⟩ | ⟨hi, hd, hI, hD, hle, hlast⟩)
    · exact Or.inl ⟨_, hc, Money.moneyReprs_eq_none_iff.mpr hcents⟩
    · refine Or.inr ⟨_, _, ⟨hi, nonempty_of_date hI, hd, nonempty_of_date hD⟩, ?_⟩
      exact dateReasons_raises_iff.mpr ⟨_, _, hI, hD, hle, addDays_eq_none_iff.mpr hlast⟩

theorem plausibility_not_accepted {config : GateConfig} {docType : DocType} {fields : Fields} {g : GateResult}
    (h : plausibility config docType fields = .ok g) : g.outcome ≠ .accepted := by
  have hresult : ∀ reasons : List String, (Except.ok (if reasons = [] then ⟨.pass, none⟩
      else ⟨.fail, some (.reasons reasons)⟩) : Except GateError GateResult) = .ok g → g.outcome ≠ .accepted := by
    intro reasons hg
    rw [← Except.ok.inj hg]
    split <;> simp
  unfold plausibility at h
  simp only [bind, Except.bind, pure, Except.pure] at h
  split at h
  · split at h
    · exact hresult _ h
    · split at h
      · cases h
      · exact hresult _ h
  · exact hresult _ h

/-- Every gate answers with one of its four outcomes. -/
theorem entries_outcome {config : GateConfig} {db : Db} {docId : DocId} {docType : DocType} {fields : Fields}
    {text : String} {report : GateReport} (h : runAll config db docId docType fields text = .ok report) :
    ∀ e, e ∈ report.entries → e.2.outcome ∈ [GateOutcome.pass, .fail, .inconclusive, .notApplicable] := by
  obtain ⟨hg, hp, ha, hi, hb⟩ := runAll_ok.mp h
  have hgrounding : report.grounding.outcome ≠ .accepted := by
    rcases (grounding_ok hg).2 with ⟨ho, _⟩ | ⟨ho, _⟩ <;> simp [ho]
  have hiban : report.ibanMod97.outcome ≠ .accepted := by
    rw [hi]
    unfold ibanMod97
    grind
  have hdedupe : report.businessDedupe.outcome ≠ .accepted := by
    rw [hb]
    unfold businessDedupe
    grind
  have harithmetic : report.arithmetic.outcome ≠ .accepted := ha ▸ arithmetic_not_accepted
  have hplausibility : report.plausibility.outcome ≠ .accepted := plausibility_not_accepted hp
  have hfour : ∀ o, o ≠ GateOutcome.accepted → o ∈ [GateOutcome.pass, .fail, .inconclusive, .notApplicable] := by
    intro o ho
    cases o <;> simp_all
  intro e he
  simp only [GateReport.entries, List.mem_cons, List.not_mem_nil, or_false] at he
  rcases he with rfl | rfl | rfl | rfl | rfl <;> exact hfour _ (by assumption)

/-! ## Which replies reach the gates -/

/-- The first final reply of the tier comes within its budget, and is this one. -/
def Concludes (config : GateConfig) (reply : Nat → Reply) (last : Reply) : Prop :=
  ∃ i, i ≤ config.maxRepairAttempts ∧ reply i = last ∧ last.asksAgain = false ∧ ∀ j, j < i → (reply j).asksAgain = true

theorem Concludes.unique {config : GateConfig} {reply : Nat → Reply} {last last' : Reply}
    (h : Concludes config reply last) (h' : Concludes config reply last') : last = last' := by
  obtain ⟨i, _, rfl, hfinal, hbefore⟩ := h
  obtain ⟨i', _, rfl, hfinal', hbefore'⟩ := h'
  rcases Nat.lt_trichotomy i i' with hlt | rfl | hlt
  · rw [hbefore' i hlt] at hfinal
    cases hfinal
  · rfl
  · rw [hbefore i' hlt] at hfinal'
    cases hfinal'

theorem concludes_of_asks {config : GateConfig} {reply : Nat → Reply} {k i : Nat} {last : Reply}
    (h : Asks config reply k) (hk : k = i + 1) (hr : reply i = last) (hfinal : last.asksAgain = false) :
    Concludes config reply last :=
  ⟨i, by have := h.budget; omega, hr, hfinal, fun j hj => h.again j (by omega)⟩

/-- The funnel goes on to the next tier: this one is not refused, and what it reads is blocked. -/
def PassesOn (config : GateConfig) (db : Db) (source : Source) (reply : Nat → Reply) : Prop :=
  (∀ message, ¬ Concludes config reply (.error .refusal message)) ∧
  ∀ model, Concludes config reply (.valid model) →
    ¬ Grounded config model.modelDump source.text ∨ (source.docType = .invoice ∧ ¬ AddsUp model.modelDump) ∨
      Taken db source.docId model.modelDump

variable {config : GateConfig} {ledger : Tier → Db} {source : Source} {attemptNo : Nat}
  {replies : Tier → Nat → Reply} {tier : Tier} {s s' : Session}

/-- A loop that has stopped has had the conclusion of its tier. -/
theorem Concludes.called {reply : Nat → Reply} {k : Nat} {last : Reply} (h : Concludes config reply last)
    (hstops : Stops config reply k) : ∃ i, i < k ∧ reply i = last := by
  obtain ⟨i, hi, hr, _, hbefore⟩ := h
  refine ⟨i, ?_, hr⟩
  rcases hstops with rfl | ⟨j, rfl, hfinal⟩
  · omega
  · by_contra hlt
    rw [hbefore j (by omega)] at hfinal
    cases hfinal

theorem runAll_error_iff {db : Db} {docId : DocId} {docType : DocType} {fields : Fields} {text : String} :
    (∃ e, runAll config db docId docType fields text = .error e) ↔ Crashes fields := by
  rw [← overflows_iff_crashes, ← @runAll_raises_iff config db docId docType fields text]
  constructor
  · rintro ⟨⟨⟩, h⟩
    exact h
  · exact fun h => ⟨_, h⟩

theorem not_crashes_of_ok {db : Db} {docId : DocId} {docType : DocType} {fields : Fields} {text : String}
    {report : GateReport} (h : runAll config db docId docType fields text = .ok report) : ¬ Crashes fields := by
  intro hc
  obtain ⟨e, he⟩ := runAll_error_iff.mpr hc
  rw [h] at he
  cases he

/-- A tier raises exactly on a conclusion that crashes the gates. -/
theorem runTier_raises_iff : (∃ e, runTier config ledger source attemptNo replies tier s = .error e) ↔
    ∃ model, Concludes config (replies tier) (.valid model) ∧ Crashes model.modelDump := by
  obtain ⟨k, hasks, _, hends⟩ := runTier_ends config ledger source attemptNo replies tier s
  generalize runTier config ledger source attemptNo replies tier s = r at hends
  constructor
  · rintro ⟨e, rfl⟩
    cases hends with
    | raised hk hr hg => exact ⟨_, concludes_of_asks hasks hk hr rfl, runAll_error_iff.mp ⟨_, hg⟩⟩
  · rintro ⟨model, hconcludes, hcrash⟩
    cases hends with
    | raised => exact ⟨_, rfl⟩
    | refused hk hr _ => exact nomatch hconcludes.unique (concludes_of_asks hasks hk hr rfl)
    | escalated hstops hesc _ =>
      obtain ⟨i, hi, hr⟩ := hconcludes.called hstops
      obtain ⟨report, hg, _⟩ := (hesc i hi).2 model hr
      exact absurd hcrash (not_crashes_of_ok hg)
    | accepted hk hr hg _ _ _ =>
      cases hconcludes.unique (concludes_of_asks hasks hk hr rfl)
      exact absurd hcrash (not_crashes_of_ok hg)

theorem runTier_returns_iff :
    (∀ model, Concludes config (replies tier) (.valid model) → ¬ Crashes model.modelDump) ↔
      ∃ r, runTier config ledger source attemptNo replies tier s = .ok r := by
  have hraises := @runTier_raises_iff config ledger source attemptNo replies tier s
  generalize runTier config ledger source attemptNo replies tier s = r at hraises
  cases r with
  | error e =>
    obtain ⟨model, hm, hc⟩ := hraises.mp ⟨e, rfl⟩
    exact iff_of_false (fun h => h model hm hc) fun ⟨_, h⟩ => nomatch h
  | ok r =>
    refine iff_of_true (fun model hm hc => ?_) ⟨r, rfl⟩
    obtain ⟨e, he⟩ := hraises.mpr ⟨model, hm, hc⟩
    cases he

/-- A tier that does not raise escalates exactly when it passes on. -/
theorem runTier_escalates_iff {decision : Decision}
    (h : runTier config ledger source attemptNo replies tier s = .ok (s', decision)) :
    decision = .escalate ↔ PassesOn config (ledger tier) source (replies tier) := by
  obtain ⟨k, hasks, _, hends⟩ := runTier_ends config ledger source attemptNo replies tier s
  rw [h] at hends
  cases hends with
  | refused hk hr _ =>
    refine iff_of_false nofun fun hpasses => ?_
    exact hpasses.1 _ (concludes_of_asks hasks hk hr rfl)
  | escalated hstops hesc _ =>
    refine iff_of_true rfl ⟨fun message hconcludes => ?_, fun model hconcludes => ?_⟩
    · obtain ⟨i, hi, hr⟩ := hconcludes.called hstops
      exact (hesc i hi).1 message hr
    · obtain ⟨i, hi, hr⟩ := hconcludes.called hstops
      obtain ⟨report, hg, hb⟩ := (hesc i hi).2 model hr
      exact (GateReport.blocked_iff_of_runAll hg).mp hb
  | accepted hk hr hg hb _ _ =>
    refine iff_of_false nofun fun hpasses => ?_
    have hblocked := (GateReport.blocked_iff_of_runAll hg).mpr (hpasses.2 _ (concludes_of_asks hasks hk hr rfl))
    rw [hb] at hblocked
    cases hblocked

/-- The gates answer for exactly the fields that do not crash them, and the funnel returns
exactly when neither tier it asks concludes with such fields. -/
theorem funnel_returns_iff (config : GateConfig) (ledger : Tier → Db) (source : Source) (attemptNo : Nat)
    (replies : Tier → Nat → Reply) :
    (∀ db docId docType fields text,
      (∃ report, runAll config db docId docType fields text = .ok report ∧
        ∀ e, e ∈ report.entries → e.2.outcome ∈ [GateOutcome.pass, .fail, .inconclusive, .notApplicable]) ↔
      ¬ Crashes fields) ∧
    ((∃ verdict made, runFunnel config ledger source attemptNo replies = .ok (verdict, made)) ↔
      (∀ model, Concludes config (replies .cheap) (.valid model) → ¬ Crashes model.modelDump) ∧
      (PassesOn config (ledger .cheap) source (replies .cheap) →
        ∀ model, Concludes config (replies .strong) (.valid model) → ¬ Crashes model.modelDump)) := by
  constructor
  · intro db docId docType fields text
    constructor
    · rintro ⟨report, hg, _⟩
      exact not_crashes_of_ok hg
    · intro hno
      obtain ⟨report, hg⟩ := runAll_total fun h => hno (overflows_iff_crashes.mp h)
      exact ⟨report, hg, entries_outcome hg⟩
  · rw [@runTier_returns_iff config ledger source attemptNo replies .cheap { gateResults := layoutCacheMiss }]
    simp only [runFunnel, tiers, runTiers, bind, Except.bind, pure, Except.pure]
    cases hr : runTier config ledger source attemptNo replies .cheap { gateResults := layoutCacheMiss } with
    | error e => simp
    | ok r =>
      obtain ⟨s, decision⟩ := r
      have hpasses := runTier_escalates_iff hr
      cases decision with
      | refused => simp [← hpasses]
      | accepted fields => simp [← hpasses]
      | escalate =>
        rw [@runTier_returns_iff config ledger source attemptNo replies .strong s]
        cases hr' : runTier config ledger source attemptNo replies .strong s with
        | error e => simp [← hpasses, hr']
        | ok r' =>
          obtain ⟨s', decision⟩ := r'
          cases decision <;> simp [← hpasses, hr']

/-- Dates of an invoice that is due a day after it was issued, in the year 9999. -/
def lastYear : ExtractedFields where
  invoiceNo := some "INV-1"
  invoiceDate := some "9999-06-01"
  dueDate := some "9999-06-02"

/-- A reply that is a JSON object of strings makes the funnel raise. -/
theorem last_year_raises :
    ¬ ∃ verdict made,
      runFunnel .defaults (fun _ => {}) widgetInvoice 1 (fun _ _ => .valid lastYear) = .ok (verdict, made) := by
  have hnone : (runFunnel .defaults (fun _ => {}) widgetInvoice 1 (fun _ _ => .valid lastYear)).toOption.isNone = true := by
    decide +kernel
  rintro ⟨verdict, made, h⟩
  rw [h] at hnone
  cases hnone

end DocPipeline.Audit

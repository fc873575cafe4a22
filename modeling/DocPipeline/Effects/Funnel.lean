import DocPipeline.Core.GatesSpec
import DocPipeline.Stages.Funnel

/-!
# What the funnel returns

The fields that come out of the funnel are the dump of a schema-valid reply on which the
gates, run on exactly these fields, do not block.
-/
namespace DocPipeline.Funnel

set_option autoImplicit false

open Gates

variable {config : GateConfig} {ledger : Tier → Db} {source : Source} {attemptNo : Nat}
  {replies : Tier → Nat → Reply}

/-- How a repair loop of at most `n` calls ends after `k`, the first of which gets `reply i`. -/
inductive Ends (reply : Nat → Reply) (i n k : Nat) (s s' : Session) : Asked → Prop
  | refused {j : Nat} {message : String} : k = j + 1 → reply (i + j) = .error .refusal message →
      Ends reply i n k s s' .refused
  | overflowed {schema : Option GateResult} {j : Nat} {message : String} : k = j + 1 →
      reply (i + j) = .error .contextOverflow message → Ends reply i n k s s' (.nothing schema)
  | exhausted {schema : Option GateResult} : k = n → (∀ j, j + 1 = k → (reply (i + j)).asksAgain = true) →
      Ends reply i n k s s' (.nothing schema)
  | replied {j : Nat} {model : ExtractedFields} : k = j + 1 → reply (i + j) = .valid model →
      s'.gateResults = s.gateResults → Ends reply i n k s s' (.replied model)

/-- One more call in front of a loop that goes on. -/
theorem Ends.again {reply : Nat → Reply} {i n k : Nat} {s t s' : Session} {r : Asked}
    (h : Ends reply (i + 1) n k t s' r) (hagain : (reply i).asksAgain = true) (hg : t.gateResults = s.gateResults) :
    Ends reply i (n + 1) (k + 1) s s' r := by
  have hshift : ∀ j, i + 1 + j = i + (j + 1) := fun j => by omega
  cases h with
  | refused hk hr => exact .refused (by rw [hk]) (by rw [← hr, hshift])
  | overflowed hk hr => exact .overflowed (by rw [hk]) (by rw [← hr, hshift])
  | replied hk hr hkept => exact .replied (by rw [hk]) (by rw [← hr, hshift]) (hkept.trans hg)
  | exhausted hk hall =>
    refine .exhausted (by rw [hk]) fun j hj => ?_
    cases j with
    | zero => exact hagain
    | succ j =>
      rw [← hshift]
      exact hall j (Nat.succ.inj hj)

/-- The repair loop makes at most `n` calls, all of its tier, and each but the last gets a
reply that asks again. -/
theorem ask_cases {docId : DocId} {tier : Tier} {reply : Nat → Reply} {n i : Nat} {schema : Option GateResult}
    {hint : Option RepairHint} {s s' : Session} {r : Asked}
    (h : ask docId attemptNo tier reply n i schema hint s = (s', r)) :
    ∃ k, k ≤ n ∧ s'.calls.map Call.tier = s.calls.map Call.tier ++ List.replicate k tier ∧
      (∀ j, j + 1 < k → (reply (i + j)).asksAgain = true) ∧ Ends reply i n k s s' r := by
  induction n generalizing i schema hint s with
  | zero =>
    cases h
    have hnone : ∀ {p : Prop} {j : Nat}, j + 1 = 0 → p := fun hj => absurd hj (Nat.succ_ne_zero _)
    exact ⟨0, Nat.le_refl 0, by simp, fun j hj => absurd hj (Nat.not_lt_zero _), .exhausted rfl fun j hj => hnone hj⟩
  | succ n ih =>
    have hagain : ∀ {schema hint} {t : Session}, ask docId attemptNo tier reply n (i + 1) schema hint t = (s', r) →
        (reply i).asksAgain = true → t.calls.map Call.tier = s.calls.map Call.tier ++ [tier] →
        t.gateResults = s.gateResults →
        ∃ k, k ≤ n + 1 ∧ s'.calls.map Call.tier = s.calls.map Call.tier ++ List.replicate k tier ∧
          (∀ j, j + 1 < k → (reply (i + j)).asksAgain = true) ∧ Ends reply i (n + 1) k s s' r := by
      intro schema hint t h hr ht hg
      obtain ⟨k, hk, hcalls, hall, hends⟩ := ih h
      refine ⟨k + 1, Nat.succ_le_succ hk, ?_, fun j hj => ?_, hends.again hr hg⟩
      · rw [hcalls, ht, List.append_assoc, List.replicate_succ]
        rfl
      · cases j with
        | zero => exact hr
        | succ j =>
          rw [show i + (j + 1) = i + 1 + j by omega]
          exact hall j (Nat.lt_of_succ_lt_succ hj)
    have hlast : ∀ {t : Session}, t.calls.map Call.tier = s.calls.map Call.tier ++ [tier] →
        Ends reply i (n + 1) 1 s t r →
        ∃ k, k ≤ n + 1 ∧ t.calls.map Call.tier = s.calls.map Call.tier ++ List.replicate k tier ∧
          (∀ j, j + 1 < k → (reply (i + j)).asksAgain = true) ∧ Ends reply i (n + 1) k s t r := by
      intro t ht hends
      exact ⟨1, Nat.succ_le_succ (Nat.zero_le n), ht, fun j hj => absurd hj (by omega), hends⟩
    rw [ask] at h
    match hr : reply i with
    | .valid model =>
      rw [hr] at h
      cases h
      exact hlast (by simp) (.replied rfl hr rfl)
    | .error .refusal message =>
      rw [hr] at h
      cases h
      exact hlast (by simp [Session.setSchema]) (.refused rfl hr)
    | .error .contextOverflow message =>
      rw [hr] at h
      cases h
      exact hlast (by simp [Session.setSchema]) (.overflowed rfl hr)
    | .invalid errors | .error .unparseable message | .error .transient message =>
      rw [hr] at h
      exact hagain h (by rw [hr]; rfl) (by simp) rfl

/-- The `k` calls of one tier: within the budget, and none after a final reply. -/
structure Asks (config : GateConfig) (reply : Nat → Reply) (k : Nat) : Prop where
  budget : k ≤ config.maxRepairAttempts + 1
  again : ∀ i, i + 1 < k → (reply i).asksAgain = true

/-- The `k` calls of a tier gave nothing acceptable, and no refusal. -/
def Escalates (config : GateConfig) (db : Db) (source : Source) (reply : Nat → Reply) (k : Nat) : Prop :=
  ∀ i, i < k → (∀ message, reply i ≠ .error .refusal message) ∧
    ∀ model, reply i = .valid model →
      ∃ report, runAll config db source.docId source.docType model.modelDump source.text = .ok report ∧
        report.blocked = true

/-- A loop stops when its budget is spent or a reply is final. -/
def Stops (config : GateConfig) (reply : Nat → Reply) (k : Nat) : Prop :=
  k = config.maxRepairAttempts + 1 ∨ ∃ i, k = i + 1 ∧ (reply i).asksAgain = false

/-- How a tier ends after `k` calls. -/
inductive TierEnds (config : GateConfig) (db : Db) (source : Source) (reply : Nat → Reply) (tier : Tier)
    (s : Session) (calls : List Call) (k : Nat) : Except GateError (Session × Decision) → Prop
  | raised {e : GateError} {i : Nat} {model : ExtractedFields} : k = i + 1 → reply i = .valid model →
      runAll config db source.docId source.docType model.modelDump source.text = .error e →
      TierEnds config db source reply tier s calls k (.error e)
  | refused {s' : Session} {i : Nat} {message : String} : k = i + 1 → reply i = .error .refusal message →
      s'.calls = calls → TierEnds config db source reply tier s calls k (.ok (s', .refused))
  | escalated {s' : Session} : Stops config reply k → Escalates config db source reply k → s'.calls = calls →
      TierEnds config db source reply tier s calls k (.ok (s', .escalate))
  | accepted {s' : Session} {i : Nat} {model : ExtractedFields} {report : GateReport} : k = i + 1 →
      reply i = .valid model →
      runAll config db source.docId source.docType model.modelDump source.text = .ok report →
      report.blocked = false → s'.calls = calls →
      s'.gateResults = ((s.setSchema ⟨.pass, none⟩).recordGates report tier).gateResults →
      TierEnds config db source reply tier s calls k (.ok (s', .accepted model.modelDump))

theorem runTier_ends (config : GateConfig) (ledger : Tier → Db) (source : Source) (attemptNo : Nat)
    (replies : Tier → Nat → Reply) (tier : Tier) (s : Session) : ∃ k, Asks config (replies tier) k ∧
    (tierCalls config source attemptNo replies tier s).map Call.tier =
      s.calls.map Call.tier ++ List.replicate k tier ∧
    TierEnds config (ledger tier) source (replies tier) tier s (tierCalls config source attemptNo replies tier s) k
      (runTier config ledger source attemptNo replies tier s) := by
  unfold runTier tierCalls
  rcases ha : ask source.docId attemptNo tier (replies tier) (config.maxRepairAttempts + 1) 0 none none s with ⟨t, r⟩
  obtain ⟨k, hk, hcalls, hall, hends⟩ := ask_cases ha
  simp only [Nat.zero_add] at hall
  refine ⟨k, ⟨hk, hall⟩, hcalls, ?_⟩
  -- the replies before the last one ask again, so they are neither valid nor refusals
  have hescalates : ∀ {j}, k = j + 1 → (∀ message, replies tier j ≠ .error .refusal message) →
      (∀ model, replies tier j = .valid model → ∃ report,
        runAll config (ledger tier) source.docId source.docType model.modelDump source.text = .ok report ∧
          report.blocked = true) →
      Escalates config (ledger tier) source (replies tier) k := by
    intro j hj hrefusal hvalid i hi
    rcases Nat.lt_or_ge (i + 1) k with hlt | hge
    · have hagain := hall i hlt
      constructor <;>
      · intro m hm
        rw [hm] at hagain
        cases hagain
    · obtain rfl : i = j := by omega
      exact ⟨hrefusal, hvalid⟩
  cases hends with
  | refused hj hr =>
    rw [Nat.zero_add] at hr
    exact .refused hj hr rfl
  | @overflowed schema j message hj hr =>
    rw [Nat.zero_add] at hr
    refine .escalated (Or.inr ⟨j, hj, by rw [hr]; rfl⟩) (hescalates hj ?_ ?_) ?_
    · exact fun _ he => by rw [hr] at he; cases he
    · exact fun _ he => by rw [hr] at he; cases he
    · cases schema <;> rfl
  | @exhausted schema hn hlast =>
    refine .escalated (Or.inl hn) (fun i hi => ?_) ?_
    · have hagain : (replies tier i).asksAgain = true := by
        rcases Nat.lt_or_ge (i + 1) k with hlt | hge
        · exact hall i hlt
        · exact Nat.zero_add i ▸ hlast i (by omega)
      constructor <;>
      · intro m hm
        rw [hm] at hagain
        cases hagain
    · cases schema <;> rfl
  | @replied j model hj hr hkept =>
    rw [Nat.zero_add] at hr
    dsimp only
    match hg : runAll config (ledger tier) source.docId source.docType model.modelDump source.text with
    | .error e => exact .raised hj hr hg
    | .ok report =>
      simp only [bind, Except.bind, pure, Except.pure]
      cases hb : report.blocked with
      | false =>
        refine .accepted hj hr hg hb rfl ?_
        simp only [Session.recordGates, Session.setSchema, hkept]
      | true =>
        refine .escalated (Or.inr ⟨j, hj, by rw [hr]; rfl⟩) (hescalates hj ?_ ?_) rfl
        · exact fun _ he => by rw [hr] at he; cases he
        · intro m he
          rw [hr] at he
          cases he
          exact ⟨report, hg, hb⟩

/-- The fields are the dump of a reply of the tier, and its gates do not block. -/
def Accepts (config : GateConfig) (ledger : Tier → Db) (source : Source) (replies : Tier → Nat → Reply)
    (fields : Fields) : Prop :=
  ∃ tier i model report, replies tier i = .valid model ∧ fields = model.modelDump ∧
    runAll config (ledger tier) source.docId source.docType fields source.text = .ok report ∧
    report.blocked = false

theorem runTier_accepted {tier : Tier} {s s' : Session} {fields : Fields}
    (h : runTier config ledger source attemptNo replies tier s = .ok (s', .accepted fields)) :
    Accepts config ledger source replies fields := by
  obtain ⟨k, _, _, hends⟩ := runTier_ends config ledger source attemptNo replies tier s
  rw [h] at hends
  cases hends with
  | accepted _ hr hg hb _ _ => exact ⟨tier, _, _, _, hr, rfl, hg, hb⟩

theorem runTiers_returns {rest : List Tier} {s s' : Session} {fields : Fields}
    (h : runTiers config ledger source attemptNo replies rest s = .ok (s', some fields)) :
    Accepts config ledger source replies fields := by
  induction rest generalizing s with
  | nil => simp [runTiers] at h
  | cons tier rest ih =>
    rw [runTiers] at h
    match ht : runTier config ledger source attemptNo replies tier s with
    | .error e => simp [ht, bind, Except.bind] at h
    | .ok (t, .refused) => simp [ht, bind, Except.bind] at h
    | .ok (t, .escalate) => exact ih (by simpa [ht, bind, Except.bind] using h)
    | .ok (t, .accepted f) =>
      have hf : t = s' ∧ f = fields := by simpa [ht, bind, Except.bind] using h
      exact runTier_accepted (hf.2 ▸ ht)

theorem runFunnel_returns {verdict : Extraction.Verdict} {calls : List Call} {fields : Fields}
    (h : runFunnel config ledger source attemptNo replies = .ok (verdict, calls))
    (hf : verdict.fields = some fields) : Accepts config ledger source replies fields := by
  unfold runFunnel at h
  match ht : runTiers config ledger source attemptNo replies tiers { gateResults := layoutCacheMiss } with
  | .error e => simp [ht, bind, Except.bind] at h
  | .ok (s, fields') =>
    simp only [ht, bind, Except.bind, pure, Except.pure, Except.ok.injEq, Prod.mk.injEq] at h
    have he : fields' = some fields := by rw [← hf, ← h.1]
    exact runTiers_returns (he ▸ ht)

/-- A first reply that the schema and the gates accept is what the funnel returns. -/
theorem runFunnel_first {model : ExtractedFields} {report : GateReport}
    (hr : replies .cheap 0 = .valid model)
    (hg : runAll config (ledger .cheap) source.docId source.docType model.modelDump source.text = .ok report)
    (hb : report.blocked = false) :
    ∃ verdict calls, runFunnel config ledger source attemptNo replies = .ok (verdict, calls) ∧
      verdict.fields = some model.modelDump := by
  simp [runFunnel, tiers, runTiers, runTier, ask, hr, hg, hb, bind, Except.bind, pure, Except.pure]

/-- The calls of a session that a tier returns are those of its loop. -/
theorem runTier_calls {tier : Tier} {s s' : Session} {decision : Decision}
    (h : runTier config ledger source attemptNo replies tier s = .ok (s', decision)) :
    s'.calls = tierCalls config source attemptNo replies tier s := by
  obtain ⟨_, _, _, hends⟩ := runTier_ends config ledger source attemptNo replies tier s
  rw [h] at hends
  cases hends with
  | refused _ _ hsame | escalated _ _ hsame | accepted _ _ _ _ hsame => exact hsame

theorem runTiers_calls {rest : List Tier} {s s' : Session} {fields : Option Fields}
    (h : runTiers config ledger source attemptNo replies rest s = .ok (s', fields)) :
    s'.calls = tiersCalls config ledger source attemptNo replies rest s := by
  induction rest generalizing s with
  | nil =>
    cases h
    rfl
  | cons tier rest ih =>
    rw [runTiers] at h
    rw [tiersCalls]
    match ht : runTier config ledger source attemptNo replies tier s with
    | .error e => simp [ht, bind, Except.bind] at h
    | .ok (t, .escalate) => exact ih (by simpa [ht, bind, Except.bind] using h)
    | .ok (t, .refused) | .ok (t, .accepted _) =>
      have hsame : t = s' := by
        simp only [ht, bind, Except.bind, Except.ok.injEq, Prod.mk.injEq] at h
        exact h.1
      exact hsame ▸ runTier_calls ht

/-- Whatever the verdict, the calls that come with it are all that were made. -/
theorem runFunnel_calls {verdict : Extraction.Verdict} {made : List Call}
    (h : runFunnel config ledger source attemptNo replies = .ok (verdict, made)) :
    made = callsMade config ledger source attemptNo replies := by
  unfold runFunnel at h
  match ht : runTiers config ledger source attemptNo replies tiers { gateResults := layoutCacheMiss } with
  | .error e => simp [ht, bind, Except.bind] at h
  | .ok (s, fields) =>
    simp only [ht, bind, Except.bind, pure, Except.pure, Except.ok.injEq, Prod.mk.injEq] at h
    rw [← h.2]
    exact runTiers_calls ht

/-- The funnel makes at most its budget of calls a tier. -/
theorem tiersCalls_length_le (rest : List Tier) (s : Session) :
    (tiersCalls config ledger source attemptNo replies rest s).length ≤
      s.calls.length + rest.length * (config.maxRepairAttempts + 1) := by
  induction rest generalizing s with
  | nil => exact Nat.le_add_right _ _
  | cons tier rest ih =>
    obtain ⟨k, hasks, hcalls, hends⟩ := runTier_ends config ledger source attemptNo replies tier s
    have hlength : (tierCalls config source attemptNo replies tier s).length = s.calls.length + k := by
      simpa using congrArg List.length hcalls
    have hbudget := hasks.budget
    rw [List.length_cons, Nat.succ_mul]
    unfold tiersCalls
    split
    · next t ht =>
      rw [ht] at hends
      cases hends with
      | escalated _ _ hsame =>
        have hrest := ih t
        rw [hsame, hlength] at hrest
        omega
    · omega

/-! ## What a session keeps -/

/-- What every write of the funnel to its session keeps. -/
structure Maintains (source : Source) (attemptNo : Nat) (P : Session → Prop) : Prop where
  call : ∀ s call, P s → P { s with calls := s.calls ++ [call] }
  schema : ∀ s result, P s → P (s.setSchema result)
  repair : ∀ s, P s → P { s with repairs := s.repairs + 1 }
  attempt : ∀ s tier, P s → P { s with attempts := s.attempts ++ [transientRow source.docId attemptNo tier] }
  gates : ∀ s report tier, P s → P (s.recordGates report tier)

namespace Maintains

variable {P : Session → Prop}

theorem ask (hm : Maintains source attemptNo P) {tier : Tier} {reply : Nat → Reply} {n i : Nat}
    {schema : Option GateResult} {hint : Option RepairHint} {s : Session} (hs : P s) :
    P (Funnel.ask source.docId attemptNo tier reply n i schema hint s).1 := by
  induction n generalizing i schema hint s with
  | zero => exact hs
  | succ n ih =>
    have hcalled := hm.call s ⟨tier, hint⟩ hs
    rw [Funnel.ask]
    split
    · exact hm.schema _ _ hcalled
    · exact hm.schema _ _ hcalled
    · exact ih (hm.repair _ hcalled)
    · exact ih (hm.attempt _ tier hcalled)
    · exact hcalled
    · exact ih (hm.repair _ hcalled)

theorem runTier (hm : Maintains source attemptNo P) {tier : Tier} {s s' : Session} {decision : Decision}
    (h : Funnel.runTier config ledger source attemptNo replies tier s = .ok (s', decision)) (hs : P s) : P s' := by
  have hasked : P (Funnel.ask source.docId attemptNo tier (replies tier) (config.maxRepairAttempts + 1) 0 none none
    s).1 := hm.ask hs
  unfold Funnel.runTier at h
  split at h
  · next t ha =>
    cases h
    rwa [ha] at hasked
  · next t schema ha =>
    cases h
    rw [ha] at hasked
    cases schema with
    | none => exact hasked
    | some result => exact hm.schema _ result hasked
  · next t model ha =>
    rw [ha] at hasked
    match hg : runAll config (ledger tier) source.docId source.docType model.modelDump source.text with
    | .error e => simp [hg, bind, Except.bind] at h
    | .ok report =>
      have hrecorded := hm.gates _ report tier (hm.schema _ ⟨.pass, none⟩ hasked)
      simp only [hg, bind, Except.bind, pure, Except.pure, Except.ok.injEq] at h
      split at h <;> cases h <;> exact hrecorded

theorem runTiers (hm : Maintains source attemptNo P) {rest : List Tier} {s s' : Session} {fields : Option Fields}
    (h : Funnel.runTiers config ledger source attemptNo replies rest s = .ok (s', fields)) (hs : P s) : P s' := by
  induction rest generalizing s with
  | nil =>
    cases h
    exact hs
  | cons tier rest ih =>
    rw [Funnel.runTiers] at h
    match ht : Funnel.runTier config ledger source attemptNo replies tier s with
    | .error e => simp [ht, bind, Except.bind] at h
    | .ok (t, decision) =>
      have hkept := hm.runTier ht hs
      rw [ht] at h
      cases decision with
      | refused | accepted =>
        cases h
        exact hkept
      | escalate => exact ih h hkept

/-- The verdict is read off a session that has what every session keeps. -/
theorem runFunnel (hm : Maintains source attemptNo P) {verdict : Extraction.Verdict} {calls : List Call}
    (h : Funnel.runFunnel config ledger source attemptNo replies = .ok (verdict, calls))
    (h0 : P { gateResults := layoutCacheMiss }) :
    ∃ s, P s ∧ verdict.gates = s.gateResults ∧ verdict.attempts = s.attempts := by
  unfold Funnel.runFunnel at h
  match ht : Funnel.runTiers config ledger source attemptNo replies tiers { gateResults := layoutCacheMiss } with
  | .error e => simp [ht, bind, Except.bind] at h
  | .ok (s, fields) =>
    simp only [ht, bind, Except.bind, pure, Except.pure, Except.ok.injEq, Prod.mk.injEq] at h
    rw [← h.1]
    exact ⟨s, hm.runTiers ht h0, rfl, rfl⟩

end Maintains

/-- Whatever the models reply, the funnel does not override a gate. -/
theorem runFunnel_override {verdict : Extraction.Verdict} {calls : List Call}
    (h : runFunnel config ledger source attemptNo replies = .ok (verdict, calls)) :
    verdict.gates.operatorOverride = none := by
  have hkeeps : Maintains source attemptNo fun s => s.gateResults.operatorOverride = none :=
    ⟨fun _ _ => id, fun _ _ => id, fun _ => id, fun _ _ => id, fun _ _ _ => id⟩
  obtain ⟨s, hs, hgates, _⟩ := hkeeps.runFunnel h rfl
  rw [hgates, hs]

/-- The funnel dates none of the rows it logs. -/
theorem runFunnel_undated {verdict : Extraction.Verdict} {calls : List Call}
    (h : runFunnel config ledger source attemptNo replies = .ok (verdict, calls)) :
    ∀ row, row ∈ verdict.attempts → row.startedAt = none ∧ row.endedAt = none := by
  have hkeeps : Maintains source attemptNo fun s => ∀ row, row ∈ s.attempts → row.startedAt = none ∧ row.endedAt = none := by
    refine ⟨fun _ _ => id, fun _ _ => id, fun _ => id, fun s tier hs row hrow => ?_, fun _ _ _ => id⟩
    rcases List.mem_append.mp hrow with hold | hnew
    · exact hs row hold
    · rw [List.mem_singleton.mp hnew]
      exact ⟨rfl, rfl⟩
  obtain ⟨s, hs, _, hattempts⟩ := hkeeps.runFunnel h fun _ hrow => nomatch hrow
  rw [hattempts]
  exact hs

end DocPipeline.Funnel

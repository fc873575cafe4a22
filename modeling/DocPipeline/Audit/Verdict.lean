import DocPipeline.Effects.Funnel
import DocPipeline.Schedule

/-!
# What does the funnel's verdict rest on?

Two loops share the variables of `run_funnel`. A tier that is asked again starts from
nothing, and the entries of the gate results that a later tier does not overwrite belong
to no fields the funnel returns. What it returns is therefore paired with its own gates,
and the calls it makes are counted whether it returns or raises.
-/
namespace DocPipeline.Audit

set_option autoImplicit false

open Funnel Gates

variable {config : GateConfig} {ledger : Tier → Db} {source : Source} {attemptNo : Nat}
  {replies : Tier → Nat → Reply}

/-- The fields are the dump of the last reply of the tier `tierUsed` names, the recorded
entries are the results of the schema and of the five gates for exactly these fields, and
none of them blocks. -/
structure Certified (config : GateConfig) (db : Db) (source : Source) (reply : Nat → Reply) (tier : Tier) (k : Nat)
    (gates : GateResults) (fields : Fields) (model : ExtractedFields) (report : GateReport) : Prop where
  last : ∃ i, k = i + 1 ∧ reply i = .valid model
  dump : fields = model.modelDump
  tierUsed : gates.tierUsed = some tier
  run : runAll config db source.docId source.docType fields source.text = .ok report
  schema : gates.schema = some ⟨.pass, none⟩
  grounding : gates.grounding = some report.grounding
  arithmetic : gates.arithmetic = some report.arithmetic
  ibanMod97 : gates.ibanMod97 = some report.ibanMod97
  plausibility : gates.plausibility = some report.plausibility
  businessDedupe : gates.businessDedupe = some report.businessDedupe
  noFail : ∀ e, e ∈ report.entries → e.1 ∈ blockingGates → e.2.outcome ≠ .fail
  noInconclusive : ∀ e, e ∈ report.entries → onInconclusive e.1 = some .block → e.2.outcome ≠ .inconclusive

theorem passes_of_not_blocked {report : GateReport} (h : report.blocked = false) :
    (∀ e, e ∈ report.entries → e.1 ∈ blockingGates → e.2.outcome ≠ .fail) ∧
    ∀ e, e ∈ report.entries → onInconclusive e.1 = some .block → e.2.outcome ≠ .inconclusive := by
  simp only [GateReport.blocked, Bool.or_eq_false_iff, GateReport.blockingFail, GateReport.blockingInconclusive,
    List.any_eq_false, Bool.and_eq_true, decide_eq_true_eq, not_and] at h
  exact ⟨fun e he hb hf => h.1 e he hf hb, fun e he hb hi => h.2 e he hi hb⟩

/-- A tier that accepts certifies what it accepts. -/
theorem certified_of_accepted {tier : Tier} {s s' : Session} {calls : List Call} {k : Nat} {fields : Fields}
    (h : TierEnds config (ledger tier) source (replies tier) tier s calls k (.ok (s', .accepted fields))) :
    ∃ model report, Certified config (ledger tier) source (replies tier) tier k s'.gateResults fields model report := by
  cases h with
  | @accepted _ i model report hk hr hg hb _ hgates =>
    obtain ⟨hfail, hinconclusive⟩ := passes_of_not_blocked hb
    refine ⟨model, report, ⟨i, hk, hr⟩, rfl, ?_, hg, ?_, ?_, ?_, ?_, ?_, ?_, hfail, hinconclusive⟩ <;>
    · rw [hgates]
      rfl

/-- The number of calls of each tier. -/
def callsOf (cheap strong : Nat) : Tier → Nat
  | .cheap => cheap
  | .strong => strong

theorem asks_callsOf {cheap strong : Nat} (hcheap : Asks config (replies .cheap) cheap)
    (hstrong : Asks config (replies .strong) strong) (tier : Tier) :
    Asks config (replies tier) (callsOf cheap strong tier) := by
  cases tier with
  | cheap => exact hcheap
  | strong => exact hstrong

theorem asks_zero (config : GateConfig) (reply : Nat → Reply) : Asks config reply 0 :=
  ⟨Nat.zero_le _, fun _ h => absurd h (Nat.not_lt_zero _)⟩

/-- Every call the funnel makes is within its tier's budget and follows none that was
final, the strong tier is asked only after the cheap one gave nothing acceptable, these are the
calls that come with every verdict, and what the funnel returns is certified. -/
theorem funnel_sound (config : GateConfig) (ledger : Tier → Db) (source : Source) (attemptNo : Nat)
    (replies : Tier → Nat → Reply) :
    ∃ count : Tier → Nat,
      (callsMade config ledger source attemptNo replies).map Call.tier =
        List.replicate (count .cheap) .cheap ++ List.replicate (count .strong) .strong ∧
      (∀ tier, Asks config (replies tier) (count tier)) ∧
      (0 < count .strong → Escalates config (ledger .cheap) source (replies .cheap) (count .cheap)) ∧
      ∀ verdict made, runFunnel config ledger source attemptNo replies = .ok (verdict, made) →
        made = callsMade config ledger source attemptNo replies ∧
        ∀ fields, verdict.fields = some fields → ∃ tier model report,
          Certified config (ledger tier) source (replies tier) tier (count tier) verdict.gates fields model report := by
  obtain ⟨cheap, hcheap, hcalls, hends⟩ :=
    runTier_ends config ledger source attemptNo replies .cheap { gateResults := layoutCacheMiss }
  simp only [List.map_nil, List.nil_append] at hcalls
  -- it is enough to certify what is returned
  suffices hcount : ∃ count : Tier → Nat,
      (callsMade config ledger source attemptNo replies).map Call.tier =
        List.replicate (count .cheap) .cheap ++ List.replicate (count .strong) .strong ∧
      (∀ tier, Asks config (replies tier) (count tier)) ∧
      (0 < count .strong → Escalates config (ledger .cheap) source (replies .cheap) (count .cheap)) ∧
      ∀ verdict made fields, runFunnel config ledger source attemptNo replies = .ok (verdict, made) →
        verdict.fields = some fields → ∃ tier model report,
          Certified config (ledger tier) source (replies tier) tier (count tier) verdict.gates fields model report by
    obtain ⟨count, hmade, hasks, hstrong, hcertified⟩ := hcount
    exact ⟨count, hmade, hasks, hstrong, fun verdict made h =>
      ⟨runFunnel_calls h, fun fields hf => hcertified verdict made fields h hf⟩⟩
  simp only [callsMade, runFunnel, tiers, runTiers, tiersCalls, bind, Except.bind, pure, Except.pure]
  generalize hr : runTier config ledger source attemptNo replies .cheap { gateResults := layoutCacheMiss } = r at hends ⊢
  -- the cheap tier ends the funnel: the strong one gets no call
  have honly : ∀ tier, Asks config (replies tier) (callsOf cheap 0 tier) := asks_callsOf hcheap (asks_zero config _)
  have hnone : 0 < callsOf cheap 0 .strong →
      Escalates config (ledger .cheap) source (replies .cheap) (callsOf cheap 0 .cheap) :=
    fun h => absurd h (Nat.lt_irrefl 0)
  cases hends with
  | raised => exact ⟨callsOf cheap 0, by simpa [callsOf] using hcalls, honly, hnone, fun _ _ _ h => by cases h⟩
  | refused =>
    refine ⟨callsOf cheap 0, by simpa [callsOf] using hcalls, honly, hnone, fun verdict made fields h hf => ?_⟩
    cases h
    cases hf
  | accepted hk hreply hg hb hs hgates =>
    refine ⟨callsOf cheap 0, by simpa [callsOf] using hcalls, honly, hnone, fun verdict made fields h hf => ?_⟩
    cases h
    cases hf
    exact ⟨.cheap, certified_of_accepted (.accepted hk hreply hg hb hs hgates)⟩
  | @escalated s _ hesc hs =>
    obtain ⟨strong, hstrong, hcalls', hends'⟩ := runTier_ends config ledger source attemptNo replies .strong s
    rw [hs, hcalls] at hcalls'
    have hboth : ∀ tier, Asks config (replies tier) (callsOf cheap strong tier) := asks_callsOf hcheap hstrong
    dsimp only
    generalize runTier config ledger source attemptNo replies .strong s = r' at hends' ⊢
    cases hends' with
    | raised => exact ⟨callsOf cheap strong, hcalls', hboth, fun _ => hesc, fun _ _ _ h => by cases h⟩
    | refused =>
      refine ⟨callsOf cheap strong, hcalls', hboth, fun _ => hesc, fun verdict made fields h hf => ?_⟩
      cases h
      cases hf
    | escalated _ _ hs' =>
      rw [← hs'] at hcalls'
      refine ⟨callsOf cheap strong, hcalls', hboth, fun _ => hesc, fun verdict made fields h hf => ?_⟩
      cases h
      cases hf
    | accepted hk hreply hg hb hs' hgates =>
      refine ⟨callsOf cheap strong, hcalls', hboth, fun _ => hesc, fun verdict made fields h hf => ?_⟩
      cases h
      cases hf
      exact ⟨.strong, certified_of_accepted (.accepted hk hreply hg hb hs' hgates)⟩

def widgetInvoice : Source := ⟨"crc32c-a", .invoice, "INV-1\nSeller: Acme\nLine Item: Widget | 100.00\nTotal: 100.00\n"⟩

def widgetFields (total : Int) : ExtractedFields where
  invoiceNo := some "INV-1"
  seller := some "Acme"
  totalCents := some total
  lineItems := some [⟨"Widget", 10000⟩]

/-- The cheap tier reads a total that does not add up; the strong one is told to repair its
first reply, and then reads the invoice right. -/
def escalating : Tier → Nat → Reply
  | .cheap, 0 => .error .transient "429"
  | .cheap, _ => .valid (widgetFields 1)
  | .strong, 0 => .error .unparseable "here you are"
  | .strong, _ => .valid (widgetFields 10000)

theorem strong_reply_certified : ∃ verdict made fields,
    runFunnel .defaults (fun _ => {}) widgetInvoice 1 escalating = .ok (verdict, made) ∧
    verdict.fields = some fields ∧ ∃ count : Tier → Nat, ∃ tier model report,
      Certified .defaults {} widgetInvoice (escalating tier) tier (count tier) verdict.gates fields model report := by
  have hfields : (runFunnel .defaults (fun _ => {}) widgetInvoice 1 escalating).toOption.map (fun r => r.1.fields) =
      some (some (widgetFields 10000).modelDump) := by decide +kernel
  match hr : runFunnel .defaults (fun _ => {}) widgetInvoice 1 escalating with
  | .error e =>
    rw [hr] at hfields
    cases hfields
  | .ok (verdict, made) =>
    rw [hr] at hfields
    have hf : verdict.fields = some (widgetFields 10000).modelDump := Option.some.inj hfields
    obtain ⟨count, _, _, _, hcert⟩ := funnel_sound .defaults (fun _ => {}) widgetInvoice 1 escalating
    obtain ⟨_, hall⟩ := hcert verdict made hr
    obtain ⟨tier, model, report, h⟩ := hall _ hf
    exact ⟨verdict, made, _, rfl, hf, count, tier, model, report, h⟩

end DocPipeline.Audit

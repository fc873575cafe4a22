import DocPipeline.Audit.Redrive
import DocPipeline.Effects.Funnel
import DocPipeline.Effects.Operator

/-!
# Does an override stay visible?

A document becomes complete in two ways: an auto-post writes the gate results of the run
that wins, an operator's acceptance writes the results it has read, with the override. Both
also write a document that is complete already. So `operator_override` says how a document
became complete exactly as long as neither of the two overwrites the work of the other.
-/
namespace DocPipeline.Audit

set_option autoImplicit false

open Lib Lib.Transaction Sys

variable {site : Deployment} {s t : Sys} {a : Action} {d : DocId} {gates : GateResults}

/-- The gate results of a document that is complete. -/
def standing (db : Db) (d : DocId) : Option GateResults :=
  ((db.documents.lookup d).filter fun row => row.state = .complete).map Document.gateResults

theorem standing_of_lookup {db db' : Db} (h : db'.documents.lookup d = db.documents.lookup d) :
    standing db' d = standing db d := by
  rw [standing, standing, h]

theorem standing_write {db : Db} {docId : DocId} (row row' : Document) :
    standing (db.write docId row row') d =
      if d = docId then if row'.state = .complete then some row'.gateResults else none else standing db d := by
  unfold standing
  rw [Db.write_lookup]
  split
  · by_cases hc : row'.state = .complete <;> simp [hc, Option.filter]
  · rfl

theorem standing_of_row {db : Db} {row : Document} (hrow : db.documents.lookup d = some row) :
    standing db d = if row.state = .complete then some row.gateResults else none := by
  unfold standing
  rw [hrow]
  by_cases hc : row.state = .complete <;> simp [hc, Option.filter]

theorem standing_eq_some {db : Db} : standing db d = some gates ↔
    ∃ row, db.documents.lookup d = some row ∧ row.state = .complete ∧ row.gateResults = gates := by
  simp [standing, and_assoc]

/-- What an operation other than the two that complete a document leaves of its standing. -/
theorem standing_of_operation {db db' : Db} {op : Operation} (h : Operation.Step db op db')
    (hpost : ∀ fields gates payload, op ≠ .post d fields gates payload)
    (haccept : ∀ gates payload, op ≠ .accept d gates payload) :
    standing db' d = standing db d ∨ standing db' d = none := by
  have hleft : ∀ {docId : DocId} (row row' : Document), row'.state ≠ .complete →
      standing (db.write docId row row') d = standing db d ∨ standing (db.write docId row row') d = none := by
    intro docId row row' hstate
    rw [standing_write, if_neg hstate]
    by_cases hd : d = docId
    · exact Or.inr (if_pos hd)
    · exact Or.inl (if_neg hd)
  have hkept : ∀ {docId : DocId} {row row' : Document}, db.documents.lookup docId = some row →
      row'.state = row.state → row'.gateResults = row.gateResults →
      standing (db.write docId row row') d = standing db d := by
    intro docId row row' hrow hstate hgates
    rw [standing_write, hstate, hgates]
    by_cases hd : d = docId
    · rw [if_pos hd, standing_of_row (hd ▸ hrow)]
    · rw [if_neg hd]
  by_cases hw : op.writes = some d
  · cases h with
    | @insert docId row _ hfresh =>
      cases hw
      right
      have hlookup : (db.documents.insert d row).lookup d = some row := AList.lookup_insert _
      rw [standing, hlookup]
      rcases hfresh.state with hs | hs | hs <;> simp [hs, Option.filter]
    | move _ _ hnot => exact hleft _ _ hnot
    | note hrow | fallThrough hrow | split hrow | rekey hrow => exact Or.inl (hkept hrow rfl rfl)
    | recordShard hrow => exact Or.inl (hkept hrow rfl rfl)
    | route | settle => exact hleft _ _ (fun he => nomatch he)
    | post =>
      cases hw
      exact absurd rfl (hpost _ _ _)
    | accept =>
      cases hw
      exact absurd rfl (haccept _ _)
    | send | aside => cases hw
  · exact Or.inl (standing_of_lookup (h.elsewhere hw).1)

/-! ## The two steps that complete a document -/

/-- `accept_review` writes the gate results it has read, with the override. -/
structure Accepts (s : Sys) (a : Action) (d : DocId) (gates : GateResults) : Prop where
  task : ∃ tid input reason actor row, a = .run tid input ∧
    s.tasks tid = some (.acceptReview d reason actor (.committing row)) ∧
    gates = Operator.overridden row.gateResults reason actor

/-- The auto-post writes the gate results of its run, on a row without a result. -/
structure Posts (s : Sys) (a : Action) (d : DocId) (gates : GateResults) : Prop where
  task : ∃ tid input assembled fields, a = .run tid input ∧
    s.tasks tid = some (.extraction d (.posting assembled fields gates)) ∧
    s.db.holdsKey d fields.seller fields.invoiceNo = false
  row : ∃ row, s.document d = some row ∧ row.extractionResult = none

theorem acceptReview_standing {w : World} {docId : DocId} {reason actor : String} {row : Document} :
    standing (Operator.acceptStep site docId reason actor w (.committing row)).1.db d = standing w.db d ∨
    d = docId ∧ standing (Operator.acceptStep site docId reason actor w (.committing row)).1.db d =
      some (Operator.overridden row.gateResults reason actor) := by
  simp only [Operator.acceptStep]
  rcases w.transact_cases (Operator.acceptReviewTx docId row reason actor)
    (.returned : Unit → Next Operator.AcceptPc Unit) .raised with ⟨_, db, hc, he⟩ | ⟨_, he⟩
  · rw [he]
    obtain ⟨current, m, hrow, _, rfl, hsame⟩ := Operator.acceptReviewTx_commits hc
    have hstanding : standing db d = standing (w.db.write docId current
        (current.accepted (Operator.overridden row.gateResults reason actor) w.db.now)) d :=
      standing_of_lookup (by rw [hsame.documents]; rfl)
    dsimp only
    rw [hstanding, standing_write]
    by_cases hd : d = docId
    · exact Or.inr ⟨hd, if_pos hd⟩
    · exact Or.inl (if_neg hd)
  · rw [he]
    exact Or.inl rfl

theorem posting_standing {w : World} {docId : DocId} {verdict : Extraction.Verdict} {assembled : Artifact}
    {fields : Fields} :
    standing (Extraction.step site docId verdict w (.posting assembled fields gates)).1.db d = standing w.db d ∨
    d = docId ∧ w.db.holdsKey docId fields.seller fields.invoiceNo = false ∧
      (∃ row, w.db.documents.lookup docId = some row ∧ row.extractionResult = none) ∧
      standing (Extraction.step site docId verdict w (.posting assembled fields gates)).1.db d = some gates := by
  simp only [Extraction.step]
  rcases w.transact_cases (Extraction.autoPost site docId assembled fields gates)
    (fun won => (.returned (if won then .complete else .discardedNotFirstWriter) : Next Extraction.Pc Extraction.Result))
    (fun e => if e = .uniqueViolation then .goto (.routing (Extraction.duplicateAtCommit gates) .reviewDuplicate)
      else .raised e) with ⟨_, db, hc, he⟩ | ⟨_, he⟩
  · rw [he]
    dsimp only
    rcases Extraction.autoPost_commits.mp hc with ⟨_, rfl, _⟩ | ⟨row, hrow, hk, ⟨_, _, rfl⟩ | ⟨_, hnone, rfl⟩⟩
    · exact Or.inl rfl
    · left
      rw [standing_write]
      by_cases hd : d = docId
      · rw [if_pos hd, standing_of_row (hd ▸ hrow)]
        rfl
      · rw [if_neg hd]
    · have hsent : ∀ db topic payload, standing (Db.insertOutbox db docId topic payload) d = standing db d :=
        fun _ _ _ => standing_of_lookup rfl
      rw [hsent, standing_write]
      by_cases hd : d = docId
      · exact Or.inr ⟨hd, hk, ⟨row, hrow, hnone⟩, if_pos hd⟩
      · exact Or.inl (if_neg hd)
  · rw [he]
    exact Or.inl rfl

/-- Any other task keeps the standing, or takes it away. -/
theorem standing_of_performs {db db' : Db} {task : Task} (h : Performs (task.Does site db) db db')
    (hpost : ∀ assembled fields gates, task ≠ .extraction d (.posting assembled fields gates))
    (haccept : ∀ reason actor row, task ≠ .acceptReview d reason actor (.committing row)) :
    standing db' d = standing db d ∨ standing db' d = none := by
  refine h.relates (R := fun m m' => standing m' d = standing m d ∨ standing m' d = none) (fun _ => Or.inl rfl) ?_ ?_
  · rintro m₁ m₂ m₃ hfirst (hkept | hnone)
    · rw [hkept]
      exact hfirst
    · exact Or.inr hnone
  · intro m op m' hd hs
    refine standing_of_operation hs (fun fields gates payload he => ?_) fun gates payload he => ?_
    · subst he
      obtain ⟨pc, rfl, rfl, hd⟩ := hd.closing rfl
      cases hd
      exact hpost _ _ _ rfl
    · subst he
      obtain ⟨reason, actor, row, rfl, _⟩ := hd.accepting
      exact haccept _ _ _ rfl

/-- What a step leaves of the standing of a document. -/
theorem standing_of_step (h : Step site s a t) : standing t.db d = standing s.db d ∨ standing t.db d = none ∨
    ∃ gates, standing t.db d = some gates ∧ (Accepts s a d gates ∨ Posts s a d gates) := by
  cases step_kind h with
  | idle => exact Or.inl rfl
  | @ran tid input task r htask hr =>
    by_cases hpost : ∃ assembled fields gates, task = .extraction d (.posting assembled fields gates)
    · obtain ⟨assembled, fields, gates, rfl⟩ := hpost
      cases hr
      have hstep : standing (Extraction.step site d input.verdict s.world (.posting assembled fields gates)).1.db d =
          standing s.db d ∨ _ := posting_standing
      rcases hstep with hkept | ⟨_, hk, hrow, hnew⟩
      · exact Or.inl hkept
      · exact Or.inr (Or.inr ⟨gates, hnew, Or.inr ⟨⟨tid, input, assembled, fields, rfl, htask, hk⟩, hrow⟩⟩)
    · by_cases haccept : ∃ reason actor row, task = .acceptReview d reason actor (.committing row)
      · obtain ⟨reason, actor, row, rfl⟩ := haccept
        cases hr
        have hstep : standing (Operator.acceptStep site d reason actor s.world (.committing row)).1.db d =
            standing s.db d ∨ _ := acceptReview_standing
        rcases hstep with hkept | ⟨_, hnew⟩
        · exact Or.inl hkept
        · exact Or.inr (Or.inr ⟨_, hnew, Or.inl ⟨tid, input, reason, actor, row, rfl, htask, rfl⟩⟩)
      · have hother : standing r.1.db d = standing s.db d ∨ standing r.1.db d = none := by
          refine standing_of_performs (Task.step_performs hr) (fun assembled fields gates he => ?_)
            fun reason actor row he => ?_
          · exact hpost ⟨_, _, _, he⟩
          · exact haccept ⟨_, _, _, he⟩
        exact hother.imp id Or.inl
  | relayed hrelay => exact Or.inl (standing_of_lookup (by rw [(relay_keeps hrelay).1.documents]))
  | sunk hsink =>
    rcases sink_posts hsink with hdb | ⟨_, _, _, _, _, hdb⟩
    · exact Or.inl (by rw [hdb])
    · exact Or.inl (standing_of_lookup (by rw [hdb]))

/-! ## How a document became complete -/

inductive Entry where
  | operator
  | gates (results : GateResults)

/-- The entry of `d` into `complete` that a step makes, unless it was complete before. -/
def entry (d : DocId) (s : Sys) (a : Action) (t : Sys) : Latest Entry :=
  if (standing s.db d).isSome || (standing t.db d).isNone then ⟨none⟩
  else match a with
    | .run tid _ =>
      match s.tasks tid with
      | some (.acceptReview _ _ _ _) => ⟨some .operator⟩
      | some (.extraction _ (.posting _ _ gates)) => ⟨some (.gates gates)⟩
      | _ => ⟨none⟩
    | _ => ⟨none⟩

/-- What a run takes for the funnel's verdict is one that `run_funnel` returns. -/
def answered (s : Sys) : Action → Prop
  | .run tid input => ∀ d assembled attemptNo,
      s.tasks tid = some (.extraction d (.extracting assembled attemptNo)) →
      ∃ config ledger source replies calls, source.docId = d ∧
        Funnel.runFunnel config ledger source attemptNo replies = .ok (input.verdict, calls)
  | _ => True

/-- No acceptance commits on a document that is complete without an override, and no
auto-post takes effect on a document that is complete. -/
def undisturbed (s : Sys) : Action → Bool
  | .run tid _ =>
    match s.tasks tid with
    | some (.acceptReview d _ _ (.committing _)) =>
      (s.document d).all fun row => row.state ≠ .complete || row.gateResults.operatorOverride.isSome
    | some (.extraction d (.posting _ fields _)) =>
      (s.document d).all fun row => row.state ≠ .complete || row.extractionResult.isSome ||
        s.db.holdsKey d fields.seller fields.invoiceNo
    | _ => true
  | _ => true

/-- The gate results a run is about to post. -/
def carried : Task → Option GateResults
  | .extraction _ (.checkingFlag _ _ gates) | .extraction _ (.posting _ _ gates) => some gates
  | _ => none

/-- No run is about to post an override. -/
def Plain (s : Sys) : Prop :=
  ∀ tid task gates, s.tasks tid = some task → carried task = some gates → gates.operatorOverride = none

theorem plain_step (hi : Plain s) (hg : answered s a) (hs : Step site s a t) : Plain t := by
  intro tid task gates htask hcarried
  obtain ⟨docId, pc, rfl, hpc⟩ : ∃ docId pc, task = .extraction docId pc ∧
      ((∃ assembled fields, pc = .checkingFlag assembled fields gates) ∨
        ∃ assembled fields, pc = .posting assembled fields gates) := by
    unfold carried at hcarried
    split at hcarried <;> cases hcarried
    · exact ⟨_, _, rfl, Or.inl ⟨_, _, rfl⟩⟩
    · exact ⟨_, _, rfl, Or.inr ⟨_, _, rfl⟩⟩
  rcases extraction_of_step hs htask with hkept | rfl | ⟨input, pc', rfl, htask', hgoto⟩
  · exact hi tid _ gates hkept hcarried
  · rcases hpc with ⟨_, _, he⟩ | ⟨_, _, he⟩ <;> cases he
  · have hgoes := Extraction.step_goes hgoto
    generalize (Extraction.step site docId input.verdict s.world pc').1 = w' at hgoes
    have hchecked : ∀ (doc : Document) (assembled : Artifact), Extraction.checkPages doc assembled ≠ .goto pc := by
      intro doc assembled he
      rcases Extraction.checkPages_goto he with rfl | ⟨_, rfl⟩ <;> rcases hpc with ⟨_, _, he⟩ | ⟨_, _, he⟩ <;> cases he
    cases hgoes with
    | found _ hcheck | readBack _ hcheck => exact absurd hcheck (hchecked _ _)
    | @accepted assembled attemptNo fields db _ _ =>
      obtain ⟨config, ledger, source, replies, calls, _, hfunnel⟩ := hg docId assembled attemptNo htask'
      cases hcarried
      exact Funnel.runFunnel_override hfunnel
    | enabled =>
      cases hcarried
      exact hi tid _ gates htask' rfl
    | opened | selected | stamped | absent | gathered | missing | wrote | counted | rejected | disabled | taken =>
      cases hcarried

/-- The override says how the document last became complete, and the gate results that an
auto-post wrote are still there. -/
def Visible (d : DocId) (s : Sys) (last : Latest Entry) : Prop :=
  ∀ gates, standing s.db d = some gates → ∃ e, last.value = some e ∧
    (gates.operatorOverride.isSome = true ↔ e = .operator) ∧ ∀ results, e = .gates results → gates = results

theorem visible_step {last : Latest Entry} (hi : Visible d s last) (hplain : Plain s)
    (hg : undisturbed s a = true) (hs : Step site s a t) : Visible d t (last + entry d s a t) := by
  intro gates hgates
  rcases standing_of_step (d := d) hs with hkept | hnone | ⟨gates', hnew, hcause⟩
  · rw [hkept] at hgates
    have hno : entry d s a t = ⟨none⟩ := by simp [entry, hgates]
    rw [hno]
    exact hi gates hgates
  · rw [hnone] at hgates
    cases hgates
  · rw [hgates] at hnew
    cases hnew
    cases hbefore : standing s.db d with
    | none =>
      rcases hcause with ⟨tid, input, reason, actor, row, rfl, htask, rfl⟩ |
        ⟨⟨tid, input, assembled, fields, rfl, htask, _⟩, _⟩
      · have hentry : entry d s (.run tid input) t = ⟨some .operator⟩ := by simp [entry, hgates, hbefore, htask]
        rw [hentry]
        exact ⟨.operator, rfl, iff_of_true rfl rfl, fun _ he => nomatch he⟩
      · have hentry : entry d s (.run tid input) t = ⟨some (.gates gates)⟩ := by simp [entry, hgates, hbefore, htask]
        rw [hentry]
        refine ⟨.gates gates, rfl, iff_of_false ?_ (fun he => nomatch he), fun _ he => by cases he; rfl⟩
        rw [hplain tid _ gates htask rfl]
        exact fun he => nomatch he
    | some old =>
      have hno : entry d s a t = ⟨none⟩ := by simp [entry, hbefore]
      rw [hno]
      obtain ⟨row, hrow, hc, rfl⟩ := standing_eq_some.mp hbefore
      have hdoc : s.document d = some row := hrow
      obtain ⟨e, hlast, hiff, _⟩ := hi _ hbefore
      rcases hcause with ⟨tid, input, reason, actor, row', rfl, htask, rfl⟩ |
        ⟨⟨tid, input, assembled, fields, rfl, htask, hfree⟩, row', hrow', hresult⟩
      · have hover : row.gateResults.operatorOverride.isSome = true := by simpa [undisturbed, htask, hdoc, hc] using hg
        obtain rfl := hiff.mp hover
        exact ⟨.operator, hlast, iff_of_true rfl rfl, fun _ he => nomatch he⟩
      · rw [hdoc] at hrow'
        cases hrow'
        simp [undisturbed, htask, hdoc, hc, hresult, hfree] at hg

theorem answered_of_judgedBy {replies : Nat → Funnel.Source → Nat → Tier → Nat → Funnel.Reply}
    (h : judgedBy .defaults replies s a = true) : answered s a := by
  cases a with
  | run tid input =>
    intro d assembled attemptNo htask
    simp only [judgedBy, htask, Option.any_eq_true, decide_eq_true_eq] at h
    obtain ⟨row, -, r, hr, hverdict⟩ := h
    refine ⟨.defaults, fun _ => s.db, ⟨d, row.docType, Operator.sourceText assembled⟩,
      replies tid ⟨d, row.docType, Operator.sourceText assembled⟩ attemptNo, r.2, rfl, ?_⟩
    rw [← hverdict]
    revert hr
    cases Funnel.runFunnel .defaults (fun _ => s.db) ⟨d, row.docType, Operator.sourceText assembled⟩ attemptNo
        (replies tid ⟨d, row.docType, Operator.sourceText assembled⟩ attemptNo) with
    | error e => exact nofun
    | ok made => exact fun hr => congrArg Except.ok (Option.some.inj hr)
  | tick | spawn | receive | crash | relay | sink => trivial

def refusal : Funnel.Reply := .error .refusal "no"

/-- The model refuses, and the operator accepts the document. -/
def refusedAccepted : List Action :=
  Schedule.intake ["a.pdf"] ++ Schedule.textLayer 0 ++ Schedule.extract 1 0 (verdictOn refusal) ++
    Schedule.turns 1 1 ++ Schedule.acceptReview 1 "crc32c-a"

def overridden (d : DocId) (s : Sys) : Bool :=
  (s.document d).any fun row => row.state = .complete && row.gateResults.operatorOverride.isSome

theorem overridden_inv (h : overridden d s = true) : ∃ row, s.document d = some row ∧ row.state = .complete ∧
    row.gateResults.operatorOverride.isSome = true := by
  obtain ⟨row, hrow, hs⟩ := (Option.any_eq_true ..).mp h
  rw [Bool.and_eq_true, decide_eq_true_eq] at hs
  exact ⟨row, hrow, hs⟩

/-- Two runs of the second scan read different sellers. The first scan is posted under the
pair of the first of them, so that one goes to review, and the operator accepts it. -/
def acceptedBesideLateRun : List Action :=
  bothWaiting ++ Schedule.extract 1 0 (verdictOn (reads "A")) ++
    Schedule.extract 2 1 (verdictOn (reads "A")) ++ Schedule.extract 3 1 (verdictOn (reads "B")) ++
    Schedule.turns 1 2 ++ Schedule.turns 2 3 ++ Schedule.turns 3 1 ++ Schedule.acceptReview 4 "crc32c-b"

end DocPipeline.Audit

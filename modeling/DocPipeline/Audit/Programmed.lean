import DocPipeline.Audit.OwnLine
import DocPipeline.Audit.Recording
import DocPipeline.Effects.Funnel
import DocPipeline.Stages.Behaviors

/-!
# What a programmed backend can get posted

The backend extracts the text or does what a test has it do: it fails, swaps the parties or
writes another total. Whatever it is programmed to do, an invoice whose written amounts add
up is recorded and posted as written, but for its parties. A document it is not programmed
for is recorded as its text is extracted, and so as its lines say where every label speaks
for its own line. The text is that of its object, which is left alone in the inbox.
-/
namespace DocPipeline.Audit

set_option autoImplicit false

open Lib Lib.Matcher Sys Gather Gates DeterministicExtractor

variable {site : Deployment} {config : GateConfig} {errors : List String} {behaviors : Behaviors}
  {engine : DocId → Nat → String} {s : Sys} {db db' : Db} {d : DocId} {fields : Fields}

/-- The fields are what the backend answers on the whole text of the document, at some attempt, and
on an invoice they add up. -/
def Answered (site : Deployment) (config : GateConfig) (behaviors : Behaviors) (engine : DocId → Nat → String) (db : Db)
    (d : DocId) (fields : Fields) : Prop :=
  ∃ row texts attemptNo answer, db.documents.lookup d = some row ∧ Texts site engine d row texts ∧
    behaviors.extract config d ("\n".intercalate texts) attemptNo = .ok (.fields answer) ∧
    fields = (modelValidate answer).modelDump ∧ (row.docType = .invoice → AddsUp fields)

theorem Answered.mono (h : Answered site config behaviors engine db d fields) (ho : db.Outlives db') :
    Answered site config behaviors engine db' d fields := by
  obtain ⟨row, texts, attemptNo, answer, hrow, htexts, hanswer, hdump, hadds⟩ := h
  obtain ⟨row', hrow', hout⟩ := ho.rows d row hrow
  exact ⟨row', texts, attemptNo, answer, hrow', htexts.congr hout.gcsPath hout.pageCount, hanswer, hdump,
    fun htype => hadds (hout.docType ▸ htype)⟩

theorem replyTo_valid {answer : Except (Funnel.ErrorKind × String) Answer} {model : ExtractedFields}
    (h : replyTo errors answer = .valid model) : ∃ fields, answer = .ok (.fields fields) ∧ model = modelValidate fields := by
  match answer with
  | .error (_, _) => cases h
  | .ok .notANumber => cases h
  | .ok (.fields fields) =>
    cases h
    exact ⟨fields, rfl, rfl⟩

theorem answered_established (site : Deployment) (config : GateConfig) (errors : List String) (behaviors : Behaviors)
    (engine : DocId → Nat → String) :
    Established site (Rightful site engine)
      (fun s a => readsOwn engine s a = true ∧ RepliedBy config (behaviors.replies config errors) s a)
      (Answered site config behaviors engine) where
  initially := rightful_initial site engine
  kept hi hg hs := rightful_step hi hg.1 hs
  sound hi := hi.provided.sound
  mono := Answered.mono
  accepted := by
    intro s tid input d assembled attemptNo fields hi hg htask hfields
    obtain ⟨row, texts, hrow, htexts, hpages⟩ := hi.whole htask
    obtain ⟨ledger, made, hfunnel⟩ := hg.2 d assembled attemptNo row htask hrow
    obtain ⟨tier, i, model, report, hreply, hdump, hrun, hblocked⟩ := Funnel.runFunnel_returns hfunnel hfields
    obtain ⟨answer, hanswer, rfl⟩ := replyTo_valid hreply
    have hnot := (GateReport.blocked_iff_of_runAll hrun).not.mp (ne_true_of_eq_false hblocked)
    simp only [not_or, not_and, not_not] at hnot
    obtain ⟨_, hadds, _⟩ := hnot
    rw [sourceText_whole hpages] at hanswer
    exact ⟨row, texts, attemptNo, answer, hrow, htexts, hanswer, hdump, hadds⟩

/-! ## A document nobody programmed -/

/-- The fields of a text, as the schema completes them. -/
def fieldsWritten (config : GateConfig) (text : String) : Fields := (modelValidate (defaultExtract config text)).modelDump

/-- What unambiguous lines say is what is extracted. -/
theorem extract_unambiguous (h : config.decimal '\n' = none) {lines : List Line} (hclear : Unambiguous config lines) :
    defaultExtract config (String.ofList (textOf lines)) = ownFields config lines :=
  extracted_of_own (fun key => (find_own_iff (bounded_key h key)).mpr (hclear.keys key))
    (fun key => (find_own_iff (bounded_total h key)).mpr (hclear.totals key))
    ((findAllAt_eq_iff (fun _ _ _ hmem => proper_item hmem) (laid_ownItems [] lines)).mpr hclear.items)

/-- The fields are extracted from the whole text, and are what its lines say where they are
unambiguous. -/
def AsWritten (site : Deployment) (config : GateConfig) (engine : DocId → Nat → String) (db : Db) (d : DocId)
    (fields : Fields) : Prop :=
  ∃ row texts, db.documents.lookup d = some row ∧ Texts site engine d row texts ∧
    fields = fieldsWritten config ("\n".intercalate texts) ∧
    ∀ lines, "\n".intercalate texts = String.ofList (textOf lines) → Unambiguous config lines →
      fields = (modelValidate (ownFields config lines)).modelDump

/-- When OCR reads a document's own images and the funnel asks the backend, a document the backend
is not programmed for is recorded, announced and posted as it is written, or not at all. -/
theorem recorded_as_written (hline : config.decimal '\n' = none) {as : List Action}
    (h : GuardedRun site (fun s a => readsOwn engine s a = true ∧ RepliedBy config (behaviors.replies config errors) s a)
      initial as s)
    (d : DocId) (hd : ∀ attemptNo, behaviors.lookup d attemptNo = none) :
    Attests s d (AsWritten site config engine s.db d) := by
  refine (attests_run (answered_established site config errors behaviors engine) h d).imp ?_
  rintro fields ⟨row, texts, attemptNo, answer, hrow, htexts, hanswer, hdump, _⟩
  have hextracted : answer = defaultExtract config ("\n".intercalate texts) := by
    rw [Behaviors.extract, Behaviors.spec, hd] at hanswer
    cases hanswer
    rfl
  subst hextracted
  refine ⟨row, texts, hrow, htexts, hdump, fun lines htext hclear => ?_⟩
  rw [hdump, htext, extract_unambiguous hline hclear]

def widgetText : String := "Invoice No: 1\nSeller: A\nBuyer: B\nLine Item: W | 5.00\nTotal: 5.00"

def widgetPdf : Blob := ⟨"a", 10, some Pdf.pdfType, .pages [widgetText]⟩

def oneWidget : Deployment := .defaults fun path => if path = "a.pdf" then some widgetPdf else none

/-- The verdict of a backend on the widget at its first attempt. -/
def widgetVerdict (behaviors : Behaviors) : Extraction.Verdict :=
  let source : Funnel.Source := ⟨"crc32c-a", .invoice, widgetText⟩
  match Funnel.runFunnel .defaults (fun _ => {}) source 1 (behaviors.replies .defaults [] source 1) with
  | .ok (verdict, _) => verdict
  | .error _ => ⟨none, {}, 0, []⟩

/-- The widget up to the commit of its verdict, in so many turns after it. -/
def widgetSettled (behaviors : Behaviors) (closing : Nat) : List Action :=
  Schedule.intake ["a.pdf"] ++ Schedule.textLayer 0 ++ Schedule.extract 1 0 (widgetVerdict behaviors) ++
    Schedule.turns 1 closing

/-- The widget from the bucket to the sink. -/
def widgetPosted (behaviors : Behaviors) : List Action :=
  widgetSettled behaviors 2 ++ Schedule.publish 1 ++ [.sink 0 .poll, .sink 0 .post]

/-- The run asks the backend as it is programmed. -/
def asksBackend (behaviors : Behaviors) (s : Sys) (a : Action) : Bool :=
  readsOwn readsScan s a && judgedBy .defaults (fun _ => behaviors.replies .defaults []) s a

theorem repliedBy_of_asksBackend {a : Action} (h : asksBackend behaviors s a = true) :
    readsOwn readsScan s a = true ∧ RepliedBy .defaults (behaviors.replies .defaults []) s a := by
  obtain ⟨hreads, hjudged⟩ := (Bool.and_eq_true _ _).mp h
  exact ⟨hreads, repliedBy_of_judgedBy hjudged⟩

/-- A backend that refuses another document. -/
def refusesOther : Behaviors := Behaviors.clear.set "crc32c-b" none { behavior := .refusal }

theorem widget_as_written :
    ∃ s row, GuardedRun oneWidget (fun s a => readsOwn readsScan s a = true ∧
        RepliedBy .defaults (refusesOther.replies .defaults []) s a) initial (widgetPosted refusesOther) s ∧
      s.db.postedDocuments.lookup "crc32c-a" = some row ∧ row.fields.totalCents = some 500 ∧
      Attests s "crc32c-a" (AsWritten oneWidget .defaults readsScan s.db "crc32c-a") := by
  obtain ⟨s, hrun, hs⟩ := exists_guardedRun oneWidget (asksBackend refusesOther) (widgetPosted refusesOther)
    (fun s => (s.db.postedDocuments.lookup "crc32c-a").any fun row : PostedDocument =>
      decide (row.fields.totalCents = some 500)) (by decide +kernel)
  obtain ⟨row, hrow, htotal⟩ := (Option.any_eq_true ..).mp hs
  have hasked := hrun.mono fun s a => repliedBy_of_asksBackend
  refine ⟨s, row, hasked, hrow, of_decide_eq_true htotal, recorded_as_written rfl hasked "crc32c-a" fun attemptNo => ?_⟩
  exact Behaviors.lookup_set_other _ _ _ _ (by decide) attemptNo

/-! ## An invoice that adds up -/

/-- Amounts that add up leave one total. -/
theorem total_unique {fields' : Fields} (h : AddsUp fields) (h' : AddsUp fields')
    (hitems : fields'.lineItems = fields.lineItems) (htax : fields'.taxCents = fields.taxCents) :
    fields'.totalCents = fields.totalCents := by
  obtain ⟨items, total, hi, _, ht, _, htotal⟩ := h
  obtain ⟨items', total', hi', _, ht', _, htotal'⟩ := h'
  obtain rfl : items' = items := Option.some.inj (hi'.symm.trans (hitems.trans hi))
  rw [ht, ht', htotal, htotal', htax]

/-- Whatever a spec makes of fields that add up still adds up only if the total is kept. -/
theorem answer_of_addsUp {spec : Spec} {text : String} {attemptNo : Nat} {answer : Fields}
    (hadds : AddsUp (defaultExtract config text)) (h : spec.extract config text attemptNo = .ok (.fields answer))
    (hanswer : AddsUp (modelValidate answer).modelDump) :
    answer = defaultExtract config text ∨ answer = swapRoles (defaultExtract config text) := by
  have hkept : ∀ cents, AddsUp (modelValidate (setTotal cents (defaultExtract config text))).modelDump →
      setTotal cents (defaultExtract config text) = defaultExtract config text := by
    intro cents hset
    have htotal := total_unique hadds hset rfl rfl
    simp only [modelDump_modelValidate, setTotal] at htotal
    simp only [setTotal, htotal]
  rw [Spec.extract] at h
  cases hb : spec.behavior with
  | refusal | contextOverflow | schemaInvalid | status429 | status529 | timeout =>
    rw [hb] at h
    cases h
  | correct =>
    rw [hb] at h
    cases h
    exact Or.inl rfl
  | swappedRoles =>
    rw [hb] at h
    cases h
    exact Or.inr rfl
  | notGrounded | injectedTotal =>
    rw [hb] at h
    cases h
    exact Or.inl (hkept _ hanswer)
  | divergeOnRedelivery =>
    rw [hb] at h
    cases h
    by_cases hlate : 2 ≤ attemptNo
    · rw [if_pos hlate] at hanswer ⊢
      exact Or.inl (hkept _ hanswer)
    · rw [if_neg hlate]
      exact Or.inl rfl

/-- Whatever the backend is programmed to do, and however often the text is extracted, an invoice
whose written amounts add up is recorded, announced and posted as it is written, but for its
parties, or not at all. -/
theorem total_as_written {as : List Action}
    (h : GuardedRun site (fun s a => readsOwn engine s a = true ∧ RepliedBy config (behaviors.replies config errors) s a)
      initial as s)
    (d : DocId) : Attests s d fun fields => ∃ row texts, s.document d = some row ∧ Texts site engine d row texts ∧
      (row.docType = .invoice → AddsUp (defaultExtract config ("\n".intercalate texts)) →
        fields = fieldsWritten config ("\n".intercalate texts) ∨
        fields = swapRoles (fieldsWritten config ("\n".intercalate texts))) := by
  refine (attests_run (answered_established site config errors behaviors engine) h d).imp ?_
  rintro fields ⟨row, texts, attemptNo, answer, hrow, htexts, hanswer, hdump, hfields⟩
  refine ⟨row, texts, hrow, htexts, fun htype hadds => ?_⟩
  subst hdump
  exact (answer_of_addsUp hadds hanswer (hfields htype)).imp (fun he => by rw [he]; rfl) fun he => by rw [he]; rfl

/-- A backend that swaps the parties of the widget. -/
def swapsParties : Behaviors := Behaviors.clear.set "crc32c-a" none { behavior := .swappedRoles }

theorem swapped_total_as_written :
    ∃ s row, GuardedRun oneWidget (fun s a => readsOwn readsScan s a = true ∧
        RepliedBy .defaults (swapsParties.replies .defaults []) s a) initial (widgetPosted swapsParties) s ∧
      s.db.postedDocuments.lookup "crc32c-a" = some row ∧ row.fields.seller = some "B" ∧
      Attests s "crc32c-a" fun fields => ∃ row texts, s.document "crc32c-a" = some row ∧
        Texts oneWidget readsScan "crc32c-a" row texts ∧
        (row.docType = .invoice → AddsUp (defaultExtract .defaults ("\n".intercalate texts)) →
          fields = fieldsWritten .defaults ("\n".intercalate texts) ∨
          fields = swapRoles (fieldsWritten .defaults ("\n".intercalate texts))) := by
  obtain ⟨s, hrun, hs⟩ := exists_guardedRun oneWidget (asksBackend swapsParties) (widgetPosted swapsParties)
    (fun s => (s.db.postedDocuments.lookup "crc32c-a").any fun row : PostedDocument => decide (row.fields.seller = some "B"))
    (by decide +kernel)
  obtain ⟨row, hrow, hseller⟩ := (Option.any_eq_true ..).mp hs
  have hasked := hrun.mono fun s a => repliedBy_of_asksBackend
  exact ⟨s, row, hasked, hrow, of_decide_eq_true hseller, total_as_written hasked "crc32c-a"⟩

/-! ## A backend that fails -/

section Loop

variable {docId : DocId} {attemptNo : Nat} {tier : Tier} {message : String}

/-- A transient error is logged and asked again until the budget of the tier is spent. -/
theorem ask_transient (n i : Nat) (schema : Option GateResult) (hint : Option Funnel.RepairHint) (t : Funnel.Session) :
    Funnel.ask docId attemptNo tier (fun _ => .error .transient message) n i schema hint t =
      ({ t with
          attempts := t.attempts ++ List.replicate n (Funnel.transientRow docId attemptNo tier)
          calls := t.calls ++ List.replicate n ⟨tier, hint⟩ }, .nothing schema) := by
  induction n generalizing i t with
  | zero => simp [Funnel.ask]
  | succ n ih => simp [Funnel.ask, ih, List.replicate_succ]

/-- A reply the schema refuses is a repair each time, and each call after the first is told. -/
theorem ask_invalid (n i : Nat) (schema : Option GateResult) (hint : Option Funnel.RepairHint) (t : Funnel.Session) :
    Funnel.ask docId attemptNo tier (fun _ => .invalid errors) (n + 1) i schema hint t =
      ({ t with
          repairs := t.repairs + (n + 1)
          calls := t.calls ++ ⟨tier, hint⟩ :: List.replicate n ⟨tier, some (.schemaErrors errors)⟩ },
        .nothing (some (Funnel.schemaFail (.errors errors)))) := by
  induction n generalizing i schema hint t with
  | zero => simp [Funnel.ask]
  | succ n ih =>
    rw [Funnel.ask]
    simp only [ih, List.append_assoc, List.singleton_append, List.replicate_succ, Nat.add_assoc, Nat.add_comm 1]

end Loop

/-- The verdict and the calls when a backend fails, for each way to fail. -/
def failure (config : GateConfig) (errors : List String) (docId : DocId) (attemptNo : Nat) :
    Behavior → Option (Extraction.Verdict × List Funnel.Call)
  | .refusal => some (⟨none, { Funnel.layoutCacheMiss with schema := some (Funnel.schemaFail (.reason "refusal")) }, 0, []⟩,
      [⟨.cheap, none⟩])
  | .contextOverflow =>
    some (⟨none, { Funnel.layoutCacheMiss with schema := some (Funnel.schemaFail (.reason "context_overflow")) }, 0, []⟩,
      [⟨.cheap, none⟩, ⟨.strong, none⟩])
  | .schemaInvalid =>
    let told (tier : Tier) : List Funnel.Call :=
      ⟨tier, none⟩ :: List.replicate config.maxRepairAttempts ⟨tier, some (.schemaErrors errors)⟩
    some (⟨none, { Funnel.layoutCacheMiss with schema := some (Funnel.schemaFail (.errors errors)) },
      2 * (config.maxRepairAttempts + 1), []⟩, told .cheap ++ told .strong)
  | .status429 | .status529 | .timeout =>
    let logged (tier : Tier) : List AttemptRow :=
      List.replicate (config.maxRepairAttempts + 1) (Funnel.transientRow docId attemptNo tier)
    let called (tier : Tier) : List Funnel.Call := List.replicate (config.maxRepairAttempts + 1) ⟨tier, none⟩
    some (⟨none, Funnel.layoutCacheMiss, 0, logged .cheap ++ logged .strong⟩, called .cheap ++ called .strong)
  | .swappedRoles | .notGrounded | .injectedTotal | .divergeOnRedelivery | .correct => none

theorem runFunnel_failure {ledger : Tier → Db} {source : Funnel.Source} {attemptNo : Nat}
    {result : Extraction.Verdict × List Funnel.Call}
    (h : failure config errors source.docId attemptNo (behaviors.spec source.docId attemptNo).behavior = some result) :
    Funnel.runFunnel config ledger source attemptNo (behaviors.replies config errors source attemptNo) = .ok result := by
  have hreplies : ∀ answer, (behaviors.spec source.docId attemptNo).extract config source.text attemptNo = answer →
      behaviors.replies config errors source attemptNo = fun _ _ => replyTo errors answer := by
    rintro _ rfl
    rfl
  have htransient : ∀ message, Funnel.runFunnel config ledger source attemptNo (fun _ _ => .error .transient message) =
      .ok (⟨none, Funnel.layoutCacheMiss, 0,
          List.replicate (config.maxRepairAttempts + 1) (Funnel.transientRow source.docId attemptNo .cheap) ++
            List.replicate (config.maxRepairAttempts + 1) (Funnel.transientRow source.docId attemptNo .strong)⟩,
        List.replicate (config.maxRepairAttempts + 1) ⟨.cheap, none⟩ ++
          List.replicate (config.maxRepairAttempts + 1) ⟨.strong, none⟩) := by
    intro message
    simp [Funnel.runFunnel, Funnel.tiers, Funnel.runTiers, Funnel.runTier, ask_transient, Funnel.Session.recordSchema,
      bind, Except.bind, pure, Except.pure]
  generalize hspec : behaviors.spec source.docId attemptNo = spec at h hreplies
  cases hb : spec.behavior with
  | refusal | contextOverflow =>
    rw [hb] at h
    cases h
    rw [hreplies _ (by rw [Spec.extract, hb])]
    rfl
  | schemaInvalid =>
    rw [hb] at h
    cases h
    rw [hreplies _ (by rw [Spec.extract, hb])]
    have hrepairs : config.maxRepairAttempts + 1 + (config.maxRepairAttempts + 1) = 2 * (config.maxRepairAttempts + 1) :=
      (Nat.two_mul _).symm
    simp [replyTo, Funnel.runFunnel, Funnel.tiers, Funnel.runTiers, Funnel.runTier, ask_invalid, hrepairs,
      Funnel.Session.recordSchema, Funnel.Session.setSchema, bind, Except.bind, pure, Except.pure]
  | status429 | status529 | timeout =>
    rw [hb] at h
    cases h
    rw [hreplies _ (by rw [Spec.extract, hb])]
    exact htransient _
  | swappedRoles | notGrounded | injectedTotal | divergeOnRedelivery | correct =>
    rw [hb] at h
    cases h

/-- A run that has opened has a row. -/
def Opened (s : Sys) : Prop :=
  ∀ tid d pc, s.tasks tid = some (.extraction d pc) → pc ≠ .opening → ∃ row, s.document d = some row

theorem opened_step {a : Action} {t : Sys} (h : Opened s) (hs : Step site s a t) : Opened t := by
  intro tid d pc htask hne
  have hkept : ∀ {row : Document}, s.document d = some row → ∃ row', t.document d = some row' :=
    fun hrow => document_stays hs hrow
  rcases extraction_of_step hs htask with hold | rfl | ⟨input, pc', rfl, hbefore, hgoto⟩
  · obtain ⟨row, hrow⟩ := h tid d pc hold hne
    exact hkept hrow
  · exact absurd rfl hne
  · by_cases hopening : pc' = .opening
    · subst hopening
      obtain ⟨row, hrow, _⟩ := Extraction.opening_goto hgoto
      exact hkept hrow
    · obtain ⟨row, hrow⟩ := h tid d pc' hbefore hopening
      exact hkept hrow

/-- No verdict accepts anything of a document whose backend always fails. -/
theorem failing_established (site : Deployment)
    (hd : ∀ attemptNo, (failure config errors d attemptNo (behaviors.spec d attemptNo).behavior).isSome = true) :
    Established site (fun s => Sound False site s ∧ Opened s) (RepliedBy config (behaviors.replies config errors))
      (fun _ docId _ => docId ≠ d) where
  initially := ⟨sound_initial False site, fun _ _ _ h => by cases h⟩
  kept hi _ hs := ⟨sound_step hi.1 (fun hf => hf.elim) hs, opened_step hi.2 hs⟩
  sound hi := hi.1
  mono h _ := h
  accepted := by
    rintro s tid input d' assembled attemptNo fields hi hg htask hfields rfl
    obtain ⟨row, hrow⟩ := hi.2 tid d' _ htask nofun
    obtain ⟨ledger, made, hfunnel⟩ := hg d' assembled attemptNo row htask hrow
    obtain ⟨tier, i, model, _, hreply, _⟩ := Funnel.runFunnel_returns hfunnel hfields
    obtain ⟨answer, hanswer, rfl⟩ := replyTo_valid hreply
    have hfails := hd attemptNo
    rw [Behaviors.extract, Spec.extract] at hanswer
    cases hb : (behaviors.spec d' attemptNo).behavior with
    | refusal | contextOverflow | schemaInvalid | status429 | status529 | timeout =>
      rw [hb] at hanswer
      cases hanswer
    | swappedRoles | notGrounded | injectedTotal | divergeOnRedelivery | correct =>
      rw [hb] at hfails
      cases hfails

/-- A backend that fails at every attempt has its verdict and its calls from the way it fails, and
the document is recorded with the empty dictionary at most and announced by no run, whatever is
tried again and whatever OCR reads. -/
theorem failing_unrecorded {as : List Action}
    (h : GuardedRun site (RepliedBy config (behaviors.replies config errors)) initial as s)
    (d : DocId)
    (hd : ∀ attemptNo, (failure config errors d attemptNo (behaviors.spec d attemptNo).behavior).isSome = true) :
    (∀ ledger docType text attemptNo, ∃ result,
      failure config errors d attemptNo (behaviors.spec d attemptNo).behavior = some result ∧
      Funnel.runFunnel config ledger ⟨d, docType, text⟩ attemptNo
        (behaviors.replies config errors ⟨d, docType, text⟩ attemptNo) = .ok result) ∧
    Attests s d fun _ => False := by
  constructor
  · intro ledger docType text attemptNo
    obtain ⟨result, hresult⟩ := Option.isSome_iff_exists.mp (hd attemptNo)
    exact ⟨result, hresult, runFunnel_failure hresult⟩
  · exact (attests_run (failing_established site hd) h d).imp fun _ hne => hne rfl

/-- A backend that times out on the widget at every attempt. -/
def timesOut : Behaviors := Behaviors.clear.set "crc32c-a" none { behavior := .timeout }

theorem timed_out_unrecorded :
    ∃ s row, GuardedRun oneWidget (RepliedBy .defaults (timesOut.replies .defaults [])) initial
        (widgetSettled timesOut 1) s ∧
      s.document "crc32c-a" = some row ∧ row.extractionResult = some Fields.empty ∧ row.state = .review ∧
      (∀ ledger docType text attemptNo, ∃ result,
        failure .defaults [] "crc32c-a" attemptNo (timesOut.spec "crc32c-a" attemptNo).behavior = some result ∧
        Funnel.runFunnel .defaults ledger ⟨"crc32c-a", docType, text⟩ attemptNo
          (timesOut.replies .defaults [] ⟨"crc32c-a", docType, text⟩ attemptNo) = .ok result) ∧
      Attests s "crc32c-a" fun _ => False := by
  obtain ⟨s, hrun, hs⟩ := exists_guardedRun oneWidget (asksBackend timesOut) (widgetSettled timesOut 1)
    (fun s => (s.document "crc32c-a").any fun row : Document =>
      decide (row.extractionResult = some Fields.empty ∧ row.state = .review)) (by decide +kernel)
  obtain ⟨row, hrow, hsettled⟩ := (Option.any_eq_true ..).mp hs
  have hasked := hrun.mono fun s a hg => (repliedBy_of_asksBackend hg).2
  have htimesOut : ∀ attemptNo, timesOut.spec "crc32c-a" attemptNo = { behavior := .timeout } := by
    intro attemptNo
    rw [Behaviors.spec, timesOut, Behaviors.lookup_set_every]
    rfl
  refine ⟨s, row, hasked, hrow, (of_decide_eq_true hsettled).1, (of_decide_eq_true hsettled).2,
    failing_unrecorded hasked "crc32c-a" fun attemptNo => ?_⟩
  rw [htimesOut]
  rfl

end DocPipeline.Audit

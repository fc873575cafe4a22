import DocPipeline.Audit.Override
import DocPipeline.Audit.Posting
import DocPipeline.Audit.Provenance
import DocPipeline.Audit.Record
import DocPipeline.Reconciliation.ReadOnlyLane
import DocPipeline.Stages.Funnel

/-!
# From a verdict to the sink

The fields of a verdict go from the run that accepts them into the row, from there into a
message and from the message to the sink, and an operator announces what the row has. What
is known of the fields a verdict accepts on the text in hand is then known of all that is
recorded, announced or posted, in any order of steps.
-/
namespace DocPipeline.Audit

set_option autoImplicit false

open Lib Sys Gather

variable {site : Deployment} {engine : DocId → Nat → String} {s t : Sys} {a : Action} {db db' : Db} {d : DocId}
  {fields : Fields} {config : GateConfig} {replies : Funnel.Source → Nat → Tier → Nat → Funnel.Reply}
  {I : Sys → Prop} {G : Sys → Action → Prop} {P : Db → DocId → Fields → Prop}

/-- The accepted fields a run holds. -/
def fieldsOf : Extraction.Pc → Option Fields
  | .checkingFlag _ fields _ | .holding fields _ | .posting _ fields _ => some fields
  | _ => none

/-- The text of the whole document, as the funnel gets it. -/
theorem sourceText_whole {assembled : Artifact} {texts : List String} (h : assembled.pages = numbered texts) :
    Operator.sourceText assembled = "\n".intercalate texts := by
  rw [Operator.sourceText, h, sorted_of_sublist (List.Sublist.refl _), text_numbered]

/-- A step that records a verdict is given the funnel's on the text in hand, with these replies to a
document at an attempt and whatever the ledger held at each tier. -/
def RepliedBy (config : GateConfig) (replies : Funnel.Source → Nat → Tier → Nat → Funnel.Reply) (s : Sys) :
    Action → Prop
  | .run tid input => ∀ d assembled attemptNo row, s.tasks tid = some (.extraction d (.extracting assembled attemptNo)) →
      s.document d = some row → ∃ ledger made,
        Funnel.runFunnel config ledger ⟨d, row.docType, Operator.sourceText assembled⟩ attemptNo
          (replies ⟨d, row.docType, Operator.sourceText assembled⟩ attemptNo) = .ok (input.verdict, made)
  | _ => True

/-- The ledger of the moment is one. -/
theorem repliedBy_of_judgedBy (h : judgedBy config (fun _ => replies) s a = true) : RepliedBy config replies s a := by
  cases a with
  | run tid input =>
    intro d assembled attemptNo row htask hrow
    simp only [judgedBy, htask, hrow, Option.any_some] at h
    obtain ⟨⟨verdict, made⟩, hok, hsame⟩ := (Option.any_eq_true ..).mp h
    obtain rfl := of_decide_eq_true hsame
    refine ⟨fun _ => s.db, made, ?_⟩
    generalize Funnel.runFunnel config (fun _ => s.db) ⟨d, row.docType, Operator.sourceText assembled⟩ attemptNo
      (replies ⟨d, row.docType, Operator.sourceText assembled⟩ attemptNo) = r at hok ⊢
    cases r with
    | error => cases hok
    | ok result =>
      cases hok
      rfl
  | tick | spawn | receive | crash | relay | sink => trivial

/-- A run that is about to have its verdict has the whole text of its document. -/
theorem Rightful.whole {tid attemptNo : Nat} {assembled : Artifact} (h : Rightful site engine s)
    (htask : s.tasks tid = some (.extraction d (.extracting assembled attemptNo))) :
    ∃ row texts, s.document d = some row ∧ Texts site engine d row texts ∧ assembled.pages = numbered texts := by
  obtain ⟨texts, ⟨row, hrow, htexts⟩, hpages⟩ := h.runs tid d _ htask
  exact ⟨row, texts, hrow, htexts, hpages⟩

/-- What a guard keeps true, what that tells of the fields a verdict accepts, and that what comes
later does not take it back. -/
structure Established (site : Deployment) (I : Sys → Prop) (G : Sys → Action → Prop)
    (P : Db → DocId → Fields → Prop) : Prop where
  initially : I initial
  kept : ∀ {s a t}, I s → G s a → Step site s a t → I t
  sound : ∀ {s}, I s → Sound False site s
  mono : ∀ {db db' d fields}, P db d fields → db.Outlives db' → P db' d fields
  accepted : ∀ {s tid input d assembled attemptNo fields}, I s → G s (.run tid input) →
    s.tasks tid = some (.extraction d (.extracting assembled attemptNo)) → input.verdict.fields = some fields →
    P s.db d fields

/-- It holds of all that is recorded, announced or posted, and of what a run is about to record. -/
structure Recording (I : Sys → Prop) (P : Db → DocId → Fields → Prop) (s : Sys) : Prop where
  invariant : I s
  runs : ∀ tid d pc fields, s.tasks tid = some (.extraction d pc) → fieldsOf pc = some fields → P s.db d fields
  results : ∀ d row fields, s.document d = some row → row.extractionResult = some fields →
    fields = Fields.empty ∨ P s.db d fields
  messages : ∀ m payload fields, m ∈ s.db.sent → m.topic = .documentExtracted → m.payload = .extracted payload →
    payload.fields = some fields → P s.db payload.docId fields
  posted : ∀ d row, s.db.postedDocuments.lookup d = some row → row.fields = Fields.empty ∨ P s.db d row.fields

theorem recording_initial (he : Established site I G P) : Recording I P initial where
  invariant := he.initially
  runs _ _ _ _ h := by cases h
  results _ _ _ h := by cases h
  messages _ _ _ h := by cases h
  posted _ _ h := by cases h

/-! ## Steps -/

/-- A run of the document has the fields in hand. -/
def Held (s : Sys) (d : DocId) (fields : Fields) : Prop :=
  ∃ tid pc, s.tasks tid = some (.extraction d pc) ∧ fieldsOf pc = some fields

/-- What one transaction records or announces was in the hands of the run that commits it. -/
structure Writes (s : Sys) (db : Db) : Prop where
  results : ∀ d row fields, db.documents.lookup d = some row → row.extractionResult = some fields →
    (∃ old, s.document d = some old ∧ old.extractionResult = some fields) ∨ fields = Fields.empty ∨ Held s d fields
  messages : ∀ m payload fields, m ∈ db.sent → m.topic = .documentExtracted → m.payload = .extracted payload →
    payload.fields = some fields → m ∈ s.db.sent ∨ Held s payload.docId fields

/-- A write that keeps the result. -/
theorem Writes.write {row row' : Document} (h : Writes s db) (hrow : db.documents.lookup d = some row)
    (hresult : row'.extractionResult = row.extractionResult) : Writes s (db.write d row row') where
  results d' found fields hfound hf := by
    rw [Db.write_lookup] at hfound
    split at hfound
    · next hd =>
      cases hfound
      exact hd ▸ h.results d row fields hrow (hresult ▸ hf)
    · exact h.results d' found fields hfound hf
  messages := h.messages

/-- A write of a result in hand. -/
theorem Writes.record {row row' : Document} {recorded : Fields} (h : Writes s db)
    (hresult : row'.extractionResult = some recorded) (hheld : recorded = Fields.empty ∨ Held s d recorded) :
    Writes s (db.write d row row') where
  results d' found fields hfound hf := by
    rw [Db.write_lookup] at hfound
    split at hfound
    · next hd =>
      cases hfound
      obtain rfl := Option.some.inj (hresult.symm.trans hf)
      exact Or.inr (hd ▸ hheld)
    · exact h.results d' found fields hfound hf
  messages := h.messages

/-- A row of the outbox that announces no fields but those in hand. -/
theorem Writes.send {topic : Topic} {p : Payload} (h : Writes s db)
    (hp : ∀ payload fields, topic = .documentExtracted → p = .extracted payload → payload.fields = some fields →
      Held s payload.docId fields) :
    Writes s (db.insertOutbox d topic p) where
  results := h.results
  messages m payload fields hm htopic hpayload hf := by
    rcases List.mem_cons.mp hm with rfl | hm
    · exact Or.inr (hp payload fields htopic hpayload hf)
    · exact h.messages m payload fields hm htopic hpayload hf

/-- What a closing operation records is in the hands of the run, or empty. -/
theorem held_of_closing {tid : Nat} {pc : Extraction.Pc} {op : Operation} (htask : s.tasks tid = some (.extraction d pc))
    (hd : Extraction.Does site d s.db pc s.db op) :
    (∀ gates, op = .settle d fields gates → fields = Fields.empty ∨ Held s d fields) ∧
    ∀ gates payload, op = .post d fields gates payload →
      Held s d fields ∧ payload.docId = d ∧ payload.fields = some fields := by
  cases hd with
  | opening | stamping | counting | funnel | logging | routing | losing =>
    refine ⟨fun _ he => ?_, fun _ _ he => ?_⟩ <;> cases he
  | exhausted =>
    refine ⟨fun _ he => ?_, fun _ _ he => ?_⟩ <;> cases he
    exact Or.inl rfl
  | holding =>
    refine ⟨fun _ he => ?_, fun _ _ he => ?_⟩ <;> cases he
    exact Or.inr ⟨tid, _, htask, rfl⟩
  | posting =>
    refine ⟨fun _ he => ?_, fun _ _ he => ?_⟩ <;> cases he
    exact ⟨⟨tid, _, htask, rfl⟩, rfl, rfl⟩

theorem writes_operation {op : Operation} {tid : Nat} {task : Task} (htask : s.tasks tid = some task)
    (h : Writes s db) (hd : task.Does site s.db db op) (hs : op.Step db db') : Writes s db' := by
  have hclosing : ∀ {docId : DocId}, op.closes = some docId →
      ∃ pc, s.tasks tid = some (.extraction docId pc) ∧ Extraction.Does site docId s.db pc s.db op := by
    intro docId hop
    obtain ⟨pc, rfl, _, hdoes⟩ := hd.closing hop
    exact ⟨pc, htask, hdoes⟩
  cases hs with
  | @insert docId row habsent hfresh =>
    refine ⟨fun d row' fields hrow' hf => ?_, h.messages⟩
    by_cases hdoc : d = docId
    · subst hdoc
      obtain rfl : row = row' := Option.some.inj (AList.lookup_insert _ |>.symm.trans hrow')
      rw [hfresh.extractionResult] at hf
      cases hf
    · exact h.results d row' fields ((AList.lookup_insert_ne hdoc).symm.trans hrow') hf
  | move hrow | note hrow | fallThrough hrow | split hrow | route hrow | rekey hrow => exact h.write hrow rfl
  | @recordShard docId row shardIdx hrow =>
    have hwrite : Writes s (db.write docId row row.counted) := h.write hrow rfl
    exact ⟨hwrite.results, hwrite.messages⟩
  | send htopic => exact h.send fun _ _ he _ _ => absurd he htopic
  | @settle docId row fields gates hrow hnone =>
    obtain ⟨pc, hpc, hdoes⟩ := hclosing rfl
    exact h.record rfl ((held_of_closing hpc hdoes).1 gates rfl)
  | @post docId row fields gates payload hrow hnone hk hann =>
    obtain ⟨pc, hpc, hdoes⟩ := hclosing rfl
    obtain ⟨hheld, hdoc, hfields⟩ := (held_of_closing hpc hdoes).2 gates payload rfl
    refine Writes.send (h.record rfl (Or.inr hheld)) fun payload' fields' _ hp hf => ?_
    cases hp
    obtain rfl := Option.some.inj (hfields.symm.trans hf)
    exact hdoc.symm ▸ hheld
  | @accept docId row gates payload hrow hstate hdoc hroute hfields =>
    refine Writes.send (h.write hrow rfl) fun payload' fields' _ hp hf => ?_
    cases hp
    rw [hfields] at hf
    cases hf
  | aside hsame =>
    refine ⟨fun d row fields hrow => h.results d row fields (hsame.documents ▸ hrow), fun m payload fields hm => ?_⟩
    exact h.messages m payload fields (hsame.sent ▸ hm)

/-- A step leaves in the ledger what was there, or what the run it is a step of has in hand. -/
theorem writes_step (h : Step site s a t) : Writes s t.db := by
  have hkept : ∀ {db : Db}, db.documents = s.db.documents → db.sent = s.db.sent → Writes s db := by
    intro db hdocuments hsent
    refine ⟨fun d row fields hrow hf => Or.inl ⟨row, ?_, hf⟩, fun m payload fields hm _ _ _ => Or.inl (hsent ▸ hm)⟩
    rw [hdocuments] at hrow
    exact hrow
  rcases step_cases h with hperforms | ⟨_, _, _, hsink⟩ | ⟨hkeeps, _⟩
  · refine hperforms.invariant (P := Writes s) (hkept rfl rfl) fun db op db' hi hd hs => ?_
    obtain ⟨tid, input, rfl, task, htask, hdoes⟩ := hd.run
    exact writes_operation htask hi hdoes hs
  · rcases sink_posts hsink with hdb | ⟨_, _, _, _, _, hdb⟩ <;> (rw [hdb]; exact hkept rfl rfl)
  · exact hkept hkeeps.documents hkeeps.sent

/-- The fields a run goes on with were known before, or are accepted now. -/
theorem runs_step (he : Established site I G P) (h : Recording I P s) (hg : G s a)
    (ho : s.db.Outlives t.db) (hs : Step site s a t) {tid : Nat} {pc : Extraction.Pc}
    (htask : t.tasks tid = some (.extraction d pc)) (hfields : fieldsOf pc = some fields) : P t.db d fields := by
  refine he.mono ?_ ho
  rcases extraction_of_step hs htask with hold | rfl | ⟨input, pc', rfl, hbefore, hgoto⟩
  · exact h.runs tid d pc fields hold hfields
  · cases hfields
  · generalize hw : (Extraction.step site d input.verdict s.world pc').1 = w'
    have hgoes := Extraction.step_goes hgoto
    rw [hw] at hgoes
    cases hgoes with
    | accepted hc hsome =>
      cases hfields
      exact he.accepted h.invariant hg hbefore hsome
    | enabled | disabled =>
      cases hfields
      exact h.runs tid d _ _ hbefore rfl
    | found _ hcheck | readBack _ hcheck =>
      rcases Extraction.checkPages_goto hcheck with rfl | ⟨_, rfl⟩ <;> cases hfields
    | opened | selected | stamped | absent | gathered | missing | wrote | counted | rejected | taken => cases hfields

/-- What the sink posts is what a message announces; an override announces nothing. -/
theorem posted_step (he : Established site I G P) (h : Recording I P s) (ho : s.db.Outlives t.db)
    (hs : Step site s a t) {row : PostedDocument} (hrow : t.db.postedDocuments.lookup d = some row) :
    row.fields = Fields.empty ∨ P t.db d row.fields := by
  have hold : s.db.postedDocuments.lookup d = some row →
      row.fields = Fields.empty ∨ P t.db d row.fields :=
    fun hrow => (h.posted d row hrow).imp id fun hv => he.mono hv ho
  cases step_kind hs with
  | idle => exact hold hrow
  | ran _ hr => exact hold ((Task.step_lasts hr).postedDocuments ▸ hrow)
  | relayed hrelay => exact hold ((relay_keeps hrelay).2 ▸ hrow)
  | sunk hsink =>
    rcases sink_posts hsink with hdb | ⟨offset, m, payload, hm, hpayload, hdb⟩
    · exact hold (hdb ▸ hrow)
    · rw [hdb] at hrow
      change (s.db.postedDocuments.insertNew payload.docId (Sink.postedRow payload)).lookup d = some row at hrow
      rw [Table.lookup_insertNew] at hrow
      split at hrow
      · next hd =>
        subst hd
        cases hbefore : s.db.postedDocuments.lookup payload.docId with
        | some old =>
          rw [hbefore] at hrow
          exact hold (hbefore.trans hrow)
        | none =>
          rw [hbefore] at hrow
          cases hrow
          cases hf : payload.fields with
          | none =>
            left
            rw [Sink.postedRow, hf]
            rfl
          | some fields =>
            right
            rw [Sink.postedRow, hf]
            obtain ⟨hsent, htopic, _⟩ :=
              (he.sound h.invariant).transport.delivers.stored _ _ m (List.mem_of_getElem? hm)
            exact he.mono (h.messages m payload fields hsent htopic hpayload hf) ho
      · exact hold hrow

theorem recording_step (he : Established site I G P) (h : Recording I P s) (hg : G s a) (hs : Step site s a t) :
    Recording I P t := by
  have ho := outlives_step (he.sound h.invariant) hs
  have hwrites := writes_step hs
  have hheld : ∀ {d : DocId} {fields : Fields}, Held s d fields → P t.db d fields := by
    rintro d fields ⟨tid, pc, htask, hf⟩
    exact he.mono (h.runs tid d pc fields htask hf) ho
  refine ⟨he.kept h.invariant hg hs, fun tid d pc fields htask hf => runs_step he h hg ho hs htask hf,
    fun d row fields hrow hf => ?_, fun m payload fields hm htopic hpayload hf => ?_,
    fun d row hrow => posted_step he h ho hs hrow⟩
  · rcases hwrites.results d row fields hrow hf with ⟨old, hold, hresult⟩ | hempty | hin
    · exact (h.results d old fields hold hresult).imp id fun hv => he.mono hv ho
    · exact Or.inl hempty
    · exact Or.inr (hheld hin)
  · rcases hwrites.messages m payload fields hm htopic hpayload hf with hold | hin
    · exact he.mono (h.messages m payload fields hold htopic hpayload hf) ho
    · exact hheld hin

/-! ## Runs -/

/-- What holds of each result, auto-post and posted row of a document, but for the empty dictionary. -/
structure Attests (s : Sys) (d : DocId) (Q : Fields → Prop) : Prop where
  result : ∀ row fields, s.document d = some row → row.extractionResult = some fields → fields = Fields.empty ∨ Q fields
  announced : ∀ fields, (d, fields) ∈ autoPosts s → Q fields
  posted : ∀ row, s.db.postedDocuments.lookup d = some row → row.fields = Fields.empty ∨ Q row.fields

theorem Attests.imp {Q R : Fields → Prop} (h : Attests s d Q) (hi : ∀ fields, Q fields → R fields) : Attests s d R where
  result row fields hrow hf := (h.result row fields hrow hf).imp id (hi fields)
  announced fields hpost := hi fields (h.announced fields hpost)
  posted row hrow := (h.posted row hrow).imp id (hi row.fields)

theorem attests_run (he : Established site I G P) {as : List Action} (h : GuardedRun site G initial as s) (d : DocId) :
    Attests s d (P s.db d) := by
  have hrecording : Recording I P s :=
    h.invariant (recording_initial he) fun _ _ _ hi hg hs => recording_step he hi hg hs
  refine ⟨hrecording.results d, fun fields hpost => ?_, hrecording.posted d⟩
  obtain ⟨m, hm, hauto⟩ := List.mem_filterMap.mp hpost
  unfold autoPostOf at hauto
  split at hauto
  · next payload htopic hpayload =>
    split at hauto
    · obtain ⟨f, hf, heq⟩ := Option.map_eq_some_iff.mp hauto
      cases heq
      exact hrecording.messages m payload _ hm htopic hpayload hf
    · cases hauto
  · cases hauto

end DocPipeline.Audit

import DocPipeline.Gather.Invariant
import DocPipeline.Gather.TextRun

/-!
# Only a document without a text layer is split

What goes to the split is sent from a row without a text layer, and no row gets one later.
So a row with more than one shard routes to OCR.
-/
namespace DocPipeline

set_option autoImplicit false

open Lib

/-- A re-drive routes both rows alike. -/
structure Document.SameRouting (row row' : Document) : Prop where
  gcsPath : row'.gcsPath = row.gcsPath
  pageCount : row'.pageCount = row.pageCount
  hasTextLayer : row'.hasTextLayer = row.hasTextLayer
  shardsTotal : row'.shardsTotal = row.shardsTotal

/-- A row routes as it did, unless it is new, falls through or is split. -/
theorem Operation.Step.routing {db db' : Db} {op : Operation} {d : DocId} {row' : Document} (h : Step db op db')
    (hrow' : db'.documents.lookup d = some row') :
    (∃ row, db.documents.lookup d = some row ∧ row.SameRouting row') ∨
    (op = .insert d row' ∧ db.documents.lookup d = none) ∨
    (∃ row total, op = .fallThrough d total ∧ db.documents.lookup d = some row ∧ row' = row.fallen total) ∨
    ∃ row total n, op = .split d total n ∧ db.documents.lookup d = some row ∧ row' = row.resplit total n := by
  have hwrite : ∀ {docId : DocId} {row row₁ : Document}, (db.write docId row row₁).documents.lookup d = some row' →
      (d = docId ∧ row' = row₁) ∨ ∃ row, db.documents.lookup d = some row ∧ row.SameRouting row' := by
    intro docId row row₁ hw
    rw [Db.write_lookup] at hw
    split at hw
    · next hd => exact Or.inl ⟨hd, (Option.some.inj hw).symm⟩
    · exact Or.inr ⟨row', hw, rfl, rfl, rfl, rfl⟩
  have hkeep : ∀ {docId : DocId} {row row₁ : Document}, db.documents.lookup docId = some row →
      (db.write docId row row₁).documents.lookup d = some row' → row.SameRouting row₁ →
      ∃ row, db.documents.lookup d = some row ∧ row.SameRouting row' := by
    intro docId row row₁ hrow hw hsame
    rcases hwrite hw with ⟨rfl, rfl⟩ | hold
    · exact ⟨row, hrow, hsame⟩
    · exact hold
  cases h with
  | @insert docId row hnone _ =>
    rw [Table.lookup_insert_ite] at hrow'
    split at hrow'
    · next hd =>
      cases hrow'
      exact Or.inr (Or.inl ⟨by rw [hd], hd ▸ hnone⟩)
    · exact Or.inl ⟨row', hrow', rfl, rfl, rfl, rfl⟩
  | move hrow | note hrow | route hrow | settle hrow | rekey hrow | recordShard hrow | post hrow | accept hrow =>
    exact Or.inl (hkeep hrow hrow' ⟨rfl, rfl, rfl, rfl⟩)
  | @fallThrough docId row total hrow =>
    rcases hwrite hrow' with ⟨rfl, rfl⟩ | hold
    · exact Or.inr (Or.inr (Or.inl ⟨row, total, rfl, hrow, rfl⟩))
    · exact Or.inl hold
  | @split docId row total n hrow =>
    rcases hwrite hrow' with ⟨rfl, rfl⟩ | hold
    · exact Or.inr (Or.inr (Or.inr ⟨row, total, n, rfl, hrow, rfl⟩))
    · exact Or.inl hold
  | send => exact Or.inl ⟨row', hrow', rfl, rfl, rfl, rfl⟩
  | aside hsame => exact Or.inl ⟨row', hsame.documents ▸ hrow', rfl, rfl, rfl, rfl⟩

namespace Gather

open Lib.Transaction Sys PdfWorker

variable {site : Deployment} {db db' : Db} {d : DocId} {row : Document} {s t : Sys} {a : Action}

/-- The row of the document has no text layer. -/
def Untexted (db : Db) (d : DocId) : Prop :=
  ∃ row, db.documents.lookup d = some row ∧ row.hasTextLayer ≠ some true

/-- A row with more than one shard has no text layer. -/
def RowsScanned (db : Db) : Prop :=
  ∀ d row, db.documents.lookup d = some row → 1 < row.shardsTotal → row.hasTextLayer ≠ some true

theorem Untexted.operation {op : Operation} (h : Untexted db d) (hs : op.Step db db') : Untexted db' d := by
  obtain ⟨row, hrow, htl⟩ := h
  obtain ⟨row', hrow'⟩ := Option.ne_none_iff_exists'.mp (hs.present (hrow ▸ Option.some_ne_none row))
  refine ⟨row', hrow', ?_⟩
  rcases hs.routing hrow' with ⟨old, hold, hsame⟩ | ⟨_, hnone⟩ | ⟨_, _, _, _, rfl⟩ | ⟨old, _, _, _, hold, rfl⟩
  · rw [hrow] at hold
    cases hold
    rw [hsame.hasTextLayer]
    exact htl
  · rw [hrow] at hnone
    cases hnone
  · exact fun he => nomatch he
  · rw [hrow] at hold
    cases hold
    exact htl

/-- A re-drive of a row read earlier splits a document without a text layer only. -/
def Recalled (db : Db) (d : DocId) (row : Document) : Prop :=
  row.hasTextLayer ≠ some true ∨ 1 < row.shardsTotal → Untexted db d

def MsgScanned (db : Db) : Topic → Payload → Prop
  | .ocrSplit, .dispatch d _ _ => Untexted db d
  | _, _ => True

def TaskScanned (db : Db) : Task → Prop
  | .ocrSplit d _ _ => Untexted db d
  | .sweep (.redriving claimed) => ∀ r, r ∈ claimed → Recalled db r.1 r.2
  | .forceRedrive d _ _ (.targeting row) | .forceRedrive d _ _ (.committing row _) => Recalled db d row
  | _ => True

/-- No row gets a text layer. -/
def Untexts (db db' : Db) : Prop := ∀ d, Untexted db d → Untexted db' d

theorem Untexts.of_documents (h : db'.documents = db.documents) : Untexts db db' := by
  intro d hd
  unfold Untexted
  rw [h]
  exact hd

theorem MsgScanned.mono {topic : Topic} {payload : Payload} (h : MsgScanned db topic payload) (hu : Untexts db db') :
    MsgScanned db' topic payload := by
  unfold MsgScanned at h ⊢
  split at h
  · exact hu _ h
  · trivial

theorem TaskScanned.mono {task : Task} (h : TaskScanned db task) (hu : Untexts db db') : TaskScanned db' task := by
  unfold TaskScanned at h ⊢
  split at h
  · exact hu _ h
  · exact fun r hr hre => hu _ (h r hr hre)
  · exact fun hre => hu _ (h hre)
  · exact fun hre => hu _ (h hre)
  · trivial

theorem taskScanned_of_message {topic : Topic} {payload : Payload} {task : Task} (h : MsgScanned db topic payload)
    (ht : Task.ofMessage topic payload = some task) : TaskScanned db task := by
  unfold Task.ofMessage at ht
  split at ht <;> cases ht
  · trivial
  · trivial
  · exact h
  · trivial
  · trivial

theorem taskScanned_start (job : Job) : TaskScanned db job.start := by
  cases job <;> trivial

/-- A row as it is, is as well known as the row. -/
theorem recalled_current (hrows : RowsScanned db) (hrow : db.documents.lookup d = some row) : Recalled db d row := by
  rintro (htl | hmany)
  · exact ⟨row, hrow, htl⟩
  · exact ⟨row, hrow, hrows d row hrow hmany⟩

/-! ## Messages -/

theorem msgScanned_dispatch {tl : Option Bool} {pageCount : Option Nat} {topic : Topic} {total : Nat} {path : String}
    (htl : tl ≠ some true → Untexted db d)
    (hroute : Ledger.routeTextProduction site tl pageCount = .ok (topic, total)) :
    MsgScanned db topic (Ledger.buildDispatchPayload topic d path pageCount) := by
  by_cases ht : tl = some true
  · unfold Ledger.routeTextProduction at hroute
    rw [if_pos ht] at hroute
    cases hroute
    trivial
  · obtain ⟨_, _, _, ⟨_, rfl⟩ | ⟨_, rfl⟩⟩ := route_ocr ht hroute
    · trivial
    · exact htl ht

theorem msgScanned_redrives {topic : Topic} {payload : Payload} {state : DocState} (h : Recalled db d row)
    (hr : Sweeper.Redrives site d { row with state := state } topic payload) : MsgScanned db topic payload := by
  cases hr with
  | dispatch _ _ hroute => exact msgScanned_dispatch (fun htl => h (Or.inl htl)) hroute
  | shard => trivial
  | split _ hmany => exact h (Or.inr hmany)
  | completed => trivial

/-- What a run sends, a commit of `text.embedded` apart. -/
theorem msgScanned_send {start : Db} {task : Task} {topic : Topic} {payload : Payload} (ht : TaskScanned db task)
    (hne : ∀ docId path pc, task ≠ .textEmbedded docId path pc)
    (hd : task.Does site start db (.send d topic payload)) : MsgScanned db topic payload := by
  cases task with
  | orphanScan =>
    cases hd
    trivial
  | triage gcsPath =>
    cases hd with
    | dispatch _ _ _ hlookup hroute => exact msgScanned_dispatch (fun htl => ⟨_, hlookup, htl⟩) hroute
  | textEmbedded docId path pc => exact absurd rfl (hne docId path pc)
  | ocrSplit | ocrShard =>
    cases hd
    trivial
  | sweep pc =>
    cases hd with
    | @redrive _ _ row _ _ _ hr =>
      have hsame : Sweeper.Redrives site d { row with state := row.state } topic payload := hr
      exact msgScanned_redrives (ht (d, row) List.mem_cons_self) hsame
  | forceRedrive docId reason actor pc =>
    cases hd with
    | redrive hr => exact msgScanned_redrives ht hr
  | extraction | acceptReview => cases hd
  | killSwitch => cases hd

/-! ## Steps -/

/-- An operation of a run keeps the rows. -/
theorem rowsScanned_operation {start : Db} {task : Task} {op : Operation} (hrows : RowsScanned db)
    (ht : TaskScanned db task) (hd : task.Does site start db op) (hs : op.Step db db') : RowsScanned db' := by
  intro d row' hrow' hmany
  rcases hs.routing hrow' with ⟨row, hrow, hsame⟩ | ⟨rfl, _⟩ | ⟨_, _, _, _, rfl⟩ | ⟨row, total, n, rfl, hrow, rfl⟩
  · rw [hsame.hasTextLayer]
    exact hrows d row hrow (hsame.shardsTotal ▸ hmany)
  · obtain ⟨_, _, _, _, hadmits⟩ := hd.inserting
    rw [hadmits.fresh.shardsTotal] at hmany
    exact absurd hmany (Nat.lt_irrefl 1)
  · exact fun he => nomatch he
  · -- the split was sent for a row without a text layer
    obtain ⟨_, _, rfl, _⟩ := hd.splitting
    obtain ⟨current, hcurrent, htl⟩ := ht
    rw [hrow] at hcurrent
    cases hcurrent
    exact htl

/-- What a step of a run leaves, and sends. -/
structure Scans (start db : Db) : Prop where
  rows : RowsScanned db
  untexts : Untexts start db
  sent : ∀ m, m ∈ db.sent → m ∈ start.sent ∨ MsgScanned db m.topic m.payload

theorem scans_ledger {w : World} {input : Input} {task : Task} {r : World × Option Task} (hrows : RowsScanned w.db)
    (ht : TaskScanned w.db task) (h : task.step site w input = some r) :
    RowsScanned r.1.db ∧ Untexts w.db r.1.db := by
  refine (Task.step_performs h).invariant (P := fun db => RowsScanned db ∧ Untexts w.db db) ⟨hrows, fun _ hd => hd⟩ ?_
  rintro db op db' ⟨hrows', hu⟩ hd hs
  exact ⟨rowsScanned_operation hrows' (ht.mono hu) hd hs, fun d hd' => (hu d hd').operation hs⟩

/-- The messages of a step, a commit of `text.embedded` apart. -/
theorem scans_sent {w : World} {input : Input} {task : Task} {r : World × Option Task} (ht : TaskScanned w.db task)
    (hne : ∀ docId path pc, task ≠ .textEmbedded docId path pc) (h : task.step site w input = some r) :
    ∀ m, m ∈ r.1.db.sent → m ∈ w.db.sent ∨ MsgScanned r.1.db m.topic m.payload := by
  refine ((Task.step_performs h).invariant (P := fun db => Untexts w.db db ∧
    ∀ m, m ∈ db.sent → m ∈ w.db.sent ∨ MsgScanned db m.topic m.payload) ⟨fun _ hd => hd, fun _ hm => Or.inl hm⟩ ?_).2
  rintro db op db' ⟨hu, hsent⟩ hd hs
  have hu' : Untexts db db' := fun d hd' => hd'.operation hs
  refine ⟨fun d hd' => hu' d (hu d hd'), fun m hm => ?_⟩
  have hold : m ∈ db.sent → m ∈ w.db.sent ∨ MsgScanned db' m.topic m.payload := fun hm =>
    (hsent m hm).imp_right fun hmsg => hmsg.mono hu'
  cases hs with
  | send =>
    rcases List.mem_cons.mp hm with rfl | hm
    · exact Or.inr ((msgScanned_send (ht.mono hu) hne hd).mono hu')
    · exact hold hm
  | post | accept =>
    rcases List.mem_cons.mp hm with rfl | hm
    · exact Or.inr trivial
    · exact hold hm
  | insert | move | note | fallThrough | split | recordShard | route | settle | rekey => exact hold hm
  | aside hsame => exact hold (hsame.sent ▸ hm)

/-- The fall-through sends after it has taken the text layer from the row. -/
theorem embedded_sent {w : World} {path : String} {pc : EmbeddedPc} {r : World × Next EmbeddedPc EmbeddedResult}
    (ht : TaskSound False site w.db (.textEmbedded d path pc)) (h : embeddedStep site d path w pc = some r) :
    ∀ m, m ∈ r.1.db.sent → m ∈ w.db.sent ∨ MsgScanned r.1.db m.topic m.payload := by
  obtain ⟨n, ⟨row, hrow, _, _⟩, hpdf⟩ := ht
  have hstep := embedded_textStep h hpdf hrow
  intro m hm
  generalize r.1.db = db at hstep hm ⊢
  generalize r.2.task (.textEmbedded d path) = next at hstep
  cases hstep with
  | refused | uploaded => exact Or.inl hm
  | @tier0 _ _ sent _ _ htopic _ hbecomes =>
    rw [hbecomes.sent, List.singleton_append, List.mem_cons] at hm
    rcases hm with rfl | hm
    · exact Or.inr (by rw [htopic]; trivial)
    · exact Or.inl hm
  | @fell _ _ sent task _ _ hmsg hocr hbecomes =>
    rw [hbecomes.sent, List.singleton_append, List.mem_cons] at hm
    rcases hm with rfl | hm
    · refine Or.inr ?_
      unfold Task.ofMessage at hmsg
      unfold MsgScanned
      split
      · next htopic hpayload =>
        rw [htopic, hpayload] at hmsg
        cases hmsg
        rcases hocr with ⟨_, heq⟩ | ⟨_, _, heq, _⟩
        · cases heq
          exact ⟨_, hbecomes.row, fun he => nomatch he⟩
        · cases heq
      · trivial
    · exact Or.inl hm

theorem scans_step {w : World} {input : Input} {task : Task} {r : World × Option Task} (hrows : RowsScanned w.db)
    (ht : TaskScanned w.db task) (hsound : TaskSound False site w.db task) (h : task.step site w input = some r) :
    Scans w.db r.1.db := by
  obtain ⟨hrows', hu⟩ := scans_ledger hrows ht h
  refine ⟨hrows', hu, ?_⟩
  by_cases he : ∃ docId path pc, task = .textEmbedded docId path pc
  · obtain ⟨docId, path, pc, rfl⟩ := he
    obtain ⟨r', hr, rfl⟩ := Option.map_eq_some_iff.mp h
    exact embedded_sent hsound hr
  · exact scans_sent ht (fun docId path pc heq => he ⟨docId, path, pc, heq⟩) h

/-- What a run goes on with. -/
theorem taskScanned_next {w : World} {input : Input} {task task' : Task} {r : World × Option Task}
    (hrows : RowsScanned w.db) (ht : TaskScanned w.db task) (h : task.step site w input = some r)
    (hnext : r.2 = some task') : TaskScanned w.db task' := by
  cases task with
  | triage | killSwitch =>
    cases h
    cases hnext
  | ocrSplit docId gcsPath pc =>
    obtain ⟨r', _, rfl⟩ := Option.map_eq_some_iff.mp h
    obtain ⟨_, _, rfl⟩ := Next.goto_of_task hnext
    exact ht
  | textEmbedded =>
    obtain ⟨r', _, rfl⟩ := Option.map_eq_some_iff.mp h
    obtain ⟨_, _, rfl⟩ := Next.goto_of_task hnext
    trivial
  | sweep pc =>
    cases h
    obtain ⟨pc', hgoto, rfl⟩ := Next.goto_of_task hnext
    cases pc with
    | claiming cap locked =>
      obtain ⟨claimed, hc, heq⟩ := World.transact_committed hgoto fun _ he => by cases he
      cases heq
      simp only [Sweeper.claimBatch, commits_bind, commits_get] at hc
      obtain ⟨_, _, ⟨rfl, rfl⟩, hc⟩ := hc
      intro r hr
      obtain ⟨hrow, _⟩ := Sweeper.claimStuckBatch_current r (Sweeper.claimRows_subset hc r hr)
      exact recalled_current hrows hrow
    | redriving claimed =>
      cases claimed with
      | nil => cases hgoto
      | cons r rest =>
        obtain ⟨_, _, heq⟩ := World.transact_committed hgoto fun _ he => by cases he
        cases heq
        exact fun r' hr' => ht r' (List.mem_cons_of_mem _ hr')
  | forceRedrive docId reason actor pc =>
    cases h
    obtain ⟨pc', hgoto, rfl⟩ := Next.goto_of_task hnext
    cases pc with
    | selecting =>
      simp only [Operator.redriveStep] at hgoto
      split at hgoto
      · cases hgoto
      · split at hgoto
        · cases hgoto
        · next row hrow =>
          cases hgoto
          exact recalled_current hrows hrow
    | targeting row =>
      simp only [Operator.redriveStep] at hgoto
      split at hgoto
      · cases hgoto
      · cases hgoto
        exact ht
    | committing row target =>
      obtain ⟨_, _, heq⟩ := World.transact_committed hgoto fun _ he => by cases he
      cases heq
  | orphanScan | ocrShard | extraction | acceptReview =>
    cases h
    obtain ⟨_, _, rfl⟩ := Next.goto_of_task hnext
    trivial

/-- Rows, messages and runs send only documents without a text layer to the split. -/
structure Scanned (s : Sys) : Prop where
  rows : RowsScanned s.db
  messages : ∀ m, m ∈ s.db.sent → MsgScanned s.db m.topic m.payload
  tasks : ∀ tid task, s.tasks tid = some task → TaskScanned s.db task

theorem scanned_initial : Scanned initial :=
  ⟨fun _ _ h => (nomatch h), fun _ h => (nomatch h), fun _ _ h => (nomatch h)⟩

theorem scanned_step (hsound : Sound False site s) (h : Scanned s) (hs : Step site s a t) : Scanned t := by
  have hscans : Scans s.db t.db := by
    rcases unchanged_of_step hs with ⟨tid, input, rfl⟩ | ⟨hdocs, _, hsent⟩
    · obtain ⟨task, r, htask, hr, rfl⟩ := runTask_eq hs
      exact scans_step h.rows (h.tasks tid task htask) (hsound.tasks tid task htask) hr
    · refine ⟨?_, Untexts.of_documents hdocs, fun m hm => Or.inl (hsent ▸ hm)⟩
      unfold RowsScanned
      rw [hdocs]
      exact h.rows
  refine ⟨hscans.rows, fun m hm => ?_, fun tid task htask => ?_⟩
  · rcases hscans.sent m hm with hold | hnew
    · exact (h.messages m hold).mono hscans.untexts
    · exact hnew
  · rcases task_of_step hs htask with hkept | ⟨job, rfl⟩ | ⟨topic, partition, row, hrow, hmsg⟩ |
      ⟨input, before, r, rfl, hbefore, hr, hnext, _⟩
    · exact (h.tasks tid task hkept).mono hscans.untexts
    · exact taskScanned_start job
    · obtain ⟨hsent, htopic, _⟩ := hsound.transport.delivers.stored topic partition row hrow
      have hm := (h.messages row hsent).mono hscans.untexts
      rw [htopic] at hm
      exact taskScanned_of_message hm hmsg
    · exact (taskScanned_next h.rows (h.tasks tid before hbefore) hr hnext).mono hscans.untexts

theorem scanned_run {as : List Action} (h : FreeRun site initial as s) : Scanned s := by
  induction h with
  | nil => exact scanned_initial
  | snoc hrun _ hs ih => exact scanned_step (sound_run hrun) ih hs

end Gather
end DocPipeline

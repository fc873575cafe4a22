import DocPipeline.Gather.Recovery
import DocPipeline.Audit.Join

/-!
# Can text production always be picked up again?

A sweep that finds a running document with its attempts spent gives it up. Otherwise a
document of which some index is unclaimed comes through: whatever the earlier passes have
left behind, the last of the missing shards joins. Where every index is claimed, no shard
is left that could.
-/
namespace DocPipeline.Audit

set_option autoImplicit false

open Lib Lib.Transaction Sys Gather PdfWorker

variable {site : Deployment} {s : Sys} {a : Action} {d : DocId} {n i : Nat} {row : Document} {r r' : Recovery}

/-- Some index of the document has not been claimed. -/
def Incomplete (site : Deployment) (d : DocId) (s : Sys) : Prop :=
  ∃ row n i, s.document d = some row ∧ row.pageCount = some n ∧ i < shardCount site n ∧ (d, i) ∉ s.db.documentShards

/-- A sweep is about to claim the row, in a text state. -/
inductive Sweeps (site : Deployment) (d : DocId) (row : Document) (s : Sys) : Action → Prop
  | claim {tid cap : Nat} {input : Input} {locked : List DocId} : s.tasks tid = some (.sweep (.claiming cap locked)) →
      (d, row) ∈ Sweeper.claimStuckBatch site s.db cap locked → row.state.isText = true →
      Sweeps site d row s (.run tid input)

/-- A re-drive is about to send the document from `failed` to `text_pending`. -/
inductive Forces (d : DocId) (s : Sys) : Action → Prop
  | commit {tid : Nat} {input : Input} {reason actor : String} {old row : Document} :
      s.tasks tid = some (.forceRedrive d reason actor (.committing old .textPending)) →
      s.document d = some row → row.state = .failed → Forces d s (.run tid input)

/-- The sweep takes a document that has attempts left, and holds it. -/
theorem recovers_of_sweep (hsound : Sound True site s) (hs : Recovery.Step site ⟨s, []⟩ a r)
    (hsweep : Sweeps site d row s a) (hcap : Sweeper.capped site row = false) (hn : row.pageCount = some n)
    (hi : i < shardCount site n) (hfree : (d, i) ∉ s.db.documentShards) : Recovers site d n s.db.sent r := by
  cases hsweep with
  | @claim tid cap input locked htask hmem htext =>
    obtain ⟨task, res, htask', hres, hsys⟩ := runTask_eq (Recovery.step_inv hs).1
    rw [htask] at htask'
    cases htask'
    cases hres
    have hcurrent : ∀ c, c ∈ Sweeper.claimStuckBatch site s.db cap locked → s.db.documents.lookup c.1 = some c.2 :=
      fun c hc => (Sweeper.claimStuckBatch_current c hc).1
    have hnodup : ((Sweeper.claimStuckBatch site s.db cap locked).map Prod.fst).Nodup := Sweeper.claimStuckBatch_nodup
    obtain ⟨db', hc, hall⟩ := Sweeper.claimRows_succeeds site hcurrent hnodup
    have hrow : db'.documents.lookup d = some (Sweeper.reset site row s.db.now) := by
      simpa only [Sweeper.swept, hcap, Bool.false_eq_true, if_false] using hall (d, row) hmem
    generalize hkept : (Sweeper.claimStuckBatch site s.db cap locked).filter (fun r => !Sweeper.capped site r.2) = claimed
      at hc
    have hclaimed : (d, row) ∈ claimed := by
      rw [← hkept]
      exact List.mem_filter.mpr ⟨hmem, by simp [hcap]⟩
    obtain ⟨_, hshards, hsent⟩ := Sweeper.claimRows_elsewhere (d := d) hcurrent hnodup hc
    have hbatch : Commits (Sweeper.claimBatch site cap locked) s.db claimed db' := by
      simp only [Sweeper.claimBatch, commits_bind, commits_get]
      exact ⟨s.db, s.db, ⟨rfl, rfl⟩, hc⟩
    rw [Sweeper.step, World.transact_of_commits _ _ hbatch] at hsys
    have hdb : r.sys.db = db' := by rw [hsys]
    have hholds : Holds d claimed := by
      refine ⟨⟨row, hclaimed, htext⟩, fun c hmem htext => ?_⟩
      exact hsound.ledger.text c.1 c.2 (hcurrent c (Sweeper.claimRows_subset hc c hmem)) htext
    have hdoc : r.sys.document d = some (Sweeper.reset site row s.db.now) := by
      change r.sys.db.documents.lookup d = _
      rw [hdb]
      exact hrow
    have hstate : (Sweeper.reset site row s.db.now).state.isText = true := isText_toPending htext
    have hsent' : r.sys.db.sent = [] ++ s.db.sent := by
      rw [hdb, hsent]
      rfl
    have hfree' : (d, i) ∉ r.sys.db.documentShards := by
      rw [hdb, hshards]
      exact hfree
    have htask' : r.sys.tasks tid = some (.sweep (.redriving claimed)) := by
      rw [hsys]
      exact if_pos rfl
    exact .leads hdoc ((Sweeper.reset_pageCount site row s.db.now).trans hn) hstate hsent' hi hfree' (.claimed htask' hholds)

/-- The re-drive commits, and restarts the document. -/
theorem recovers_of_force (hsound : Sound True site s) (hs : Recovery.Step site ⟨s, []⟩ a r)
    (hforce : Forces d s a) (hrow : s.document d = some row) (hn : row.pageCount = some n)
    (hi : i < shardCount site n) (hfree : (d, i) ∉ s.db.documentShards) : Recovers site d n s.db.sent r := by
  cases hforce with
  | @commit tid input reason actor old row' htask hrow' hfailed =>
    rw [hrow] at hrow'
    cases hrow'
    obtain ⟨task, res, htask', hres, hsys⟩ := runTask_eq (Recovery.step_inv hs).1
    rw [htask] at htask'
    cases htask'
    cases hres
    obtain ⟨⟨hold, current, hcur, _, hpages, _⟩, _⟩ := hsound.tasks tid _ htask
    rw [show s.world.db.documents.lookup d = some row from hrow] at hcur
    cases hcur
    have hsoundOld : RowSound site { old with state := DocState.textPending } := hold.congr rfl rfl rfl rfl
    obtain ⟨m, new, hredrive, hnew, hrestarts⟩ := redriveDocument_restarts
      (s.db.write d row (row.moved .textPending s.db.now)) d hsoundOld rfl (hpages.symm.trans hn)
    obtain ⟨hdocs, hshards⟩ := Sweeper.redriveDocument_kept hredrive
    obtain ⟨db', hc, hdb', hshards', hsent'⟩ : ∃ db', Commits (Operator.forceRedriveTx site d old .textPending reason actor)
        s.db ⟨⟩ db' ∧ db'.documents = m.documents ∧ db'.documentShards = m.documentShards ∧ db'.sent = m.sent := by
      simp only [Operator.forceRedriveTx, commits_bind, Ledger.transition_default_commits, Ledger.audit, commits_modify]
      refine ⟨_, ⟨_, _, ⟨row, hrow, Or.inl ?_, rfl, rfl⟩, ⟨⟩, m, hredrive, rfl⟩, rfl, rfl, rfl⟩
      rw [hfailed]
      decide
    rw [Operator.redriveStep, World.transact_of_commits _ _ hc] at hsys
    have hdb : r.sys.db = db' := by rw [hsys]
    have hdoc : r.sys.document d = some (row.moved .textPending s.db.now) := by
      change r.sys.db.documents.lookup d = _
      rw [hdb, hdb', hdocs, Db.write_lookup_self]
    have hsent : r.sys.db.sent = new ++ s.db.sent := by
      rw [hdb, hsent', hnew]
      rfl
    have hfree' : (d, i) ∉ r.sys.db.documentShards := by
      rw [hdb, hshards', hshards]
      exact hfree
    exact .leads hdoc hn rfl hsent hi hfree' (leads_of_restarts hrestarts
      (fun j hj => by rw [hdb, hshards', hshards]; exact hj) fun _ hm => Recovery.pending_of_sends hs hsent hm)

/-- A document of which some index is unclaimed is swept with attempts left, or sent from
`failed` to `text_pending`. In every run after that whose steps are calm, it waits for
extraction, newly announced, as soon as nothing is left for it. -/
theorem text_production_recovers {as bs : List Action} {r₀ : Recovery}
    (h : GuardedRun site (fun s a => keepsSplit site s a = true) initial as s) (hopen : Incomplete site d s)
    (hstart : (∃ row, Sweeps site d row s a ∧ Sweeper.capped site row = false) ∨ Forces d s a)
    (hs : Recovery.Step site ⟨s, []⟩ a r₀)
    (hrun : Run (Recovery.Step site) (fun r b => keepsSplit site r.sys b = true ∧ calm site d r.sys b = true) r₀ bs r)
    (hquiet : Quiet d r) : Recovered d s.db.sent r.sys.db := by
  have hsound := sound_guardedRun h
  obtain ⟨current, n, i, hrow, hn, hi, hfree⟩ := hopen
  have hkeeps : keepsSplit site s a = true := by
    rcases hstart with ⟨_, hsweep, _⟩ | hforce
    · cases hsweep with
      | claim htask => simp [keepsSplit, htask, resetsSplit]
    · cases hforce with
      | commit htask => simp [keepsSplit, htask, resetsSplit]
  have hrecovers : Recovers site d n s.db.sent r₀ := by
    rcases hstart with ⟨row, hsweep, hcap⟩ | hforce
    · have hpages : row.pageCount = some n := by
        cases hsweep with
        | claim _ hmem =>
          have hcur := (Sweeper.claimStuckBatch_current _ hmem).1
          rw [show s.db.documents.lookup d = some current from hrow] at hcur
          cases hcur
          exact hn
      exact recovers_of_sweep hsound hs hsweep hcap hpages hi hfree
    · exact recovers_of_force hsound hs hforce hrow hn hi hfree
  have hsound₀ : Sound True site r₀.sys := sound_step hsound (fun _ => hkeeps) (Recovery.step_inv hs).1
  exact recovered_of_quiet (recovers_run hrun hsound₀ hrecovers) hquiet

/-! ## Two pages again -/

/-- Nothing is left in a system that uses slot 0 only. -/
def quiet (d : DocId) (r : Recovery) : Bool :=
  (r.waiting.all fun m => (Task.ofMessage m.topic m.payload).all fun task => !task.isTextOf d) &&
    (r.sys.tasks 0).all fun task => !task.isTextOf d && !task.redrives d

def inSlotZero (as : List Action) : Bool := as.all fun a => a.slot.all fun tid => decide (tid = 0)

theorem quiet_of_slotZero {as : List Action} (h : FreeRun site initial as r.sys) (hslots : inSlotZero as = true)
    (hquiet : quiet d r = true) : Quiet d r := by
  simp only [quiet, Bool.and_eq_true, List.all_eq_true, Option.all_eq_true, Bool.not_eq_true'] at hquiet
  refine ⟨fun m hm task hmsg => hquiet.1 m hm task hmsg, fun tid task htask => ?_⟩
  by_cases htid : tid = 0
  · subst htid
    exact hquiet.2 task htask
  · have hidle : r.sys.tasks tid = none := by
      refine idle_of_freeRun h fun a ha hslot => htid ?_
      have hzero := List.all_eq_true.mp hslots a ha
      rw [hslot, Option.all_some] at hzero
      exact of_decide_eq_true hzero
    rw [hidle] at htask
    cases htask

/-- The first page is recognised; the worker of the second dies when it has begun. -/
def secondPageLost : List Action :=
  splitInTwo ++ [.receive 0 .ocrShard 0 0] ++ Schedule.turns 0 3 ++ [.receive 0 .ocrShard 0 1] ++ Schedule.turns 0 1 ++
    [.crash 0, .tick 31 0, .spawn 0 (.sweep 50 [])]

/-- The sweep sends the second page again, and its worker joins. -/
def secondPageAgain : List Action :=
  Schedule.turns 0 2 ++ Schedule.publish 1 ++ [.receive 0 .ocrShard 0 2] ++ Schedule.turns 0 3

/-- The claim of the first row of the batch, if it is the document's, in a text state. -/
def sweepsNext (site : Deployment) (d : DocId) (s : Sys) : Option Document :=
  match s.tasks 0 with
  | some (.sweep (.claiming cap locked)) =>
    match Sweeper.claimStuckBatch site s.db cap locked with
    | [(docId, row)] => if docId = d ∧ row.state.isText = true then some row else none
    | _ => none
  | _ => none

theorem sweeps_of_sweepsNext {input : Input} (h : sweepsNext site d s = some row) :
    Sweeps site d row s (.run 0 input) := by
  unfold sweepsNext at h
  split at h
  · next cap locked htask =>
    split at h
    · next docId row' hbatch =>
      split at h
      · next hdoc =>
        cases h
        obtain ⟨rfl, htext⟩ := hdoc
        exact .claim htask (hbatch ▸ List.mem_singleton.mpr rfl) htext
      · cases h
    · cases h
  · cases h

theorem second_page_recovers :
    ∃ s r₀ r, GuardedRun oneScan (fun s a => keepsSplit oneScan s a = true) initial secondPageLost s ∧
      Recovery.Step oneScan ⟨s, []⟩ (.run 0 {}) r₀ ∧
      Run (Recovery.Step oneScan) (fun r b => keepsSplit oneScan r.sys b = true ∧ calm oneScan "crc32c-a" r.sys b = true)
        r₀ secondPageAgain r ∧
      Quiet "crc32c-a" r ∧ Recovered "crc32c-a" s.db.sent r.sys.db := by
  obtain ⟨s, hrun, hs⟩ := exists_guardedRun oneScan (keepsSplit oneScan) secondPageLost
    (fun s => (sweepsNext oneScan "crc32c-a" s).any (fun row => !Sweeper.capped oneScan row) &&
      onePageMissing s &&
      (Recovery.step oneScan ⟨s, []⟩ (.run 0 {})).any fun r₀ =>
        (execWhile (Recovery.step oneScan) (fun r b => keepsSplit oneScan r.sys b && calm oneScan "crc32c-a" r.sys b) r₀
          secondPageAgain).any
          (quiet "crc32c-a")) (by decide +kernel)
  simp only [Bool.and_eq_true, Option.any_eq_true, Bool.not_eq_true'] at hs
  obtain ⟨⟨⟨row, hsweep, hcap⟩, hmissing⟩, r₀, hr₀, r, hr, hquiet⟩ := hs
  simp only [onePageMissing, Bool.and_eq_true, Option.any_eq_true, decide_eq_true_eq] at hmissing
  obtain ⟨hfree, current, hrow, hn⟩ := hmissing
  have hguarded := (run_of_execWhile hr).mono fun _ _ hg => Bool.and_eq_true_iff.mp hg
  have hfirst : FreeRun oneScan s [.run 0 {}] r₀.sys := .single trivial (Recovery.step_inv hr₀).1
  have hfree' := (hrun.unguarded.trans hfirst).trans (Recovery.freeRun_of_run hguarded)
  have hquiet' := quiet_of_slotZero hfree' (by decide) hquiet
  exact ⟨s, r₀, r, hrun, hr₀, hguarded, hquiet', text_production_recovers hrun ⟨current, 2, 1, hrow, hn, by decide, hfree⟩
    (Or.inl ⟨row, sweeps_of_sweepsNext hsweep, hcap⟩) hr₀ hguarded hquiet'⟩

/-- Text production comes through the steps that `Starts` allows, in every run. -/
def ComesThrough (Starts : Deployment → DocId → Sys → Action → Prop) : Prop :=
  ∀ (site : Deployment) (as bs : List Action) (s : Sys) (a : Action) (d : DocId) (r₀ r : Recovery),
    FreeRun site initial as s → Starts site d s a → Recovery.Step site ⟨s, []⟩ a r₀ →
    Run (Recovery.Step site) (fun r b => calm site d r.sys b = true) r₀ bs r → Quiet d r →
      Recovered d s.db.sent r.sys.db

/-- From `s`, the next step of slot 0 and then `bs` leave the document alone in `state`. -/
def stays (site : Deployment) (d : DocId) (state : DocState) (bs : List Action) (s : Sys) : Bool :=
  (Recovery.step site ⟨s, []⟩ (.run 0 {})).any fun r₀ =>
    (execWhile (Recovery.step site) (fun r b => calm site d r.sys b) r₀ bs).any fun r =>
      quiet d r && (r.sys.document d).all fun row : Document => decide (row.state = state)

theorem not_comesThrough {Starts : Deployment → DocId → Sys → Action → Prop} {as bs : List Action} {state : DocState}
    (hrun : FreeRun site initial as s) (hstart : Starts site d s (.run 0 {})) (hstays : stays site d state bs s = true)
    (hslots : inSlotZero (as ++ [.run 0 {}] ++ bs) = true) (hstate : state ≠ .extractPending) :
    ¬ ComesThrough Starts := by
  intro hclaim
  simp only [stays, Option.any_eq_true, Bool.and_eq_true] at hstays
  obtain ⟨r₀, hr₀, r, hr, hquiet, hfinal⟩ := hstays
  have hcalm := run_of_execWhile hr
  have hfirst : FreeRun site s [.run 0 {}] r₀.sys := .single trivial (Recovery.step_inv hr₀).1
  have hquiet' := quiet_of_slotZero ((hrun.trans hfirst).trans (Recovery.freeRun_of_run hcalm)) hslots hquiet
  obtain ⟨row, _, hrow, hpending, _⟩ := hclaim site as bs s _ d r₀ r hrun hstart hr₀ hcalm hquiet'
  rw [show r.sys.document d = some row from hrow, Option.all_some, decide_eq_true_eq] at hfinal
  exact hstate (hfinal.symm.trans hpending)

/-- Five times the worker of the first page dies when it has begun, and the sweep starts over. -/
def fiveAttempts : List Action :=
  splitInTwo ++ (List.replicate 5 ([.receive 0 .ocrShard 0 0] ++ Schedule.turns 0 1 ++ [.crash 0, .tick 31 0] ++
    Schedule.sweep 0)).flatten ++
    [.receive 0 .ocrShard 0 0] ++ Schedule.turns 0 1 ++ [.crash 0, .tick 31 0, .spawn 0 (.sweep 50 [])]

/-- Both pages join, and five runs of the extraction worker die before they write the artifact.
The sweep gives the document up, and the operator sends it back. -/
def joinedThenFailed : List Action :=
  splitInTwo ++ [.receive 0 .ocrShard 0 0] ++ Schedule.turns 0 3 ++ [.receive 0 .ocrShard 0 1] ++ Schedule.turns 0 3 ++
    Schedule.publish 1 ++
    (List.replicate 5 ([.receive 0 .ocrCompleted 0 0] ++ Schedule.turns 0 1 ++ [.crash 0, .tick 31 0] ++
      Schedule.sweep 0)).flatten ++
    [.receive 0 .ocrCompleted 0 0] ++ Schedule.turns 0 1 ++ [.crash 0, .tick 31 0, .spawn 0 (.sweep 50 [])] ++
    Schedule.turns 0 2 ++ [.spawn 0 (.forceRedrive "crc32c-a" "retry" "ops")] ++ Schedule.turns 0 2

/-- The document is split again, and both of its pages are recognised again. -/
def splitAgain : List Action :=
  Schedule.publish 6 ++ [.receive 0 .ocrSplit 0 1] ++ Schedule.turns 0 3 ++ Schedule.publish 2 ++
    [.receive 0 .ocrShard 0 2] ++ Schedule.turns 0 3 ++ [.receive 0 .ocrShard 0 3] ++ Schedule.turns 0 3

/-- The re-drive in slot 0 is about to commit, on a document that is still `failed`. -/
def forcesNext (d : DocId) (s : Sys) : Bool :=
  (match s.tasks 0 with
    | some (.forceRedrive docId _ _ (.committing _ .textPending)) => decide (docId = d)
    | _ => false) &&
  (s.document d).any fun row => decide (row.state = .failed)

theorem forces_of_forcesNext {input : Input} (h : forcesNext d s = true) : Forces d s (.run 0 input) := by
  simp only [forcesNext, Bool.and_eq_true, Option.any_eq_true, decide_eq_true_eq] at h
  obtain ⟨htask, row, hrow, hfailed⟩ := h
  split at htask
  · next heq =>
    obtain rfl := of_decide_eq_true htask
    exact .commit heq hrow hfailed
  · cases htask

/-- The sixth sweep gives the document up. Once every page is claimed, a re-drive leaves it
in `text_running`. -/
theorem spent_or_joined_stays :
    ¬ ComesThrough (fun site d s a => ∃ row, Sweeps site d row s a) ∧ ¬ ComesThrough (fun _ => Forces) := by
  constructor
  · obtain ⟨s, hrun, hs⟩ := exists_freeRun oneScan fiveAttempts
      (fun s => (sweepsNext oneScan "crc32c-a" s).isSome && stays oneScan "crc32c-a" .failed [] s) (by decide +kernel)
    rw [Bool.and_eq_true] at hs
    obtain ⟨row, hsweep⟩ := Option.isSome_iff_exists.mp hs.1
    exact not_comesThrough hrun ⟨row, sweeps_of_sweepsNext hsweep⟩ hs.2 (by decide +kernel) (by decide)
  · obtain ⟨s, hrun, hs⟩ := exists_freeRun oneScan joinedThenFailed
      (fun s => forcesNext "crc32c-a" s && stays oneScan "crc32c-a" .textRunning splitAgain s) (by decide +kernel)
    rw [Bool.and_eq_true] at hs
    exact not_comesThrough hrun (forces_of_forcesNext hs.1) hs.2 (by decide +kernel) (by decide)

end DocPipeline.Audit

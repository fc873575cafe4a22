import DocPipeline.Audit.Replay
import DocPipeline.Audit.Sweep

/-!
# Does the attempt cap count attempts?

A run that opens a document counts itself when its pages are complete, and a sweep that
takes the document back counts the attempt it takes back. A run that dies between the two
is counted twice. `extract_attempts` counts attempts exactly as long as each count is the
first one of its attempt, and then the cap is reached after that many openings.
-/
namespace DocPipeline.Audit

set_option autoImplicit false

open Lib Lib.Transaction Ledger

variable {site : Deployment} {d : DocId} {db db' : Db} {row row' : Document}

/-- The pipeline, with the extraction attempts at one document numbered as they start: how
many have started, which one the run in each slot is at, and whose count each rise of
`extract_attempts` is. -/
structure Watched where
  sys : Sys := Sys.initial
  started : Nat := 0
  attempt : Nat → Nat := fun _ => 0
  counted : List Nat := []

/-- The step between these states moves the document from `before` to `after`. -/
def moves (d : DocId) (before after : DocState) (s t : Sys) : Bool :=
  ((s.document d).any fun row => row.state = before) && (t.document d).any fun row => row.state = after

/-- The slot whose run of `handle_ocr_completed` opens the document. -/
def openingSlot (d : DocId) (s : Sys) : Sys.Action → Option Nat
  | .run tid _ =>
    match s.tasks tid with
    | some (.extraction docId .opening) => if docId = d then some tid else none
    | _ => none
  | _ => none

/-- The step starts an attempt: a run of `handle_ocr_completed` moves the document from
`extract_pending` to `extract_running`. -/
def opens (d : DocId) (s : Sys) (a : Sys.Action) (t : Sys) : Bool :=
  (openingSlot d s a).isSome && moves d .extractPending .extractRunning s t

def bySweeper (s : Sys) : Sys.Action → Bool
  | .run tid _ =>
    match s.tasks tid with
    | some (.sweep _) => true
    | _ => false
  | _ => false

/-- A sweep that starts on this database moves the document back to `extract_pending`. -/
def takesBack (site : Deployment) (d : DocId) (db : Db) (cap : Nat) (locked : List DocId) : Bool :=
  (Sweeper.claimStuckBatch site db cap locked).any fun r =>
    r.1 = d && r.2.state = .extractRunning && !Sweeper.capped site r.2

namespace Watched

/-- The attempt a step counts: a run's own, or the last one started when a sweep takes the
document back. -/
def counts (site : Deployment) (d : DocId) (k : Watched) : Sys.Action → Option Nat
  | .run tid _ =>
    match k.sys.tasks tid with
    | some (.extraction docId (.counting _ _)) => if docId = d then some (k.attempt tid) else none
    | some (.sweep (.claiming cap locked)) => if takesBack site d k.sys.db cap locked then some k.started else none
    | _ => none
  | _ => none

def step (site : Deployment) (d : DocId) (k : Watched) (a : Sys.Action) : Option Watched :=
  (k.sys.step site a).map fun sys =>
    let started := k.started + if opens d k.sys a sys then 1 else 0
    { sys := sys
      started := started
      attempt := fun i => if openingSlot d k.sys a = some i then started else k.attempt i
      counted := (k.counts site d a).toList ++ k.counted }

def Step (site : Deployment) (d : DocId) (k : Watched) (a : Sys.Action) (k' : Watched) : Prop := k.step site d a = some k'

/-- A step counts no attempt that has been counted. -/
def countsOnce (site : Deployment) (d : DocId) (k : Watched) (a : Sys.Action) : Bool :=
  (k.counts site d a).all fun i => i ∉ k.counted

/-- The sweeper moves the document from `extract_running` to `failed`. -/
def givesUp (d : DocId) (k : Watched) (a : Sys.Action) (k' : Watched) : Bool :=
  bySweeper k.sys a && moves d .extractRunning .failed k.sys k'.sys

end Watched

/-! ## The counter and the state -/

def attemptsOf (db : Db) (d : DocId) : Nat := (db.documents.lookup d).elim 0 Document.extractAttempts

theorem attemptsOf_some (h : db.documents.lookup d = some row) : attemptsOf db d = row.extractAttempts := by
  rw [attemptsOf, h, Option.elim_some]

theorem attemptsOf_congr (h : db'.documents.lookup d = db.documents.lookup d) : attemptsOf db' d = attemptsOf db d := by
  rw [attemptsOf, h, attemptsOf]

theorem attemptsOf_write {docId : DocId} (hrow : db.documents.lookup docId = some row)
    (hkept : row'.extractAttempts = row.extractAttempts) : attemptsOf (db.write docId row row') d = attemptsOf db d := by
  by_cases hd : d = docId
  · subst hd
    rw [attemptsOf_some (Db.write_lookup_self ..), attemptsOf_some hrow, hkept]
  · exact attemptsOf_congr (by rw [Db.write_lookup, if_neg hd])

/-- Only the bookkeeping writes the counter. -/
theorem attemptsOf_operation {op : Operation} (h : Operation.Step db op db') (hnote : ∀ notes, op ≠ .note d notes) :
    attemptsOf db' d = attemptsOf db d := by
  by_cases hw : op.writes = some d
  · cases h with
    | insert hnone hfresh =>
      cases hw
      rw [attemptsOf_some (AList.lookup_insert _), hfresh.extractAttempts, attemptsOf, hnone, Option.elim_none]
    | note =>
      cases hw
      exact absurd rfl (hnote _)
    | move hrow | fallThrough hrow | split hrow | rekey hrow | route hrow | settle hrow | post hrow | accept hrow =>
      exact attemptsOf_write hrow rfl
    | @recordShard docId row shardIdx hrow _ =>
      have hclaimed : Db.documents { db with documentShards := (docId, shardIdx) :: db.documentShards } = db.documents := rfl
      exact attemptsOf_write (hclaimed ▸ hrow) rfl
    | send | aside => cases hw
  · exact attemptsOf_congr (h.elsewhere hw).1

/-- Only a move to `extract_running` leads there. -/
theorem running_of_operation {op : Operation} (h : Operation.Step db op db') (hmove : op ≠ .move d .extractRunning)
    (hrow' : db'.documents.lookup d = some row') (hstate : row'.state = .extractRunning) :
    ∃ row, db.documents.lookup d = some row ∧ row.state = .extractRunning := by
  have hwritten : ∀ {documents : Lib.Table DocId Document} {written : Document},
      (documents.insert d written).lookup d = some row' → written.state = .extractRunning := by
    intro documents written hlookup
    rw [AList.lookup_insert] at hlookup
    cases hlookup
    exact hstate
  by_cases hw : op.writes = some d
  · cases h with
    | insert hnone hfresh =>
      cases hw
      rcases hfresh.state with he | he | he <;> (rw [hwritten hrow'] at he; cases he)
    | move hrow =>
      cases hw
      have hto := hwritten hrow'
      exact absurd (congrArg _ hto) hmove
    | note hrow | fallThrough hrow | split hrow | rekey hrow | recordShard hrow =>
      cases hw
      have hkept := hwritten hrow'
      exact ⟨_, hrow, hkept⟩
    | route hrow | settle hrow | post hrow | accept hrow =>
      cases hw
      cases hwritten hrow'
    | send | aside => cases hw
  · rw [(h.elsewhere hw).1] at hrow'
    exact ⟨row', hrow', hstate⟩

/-- The tasks whose step may move the document to `extract_running`, or write its counter. -/
theorem quiet_of_does {start m : Db} {task : Task} {op : Operation} (h : task.Does site start m op)
    (hmarks : marks task = false) (hopening : task ≠ .extraction d .opening) :
    (∀ notes, op ≠ .note d notes) ∧ op ≠ .move d .extractRunning := by
  refine ⟨(unmarked_of_does h hmarks).2, ?_⟩
  rintro rfl
  generalize hto : DocState.extractRunning = toState at h
  cases task with
  | orphanScan | triage | acceptReview | killSwitch => cases h
  | textEmbedded =>
    obtain ⟨_, _, _, h⟩ := h
    cases h <;> cases hto
  | ocrSplit | ocrShard => cases h <;> cases hto
  | extraction =>
    cases h
    exact hopening rfl
  | sweep =>
    cases h
    cases hmarks
  | forceRedrive =>
    cases h with
    | @move _ row target => cases target <;> cases hto

/-- What a step leaves of the counter and of `extract_running`. -/
structure Rises (site : Deployment) (d : DocId) (k : Watched) (a : Sys.Action) (t : Sys) : Prop where
  attempts : attemptsOf t.db d ≤ attemptsOf k.sys.db d + (k.counts site d a).toList.length
  running : ∀ row', t.document d = some row' → row'.state = .extractRunning →
    (∃ row, k.sys.document d = some row ∧ row.state = .extractRunning) ∨ opens d k.sys a t = true

theorem Rises.of_lookup {k : Watched} {a : Sys.Action} {t : Sys} (h : t.document d = k.sys.document d) :
    Rises site d k a t := by
  refine ⟨?_, fun row' hrow' hstate => Or.inl ⟨row', h ▸ hrow', hstate⟩⟩
  rw [attemptsOf_congr h]
  exact Nat.le_add_right _ _

/-- A mark adds one to the counter where a step counts. -/
theorem rises_of_marked {k : Watched} {tid : Nat} {input : Input} {task : Task} {t : Sys}
    (htask : k.sys.tasks tid = some task) (hrow : k.sys.document d = some row) (hrow' : t.document d = some row')
    (h : Marked site k.sys.db d row task row') : Rises site d k (.run tid input) t := by
  have hmade : row'.extractAttempts ≤ row.extractAttempts + (k.counts site d (.run tid input)).toList.length →
      (row'.state = .extractRunning → row.state = .extractRunning) → Rises site d k (.run tid input) t := by
    intro hattempts hstate
    refine ⟨?_, fun row₂ hrow₂ hrunning => Or.inl ⟨row, hrow, hstate ?_⟩⟩
    · rwa [attemptsOf_some hrow, attemptsOf_some hrow']
    · rw [hrow'] at hrow₂
      cases hrow₂
      exact hrunning
  cases h with
  | stamped | repaired => exact hmade (Nat.le_add_right _ _) id
  | counted =>
    refine hmade ?_ id
    simp [Watched.counts, htask, AttemptColumn.bump]
  | @swept cap locked hmem =>
    have hback : row.state = .extractRunning → Sweeper.capped site row = false →
        takesBack site d k.sys.db cap locked = true := by
      intro hrunning hcapped
      rw [takesBack, List.any_eq_true]
      exact ⟨(d, row), hmem, by simp [hrunning, hcapped]⟩
    refine hmade ?_ fun hrunning => ?_
    · unfold Sweeper.swept
      split
      · exact Nat.le_add_right _ _
      · next hcapped =>
        rw [Bool.not_eq_true] at hcapped
        cases hstate : row.state with
        | extractRunning =>
          simp [Sweeper.reset, Sweeper.stageAttempts, hstate, DocState.isRunning, DocState.isText, Document.moved,
            AttemptColumn.bump, Watched.counts, htask, hback hstate hcapped]
        | textRunning =>
          simp [Sweeper.reset, Sweeper.stageAttempts, hstate, DocState.isRunning, DocState.isText, Document.moved,
            AttemptColumn.bump]
        | textPending | extractPending | complete | review | failed =>
          simp [Sweeper.reset, hstate, DocState.isRunning, Document.moved]
    · unfold Sweeper.swept at hrunning
      split at hrunning
      · cases hrunning
      · cases hstate : row.state <;> simp [Sweeper.reset, hstate, DocState.toPending, Document.moved] at hrunning

/-- The opening transaction commits on a document that waits, or is already running. -/
theorem opening_running {verdict : Extraction.Verdict} {w : World}
    (hrow' : (Extraction.step site d verdict w .opening).1.db.documents.lookup d = some row')
    (hstate : row'.state = .extractRunning) :
    ∃ row, w.db.documents.lookup d = some row ∧ (row.state = .extractPending ∨ row.state = .extractRunning) := by
  simp only [Extraction.step] at hrow'
  rcases w.transact_cases (Extraction.openRun d)
    (fun _ => (.goto .selecting : Next Extraction.Pc Extraction.Result)) .raised with ⟨_, db, hc, _⟩ | ⟨_, he⟩
  · obtain ⟨row, hrow, hopens, _⟩ := Extraction.openRun_commits.mp hc
    exact ⟨row, hrow, hopens⟩
  · rw [he] at hrow'
    exact ⟨row', hrow', Or.inr hstate⟩

theorem rises_of_step {k : Watched} {a : Sys.Action} {t : Sys} (hs : Sys.Step site k.sys a t) : Rises site d k a t := by
  cases Sys.step_kind hs with
  | idle => exact .of_lookup rfl
  | relayed hrelay => exact .of_lookup (by rw [Sys.document, (Sys.relay_keeps hrelay).1.documents])
  | sunk hsink =>
    have hdocs : t.db.documents = k.sys.db.documents := by
      rcases Sys.sink_posts hsink with hdb | ⟨_, _, _, _, _, hdb⟩ <;> rw [hdb]
    exact .of_lookup (by rw [Sys.document, hdocs])
  | @ran tid input task r htask hr =>
    by_cases hmarks : marks task = true
    · rcases marked_of_task hr hmarks d with hkept | ⟨row, row', hrow, hrow', hmarked⟩
      · exact .of_lookup hkept
      · exact rises_of_marked htask hrow hrow' hmarked
    · rw [Bool.not_eq_true] at hmarks
      have hdoes := Task.step_performs hr
      have hattempts : attemptsOf r.1.db d = attemptsOf k.sys.db d :=
        hdoes.invariant (P := fun m => attemptsOf m d = attemptsOf k.sys.db d) rfl fun _ _ _ hi hop hstep =>
          (attemptsOf_operation hstep (unmarked_of_does hop hmarks).2).trans hi
      refine ⟨hattempts ▸ Nat.le_add_right _ _, fun row' hrow' hstate => ?_⟩
      by_cases hopening : task = .extraction d .opening
      · subst hopening
        cases hr
        obtain ⟨row, hrow, hopens⟩ := opening_running hrow' hstate
        rcases hopens with hpending | hrunning
        · have hslot : openingSlot d k.sys (.run tid input) = some tid := by simp [openingSlot, htask]
          have hbefore : (k.sys.document d).any (fun row => row.state = .extractPending) = true := by
            rw [Sys.document, hrow, Option.any_some, decide_eq_true hpending]
          refine Or.inr ?_
          rw [opens, hslot, moves, hbefore, hrow', Option.any_some, decide_eq_true hstate]
          rfl
        · exact Or.inl ⟨row, hrow, hrunning⟩
      · exact Or.inl (hdoes.invariant (P := fun m => ∀ row', m.documents.lookup d = some row' →
          row'.state = .extractRunning → ∃ row, k.sys.document d = some row ∧ row.state = .extractRunning)
          (fun row hrow hstate => ⟨row, hrow, hstate⟩) (fun m op m' hi hop hstep row' hrow' hstate => by
            obtain ⟨row, hrow, hrunning⟩ :=
              running_of_operation hstep (quiet_of_does hop hmarks hopening).2 hrow' hstate
            exact hi row hrow hrunning) row' hrow' hstate)

/-! ## Runs -/

namespace Watched

variable {k k' : Watched} {a : Sys.Action}

/-- Every rise of the counter is the only count of an attempt that has started. -/
structure Numbered (d : DocId) (k : Watched) : Prop where
  attempts : attemptsOf k.sys.db d ≤ k.counted.length
  counted : ∀ i, i ∈ k.counted → 1 ≤ i ∧ i ≤ k.started
  once : k.counted.Nodup
  running : ∀ row, k.sys.document d = some row → row.state = .extractRunning → 1 ≤ k.started
  working : ∀ tid pc, k.sys.tasks tid = some (.extraction d pc) → pc ≠ .opening →
    1 ≤ k.attempt tid ∧ k.attempt tid ≤ k.started

/-- The attempts that have been counted are some of those that have started. -/
theorem Numbered.length_le (h : Numbered d k) : k.counted.length ≤ k.started := by
  have hsub : k.counted ⊆ List.range' 1 k.started := by
    intro i hi
    obtain ⟨hfirst, hlast⟩ := h.counted i hi
    rw [List.mem_range'_1]
    omega
  calc k.counted.length ≤ (List.range' 1 k.started).length := (h.once.subperm hsub).length_le
    _ = k.started := List.length_range'

/-- What a step counts has started. -/
theorem counts_started (h : Numbered d k) {i : Nat} (hi : k.counts site d a = some i) : 1 ≤ i ∧ i ≤ k.started := by
  unfold counts at hi
  split at hi
  · next tid input =>
    split at hi
    · next docId doc assembled htask =>
      split at hi <;> cases hi
      next hd =>
        subst hd
        exact h.working tid _ htask nofun
    · next cap locked htask =>
      split at hi <;> cases hi
      next hback =>
        obtain ⟨⟨docId, row⟩, hr, htest⟩ := List.any_eq_true.mp hback
        simp only [Bool.and_eq_true, decide_eq_true_eq] at htest
        obtain ⟨⟨rfl, hrunning⟩, _⟩ := htest
        exact ⟨h.running row (Sweeper.claimStuckBatch_current _ hr).1 hrunning, Nat.le_refl _⟩
    · cases hi
  · cases hi

/-- Watching changes nothing: every run of the pipeline is watched. -/
theorem watched_of_freeRun (d : DocId) {as : List Sys.Action} {s : Sys} (h : Sys.FreeRun site Sys.initial as s) :
    ∃ k : Watched, k.sys = s ∧ Run (Watched.Step site d) Always {} as k := by
  induction h with
  | nil => exact ⟨{}, rfl, .nil⟩
  | @snoc _ t _ a _ _ hs ih =>
    obtain ⟨k, rfl, hrun⟩ := ih
    obtain ⟨k', hk', hsys⟩ : ∃ k', k.Step site d a k' ∧ k'.sys = t :=
      ⟨_, Option.map_eq_some_iff.mpr ⟨t, hs, rfl⟩, rfl⟩
    exact ⟨k', hsys, hrun.snoc trivial hk'⟩

theorem numbered_initial (d : DocId) : Numbered d {} := by
  have hnone : Sys.initial.document d = none := rfl
  refine ⟨?_, nofun, List.nodup_nil, fun row hrow => ?_, fun _ _ htask => nomatch htask⟩
  · change (Sys.initial.document d).elim 0 Document.extractAttempts ≤ 0
    rw [hnone]
    exact Nat.le_refl _
  · rw [hnone] at hrow
    cases hrow

theorem pc_of_openingSlot {s : Sys} {tid : Nat} {pc : Extraction.Pc} (hslot : openingSlot d s a = some tid)
    (htask : s.tasks tid = some (.extraction d pc)) : pc = .opening := by
  unfold openingSlot at hslot
  split at hslot
  · split at hslot
    · next hopening =>
      split at hslot <;> cases hslot
      rw [htask] at hopening
      cases hopening
      rfl
    · cases hslot
  · cases hslot

/-- A run past its opening is at an attempt that has started. -/
theorem working_step (h : Numbered d k) {t : Sys} (ht : Sys.Step site k.sys a t) {started tid : Nat}
    {pc : Extraction.Pc} (hlater : k.started ≤ started)
    (hrunning : ∀ row, t.document d = some row → row.state = .extractRunning → 1 ≤ started)
    (htask : t.tasks tid = some (.extraction d pc)) (hpc : pc ≠ .opening) :
    1 ≤ (if openingSlot d k.sys a = some tid then started else k.attempt tid) ∧
      (if openingSlot d k.sys a = some tid then started else k.attempt tid) ≤ started := by
  have hold : ∀ before, k.sys.tasks tid = some (.extraction d before) → before ≠ .opening →
      1 ≤ (if openingSlot d k.sys a = some tid then started else k.attempt tid) ∧
        (if openingSlot d k.sys a = some tid then started else k.attempt tid) ≤ started := by
    intro before hbefore hne
    rw [if_neg fun hslot => hne (pc_of_openingSlot hslot hbefore)]
    obtain ⟨hfirst, hlast⟩ := h.working tid before hbefore hne
    exact ⟨hfirst, hlast.trans hlater⟩
  rcases Sys.extraction_of_step ht htask with hbefore | hopening | ⟨input, before, rfl, hbefore, hgoto⟩
  · exact hold pc hbefore hpc
  · exact absurd hopening hpc
  · cases before with
    | opening =>
      have hslot : openingSlot d k.sys (.run tid input) = some tid := by simp [openingSlot, hbefore]
      obtain ⟨row, _, _, hdb⟩ := Extraction.opening_goto hgoto
      obtain ⟨task, r, htask', hr, rfl⟩ := Sys.runTask_eq ht
      rw [hbefore] at htask'
      cases htask'
      cases hr
      have hopened : (Extraction.step site d input.verdict k.sys.world .opening).1.db.documents.lookup d =
          some (row.moved .extractRunning k.sys.db.now) := by
        rw [hdb, Db.write_lookup_self]
      rw [if_pos hslot]
      exact ⟨hrunning _ hopened rfl, Nat.le_refl _⟩
    | selecting | stamping | looking | gathering | readingBack | routing | counting | extracting | exhausted
    | checkingFlag | holding | posting => exact hold _ hbefore nofun

theorem numbered_step (h : Numbered d k) (hg : countsOnce site d k a = true) (hs : k.Step site d a k') :
    Numbered d k' := by
  obtain ⟨t, ht, rfl⟩ := Option.map_eq_some_iff.mp hs
  have hrises : Rises site d k a t := rises_of_step ht
  have hlater : k.started ≤ k.started + if opens d k.sys a t then 1 else 0 := Nat.le_add_right _ _
  have hrunning : ∀ row, t.document d = some row → row.state = .extractRunning →
      1 ≤ k.started + if opens d k.sys a t then 1 else 0 := by
    intro row hrow hstate
    rcases hrises.running row hrow hstate with ⟨before, hbefore, hrunning⟩ | hopens
    · exact (h.running before hbefore hrunning).trans hlater
    · rw [hopens, if_pos rfl]
      exact Nat.le_add_left _ _
  refine ⟨?_, fun i hi => ?_, ?_, hrunning, fun tid pc htask hpc => working_step h ht hlater hrunning htask hpc⟩
  · show attemptsOf t.db d ≤ ((k.counts site d a).toList ++ k.counted).length
    have hbefore := h.attempts
    have hafter := hrises.attempts
    rw [List.length_append]
    omega
  · have hstarted : 1 ≤ i ∧ i ≤ k.started := by
      rcases List.mem_append.mp hi with hnew | hold
      · exact counts_started h (Option.mem_toList.mp hnew)
      · exact h.counted i hold
    exact ⟨hstarted.1, hstarted.2.trans hlater⟩
  · show ((k.counts site d a).toList ++ k.counted).Nodup
    cases hcounts : k.counts site d a with
    | none => exact h.once
    | some i =>
      rw [countsOnce, hcounts, Option.all_some, decide_eq_true_eq] at hg
      exact List.nodup_cons.mpr ⟨hg, h.once⟩

theorem capped_of_swept {now : Nat} (hrunning : row.state = .extractRunning)
    (hfailed : (Sweeper.swept site row now).state = .failed) : site.maxExtractAttempts ≤ row.extractAttempts := by
  have houtcome : Outcome site row (Sweeper.swept site row now) := outcome_swept (by rw [hrunning]; rfl)
  cases houtcome with
  | gaveUp hcap =>
    rcases hcap with ⟨htext, _⟩ | ⟨_, hcap⟩
    · rw [hrunning] at htext
      cases htext
    · exact hcap
  | textAgain _ _ hstate | extractAgain _ _ hstate =>
    rw [hfailed] at hstate
    cases hstate
  | kept hpending =>
    rw [hrunning] at hpending
    rcases hpending with hpending | hpending <;> cases hpending

/-- A sweep gives up on a document whose counter has reached the cap. -/
theorem capped_of_givesUp (hs : k.Step site d a k') (hgives : givesUp d k a k' = true) :
    ∃ row, k.sys.document d = some row ∧ site.maxExtractAttempts ≤ row.extractAttempts := by
  obtain ⟨t, ht, rfl⟩ := Option.map_eq_some_iff.mp hs
  rw [givesUp, Bool.and_eq_true, moves, Bool.and_eq_true] at hgives
  obtain ⟨hsweep, hbefore, hafter⟩ := hgives
  obtain ⟨row, hrow, hrunning⟩ := (Option.any_eq_true ..).mp hbefore
  obtain ⟨row', hrow', hfailed⟩ := (Option.any_eq_true ..).mp hafter
  rw [decide_eq_true_eq] at hrunning hfailed
  unfold bySweeper at hsweep
  split at hsweep
  · next tid input =>
    obtain ⟨task, r, htask, hr, rfl⟩ := Sys.runTask_eq ht
    split at hsweep
    · next pc hpc =>
      rw [htask] at hpc
      cases hpc
      have hmoved : ¬ r.1.db.documents.lookup d = k.sys.document d := by
        intro hkept
        have hsame : row' = row := Option.some.inj (hrow'.symm.trans (hkept.trans hrow))
        rw [← hsame, hfailed] at hrunning
        cases hrunning
      cases pc with
      | claiming cap locked =>
        rcases marked_of_task hr rfl d with hkept | ⟨before, after, hread, hleft, hmarked⟩
        · exact absurd hkept hmoved
        · obtain rfl : before = row := Option.some.inj (hread.symm.trans hrow)
          obtain rfl : after = row' := Option.some.inj (hleft.symm.trans hrow')
          cases hmarked
          exact ⟨before, hread, capped_of_swept hrunning hfailed⟩
      | redriving claimed =>
        refine absurd ?_ hmoved
        cases hr
        cases claimed with
        | nil => rfl
        | cons r rest =>
          simp only [Sweeper.step]
          rcases k.sys.world.transact_cases (Sweeper.redriveDocument site r.1 r.2)
            (fun _ => (.goto (.redriving rest) : Next Sweeper.Pc Unit)) .raised with ⟨_, db, hc, he⟩ | ⟨_, he⟩
          · rw [he, (Sweeper.redriveDocument_kept hc).1]
          · rw [he]
    · cases hsweep
  · cases hsweep

/-- In every run in which each count is the first of its attempt, the counter is at most the
number of attempts that have started, and a sweep gives up only after as many as the cap. -/
theorem cap_counts_attempts {as : List Sys.Action}
    (h : Run (Watched.Step site d) (fun k a => countsOnce site d k a = true) {} as k) :
    ((∀ row, k.sys.document d = some row → row.extractAttempts ≤ k.counted.length) ∧ k.counted.Nodup ∧
      ∀ i, i ∈ k.counted → 1 ≤ i ∧ i ≤ k.started) ∧
    ∀ a k', k.Step site d a k' → givesUp d k a k' = true → site.maxExtractAttempts ≤ k.started := by
  have hnumbered : Numbered d k := h.invariant (numbered_initial d) fun _ _ _ hi hg hs => numbered_step hi hg hs
  refine ⟨⟨fun row hrow => ?_, hnumbered.once, hnumbered.counted⟩, fun a k' hs hgives => ?_⟩
  · exact attemptsOf_some hrow ▸ hnumbered.attempts
  · obtain ⟨row, hrow, hcap⟩ := capped_of_givesUp hs hgives
    calc site.maxExtractAttempts ≤ row.extractAttempts := hcap
      _ = attemptsOf k.sys.db d := (attemptsOf_some hrow).symm
      _ ≤ k.counted.length := hnumbered.attempts
      _ ≤ k.started := hnumbered.length_le

/-! ## Two ways to die -/

/-- The run in slot 0 takes `n` steps and dies, and the sweeper takes the document back. -/
def diesAfter (n offset : Nat) : List Sys.Action :=
  [.receive 0 .ocrCompleted 0 offset] ++ Schedule.turns 0 n ++ [.crash 0, .tick 31 0] ++ Schedule.sweep 1 ++
    Schedule.publish 1

/-- The same for the last time, up to the sweep. -/
def diesAtLast (n offset : Nat) : List Sys.Action :=
  [.receive 0 .ocrCompleted 0 offset] ++ Schedule.turns 0 n ++ [.crash 0, .tick 31 0, .spawn 1 (.sweep 50 [])]

/-- A sweep that gives up now, after this many attempts. -/
def givesUpAfter (site : Deployment) (d : DocId) (n : Nat) (k : Watched) : Bool :=
  k.started = n && (k.step site d (.run 1 {})).any fun k' => givesUp d k (.run 1 {}) k'

theorem givesUpAfter_step {n : Nat} (h : givesUpAfter site d n k = true) :
    k.started = n ∧ ∃ k', k.Step site d (.run 1 {}) k' ∧ givesUp d k (.run 1 {}) k' = true := by
  rw [givesUpAfter, Bool.and_eq_true, decide_eq_true_eq] at h
  obtain ⟨hstarted, hstep⟩ := h
  obtain ⟨k', hk', hgives⟩ := (Option.any_eq_true ..).mp hstep
  exact ⟨hstarted, k', hk', hgives⟩

def twoAttempts : Deployment := { oneInvoice with maxExtractAttempts := 2 }

/-- Every run dies right after its opening: only the sweeps count. -/
theorem uncounted_deaths_reach_cap :
    ∃ as k k', Run (Watched.Step twoAttempts "crc32c-a") (fun k a => countsOnce twoAttempts "crc32c-a" k a = true) {} as k ∧
      k.Step twoAttempts "crc32c-a" (.run 1 {}) k' ∧ givesUp "crc32c-a" k (.run 1 {}) k' = true ∧
      twoAttempts.maxExtractAttempts ≤ k.started := by
  let as := Schedule.intake ["a.pdf"] ++ Schedule.textLayer 0 ++ diesAfter 1 0 ++ diesAfter 1 1 ++ diesAtLast 1 2
  have hexec : (execWhile (Watched.step twoAttempts "crc32c-a") (countsOnce twoAttempts "crc32c-a") {} as).any
      (givesUpAfter twoAttempts "crc32c-a" 3) = true := by
    decide +kernel
  obtain ⟨k, hk, htest⟩ := (Option.any_eq_true ..).mp hexec
  have hrun := run_of_execWhile hk
  obtain ⟨_, k', hstep, hgives⟩ := givesUpAfter_step htest
  exact ⟨as, k, k', hrun, hstep, hgives, (cap_counts_attempts hrun).2 _ k' hstep hgives⟩

/-- Every run dies right after it has counted itself, and the sweep counts it again: three
attempts spend a budget of five. -/
theorem counted_deaths_reach_cap_early :
    ¬∀ (site : Deployment) (d : DocId) (as : List Sys.Action) (k k' : Watched) (a : Sys.Action),
      Run (Watched.Step site d) Always {} as k → k.Step site d a k' → givesUp d k a k' = true →
        site.maxExtractAttempts ≤ k.started := by
  intro hclaim
  let as := Schedule.intake ["a.pdf"] ++ Schedule.textLayer 0 ++ diesAfter 5 0 ++ diesAfter 5 1 ++ diesAtLast 5 2
  have hexec : (execWhile (Watched.step oneInvoice "crc32c-a") (fun _ _ => true) {} as).any
      (givesUpAfter oneInvoice "crc32c-a" 3) = true := by
    decide +kernel
  obtain ⟨k, hk, htest⟩ := (Option.any_eq_true ..).mp hexec
  obtain ⟨hstarted, k', hstep, hgives⟩ := givesUpAfter_step htest
  have hcap := hclaim oneInvoice "crc32c-a" as k k' _ (run_of_execWhile hk).unguarded hstep hgives
  rw [hstarted] at hcap
  exact absurd hcap (by decide)

end Watched

end DocPipeline.Audit

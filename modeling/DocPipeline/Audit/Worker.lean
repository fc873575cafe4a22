import DocPipeline.Audit.Record
import DocPipeline.Audit.Upload
import DocPipeline.Audit.Wire
import DocPipeline.Transport.Posting
import DocPipeline.Transport.Worker

/-!
# Is every message handled?

Between the outbox and a handler that is done with the message, a message can only be lost by
a commit that passes over it. The loops keep the account the sink keeps: below the committed
offset, a run of each message's own handler has ended, by returning or by finding that its
document has moved on.
-/
namespace DocPipeline.Audit

set_option autoImplicit false

open Lib Sys Gather

variable {site : Deployment} {f g : Fleet} {a : Fleet.Act} {topic : Topic} {partition offset tid : Nat}

/-! ## One step of a handler -/

theorem next_goes_on {π ρ : Type} {next : Next π ρ} (h : next.ending = none) : ∃ pc, next = .goto pc := by
  cases next with
  | goto pc => exact ⟨pc, rfl⟩
  | returned => cases h
  | raised error => cases error <;> cases h

/-- A run of a message's handler goes on as such, unless this is the step that ends it. -/
theorem origin_of_step {w : World} {input : Input} {payload : Payload} {task : Task} {r : World × Option Task}
    (hs : task.step site w input = some r) (horigin : Task.ofMessage topic payload = some task.origin)
    (hending : task.ending site w input = none) : ∃ task', r.2 = some task' ∧ task'.origin = task.origin := by
  cases task with
  | triage gcsPath =>
    obtain ⟨pc, hpc⟩ := next_goes_on hending
    unfold World.transact at hpc
    split at hpc <;> cases hpc
  | textEmbedded docId gcsPath pc =>
    obtain ⟨r, hr, rfl⟩ := Option.map_eq_some_iff.mp hs
    simp only [Task.ending, hr, Option.bind_some] at hending
    obtain ⟨pc', hpc⟩ := next_goes_on hending
    exact ⟨.textEmbedded docId gcsPath pc', by rw [hpc]; rfl, rfl⟩
  | ocrSplit docId gcsPath pc =>
    obtain ⟨r, hr, rfl⟩ := Option.map_eq_some_iff.mp hs
    simp only [Task.ending, hr, Option.bind_some] at hending
    obtain ⟨pc', hpc⟩ := next_goes_on hending
    exact ⟨.ocrSplit docId gcsPath pc', by rw [hpc]; rfl, rfl⟩
  | ocrShard payload pc =>
    cases hs
    obtain ⟨pc', hpc⟩ := next_goes_on hending
    exact ⟨.ocrShard payload pc', congrArg (Next.task (.ocrShard payload)) hpc, rfl⟩
  | extraction docId pc =>
    cases hs
    obtain ⟨pc', hpc⟩ := next_goes_on hending
    exact ⟨.extraction docId pc', congrArg (Next.task (.extraction docId)) hpc, rfl⟩
  | orphanScan | sweep | forceRedrive | acceptReview | killSwitch => cases topic <;> cases payload <;> cases horigin

/-! ## One step of the loops -/

/-- How the run in a slot ends with the next step, if it does. -/
def endingOf (site : Deployment) (s : Sys) (tid : Nat) (input : Input) : Option Ending :=
  (s.tasks tid).bind (Task.ending site s.world input)

/-- What a step of the loops is. -/
inductive Moves (site : Deployment) (f : Fleet) : Fleet.Act → Fleet → Prop
  /-- No consumer notices. -/
  | passed {a : Action} {t : Sys} : Sys.Step site f.sys a t → (∀ tid, f.owner tid ≠ none →
      a ≠ .crash tid ∧ ∀ input, a = .run tid input → endingOf site f.sys tid input = none) →
      Moves site f (.sys a) { f with sys := t }
  | handled {tid : Nat} {input : Input} {t : Sys} {topic : Topic} {partition : Nat} {ending : Ending} :
      Sys.Step site f.sys (.run tid input) t → f.owner tid = some (topic, partition) →
      endingOf site f.sys tid input = some ending → topic.settles ending = true →
      Moves site f (.sys (.run tid input))
        (({ f with sys := t }.setConsumer topic partition (f.consumers topic partition).handle).setOwner tid none)
  | raised {a : Action} {tid : Nat} {t : Sys} {topic : Topic} {partition : Nat} {c : Consumer} :
      Sys.Step site f.sys a t → a.slot = some tid → f.owner tid = some (topic, partition) →
      (f.consumers topic partition).fail = some c →
      Moves site f (.sys a) (({ f with sys := t }.setConsumer topic partition c).setOwner tid none)
  | polled {topic : Topic} {partition tid : Nat} {t : Sys} {c : Consumer} :
      (f.consumers topic partition).poll (f.sys.broker topic partition).length = some c →
      Sys.Step site f.sys (.receive tid topic partition (f.consumers topic partition).position) t →
      Moves site f (.poll topic partition tid)
        (({ f with sys := t }.setConsumer topic partition c).setOwner tid (some (topic, partition)))
  | failed {topic : Topic} {partition : Nat} {c : Consumer} :
      (f.consumers topic partition).handled = true → (f.consumers topic partition).fail = some c →
      Moves site f (.fail topic partition) (f.setConsumer topic partition c)
  | committed {topic : Topic} {partition : Nat} {c : Consumer} : (f.consumers topic partition).commit = some c →
      Moves site f (.commit topic partition) (f.setConsumer topic partition c)
  | restarted {topic : Topic} {partition : Nat} : Moves site f (.restart topic partition)
      { f.setConsumer topic partition (f.consumers topic partition).restart with
        owner := fun tid => if f.owner tid = some (topic, partition) then none else f.owner tid }

theorem moves_of_finish {a : Action} {t : Sys} {settled : Topic → Bool} (hs : Sys.Step site f.sys a t)
    (hslot : a.slot = some tid) (hfinish : { f with sys := t }.finish tid settled = some g)
    (hfree : f.owner tid = none → Moves site f (.sys a) { f with sys := t })
    (hsettled : ∀ topic partition, f.owner tid = some (topic, partition) → settled topic = true → Moves site f (.sys a)
      (({ f with sys := t }.setConsumer topic partition (f.consumers topic partition).handle).setOwner tid none)) :
    Moves site f (.sys a) g := by
  unfold Fleet.finish at hfinish
  split at hfinish
  · next topic partition howner =>
    obtain ⟨c, hc, rfl⟩ := Option.map_eq_some_iff.mp hfinish
    split at hc
    · next hyes =>
      cases hc
      exact hsettled topic partition howner hyes
    · exact .raised hs hslot howner hc
  · next howner =>
    cases hfinish
    exact hfree howner

theorem moves_of_step (h : Fleet.Step site f a g) : Moves site f a g := by
  have hplain : ∀ {a : Action}, (∀ tid, a ≠ .crash tid ∧ ∀ input, a ≠ .run tid input) →
      (f.sys.step site a).map (fun t => { f with sys := t }) = some g → Moves site f (.sys a) g := by
    intro a hother hs
    obtain ⟨t, ht, rfl⟩ := Option.map_eq_some_iff.mp hs
    exact .passed ht fun tid _ => ⟨(hother tid).1, fun input he => absurd he ((hother tid).2 input)⟩
  unfold Fleet.Step at h
  cases a with
  | sys a =>
    cases a with
    | receive => cases h
    | tick | spawn | relay | sink =>
      refine hplain (fun tid => ⟨fun he => ?_, fun input he => ?_⟩) h <;> cases he
    | run tid input =>
      obtain ⟨t, ht, hrest⟩ := Option.bind_eq_some_iff.mp h
      have hfree : f.owner tid = none → Moves site f (.sys (.run tid input)) { f with sys := t } := by
        refine fun howner => .passed ht fun tid' hne => ⟨fun he => ?_, fun input' he => ?_⟩
        · cases he
        · cases he
          exact absurd howner hne
      split at hrest
      · next ending hending =>
        exact moves_of_finish ht rfl hrest hfree fun topic partition howner hyes => .handled ht howner hending hyes
      · next hending =>
        cases hrest
        refine .passed ht fun tid' _ => ⟨fun he => ?_, fun input' he => ?_⟩
        · cases he
        · cases he
          exact hending
    | crash tid =>
      simp only [Fleet.step] at h
      obtain ⟨t, ht, hrest⟩ := Option.bind_eq_some_iff.mp h
      refine moves_of_finish ht rfl hrest (fun howner => .passed ht fun tid' hne => ⟨fun he => ?_, fun input he => ?_⟩)
        fun _ _ _ hno => absurd hno Bool.false_ne_true
      · cases he
        exact hne howner
      · cases he
  | poll topic partition tid =>
    obtain ⟨c, hc, hrest⟩ := Option.bind_eq_some_iff.mp h
    obtain ⟨t, ht, rfl⟩ := Option.map_eq_some_iff.mp hrest
    exact .polled hc ht
  | fail topic partition =>
    simp only [Fleet.step] at h
    split at h
    · next hhandled =>
      obtain ⟨c, hc, rfl⟩ := Option.map_eq_some_iff.mp h
      exact .failed hhandled hc
    · cases h
  | commit topic partition =>
    obtain ⟨c, hc, rfl⟩ := Option.map_eq_some_iff.mp h
    exact .committed hc
  | restart topic partition =>
    cases h
    exact .restarted

/-! ## What the loops keep -/

/-- A run of the handler of the message at this offset takes its last step, which settles it. -/
def SettlesAt (site : Deployment) (topic : Topic) (partition offset : Nat) (f : Fleet) (a : Fleet.Act) : Prop :=
  ∃ tid input task row ending, a = .sys (.run tid input) ∧ f.sys.tasks tid = some task ∧
    (f.sys.broker topic partition)[offset]? = some row ∧ Task.ofMessage topic row.payload = some task.origin ∧
    task.ending site f.sys.world input = some ending ∧ topic.settles ending = true

/-- The consumer has the message of this run in hand, and the run is one of the message's handler. -/
def Waits (f : Fleet) (tid : Nat) (topic : Topic) (partition : Nat) : Prop :=
  ∃ offset row task, (f.consumers topic partition).inHand = some offset ∧
    (f.consumers topic partition).handled = false ∧ f.sys.tasks tid = some task ∧
    (f.sys.broker topic partition)[offset]? = some row ∧ Task.ofMessage topic row.payload = some task.origin

structure Looping (Done : Topic → Nat → Nat → Prop) (f : Fleet) : Prop where
  covers : ∀ topic partition, (f.consumers topic partition).Covers (Done topic partition)
  waits : ∀ tid topic partition, f.owner tid = some (topic, partition) → Waits f tid topic partition
  single : ∀ tid tid' p, f.owner tid = some p → f.owner tid' = some p → tid = tid'

variable {Done Done' : Topic → Nat → Nat → Prop}

theorem looping_initial : Looping Done {} := by
  refine ⟨fun _ _ => Consumer.covers_initial _, fun tid topic partition h => ?_, fun tid tid' p h => ?_⟩ <;> cases h

/-- A run that waits is left alone by the steps of the others. -/
theorem Waits.kept {t : Sys} {b : Action} (h : Waits f tid topic partition) (hs : Sys.Step site f.sys b t)
    (hslot : b.slot ≠ some tid) (hsys : g.sys = t) (hc : g.consumers topic partition = f.consumers topic partition) :
    Waits g tid topic partition := by
  obtain ⟨offset, row, task, hin, hhandled, htask, hrow, horigin⟩ := h
  refine ⟨offset, row, task, hc ▸ hin, hc ▸ hhandled, ?_, ?_, horigin⟩
  · rw [hsys, tasks_frame hs hslot, htask]
  · rw [hsys]
    obtain ⟨rest, hrest⟩ := log_grows hs topic partition
    obtain ⟨hlt, _⟩ := List.getElem?_eq_some_iff.mp hrow
    rw [← hrest, List.getElem?_append_left hlt, hrow]

/-- So is one whose own step does not end it. -/
theorem Waits.passed {t : Sys} {b : Action} (h : Waits f tid topic partition) (hs : Sys.Step site f.sys b t)
    (hcrash : b ≠ .crash tid) (hrun : ∀ input, b = .run tid input → endingOf site f.sys tid input = none) :
    Waits { f with sys := t } tid topic partition := by
  by_cases hslot : b.slot = some tid
  · obtain ⟨offset, row, task, hin, hhandled, htask, hrow, horigin⟩ := h
    have hlog : (t.broker topic partition)[offset]? = some row := by
      obtain ⟨rest, hrest⟩ := log_grows hs topic partition
      obtain ⟨hlt, _⟩ := List.getElem?_eq_some_iff.mp hrow
      rw [← hrest, List.getElem?_append_left hlt, hrow]
    by_cases hown : ∃ input, b = .run tid input
    · obtain ⟨input, rfl⟩ := hown
      obtain ⟨task', r, htask', hr, rfl⟩ := runTask_eq hs
      obtain rfl := Option.some.inj (htask.symm.trans htask')
      have hending : task.ending site f.sys.world input = none := by
        simpa only [endingOf, htask, Option.bind_some] using hrun input rfl
      obtain ⟨next, hnext, heq⟩ := origin_of_step hr horigin hending
      exact ⟨offset, row, next, hin, hhandled, by simpa using hnext, hlog, heq ▸ horigin⟩
    · exact ⟨offset, row, task, hin, hhandled, task_kept hs htask (fun input he => hown ⟨input, he⟩) hcrash, hlog, horigin⟩
  · exact h.kept hs hslot rfl rfl

theorem setConsumer_same (f : Fleet) (topic : Topic) (partition : Nat) (c : Consumer) :
    (f.setConsumer topic partition c).consumers topic partition = c := if_pos ⟨rfl, rfl⟩

theorem setConsumer_other {topic' : Topic} {partition' : Nat} (f : Fleet) (c : Consumer)
    (h : (topic', partition') ≠ (topic, partition)) :
    (f.setConsumer topic partition c).consumers topic' partition' = f.consumers topic' partition' :=
  if_neg fun he => h (Prod.ext he.1 he.2)

/-- One consumer moves on; the others cover what they did. -/
theorem covers_setConsumer {c : Consumer} (h : ∀ topic partition, (f.consumers topic partition).Covers (Done topic partition))
    (hmono : ∀ topic partition offset, Done topic partition offset → Done' topic partition offset)
    (hc : c.Covers (Done' topic partition)) (topic' : Topic) (partition' : Nat) :
    ((f.setConsumer topic partition c).consumers topic' partition').Covers (Done' topic' partition') := by
  by_cases hp : (topic', partition') = (topic, partition)
  · cases hp
    rw [setConsumer_same]
    exact hc
  · rw [setConsumer_other f c hp]
    exact (h topic' partition').mono (hmono topic' partition')

/-- Once a run is over, the others wait as they did. -/
theorem Looping.ended {t : Sys} {b : Action} {c : Consumer} (h : Looping Done f) (hs : Sys.Step site f.sys b t)
    (hslot : b.slot = some tid) (howner : f.owner tid = some (topic, partition)) :
    (∀ i topic' partition', (if i = tid then none else f.owner i) = some (topic', partition') →
      Waits (({ f with sys := t }.setConsumer topic partition c).setOwner tid none) i topic' partition') ∧
    ∀ i j p, (if i = tid then none else f.owner i) = some p → (if j = tid then none else f.owner j) = some p → i = j := by
  have hother : ∀ {i p}, (if i = tid then none else f.owner i) = some p → i ≠ tid ∧ f.owner i = some p := by
    intro i p hi
    split at hi
    · cases hi
    · next hne => exact ⟨hne, hi⟩
  refine ⟨fun i topic' partition' hi => ?_, fun i j p hi hj => h.single i j p (hother hi).2 (hother hj).2⟩
  obtain ⟨hne, hi⟩ := hother hi
  have hp : (topic', partition') ≠ (topic, partition) := by
    intro he
    exact hne (h.single i tid _ hi (he ▸ howner))
  refine (h.waits i topic' partition' hi).kept hs (fun he => hne ?_) rfl (setConsumer_other _ c hp)
  exact Option.some.inj (he.symm.trans hslot)

theorem origin_of_message {payload : Payload} {task : Task} (h : Task.ofMessage topic payload = some task) :
    task.origin = task := by
  cases topic <;> cases payload <;> cases h <;> rfl

/-- The message that is polled starts a run of its own handler, and no other run waits for it. -/
theorem Looping.polled {t : Sys} {c : Consumer} (h : Looping Done f)
    (hpoll : (f.consumers topic partition).poll (f.sys.broker topic partition).length = some c)
    (hs : Sys.Step site f.sys (.receive tid topic partition (f.consumers topic partition).position) t) :
    (∀ i topic' partition', (if i = tid then some (topic, partition) else f.owner i) = some (topic', partition') →
      Waits (({ f with sys := t }.setConsumer topic partition c).setOwner tid (some (topic, partition))) i topic' partition') ∧
    ∀ i j p, (if i = tid then some (topic, partition) else f.owner i) = some p →
      (if j = tid then some (topic, partition) else f.owner j) = some p → i = j := by
  obtain ⟨hnone, hc⟩ : (f.consumers topic partition).inHand = none ∧
      c = { f.consumers topic partition with
        inHand := some (f.consumers topic partition).position
        position := (f.consumers topic partition).position + 1
        handled := false } := by
    unfold Consumer.poll at hpoll
    split at hpoll
    · cases hpoll
    · next hnone =>
      split at hpoll <;> cases hpoll
      exact ⟨hnone, rfl⟩
  have hnew : ∀ i p, f.owner i = some p → p ≠ (topic, partition) := by
    intro i p hi he
    subst he
    obtain ⟨_, _, _, hin, _⟩ := h.waits i topic partition hi
    rw [hnone] at hin
    cases hin
  refine ⟨fun i topic' partition' hi => ?_, fun i j p hi hj => ?_⟩
  · by_cases hne : i = tid
    · rw [if_pos hne] at hi
      cases hi
      subst hne
      obtain ⟨task, hmessage, hstart⟩ := Option.bind_eq_some_iff.mp hs
      obtain ⟨row, hrow, hmessage⟩ := Option.bind_eq_some_iff.mp hmessage
      have hbroker : t.broker = f.sys.broker := by
        unfold startTask at hstart
        split at hstart <;> cases hstart
        rfl
      refine ⟨(f.consumers topic partition).position, row, task, ?_, ?_, task_started hstart, ?_,
        (origin_of_message hmessage).symm ▸ hmessage⟩
      · exact (congrArg Consumer.inHand (setConsumer_same _ _ _ c)).trans (congrArg Consumer.inHand hc)
      · exact (congrArg Consumer.handled (setConsumer_same _ _ _ c)).trans (congrArg Consumer.handled hc)
      · change (t.broker topic partition)[_]? = _
        rw [hbroker, hrow]
    · rw [if_neg hne] at hi
      refine (h.waits i topic' partition' hi).kept hs (fun he => hne ?_) rfl (setConsumer_other _ c (hnew i _ hi))
      exact (Option.some.inj he).symm
  · split at hi <;> split at hj
    · next hi' hj' => exact hi'.trans hj'.symm
    · cases hi
      exact absurd rfl (hnew j _ hj)
    · cases hj
      exact absurd rfl (hnew i _ hi)
    · exact h.single i j p hi hj

/-- A consumer whose message is settled or that has none moves on alone. -/
theorem Looping.moved {c : Consumer} {owner : Nat → Option (Topic × Nat)} (h : Looping Done f)
    (hmono : ∀ topic partition offset, Done topic partition offset → Done' topic partition offset)
    (hc : c.Covers (Done' topic partition))
    (howner : ∀ tid p, owner tid = some p → f.owner tid = some p ∧ p ≠ (topic, partition)) :
    Looping Done' { f.setConsumer topic partition c with owner := owner } := by
  refine ⟨covers_setConsumer h.covers hmono hc, fun tid topic' partition' hi => ?_,
    fun tid tid' p hi hj => h.single tid tid' p (howner tid p hi).1 (howner tid' p hj).1⟩
  obtain ⟨hi, hp⟩ := howner tid _ hi
  obtain ⟨offset, row, task, hin, hhandled, hrest⟩ := h.waits tid topic' partition' hi
  have hsame := setConsumer_other f c hp
  exact ⟨offset, row, task, hsame.symm ▸ hin, hsame.symm ▸ hhandled, hrest⟩

theorem looping_step (h : Looping Done f) (hs : Fleet.Step site f a g)
    (hcommit : ∀ topic partition, a = .commit topic partition → (f.consumers topic partition).failed = false)
    (hmono : ∀ topic partition offset, Done topic partition offset → Done' topic partition offset)
    (hdone : ∀ topic partition offset, SettlesAt site topic partition offset f a → Done' topic partition offset) :
    Looping Done' g := by
  have hcovers := fun topic partition => (h.covers topic partition).mono (hmono topic partition)
  -- a handled message has no run that waits for it
  have hidle : ∀ {topic partition}, (f.consumers topic partition).handled = true →
      ∀ tid p, f.owner tid = some p → f.owner tid = some p ∧ p ≠ (topic, partition) := by
    intro topic partition hhandled tid p hi
    refine ⟨hi, fun he => ?_⟩
    subst he
    obtain ⟨_, _, _, _, hnot, _⟩ := h.waits tid topic partition hi
    rw [hhandled] at hnot
    cases hnot
  cases moves_of_step hs with
  | @passed b t ht hquiet =>
    refine ⟨hcovers, fun tid topic partition hi => ?_, h.single⟩
    have hown := hquiet tid (by rw [show f.owner tid = some (topic, partition) from hi]; exact Option.some_ne_none _)
    exact (h.waits tid topic partition hi).passed ht hown.1 hown.2
  | @handled tid input t topic partition ending ht howner hending hsettles =>
    obtain ⟨offset, row, task, hin, _, htask, hrow, horigin⟩ := h.waits tid topic partition howner
    have hnow : Done' topic partition offset := by
      refine hdone topic partition offset ⟨tid, input, task, row, ending, rfl, htask, hrow, horigin, ?_, hsettles⟩
      simpa only [endingOf, htask, Option.bind_some] using hending
    obtain ⟨hwaits, hsingle⟩ := h.ended (c := (f.consumers topic partition).handle) ht rfl howner
    refine ⟨covers_setConsumer h.covers hmono ((hcovers topic partition).handle fun o ho => ?_), hwaits, hsingle⟩
    obtain rfl := Option.some.inj (hin.symm.trans ho)
    exact hnow
  | raised ht hslot howner hfail =>
    obtain ⟨hwaits, hsingle⟩ := h.ended ht hslot howner
    exact ⟨covers_setConsumer h.covers hmono ((hcovers _ _).fail hfail), hwaits, hsingle⟩
  | polled hpoll ht =>
    obtain ⟨hwaits, hsingle⟩ := h.polled hpoll ht
    exact ⟨covers_setConsumer h.covers hmono ((hcovers _ _).poll hpoll), hwaits, hsingle⟩
  | failed hhandled hfail => exact h.moved hmono ((hcovers _ _).fail hfail) (hidle hhandled)
  | @committed topic partition c hc =>
    have hhandled : (f.consumers topic partition).handled = true := by
      unfold Consumer.commit at hc
      split at hc
      · split at hc
        · assumption
        · cases hc
      · cases hc
    exact h.moved hmono ((hcovers _ _).commit (hcommit _ _ rfl) hc) (hidle hhandled)
  | restarted =>
    refine h.moved hmono (hcovers _ _).restart fun tid p hi => ?_
    split at hi
    · cases hi
    · next hne => exact ⟨hi, fun he => hne (he ▸ hi)⟩

/-! ## Runs -/

/-- A loop does not commit an offset of a partition on which a handler call has failed since
it was started. -/
def commitsSettled (f : Fleet) : Fleet.Act → Bool
  | .commit topic partition => !(f.consumers topic partition).failed
  | _ => true

abbrev SettledAt (site : Deployment) (as : List Fleet.Act) (f : Fleet) (topic : Topic) (partition offset : Nat) : Prop :=
  Fired (Fleet.Step site) (fun f a => commitsSettled f a = true) {} as (SettlesAt site topic partition offset) f

variable {as bs : List Fleet.Act} {Guard : Fleet → Fleet.Act → Prop}

/-- The loops take steps of the pipeline, or none. -/
theorem pipeline_of_step (h : Fleet.Step site f a g) : ∃ acts, FreeRun site f.sys acts g.sys := by
  cases moves_of_step h with
  | passed ht | handled ht | raised ht | polled _ ht => exact ⟨_, Run.single trivial ht⟩
  | failed | committed | restarted => exact ⟨[], .nil⟩

theorem pipeline_of_run (h : Run (Fleet.Step site) Guard f bs g) : ∃ acts, FreeRun site f.sys acts g.sys := by
  induction h with
  | nil => exact ⟨[], .nil⟩
  | snoc _ _ hs ih =>
    obtain ⟨acts, hacts⟩ := ih
    obtain ⟨last, hlast⟩ := pipeline_of_step hs
    exact ⟨acts ++ last, hacts.trans hlast⟩

theorem looping_run (h : Fleet.FleetRun site (fun f a => commitsSettled f a = true) as f) :
    Looping (SettledAt site as f) f := by
  induction h with
  | nil => exact looping_initial
  | snoc hrun hg hs ih =>
    refine looping_step ih hs (fun topic partition he => ?_) (fun _ _ _ hd => hd.snoc hg hs) fun _ _ _ hd => .last hrun hd hs
    subst he
    simpa [commitsSettled] using hg

/-- Every message of the pipeline has a handler, and it is in the outbox, or waits in its
partition at or above the committed offset, or a run of its handler has settled it. -/
theorem messages_accounted (h : Fleet.FleetRun site (fun f a => commitsSettled f a = true) as f) {row : OutboxRow}
    (hrow : row ∈ f.sys.db.sent) (htopic : row.topic ≠ .documentExtracted) :
    Task.ofMessage row.topic row.payload ≠ none ∧
    (row ∈ f.sys.db.outbox ∨ ∃ offset,
      (f.sys.broker row.topic (site.partitioner row.topic row.docId))[offset]? = some row ∧
      ((f.consumers row.topic (site.partitioner row.topic row.docId)).committed ≤ offset ∨
        SettledAt site as f row.topic (site.partitioner row.topic row.docId) offset)) := by
  obtain ⟨acts, hacts⟩ := pipeline_of_run h
  constructor
  · have hshape : OfTopic row.topic row.payload := shaped_run hacts row hrow
    revert hshape htopic
    generalize row.topic = topic
    generalize row.payload = payload
    intro htopic hshape
    cases hshape with
    | extracted => exact absurd rfl htopic
    | triage | embedded | split | shard | completed => exact Option.some_ne_none _
  · refine ((transport_run hacts).delivers.kept row hrow).imp id fun hpublished => ?_
    obtain ⟨offset, hoffset⟩ := List.mem_iff_getElem?.mp hpublished
    refine ⟨offset, hoffset, (Nat.lt_or_ge offset _).symm.imp id fun hlt => ?_⟩
    exact ((looping_run h).covers _ _).committed offset hlt

/-! ## Intake -/

theorem sys_of_step {b : Action} (h : Fleet.Step site f (.sys b) g) : Sys.Step site f.sys b g.sys := by
  cases moves_of_step h with
  | passed ht | handled ht | raised ht => exact ht

/-- A message stays where it is in its partition. -/
theorem log_kept {s t : Sys} {acts : List Action} (h : FreeRun site s acts t) {row : OutboxRow}
    (hrow : (s.broker topic partition)[offset]? = some row) : (t.broker topic partition)[offset]? = some row := by
  refine h.invariant (P := fun t => (t.broker topic partition)[offset]? = some row) hrow fun _ _ _ hi _ hs => ?_
  obtain ⟨rest, hrest⟩ := log_grows hs topic partition
  obtain ⟨hlt, _⟩ := List.getElem?_eq_some_iff.mp hi
  rw [← hrest, List.getElem?_append_left hlt, hi]

/-- Triage leaves no object without a row. -/
theorem recorded_of_triage {s t : Sys} {input : Input} {gcsPath : String} {blob : Blob}
    (hs : Sys.Step site s (.run tid input) t) (htask : s.tasks tid = some (.triage gcsPath))
    (hblob : site.objects gcsPath = some blob) : t.db.documents.lookup (crc32cToDocId blob.crc32c) ≠ none := by
  obtain ⟨task, r, htask', hr, rfl⟩ := runTask_eq hs
  obtain rfl := Option.some.inj (htask.symm.trans htask')
  cases hr
  have htriages : Triages site gcsPath (crc32cToDocId blob.crc32c) s.world.db (s.world.transact
      (Triage.handleGcsPath site gcsPath) (.returned : Triage.Result → Next Unit Triage.Result) .raised).1.db :=
    handleGcsPath_triages s.world _
  cases htriages with
  | apart hapart => exact absurd rfl (hapart blob hblob)
  | known _ _ _ hthere he => exact fun hnone => hthere (he ▸ hnone)
  | rejected _ row _ _ _ _ hrow => exact fun hnone => Option.some_ne_none row (hrow.symm.trans hnone)
  | dispatched _ row _ _ _ _ _ hrow => exact fun hnone => Option.some_ne_none row (hrow.symm.trans hnone)

/-- The object of a request, left alone in the inbox, has its document, unless the request still
waits for its turn. -/
theorem requested_object_recorded (h : Fleet.FleetRun site (fun f a => commitsSettled f a = true) as f)
    {row : OutboxRow} (hrow : row ∈ f.sys.db.sent) {gcsPath : String} {blob : Blob} (htopic : row.topic = .triageRequests)
    (hpayload : row.payload = .triage gcsPath) (hblob : site.objects gcsPath = some blob) :
    row ∈ f.sys.db.outbox ∨
    (∃ offset, (f.sys.broker .triageRequests (site.partitioner .triageRequests row.docId))[offset]? = some row ∧
      (f.consumers .triageRequests (site.partitioner .triageRequests row.docId)).committed ≤ offset) ∨
    f.sys.document (crc32cToDocId blob.crc32c) ≠ none := by
  obtain ⟨acts, hacts⟩ := pipeline_of_run h
  refine ((transport_run hacts).delivers.kept row hrow).imp id fun hpublished => ?_
  rw [Published, htopic] at hpublished
  obtain ⟨offset, hoffset⟩ := List.mem_iff_getElem?.mp hpublished
  rcases Nat.lt_or_ge offset (f.consumers .triageRequests (site.partitioner .triageRequests row.docId)).committed with
    hlt | hge
  · -- the run that settled the message was triage of this object
    obtain ⟨as₁, a, as₂, m, m', _, hbefore, ⟨tid, input, task, row', _, rfl, htask, hrow', horigin, _⟩, hs, hafter⟩ :=
      ((looping_run h).covers _ _).committed offset hlt
    obtain ⟨before, hbefore⟩ := pipeline_of_run hbefore
    obtain ⟨after, hafter⟩ := pipeline_of_run hafter
    have hstep := sys_of_step hs
    have hkept := log_kept (Run.trans (Run.single trivial hstep) hafter) hrow'
    obtain rfl : row' = row := Option.some.inj (hkept.symm.trans hoffset)
    have htriage : task = .triage gcsPath := by
      rw [hpayload] at horigin
      cases task <;> cases horigin
      rfl
    have hnext : FreeRun site initial (before ++ [_]) m'.sys := hbefore.trans (Run.single trivial hstep)
    obtain ⟨doc, hdoc⟩ := Option.ne_none_iff_exists'.mp (recorded_of_triage hstep (htriage ▸ htask) hblob)
    obtain ⟨doc', hdoc', _⟩ := (outlives_run (sound_run hnext) hafter).rows _ doc hdoc
    exact Or.inr (fun hnone => Option.some_ne_none doc' (hdoc'.symm.trans hnone))
  · exact Or.inl ⟨offset, hoffset, hge⟩

/-- Triage raises, its worker is restarted, and the message comes again. -/
def raisedThenRestarted : List Fleet.Act :=
  ([Action.spawn 0 (.orphanScan ["a.pdf"])] ++ Schedule.turns 0 3 ++ Schedule.publish 1).map .sys ++
    [.poll .triageRequests 0 1, .sys (.crash 1), .restart .triageRequests 0, .poll .triageRequests 0 1, .sys (.run 1 {}),
      .commit .triageRequests 0]

theorem raised_message_settled :
    ∃ f row, Fleet.FleetRun oneInvoice (fun f a => commitsSettled f a = true) raisedThenRestarted f ∧ row ∈ f.sys.db.sent ∧
      row ∉ f.sys.db.outbox ∧ (f.consumers .triageRequests 0).committed = 1 ∧
      ∃ offset, (f.sys.broker row.topic 0)[offset]? = some row ∧
        ((f.consumers row.topic 0).committed ≤ offset ∨ SettledAt oneInvoice raisedThenRestarted f row.topic 0 offset) := by
  have hruns : ((execWhile (Fleet.step oneInvoice) commitsSettled {} raisedThenRestarted).any fun f =>
      decide ((f.consumers .triageRequests 0).committed = 1) && f.sys.db.sent.any fun row =>
        decide (row.topic = .triageRequests) && f.sys.db.outbox.all fun other => decide (other.id ≠ row.id)) = true := by
    decide +kernel
  obtain ⟨f, hrun, htest⟩ := (Option.any_eq_true ..).mp hruns
  simp only [Bool.and_eq_true, decide_eq_true_eq, List.any_eq_true, List.all_eq_true] at htest
  obtain ⟨hcommitted, row, hrow, htopic, hout⟩ := htest
  have hfleet := run_of_execWhile hrun
  have hgone : row ∉ f.sys.db.outbox := fun hmem => hout row hmem rfl
  refine ⟨f, row, hfleet, hrow, hgone, hcommitted, ?_⟩
  exact (messages_accounted hfleet hrow (by rw [htopic]; decide)).2.resolve_left hgone

theorem raised_request_recorded :
    ∃ f row, Fleet.FleetRun oneInvoice (fun f a => commitsSettled f a = true) raisedThenRestarted f ∧ row ∈ f.sys.db.sent ∧
      row.topic = .triageRequests ∧ row.payload = .triage "a.pdf" ∧ f.sys.document "crc32c-a" ≠ none := by
  have hruns : ((execWhile (Fleet.step oneInvoice) commitsSettled {} raisedThenRestarted).any fun f =>
      decide ((f.consumers .triageRequests 0).committed = 1) && decide ((f.sys.broker .triageRequests 0).length = 1) &&
        f.sys.db.sent.any fun row => decide (row.topic = .triageRequests ∧ row.payload = .triage "a.pdf") &&
          f.sys.db.outbox.all fun other => decide (other.id ≠ row.id)) = true := by
    decide +kernel
  obtain ⟨f, hrun, htest⟩ := (Option.any_eq_true ..).mp hruns
  simp only [Bool.and_eq_true, decide_eq_true_eq, List.any_eq_true, List.all_eq_true] at htest
  obtain ⟨⟨hcommitted, hone⟩, row, hrow, ⟨htopic, hpayload⟩, hout⟩ := htest
  have hfleet := run_of_execWhile hrun
  refine ⟨f, row, hfleet, hrow, htopic, hpayload, ?_⟩
  have hblob : oneInvoice.objects "a.pdf" = some invoicePdf := rfl
  rcases requested_object_recorded hfleet hrow htopic hpayload hblob with hmem | ⟨offset, hoffset, hle⟩ | h
  · exact absurd rfl (hout row hmem)
  · obtain ⟨hlt, _⟩ := List.getElem?_eq_some_iff.mp hoffset
    change offset < (f.sys.broker .triageRequests 0).length at hlt
    change (f.consumers .triageRequests 0).committed ≤ offset at hle
    omega
  · exact h

end DocPipeline.Audit

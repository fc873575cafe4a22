import DocPipeline.Gather.Kept
import DocPipeline.Transport.Delivery

/-!
# The knowledge invariant of the whole pipeline

In every reachable state the ledger of text production is sound, and so is every message
and every run in progress. With the totals of splits included, the same holds of every run
of the pipeline in which no commit of `text.embedded` resets a split.
-/
namespace DocPipeline.Gather

set_option autoImplicit false

open Lib Sys

variable {site : Deployment} {s t : Sys} {a : Action} {strict : Prop}

structure Sound (strict : Prop) (site : Deployment) (s : Sys) : Prop where
  transport : Transport site s
  ledger : Ledgered site s.db
  messages : ∀ m, m ∈ s.db.sent → MsgSound strict site s.db m.topic m.payload
  tasks : ∀ tid task, s.tasks tid = some task → TaskSound strict site s.db task

/-- A step that is no commit of `text.embedded` about to reset a split. -/
def keepsSplit (site : Deployment) (s : Sys) : Action → Bool
  | .run tid _ => (s.tasks tid).all fun task => !resetsSplit site s.world task
  | _ => true

theorem sound_initial (strict : Prop) (site : Deployment) : Sound strict site initial :=
  ⟨transport_initial, ledgered_initial site, fun _ h => (nomatch h), fun _ _ h => (nomatch h)⟩

/-- Only the step of a run changes documents, shards or messages. -/
theorem unchanged_of_step (h : Step site s a t) :
    (∃ tid input, a = .run tid input) ∨
    (t.db.documents = s.db.documents ∧ t.db.documentShards = s.db.documentShards ∧ t.db.sent = s.db.sent) := by
  rcases step_cases h with hp | ⟨partition, act, rfl, hsink⟩ | ⟨hkeep, _⟩
  · by_cases ha : ∃ tid input, a = .run tid input
    · exact Or.inl ha
    · refine Or.inr (hp.invariant (P := fun db => db.documents = s.db.documents ∧
        db.documentShards = s.db.documentShards ∧ db.sent = s.db.sent) ⟨rfl, rfl, rfl⟩ fun _ _ _ _ hd _ => ?_)
      obtain ⟨tid, input, hrun, _⟩ := hd.run
      exact absurd ⟨tid, input, hrun⟩ ha
  · refine Or.inr ?_
    rcases sink_posts hsink with heq | ⟨_, _, _, _, _, heq⟩
    · rw [heq]
      exact ⟨rfl, rfl, rfl⟩
    · rw [heq]
      exact ⟨rfl, rfl, rfl⟩
  · exact Or.inr ⟨hkeep.documents, hkeep.documentShards, hkeep.sent⟩

theorem sound_step (h : Sound strict site s) (hg : strict → keepsSplit site s a = true) (hs : Step site s a t) :
    Sound strict site t := by
  have htransport := (transport_step h.transport hs).1
  have hreceived : ∀ topic partition row task, row ∈ s.broker topic partition →
      Task.ofMessage topic row.payload = some task → TaskSound strict site s.db task := by
    intro topic partition row task hrow hmsg
    obtain ⟨hsent, htopic, _⟩ := h.transport.delivers.stored topic partition row hrow
    have hm := h.messages row hsent
    rw [htopic] at hm
    exact taskSound_of_message hm hmsg
  rcases unchanged_of_step hs with ⟨tid, input, rfl⟩ | ⟨hdocs, hshards, hsent⟩
  · obtain ⟨task, r, htask, hr, rfl⟩ := runTask_eq hs
    have hguard : strict → resetsSplit site s.world task = false := by
      intro hstrict
      have hk := hg hstrict
      simp only [keepsSplit, htask, Option.all_some, Bool.not_eq_true'] at hk
      exact hk
    obtain ⟨hl, hgrows, ⟨new, hnew, hmsgs⟩, hnext⟩ := sound_taskStep h.ledger (h.tasks tid task htask) hguard hr
    refine ⟨htransport, hl, fun m hm => ?_, fun i task' ht => ?_⟩
    · change m ∈ r.1.db.sent at hm
      rw [hnew, List.mem_append] at hm
      rcases hm with hm | hm
      · exact hmsgs m hm
      · exact (h.messages m hm).mono hgrows
    · simp only at ht
      split at ht
      · exact hnext task' ht
      · exact (h.tasks i task' ht).mono hgrows
  · have hgrows : Grows strict site s.db t.db := Grows.of_documents hdocs
    refine ⟨htransport, h.ledger.congr hdocs hshards, fun m hm => ?_, fun i task ht => ?_⟩
    · rw [hsent] at hm
      exact (h.messages m hm).mono hgrows
    · rcases task_of_step hs ht with hkept | ⟨job, rfl⟩ | ⟨topic, partition, row, hrow, hmsg⟩ |
        ⟨input, task', r, rfl, htask, hr, hnext, hw⟩
      · exact (h.tasks i task hkept).mono hgrows
      · exact taskSound_start job
      · exact (hreceived topic partition row task hrow hmsg).mono hgrows
      · exact (taskSound_next h.ledger (h.tasks i task' htask) hr hnext).mono hgrows

/-- Rows stay, with the path and the page count they were admitted with. -/
theorem grows_step (h : Sound False site s) (hs : Step site s a t) : Grows False site s.db t.db := by
  rcases unchanged_of_step hs with ⟨tid, input, rfl⟩ | ⟨hdocs, _, _⟩
  · obtain ⟨task, r, htask, hr, rfl⟩ := runTask_eq hs
    exact (sound_taskStep h.ledger (h.tasks tid task htask) (fun hf => hf.elim) hr).2.1
  · exact Grows.of_documents hdocs

theorem sound_run {as : List Action} (h : FreeRun site initial as s) : Sound False site s :=
  h.invariant (sound_initial False site) fun _ _ _ hi _ hs => sound_step hi (fun hf => hf.elim) hs

theorem sound_guardedRun {as : List Action}
    (h : GuardedRun site (fun s a => keepsSplit site s a = true) initial as s) : Sound True site s :=
  h.invariant (sound_initial True site) fun _ _ _ hi hg hs => sound_step hi (fun _ => hg) hs

end DocPipeline.Gather

import DocPipeline.System

/-!
# The worker loops

Triage, the PDF worker, the OCR shards and the extraction worker run one loop: poll, handle
the message, commit its offset. A handler that meets an illegal transition is done with its
message as well, except in triage. After any other exception the loop goes on to the next
message. Each partition has one consumer in the group of its topic; a worker that dies or
loses the partition may leave a run behind that still goes on.
-/
namespace DocPipeline

set_option autoImplicit false

open Lib

/-- How a handler run ends. -/
inductive Ending where
  | returned
  | stale
  | raised

def Next.ending {π ρ : Type} : Next π ρ → Option Ending
  | .goto _ => none
  | .returned _ => some .returned
  | .raised (.illegalTransition ..) => some .stale
  | .raised _ => some .raised

namespace Task

/-- How the next step of a handler run ends it, if it does. -/
def ending (site : Deployment) (w : World) (input : Input) : Task → Option Ending
  | .triage gcsPath =>
    let r : World × Next Unit Triage.Result := w.transact (Triage.handleGcsPath site gcsPath) .returned .raised
    r.2.ending
  | .textEmbedded docId gcsPath pc => (PdfWorker.embeddedStep site docId gcsPath w pc).bind fun r => r.2.ending
  | .ocrSplit docId gcsPath pc => (PdfWorker.splitStep site docId gcsPath w pc).bind fun r => r.2.ending
  | .ocrShard payload pc => (OcrShard.step payload input.texts w pc).2.ending
  | .extraction docId pc => (Extraction.step site docId input.verdict w pc).2.ending
  | _ => none

/-- The run as it started. -/
def origin : Task → Task
  | .textEmbedded docId gcsPath _ => .textEmbedded docId gcsPath .uploading
  | .ocrSplit docId gcsPath _ => .ocrSplit docId gcsPath .beginning
  | .ocrShard payload _ => .ocrShard payload .beginning
  | .extraction docId _ => .extraction docId .opening
  | task => task

end Task

/-- The loop commits past a message whose handler ended so: only triage does not catch
`IllegalTransition`. -/
def Topic.settles (topic : Topic) : Ending → Bool
  | .returned => true
  | .stale => decide (topic ≠ .triageRequests)
  | .raised => false

/-- The pipeline, the consumer of each partition, and which of them waits for which run. -/
structure Fleet where
  sys : Sys := Sys.initial
  consumers : Topic → Nat → Consumer := fun _ _ => {}
  owner : Nat → Option (Topic × Nat) := fun _ => none

namespace Fleet

inductive Act where
  /-- Anything but a message being received. An owned run that crashes has raised. -/
  | sys (a : Sys.Action)
  | poll (topic : Topic) (partition tid : Nat)
  /-- `commit(msg)` raises. -/
  | fail (topic : Topic) (partition : Nat)
  | commit (topic : Topic) (partition : Nat)
  /-- The worker is restarted, or the partition assigned to another one. -/
  | restart (topic : Topic) (partition : Nat)

def setConsumer (f : Fleet) (topic : Topic) (partition : Nat) (c : Consumer) : Fleet :=
  { f with consumers := fun t p => if t = topic ∧ p = partition then c else f.consumers t p }

def setOwner (f : Fleet) (tid : Nat) (owner : Option (Topic × Nat)) : Fleet :=
  { f with owner := fun i => if i = tid then owner else f.owner i }

/-- A run is over, and the consumer that waits for it goes on. -/
def finish (f : Fleet) (tid : Nat) (settled : Topic → Bool) : Option Fleet :=
  match f.owner tid with
  | some (topic, partition) =>
    let c := f.consumers topic partition
    (if settled topic then some c.handle else c.fail).map fun c => (f.setConsumer topic partition c).setOwner tid none
  | none => some f

def step (site : Deployment) (f : Fleet) : Act → Option Fleet
  | .sys (.receive ..) => none
  | .sys (.run tid input) =>
    (f.sys.step site (.run tid input)).bind fun t =>
      match (f.sys.tasks tid).bind (Task.ending site f.sys.world input) with
      | some ending => { f with sys := t }.finish tid (·.settles ending)
      | none => some { f with sys := t }
  | .sys (.crash tid) => (f.sys.step site (.crash tid)).bind fun t => { f with sys := t }.finish tid fun _ => false
  | .sys a => (f.sys.step site a).map fun t => { f with sys := t }
  | .poll topic partition tid =>
    ((f.consumers topic partition).poll (f.sys.broker topic partition).length).bind fun c =>
      (f.sys.step site (.receive tid topic partition (f.consumers topic partition).position)).map fun t =>
        ({ f with sys := t }.setConsumer topic partition c).setOwner tid (some (topic, partition))
  | .fail topic partition =>
    let c := f.consumers topic partition
    if c.handled then c.fail.map (f.setConsumer topic partition) else none
  | .commit topic partition => (f.consumers topic partition).commit.map (f.setConsumer topic partition)
  | .restart topic partition =>
    some { f.setConsumer topic partition (f.consumers topic partition).restart with
      owner := fun tid => if f.owner tid = some (topic, partition) then none else f.owner tid }

def Step (site : Deployment) (f : Fleet) (a : Act) (g : Fleet) : Prop := f.step site a = some g

/-- A run of the loops whose steps all meet `Guard`, from empty tables and topics. -/
abbrev FleetRun (site : Deployment) (Guard : Fleet → Act → Prop) (as : List Act) (f : Fleet) : Prop :=
  Run (Step site) Guard {} as f

end Fleet
end DocPipeline

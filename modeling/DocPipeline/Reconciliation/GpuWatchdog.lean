import Mathlib.Algebra.Order.Group.Defs

/-!
# The GPU watchdog

`gpu_watchdog.py`: one poll decides between deleting the ollama pod, pinning models and
leaving things as they are, and the loop carries one timestamp from poll to poll. What
`/api/ps`, the Kubernetes API and the clock answer is an input of each poll; the log lines
are left out. Times are exact.
-/
namespace DocPipeline

set_option autoImplicit false

namespace GpuWatchdog

/-- An entry of `/api/ps`, each of whose keys may be missing. -/
structure LoadedModel where
  name : Option String := none
  model : Option String := none
  sizeVram : Option Int := none

/-- `m.get("name") or m.get("model", "")`. -/
def LoadedModel.resolvedName (m : LoadedModel) : String :=
  match m.name with
  | some "" | none => m.model.getD ""
  | some name => name

def LoadedModel.onGpu (m : LoadedModel) : Bool := decide (0 < m.sizeVram.getD 0)

/-- The names resident on the GPU and those resident on the CPU. -/
def classify (models : List LoadedModel) : List String × List String :=
  ((models.filter LoadedModel.onGpu).map LoadedModel.resolvedName,
    (models.filter fun m => !m.onGpu).map LoadedModel.resolvedName)

/-- How a call to another service ends. -/
inductive Reply where
  | success | httpError | otherError
  deriving DecidableEq, Repr

/-- What `loaded_models` gives; `raised` is an exception other than `OllamaUnreachable`. -/
inductive PollResult where
  | listed (models : List LoadedModel)
  | unreachable
  | raised

/-- `config.py`, as far as the watchdog reads it. -/
structure Config (T : Type) where
  enabled : Bool
  dryRun : Bool
  cooldown : T
  ollamaModels : List String

/-- What one poll meets. `checked` and `deleted` are the two readings of the clock, before a
deletion and after it; `pin` answers the attempts of the poll, by position. -/
structure Poll (T : Type) where
  models : PollResult
  checked : T
  deletion : Reply
  deleted : T
  pin : Nat → Reply

/-- A call the watchdog makes. A deletion is under way from one reading of the clock to the next. -/
inductive Event (T : Type) where
  | deletion (started finished : T) (reply : Reply)
  | pin (model : String) (reply : Reply)

/-- The calls of a poll, and what it returns unless it raises. -/
structure Outcome (T : Type) where
  events : List (Event T)
  returned : Option T

section

variable {T : Type}

/-- The pinning loop from the `i`-th attempt on: only an HTTP error is caught. -/
def pinMissing (pin : Nat → Reply) (lastRestart : T) : Nat → List String → Outcome T
  | _, [] => ⟨[], some lastRestart⟩
  | i, model :: rest =>
    match pin i with
    | .otherError => ⟨[.pin model .otherError], none⟩
    | reply =>
      let others := pinMissing pin lastRestart (i + 1) rest
      ⟨.pin model reply :: others.events, others.returned⟩

def missing (config : Config T) (onGpu : List String) : List String :=
  config.ollamaModels.filter fun m => decide (m ∉ onGpu)

def checkOnce [Sub T] [LT T] [DecidableLT T] (config : Config T) (poll : Poll T) (lastRestart : T) : Outcome T :=
  match poll.models with
  | .unreachable => ⟨[], some lastRestart⟩
  | .raised => ⟨[], none⟩
  | .listed models =>
    let (onGpu, onCpu) := classify models
    if onCpu ≠ [] then
      let since := poll.checked - lastRestart
      if config.dryRun then ⟨[], some lastRestart⟩
      else if since < config.cooldown then ⟨[], some lastRestart⟩
      else
        let call : Event T := .deletion poll.checked poll.deleted poll.deletion
        match poll.deletion with
        | .success => ⟨[call], some poll.deleted⟩
        | .httpError => ⟨[call], some lastRestart⟩
        | .otherError => ⟨[call], none⟩
    else pinMissing poll.pin lastRestart 0 (missing config onGpu)

/-- The loop over these polls: an exception leaves the timestamp as it was. Each poll is
given with the calls it has made. -/
def pollForever [Sub T] [LT T] [DecidableLT T] (config : Config T) : T → List (Poll T) → List (Poll T × List (Event T))
  | _, [] => []
  | lastRestart, poll :: rest =>
    let outcome := checkOnce config poll lastRestart
    (poll, outcome.events) :: pollForever config (outcome.returned.getD lastRestart) rest

/-- `run_forever`, cut off after these polls; a disabled watchdog makes none. -/
def runForever [Sub T] [LT T] [DecidableLT T] [Zero T] (config : Config T) (polls : List (Poll T)) :
    List (Poll T × List (Event T)) :=
  if config.enabled then pollForever config 0 polls else []

end

/-- The poll has seen a model resident on the CPU. -/
def Poll.sawCpu {T : Type} (poll : Poll T) : Bool :=
  match poll.models with
  | .listed models => decide ((classify models).2 ≠ [])
  | .unreachable | .raised => false

/-- The models a poll has to pin: none in one that saw a model on the CPU or no list at all. -/
def Poll.toPin {T : Type} (config : Config T) (poll : Poll T) : List String :=
  match poll.models with
  | .listed models => if (classify models).2 ≠ [] then [] else missing config (classify models).1
  | .unreachable | .raised => []

namespace Event

variable {T : Type}

def isDeletion : Event T → Bool
  | .deletion _ _ _ => true
  | .pin _ _ => false

def pinned : Event T → Option (String × Reply)
  | .pin model reply => some (model, reply)
  | .deletion _ _ _ => none

/-- When a successful deletion has started and finished. -/
def restarted : Event T → Option (T × T)
  | .deletion started finished .success => some (started, finished)
  | _ => none

end Event

end GpuWatchdog
end DocPipeline

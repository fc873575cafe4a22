import DocPipeline.System

/-!
# The operator's desk

The break-glass actions statement by statement. An action on a connection of its own closes
it when it ends; one in the loop of `bulk_redrive` or `dlq_replay.run` shares the loop's
connection, and the loop goes on after a `BreakGlassError` without a rollback. What a
connection has executed and not committed is kept on it until a commit or the close, and
locks the rows it has updated.
-/
namespace DocPipeline

set_option autoImplicit false

open Ledger Lib.Transaction

namespace Desk

/-- A statement that writes. -/
inductive Write where
  | transition (docId : DocId) (toState : DocState) (fromStates : Option (List DocState))
  | redrive (docId : DocId) (row : Document)
  | gateResults (docId : DocId) (gates : GateResults)
  | enqueue (docId : DocId) (topic : Topic) (payload : Payload)
  | featureFlag (key : String) (value : Bool)
  | audit (row : AuditRow)

def Write.exec (site : Deployment) : Write → Tx Unit
  | .transition docId toState fromStates => do let _ ← Ledger.transition docId toState fromStates true
  | .redrive docId row => Sweeper.redriveDocument site docId row
  | .gateResults docId gates => setGateResults docId gates
  | .enqueue docId topic payload => Ledger.enqueue docId topic payload
  | .featureFlag key value => setFeatureFlag key value
  | .audit row => Ledger.audit row

/-- The row an UPDATE locks. -/
def Write.locks : Write → Option DocId
  | .transition docId _ _ | .gateResults docId _ => some docId
  | .redrive _ _ | .enqueue _ _ _ | .featureFlag _ _ | .audit _ => none

/-- The transaction of a connection with these writes. -/
def transaction (site : Deployment) (writes : List Write) : Tx Unit := execAll (Write.exec site) writes

/-- What a connection sees: the committed database, and its own writes. -/
def view (site : Deployment) (db : Db) (pending : List Write) : Db := settle (transaction site pending) db

/-- The world, the writes pending on the connection, and how the code goes on. -/
abbrev Outcome (π ρ : Type) := World × List Write × Next π ρ

/-- Executes the next write, or commits when none is left. -/
def writeStep (site : Deployment) (w : World) (pending : List Write) : List Write → Outcome (List Write) Unit
  | write :: todo =>
    match (transaction site (pending ++ [write])).run w.db with
    | .ok _ => (w, pending ++ [write], .goto todo)
    | .error e => (w, pending, .raised e)
  | [] =>
    match (transaction site pending).run w.db with
    | .ok (_, db) => ({ w with db := db }, [], .returned ())
    | .error e => (w, pending, .raised e)

/-! ## The three actions -/

/-- A call of one of the three functions. -/
inductive BreakGlass where
  | forceRedrive (docId : DocId) (reason actor : String)
  | acceptReview (docId : DocId) (reason actor : String)
  | setKillSwitch (enabled : Bool) (reason actor : String)

namespace BreakGlass

def reason : BreakGlass → String
  | .forceRedrive _ reason _ | .acceptReview _ reason _ | .setKillSwitch _ reason _ => reason

def redriveWrites (docId : DocId) (row : Document) (target : Operator.RedriveTarget) (reason actor : String) :
    List Write := [
  .transition docId target.state none,
  .redrive docId { row with state := target.state },
  .audit ⟨some docId, "force_redrive", reason, actor, some (.move row.state target.state)⟩]

def acceptWrites (docId : DocId) (row : Document) (reason actor : String) : List Write := [
  .gateResults docId (Operator.overridden row.gateResults reason actor),
  .transition docId .complete (some [.review]),
  .enqueue docId .documentExtracted (.extracted (Operator.overridePayload docId)),
  .audit ⟨some docId, "accept_review", reason, actor, some (.move .review .complete)⟩]

def killSwitchWrites (enabled : Bool) (reason actor : String) : List Write := [
  .featureFlag "auto_post_enabled" enabled,
  .audit ⟨none, "kill_switch_toggle", reason, actor, some (.flag enabled)⟩]

/-- What an action makes of the row it has found: its writes, unless it refuses. -/
def plan (assembled : Bool) (found : Option Document) : BreakGlass → Except LedgerError (List Write)
  | .forceRedrive docId reason actor =>
    match found with
    | none => .error (Operator.noSuchDocument docId)
    | some row => (Operator.redriveTargetState docId row assembled).map fun target =>
        redriveWrites docId row target reason actor
  | .acceptReview docId reason actor =>
    match found with
    | none => .error (Operator.noSuchDocument docId)
    | some row =>
      if row.state ≠ .review then .error (Operator.notInReview docId row)
      else .ok (acceptWrites docId row reason actor)
  | .setKillSwitch enabled reason actor => .ok (killSwitchWrites enabled reason actor)

end BreakGlass

/-- The next statement of an action. -/
inductive Pc where
  | requiring
  | selecting
  | planning (found : Option Document)
  | writing (todo : List Write)

/-- One statement, on a connection with these writes pending. -/
def Pc.step (site : Deployment) (action : BreakGlass) (w : World) (pending : List Write) : Pc → Outcome Pc Unit
  | .requiring =>
    (w, pending, if Operator.blank site action.reason then
        .raised Operator.reasonRequired
      else .goto .selecting)
  | .selecting =>
    match action with
    | .forceRedrive docId _ _ | .acceptReview docId _ _ =>
      (w, pending, .goto (.planning (getDocument (view site w.db pending) docId)))
    | .setKillSwitch _ _ _ => (w, pending, .goto (.planning none))
  | .planning found =>
    let assembled := match action with
      | .forceRedrive docId _ _ => (w.bucket.assembled docId).isSome
      | .acceptReview _ _ _ | .setKillSwitch _ _ _ => false
    match action.plan assembled found with
    | .error e => (w, pending, .raised e)
    | .ok todo => (w, pending, .goto (.writing todo))
  | .writing todo =>
    let r := writeStep site w pending todo
    (r.1, r.2.1, match r.2.2 with
      | .goto todo => .goto (.writing todo)
      | .returned () => .returned ()
      | .raised e => .raised e)

/-! ## The loops -/

/-- The arguments of `bulk_redrive`; `selects` is what the WHERE clause means. -/
structure Bulk where
  predicateSql : String
  selects : Db → DocId → Bool
  reason : String
  actor : String
  cap : Nat
  approved : Bool

/-- The two callers that share a connection among many re-drives. -/
inductive Job where
  | bulkRedrive (bulk : Bulk)
  | dlqReplay (actor : String)

def Bulk.matching (bulk : Bulk) (db : Db) : List DocId :=
  (db.documents.rows.map Prod.fst).filter (bulk.selects db)

def Bulk.exceeded (bulk : Bulk) (matched : Nat) : LedgerError :=
  .breakGlass ("predicate matched " ++ toString matched ++ " documents, cap is " ++ toString bulk.cap ++
    " — pass approved=True to override")

def dlqReason (site : Deployment) : String :=
  "dlq_replay: build_sha/prompt_version changed since last attempt (now build_sha=" ++ site.buildSha ++
    ", prompt_version=" ++ site.promptVersion ++ ")"

/-- The WHERE clause of `find_replayable`. -/
def replayable (site : Deployment) (row : Document) : Bool :=
  row.state = .failed && (row.buildSha ≠ some site.buildSha || row.promptVersion ≠ some site.promptVersion)

def findReplayable (site : Deployment) (db : Db) : List DocId :=
  (db.documents.rows.filter fun r => replayable site r.2).map Prod.fst

def Job.redrive (site : Deployment) (docId : DocId) : Job → BreakGlass
  | .bulkRedrive bulk => .forceRedrive docId bulk.reason bulk.actor
  | .dlqReplay actor => .forceRedrive docId (dlqReason site) actor

/-- A loop over the documents a SELECT has returned. -/
structure Loop where
  job : Job
  matched : List DocId
  rest : List DocId
  redriven : List DocId := []
  failed : List (DocId × String) := []

/-- Where a call is. -/
inductive Progress where
  | acting (action : BreakGlass) (pc : Pc)
  | requiring (bulk : Bulk)
  | matching (bulk : Bulk)
  | finding (actor : String) (dryRun : Bool)
  | looping (loop : Loop) (docId : DocId) (pc : Pc)
  | concluding (bulk : Bulk) (loop : Loop) (todo : List Write)

inductive Result where
  | acted
  | redriven (matched : Nat) (redriven : List DocId) (failed : List (DocId × String))
  | wouldReplay (docIds : List DocId)
  | replayed (replayed : List DocId) (failed : List (DocId × String))

def Bulk.concluded (bulk : Bulk) (loop : Loop) : AuditRow :=
  ⟨none, "bulk_redrive", bulk.reason, bulk.actor,
    some (.bulk bulk.predicateSql loop.matched.length loop.redriven.length loop.failed)⟩

/-- The turn of the next document, or what comes after the loop. -/
def Loop.next (loop : Loop) : Next Progress Result :=
  match loop.rest with
  | docId :: rest => .goto (.looping { loop with rest := rest } docId .requiring)
  | [] =>
    match loop.job with
    | .bulkRedrive bulk => .goto (.concluding bulk loop [.audit (bulk.concluded loop)])
    | .dlqReplay _ => .returned (.replayed loop.redriven loop.failed)

/-- What the loop does with how a re-drive went on: only a `BreakGlassError` is caught. -/
def Loop.after (loop : Loop) (docId : DocId) : Next Pc Unit → Next Progress Result
  | .goto pc => .goto (.looping loop docId pc)
  | .returned () => Loop.next { loop with redriven := loop.redriven ++ [docId] }
  | .raised (.breakGlass message) => Loop.next { loop with failed := loop.failed ++ [(docId, message)] }
  | .raised e => .raised e

/-- One statement of a call. `found` is the order in which a SELECT returns its rows. -/
def Progress.step (site : Deployment) (w : World) (found : List DocId) (pending : List Write) :
    Progress → Option (Outcome Progress Result)
  | .acting action pc =>
    let r := pc.step site action w pending
    some (r.1, r.2.1, match r.2.2 with
      | .goto pc => .goto (.acting action pc)
      | .returned () => .returned .acted
      | .raised e => .raised e)
  | .requiring bulk =>
    some (w, pending, if Operator.blank site bulk.reason then
        .raised Operator.reasonRequired
      else .goto (.matching bulk))
  | .matching bulk =>
    if found.Perm (bulk.matching (view site w.db pending)) then
      some (w, pending, if bulk.cap < found.length ∧ bulk.approved = false then .raised (bulk.exceeded found.length)
        else Loop.next { job := .bulkRedrive bulk, matched := found, rest := found })
    else none
  | .finding actor dryRun =>
    if found.Perm (findReplayable site (view site w.db pending)) then
      some (w, pending, if dryRun then .returned (.wouldReplay found)
        else Loop.next { job := .dlqReplay actor, matched := found, rest := found })
    else none
  | .looping loop docId pc =>
    let r := pc.step site (loop.job.redrive site docId) w pending
    some (r.1, r.2.1, loop.after docId r.2.2)
  | .concluding bulk loop todo =>
    let r := writeStep site w pending todo
    some (r.1, r.2.1, match r.2.2 with
      | .goto todo => .goto (.concluding bulk loop todo)
      | .returned () => .returned (.redriven loop.matched.length loop.redriven loop.failed)
      | .raised e => .raised e)

/-- The write a call is about to execute. -/
def Progress.upcoming : Progress → Option Write
  | .acting _ (.writing (write :: _)) | .looping _ _ (.writing (write :: _)) | .concluding _ _ (write :: _) => some write
  | _ => none

/-- The document that a statement replays from the DLQ, by its commit. -/
def Progress.replays (site : Deployment) (w : World) (pending : List Write) : Progress → Option DocId
  | .looping loop docId (.writing []) =>
    match loop.job, (transaction site pending).run w.db with
    | .dlqReplay _, .ok _ => some docId
    | _, _ => none
  | _ => none

inductive Call where
  | act (action : BreakGlass)
  | bulkRedrive (bulk : Bulk)
  | dlqReplay (actor : String) (dryRun : Bool)

def Call.start : Call → Progress
  | .act action => .acting action .requiring
  | .bulkRedrive bulk => .requiring bulk
  | .dlqReplay actor dryRun => .finding actor dryRun

/-- A call in progress, and what is pending on its connection. -/
structure Open where
  progress : Progress
  pending : List Write := []

end Desk

/-- The pipeline and the calls at the desk. `replayed` are the re-drives that calls of
`dlq_replay.run` have committed, newest first. -/
structure Desk where
  sys : Sys := .initial
  calls : Lib.Table Nat Desk.Open := ∅
  replayed : List DocId := []

namespace Desk

abbrev db (k : Desk) : Db := k.sys.world.db

/-- A step, a call or a statement; `fault` is a statement at which the connection or the
process fails. -/
inductive Action where
  | pipeline (act : Sys.Action)
  | call (cid : Nat) (call : Call)
  | statement (cid : Nat) (found : List DocId)
  | fault (cid : Nat)

/-- The rows locked by the calls whose number is not `cid`. -/
def locked (k : Desk) (cid : Option Nat) : List DocId :=
  (k.calls.rows.filter fun c => some c.1 ≠ cid).flatMap fun c => c.2.pending.filterMap Write.locks

/-- The end of a call closes its connection. -/
def goOn (k : Desk) (cid : Nat) (pending : List Write) : Next Progress Result → Lib.Table Nat Open
  | .goto progress => k.calls.insert cid ⟨progress, pending⟩
  | .returned _ | .raised _ => k.calls.erase cid

/-- A statement that would write a row another connection has locked waits. -/
def runStatement (site : Deployment) (k : Desk) (cid : Nat) (found : List DocId) : Option Desk :=
  match k.calls.lookup cid with
  | none => none
  | some ⟨progress, pending⟩ =>
    if (progress.upcoming.bind Write.locks).any fun d => d ∈ k.locked (some cid) then none
    else (progress.step site k.sys.world found pending).map fun r =>
      { sys := { k.sys with world := r.1 }
        calls := k.goOn cid r.2.1 r.2.2
        replayed := (progress.replays site k.sys.world pending).toList ++ k.replayed }

def step (site : Deployment) (k : Desk) : Action → Option Desk
  | .pipeline act =>
    (k.sys.step site act).bind fun sys =>
      if ∀ d ∈ k.locked none, sys.document d = k.sys.document d then some { k with sys := sys } else none
  | .call cid call =>
    match k.calls.lookup cid with
    | some _ => none
    | none => some { k with calls := k.calls.insert cid ⟨call.start, []⟩ }
  | .statement cid found => k.runStatement site cid found
  | .fault cid => (k.calls.lookup cid).map fun _ => { k with calls := k.calls.erase cid }

def Step (site : Deployment) (k : Desk) (a : Action) (k' : Desk) : Prop := k.step site a = some k'

/-- A run of the pipeline and the desk whose steps all meet `Guard`. -/
abbrev GuardedRun (site : Deployment) (Guard : Desk → Action → Prop) (k : Desk) (as : List Action) (k' : Desk) :
    Prop := Lib.Run (Step site) Guard k as k'

abbrev FreeRun (site : Deployment) (k : Desk) (as : List Action) (k' : Desk) : Prop :=
  GuardedRun site Lib.Always k as k'

end Desk
end DocPipeline

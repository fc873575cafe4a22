import DocPipeline.Reconciliation.Sweeper

/-!
# The break-glass lane

`force_redrive` and `accept_review` read the row first and write it in a later
statement, so the row may have moved in between; the guarded UPDATE is what decides.
DLQ replay and bulk re-drive are sequences of `force_redrive` calls.
-/
namespace DocPipeline

set_option autoImplicit false

open Ledger

namespace Operator

/-- `not reason or not reason.strip()`. -/
def blank (site : Deployment) (reason : String) : Bool := reason.toList.all site.unicode.isSpace

def reasonRequired : LedgerError := .breakGlass "a reason string is required for any break-glass action"

def noSuchDocument (docId : DocId) : LedgerError := .breakGlass ("no such document: " ++ docId)

def notInReview (docId : DocId) (row : Document) : LedgerError :=
  .breakGlass (docId ++ " is in '" ++ row.state.text ++ "', not 'review' — accept_review only " ++
    "overrides a gate decision. Use force_redrive for anything else.")

/-- The two states a re-drive may send a document to. -/
inductive RedriveTarget where
  | textPending | extractPending
  deriving DecidableEq, Repr

def RedriveTarget.state : RedriveTarget → DocState
  | .textPending => .textPending
  | .extractPending => .extractPending

/-- `_redrive_target_state`; `assembled` says whether the artifact exists. -/
def redriveTargetState (docId : DocId) (row : Document) (assembled : Bool) : Except LedgerError RedriveTarget :=
  match row.state with
  | .review => .ok .extractPending
  | .failed =>
    match row.pageCount with
    | none => .error (.breakGlass (docId ++ " failed at triage before classification (e.g. zero-byte or unreadable " ++
        "upload) — nothing to retry; it needs a fresh upload, not a re-drive"))
    | some _ => .ok (if assembled then .extractPending else .textPending)
  | _ => .error (.breakGlass (docId ++ " is in '" ++ row.state.text ++ "'; force-redrive only applies to review/failed"))

theorem redriveTarget_pages {docId : DocId} {row : Document} {assembled : Bool} {target : RedriveTarget}
    (h : redriveTargetState docId row assembled = .ok target) : row.pageCount ≠ none ∨ target = .extractPending := by
  unfold redriveTargetState at h
  split at h
  · cases h
    exact Or.inr rfl
  · split at h
    · cases h
    · next n hn => exact Or.inl (by rw [hn]; exact Option.some_ne_none n)
  · cases h

/-- A failed document is refused for want of its page count, and for nothing else. -/
theorem redriveTarget_failed {docId : DocId} {row : Document} {assembled : Bool} (h : row.state = .failed) :
    (row.pageCount ≠ none ∧ ∃ target, redriveTargetState docId row assembled = .ok target) ∨
      (row.pageCount = none ∧ ∃ message, redriveTargetState docId row assembled = .error (.breakGlass message)) := by
  simp only [redriveTargetState, h]
  cases hpages : row.pageCount with
  | none => exact Or.inr ⟨rfl, _, rfl⟩
  | some n => exact Or.inl ⟨Option.some_ne_none n, _, rfl⟩

/-- A document is sent back for its text only with its page count known. -/
theorem textPending_pages {docId : DocId} {row : Document} {assembled : Bool}
    (h : redriveTargetState docId row assembled = .ok .textPending) : row.pageCount ≠ none :=
  (redriveTarget_pages h).resolve_right (by decide)

def forceRedriveTx (site : Deployment) (docId : DocId) (row : Document) (target : RedriveTarget)
    (reason actor : String) : Tx Unit := do
  let _ ← transition docId target.state none true
  Sweeper.redriveDocument site docId { row with state := target.state }
  audit ⟨some docId, "force_redrive", reason, actor, some (.move row.state target.state)⟩

inductive RedrivePc where
  | selecting
  | targeting (row : Document)
  | committing (row : Document) (target : RedriveTarget)

def redriveStep (site : Deployment) (docId : DocId) (reason actor : String) (w : World) :
    RedrivePc → World × Next RedrivePc RedriveTarget
  | .selecting =>
    if blank site reason then (w, .raised reasonRequired)
    else match getDocument w.db docId with
      | none => (w, .raised (noSuchDocument docId))
      | some row => (w, .goto (.targeting row))
  | .targeting row =>
    match redriveTargetState docId row (w.bucket.assembled docId).isSome with
    | .error e => (w, .raised e)
    | .ok target => (w, .goto (.committing row target))
  | .committing row target =>
    w.transact (forceRedriveTx site docId row target reason actor) (fun _ => .returned target) .raised

def overridden (gates : GateResults) (reason actor : String) : GateResults :=
  { gates with operatorOverride := some ⟨.accepted, some (.operator actor reason "review")⟩ }

def overridePayload (docId : DocId) : ExtractedPayload :=
  { docId := docId, operatorOverride := some true }

def acceptReviewTx (docId : DocId) (row : Document) (reason actor : String) : Tx Unit := do
  setGateResults docId (overridden row.gateResults reason actor)
  let _ ← transition docId .complete (some [.review]) true
  enqueue docId .documentExtracted (.extracted (overridePayload docId))
  audit ⟨some docId, "accept_review", reason, actor, some (.move .review .complete)⟩

inductive AcceptPc where
  | selecting
  | committing (row : Document)

def acceptStep (site : Deployment) (docId : DocId) (reason actor : String) (w : World) :
    AcceptPc → World × Next AcceptPc Unit
  | .selecting =>
    if blank site reason then (w, .raised reasonRequired)
    else match getDocument w.db docId with
      | none => (w, .raised (noSuchDocument docId))
      | some row =>
        if row.state ≠ .review then (w, .raised (notInReview docId row))
        else (w, .goto (.committing row))
  | .committing row => w.transact (acceptReviewTx docId row reason actor) .returned .raised

def setKillSwitch (site : Deployment) (enabled : Bool) (reason actor : String) : Tx Unit := do
  if blank site reason then throw reasonRequired
  else
    setFeatureFlag "auto_post_enabled" enabled
    audit ⟨none, "kill_switch_toggle", reason, actor, some (.flag enabled)⟩

end Operator
end DocPipeline

import Mathlib.Data.List.Sort
import Mathlib.Data.List.Dedup
import DocPipeline.Core.Ledger

/-!
# Artifacts, gates on pages, and how a handler advances

The bucket's objects written by the pipeline itself, which nothing deletes. A handler is a
program counter between two transactions; one step runs the code up to the next commit,
bucket write or bucket read that another process can interleave with.
-/
namespace DocPipeline

set_option autoImplicit false

/-- A page of a text without surrogates. -/
structure Page where
  pageNo : Nat
  text : String
  deriving DecidableEq, Repr

/-- The object at `assembled_path`. -/
structure Artifact where
  producer : String
  producerVersion : String
  pages : List Page
  deriving DecidableEq, Repr

/-- A page of an uploaded object, as the rasteriser renders it. -/
structure PageImage where
  gcsPath : String
  page : Nat
  deriving DecidableEq, Repr

/-- The sub-PDFs of the split are objects under their paths, the others are found by document. -/
structure Bucket where
  assembled : DocId → Option Artifact := fun _ => none
  shardOutput : DocId → Nat → Option (List Page) := fun _ _ => none
  splitShard : String → Option (List PageImage) := fun _ => none

namespace Bucket

def writeAssembled (bucket : Bucket) (docId : DocId) (artifact : Artifact) : Bucket :=
  { bucket with assembled := fun d => if d = docId then some artifact else bucket.assembled d }

def writeShardOutput (bucket : Bucket) (docId : DocId) (shardIdx : Nat) (pages : List Page) : Bucket :=
  { bucket with shardOutput := fun d i =>
      if d = docId ∧ i = shardIdx then some pages else bucket.shardOutput d i }

def writeSplitShard (bucket : Bucket) (path : String) (pages : List PageImage) : Bucket :=
  { bucket with splitShard := fun p => if p = path then some pages else bucket.splitShard p }

end Bucket

/-- `{idx:04d}`. -/
def pad4 (idx : Nat) : String :=
  let digits := toString idx
  String.ofList (List.replicate (4 - digits.length) '0') ++ digits

def splitShardPath (site : Deployment) (docId : DocId) (shardIdx : Nat) : String :=
  "gs://" ++ site.gcsBucket ++ "/shards/" ++ docId ++ "/" ++ pad4 shardIdx ++ ".pdf"

/-- `gates.completeness`: set equality of the page numbers with `range(n)`. -/
def completeness (actualPageNumbers : List Nat) (expectedPageCount : Nat) : GateResult :=
  let missing := (List.range expectedPageCount).filter (· ∉ actualPageNumbers)
  let unexpected := (actualPageNumbers.filter (expectedPageCount ≤ ·)).dedup.insertionSort (· ≤ ·)
  if missing = [] ∧ unexpected = [] then ⟨.pass, none⟩
  else ⟨.fail, some (.pages missing unexpected)⟩

/-- What the processes share: the committed database and the bucket. -/
structure World where
  db : Db := {}
  bucket : Bucket := {}

/-- How a step of a handler ends. -/
inductive Next (π ρ : Type) where
  | goto (pc : π)
  | returned (result : ρ)
  | raised (error : LedgerError)

/-- Run a transaction and commit it, or roll it back and handle what it raised. -/
def World.transact {α π ρ : Type} (w : World) (t : Tx α) (onCommit : α → Next π ρ)
    (onError : LedgerError → Next π ρ) : World × Next π ρ :=
  match t.run w.db with
  | .ok (a, db) => ({ w with db := db }, onCommit a)
  | .error e => (w, onError e)

theorem World.transact_of_commits {α π ρ : Type} {w : World} {t : Tx α} {a : α} {db : Db}
    (onCommit : α → Next π ρ) (onError : LedgerError → Next π ρ) (h : Lib.Transaction.Commits t w.db a db) :
    w.transact t onCommit onError = ({ w with db := db }, onCommit a) := by
  unfold transact
  rw [show t.run w.db = .ok (a, db) from h]

theorem World.transact_cases {α π ρ : Type} (w : World) (t : Tx α) (onCommit : α → Next π ρ)
    (onError : LedgerError → Next π ρ) :
    (∃ a db, Lib.Transaction.Commits t w.db a db ∧
      w.transact t onCommit onError = ({ w with db := db }, onCommit a)) ∨
    (∃ e, w.transact t onCommit onError = (w, onError e)) := by
  unfold World.transact Lib.Transaction.Commits
  cases h : t.run w.db with
  | ok r => exact Or.inl ⟨r.1, r.2, rfl, rfl⟩
  | error e => exact Or.inr ⟨e, rfl⟩

/-- A transaction leaves the bucket alone. -/
theorem World.transact_bucket {α π ρ : Type} (w : World) (t : Tx α) (onCommit : α → Next π ρ)
    (onError : LedgerError → Next π ρ) : (w.transact t onCommit onError).1.bucket = w.bucket := by
  rcases w.transact_cases t onCommit onError with ⟨_, _, _, he⟩ | ⟨_, he⟩ <;> rw [he]

/-- A handler that goes on as only a commit does has committed. -/
theorem World.transact_committed {α π ρ : Type} {w : World} {t : Tx α} {onCommit : α → Next π ρ}
    {onError : LedgerError → Next π ρ} {next : Next π ρ} (h : (w.transact t onCommit onError).2 = next)
    (he : ∀ e, onError e ≠ next) :
    ∃ a, Lib.Transaction.Commits t w.db a (w.transact t onCommit onError).1.db ∧ onCommit a = next := by
  rcases w.transact_cases t onCommit onError with ⟨a, db, hc, heq⟩ | ⟨e, heq⟩
  · rw [heq] at h ⊢
    exact ⟨a, hc, h⟩
  · rw [heq] at h
    exact absurd h (he e)

end DocPipeline

import Mathlib.Logic.Function.Basic
import DocPipeline.Lib.Run
import DocPipeline.Core.LedgerSpec

/-!
# The life of a document

What the pipeline is for, without its processes: a document moves between states, gets
its extraction result at most once, holds a business key that no other document may
hold, is announced downstream, and is posted by the first announcement to arrive. The
documents, the extracted values and the parts of a key are of any types.
-/
namespace DocPipeline.Lifecycle

set_option autoImplicit false

variable {D F K : Type}

/-- Both parts of a key are present, so the unique index applies. -/
def Full (key : Option K × Option K) : Prop := key.1 ≠ none ∧ key.2 ≠ none

structure Record (F K : Type) where
  state : DocState
  result : Option F
  key : Option K × Option K

structure Announcement (D F : Type) where
  docId : D
  fields : Option F
  autoPost : Bool

/-- `history` and `announced` are newest first. -/
structure State (D F K : Type) where
  docs : D → Option (Record F K)
  history : List (D × DocState × DocState)
  announced : List (Announcement D F)
  posted : D → Option F

inductive Event (D F K : Type) where
  | insert (docId : D) (state : DocState)
  | move (docId : D) (toState : DocState)
  | settle (docId : D) (fields : F)
  | post (docId : D) (fields : F)
  | rekey (docId : D) (key : Option K × Option K)
  | route (docId : D)
  | accept (docId : D)
  | deliver (announcement : Announcement D F)

namespace State

/-- Nothing has happened yet. -/
def initial : State D F K := ⟨fun _ => none, [], [], fun _ => none⟩

/-- No other document holds the key. -/
def Free (σ : State D F K) (docId : D) (key : Option K × Option K) : Prop :=
  Full key → ∀ d r, d ≠ docId → σ.docs d = some r → r.key ≠ key

variable [DecidableEq D]

def enter (σ : State D F K) (docId : D) (state : DocState) : State D F K :=
  { σ with docs := Function.update σ.docs docId (some ⟨state, none, (none, none)⟩) }

def put (σ : State D F K) (docId : D) (old new : Record F K) : State D F K :=
  { σ with
    docs := Function.update σ.docs docId (some new)
    history := if old.state = new.state then σ.history else (docId, old.state, new.state) :: σ.history }

def announce (σ : State D F K) (announcement : Announcement D F) : State D F K :=
  { σ with announced := announcement :: σ.announced }

/-- The first announcement to arrive is the one that is posted. -/
def store (σ : State D F K) (docId : D) (fields : F) : State D F K :=
  { σ with posted := Function.update σ.posted docId (some ((σ.posted docId).getD fields)) }

theorem enter_docs (σ : State D F K) (docId d : D) (state : DocState) :
    (σ.enter docId state).docs d = if d = docId then some ⟨state, none, (none, none)⟩ else σ.docs d := by
  simp only [enter, Function.update_apply]

theorem store_posted (σ : State D F K) (docId d : D) (fields : F) :
    (σ.store docId fields).posted d =
      if d = docId then some ((σ.posted docId).getD fields) else σ.posted d := by
  simp only [store, Function.update_apply]

theorem put_docs_self (σ : State D F K) (docId : D) (old new : Record F K) :
    (σ.put docId old new).docs docId = some new := Function.update_self ..

theorem put_docs (σ : State D F K) (docId d : D) (old new : Record F K) :
    (σ.put docId old new).docs d = if d = docId then some new else σ.docs d := by
  simp only [put, Function.update_apply]

end State

/-- `pair` reads the business key off the extracted fields, and `empty` is what an
announcement without fields posts. -/
inductive Step [DecidableEq D] (pair : F → Option K × Option K) (empty : F) :
    State D F K → Event D F K → State D F K → Prop
  | insert {σ : State D F K} {d : D} {state : DocState} :
      σ.docs d = none → state = .textPending ∨ state = .review ∨ state = .failed →
      Step pair empty σ (.insert d state) (σ.enter d state)
  | move {σ : State D F K} {d : D} {r : Record F K} {toState : DocState} : σ.docs d = some r →
      (r.state, toState) ∈ Ledger.allowedTransitions ∨ r.state = toState →
      toState ≠ .complete → toState ≠ .review →
      Step pair empty σ (.move d toState) (σ.put d r { r with state := toState })
  | settle {σ : State D F K} {d : D} {r : Record F K} {f : F} : σ.docs d = some r → r.result = none →
      Step pair empty σ (.settle d f) (σ.put d r { r with state := .review, result := some f })
  | post {σ : State D F K} {d : D} {r : Record F K} {f : F} : σ.docs d = some r → r.result = none →
      σ.Free d (pair f) →
      Step pair empty σ (.post d f) ((σ.put d r ⟨.complete, some f, pair f⟩).announce ⟨d, some f, true⟩)
  | rekey {σ : State D F K} {d : D} {r : Record F K} {key : Option K × Option K} : σ.docs d = some r →
      r.result ≠ none → σ.Free d key →
      Step pair empty σ (.rekey d key) (σ.put d r { r with key := key })
  | route {σ : State D F K} {d : D} {r : Record F K} : σ.docs d = some r →
      Step pair empty σ (.route d) (σ.put d r { r with state := .review })
  | accept {σ : State D F K} {d : D} {r : Record F K} : σ.docs d = some r →
      r.state = .review ∨ r.state = .complete →
      Step pair empty σ (.accept d) ((σ.put d r { r with state := .complete }).announce ⟨d, none, false⟩)
  | deliver {σ : State D F K} {a : Announcement D F} : a ∈ σ.announced →
      Step pair empty σ (.deliver a) (σ.store a.docId (a.fields.getD empty))

/-- What an event can make of one record. -/
inductive Rewrites (pair : F → Option K × Option K) : Event D F K → D → Record F K → Record F K → Prop
  | same {e : Event D F K} {d : D} {r : Record F K} : Rewrites pair e d r r
  | moved {d : D} {r : Record F K} {toState : DocState} :
      (r.state, toState) ∈ Ledger.allowedTransitions ∨ r.state = toState →
      toState ≠ .complete → toState ≠ .review →
      Rewrites pair (.move d toState) d r { r with state := toState }
  | settled {d : D} {r : Record F K} {f : F} : r.result = none →
      Rewrites pair (.settle d f) d r { r with state := .review, result := some f }
  | posted {d : D} {r : Record F K} {f : F} : r.result = none →
      Rewrites pair (.post d f) d r ⟨.complete, some f, pair f⟩
  | rekeyed {d : D} {r : Record F K} {key : Option K × Option K} : r.result ≠ none →
      Rewrites pair (.rekey d key) d r { r with key := key }
  | routed {d : D} {r : Record F K} : Rewrites pair (.route d) d r { r with state := .review }
  | accepted {d : D} {r : Record F K} : r.state = .review ∨ r.state = .complete →
      Rewrites pair (.accept d) d r { r with state := .complete }

variable {pair : F → Option K × Option K}

/-- The result is written once. -/
theorem Rewrites.result {e : Event D F K} {d : D} {r r' : Record F K} (h : Rewrites pair e d r r')
    (hr : r.result ≠ none) : r'.result = r.result := by
  cases h with
  | settled hnone | posted hnone => exact absurd hnone hr
  | same | moved | rekeyed | routed | accepted => rfl

variable [DecidableEq D] {empty : F} {σ τ : State D F K} {e : Event D F K}

/-- The record a `put` leaves under `d`, and the one it leaves elsewhere. -/
theorem rewrites_put {docId d : D} {old new r : Record F K} (hold : σ.docs docId = some old)
    (hr : σ.docs d = some r) (hnew : Rewrites pair e docId old new) :
    ∃ r', (σ.put docId old new).docs d = some r' ∧ Rewrites pair e d r r' := by
  rw [State.put_docs]
  by_cases hd : d = docId
  · subst hd
    rw [hold] at hr
    cases hr
    exact ⟨new, if_pos rfl, hnew⟩
  · exact ⟨r, by rw [if_neg hd, hr], .same⟩

/-- A step rewrites a record or leaves it. -/
theorem Step.forward (h : Step pair empty σ e τ) {d : D} {r : Record F K} (hr : σ.docs d = some r) :
    ∃ r', τ.docs d = some r' ∧ Rewrites pair e d r r' := by
  cases h with
  | @insert d' state hnone _ =>
    have hd : d ≠ d' := fun hd => by
      rw [← hd, hr] at hnone
      cases hnone
    exact ⟨r, by rw [State.enter_docs, if_neg hd, hr], .same⟩
  | move hold hallowed hc hr' => exact rewrites_put hold hr (.moved hallowed hc hr')
  | settle hold hnone => exact rewrites_put hold hr (.settled hnone)
  | post hold hnone _ => exact rewrites_put hold hr (.posted hnone)
  | rekey hold hsome _ => exact rewrites_put hold hr (.rekeyed hsome)
  | route hold => exact rewrites_put hold hr .routed
  | accept hold hstate => exact rewrites_put hold hr (.accepted hstate)
  | deliver _ => exact ⟨r, hr, .same⟩

/-- A record after a step is a new one or comes from one before it. -/
theorem Step.backward (h : Step pair empty σ e τ) {d : D} {r' : Record F K} (hr' : τ.docs d = some r') :
    (σ.docs d = none ∧ r'.result = none ∧ r'.key = (none, none) ∧
      (r'.state = .textPending ∨ r'.state = .review ∨ r'.state = .failed)) ∨
    ∃ r, σ.docs d = some r ∧ Rewrites pair e d r r' := by
  cases hd : σ.docs d with
  | some r =>
    obtain ⟨r₁, hr₁, hw⟩ := h.forward hd
    rw [hr'] at hr₁
    cases hr₁
    exact Or.inr ⟨r, rfl, hw⟩
  | none =>
    have hput : ∀ {docId : D} {old new : Record F K}, σ.docs docId = some old →
        (σ.put docId old new).docs d = some r' → False := by
      intro docId old new hold hp
      rw [State.put_docs] at hp
      by_cases he : d = docId
      · rw [he, hold] at hd
        cases hd
      · rw [if_neg he, hd] at hp
        cases hp
    refine Or.inl ⟨rfl, ?_⟩
    cases h with
    | @insert d' state _ hstate =>
      rw [State.enter_docs] at hr'
      split at hr'
      · cases hr'
        exact ⟨rfl, rfl, hstate⟩
      · rw [hd] at hr'
        cases hr'
    | deliver _ =>
      change σ.docs d = some r' at hr'
      rw [hd] at hr'
      cases hr'
    | move hold _ _ _ => exact (hput hold hr').elim
    | settle hold _ => exact (hput hold hr').elim
    | post hold _ _ => exact (hput hold hr').elim
    | rekey hold _ _ => exact (hput hold hr').elim
    | route hold => exact (hput hold hr').elim
    | accept hold _ => exact (hput hold hr').elim

/-- A key after a step is blank, or was there before it, or was free and is the only one
the step has written. -/
theorem Step.key_cases (h : Step pair empty σ e τ) {d : D} {r' : Record F K} (hr' : τ.docs d = some r') :
    r'.key = (none, none) ∨ (∃ r, σ.docs d = some r ∧ r'.key = r.key) ∨
      (σ.Free d r'.key ∧ ∀ d', d' ≠ d → τ.docs d' = σ.docs d') := by
  rcases h.backward hr' with ⟨_, _, hkey, _⟩ | ⟨r, hr, hw⟩
  · exact Or.inl hkey
  · cases hw with
    | same | moved | settled | routed | accepted => exact Or.inr (Or.inl ⟨_, hr, rfl⟩)
    | posted _ =>
      cases h with
      | post _ _ hfree => exact Or.inr (Or.inr ⟨hfree, fun d' hd => Function.update_of_ne hd ..⟩)
    | rekeyed _ =>
      cases h with
      | rekey _ _ hfree => exact Or.inr (Or.inr ⟨hfree, fun d' hd => Function.update_of_ne hd ..⟩)

/-- What a step announces. -/
theorem Step.announces (h : Step pair empty σ e τ) :
    τ.announced = σ.announced ∨
    (∃ d f r, e = .post d f ∧ σ.docs d = some r ∧ r.result = none ∧
      τ.docs d = some ⟨.complete, some f, pair f⟩ ∧ τ.announced = ⟨d, some f, true⟩ :: σ.announced) ∨
    (∃ d r, e = .accept d ∧ σ.docs d = some r ∧ τ.announced = ⟨d, none, false⟩ :: σ.announced) := by
  cases h with
  | @post d r f hold hnone _ =>
    exact Or.inr (Or.inl ⟨d, f, r, rfl, hold, hnone, State.put_docs_self σ d r _, rfl⟩)
  | accept hold _ => exact Or.inr (Or.inr ⟨_, _, rfl, hold, rfl⟩)
  | insert | move | settle | rekey | route | deliver => exact Or.inl rfl

end DocPipeline.Lifecycle

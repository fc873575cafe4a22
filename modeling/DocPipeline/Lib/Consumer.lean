import Mathlib.Data.List.Basic

/-!
# A consumer of one partition

The group's committed offset survives a restart; the position is the consumer's own
and moves past a message as soon as it is polled. `handled` marks the polled message
once its handler has committed. `failed` is history: a handler call has failed since
the consumer last started here.
-/
namespace DocPipeline.Lib

set_option autoImplicit false

structure Consumer where
  committed : Nat := 0
  position : Nat := 0
  inHand : Option Nat := none
  handled : Bool := false
  failed : Bool := false

namespace Consumer

/-- `poll`: the next message of a partition of `size` messages. -/
def poll (c : Consumer) (size : Nat) : Option Consumer :=
  match c.inHand with
  | some _ => none
  | none =>
    if c.position < size then
      some { c with inHand := some c.position, position := c.position + 1, handled := false }
    else none

/-- The handler's transaction has committed. -/
def handle (c : Consumer) : Consumer := { c with handled := true }

/-- An exception between poll and commit: the loop goes on to the next message. -/
def fail (c : Consumer) : Option Consumer :=
  match c.inHand with
  | none => none
  | some _ => some { c with inHand := none, failed := c.failed || !c.handled }

/-- `commit(msg)` stores the message's offset plus one. -/
def commit (c : Consumer) : Option Consumer :=
  match c.inHand with
  | some offset => if c.handled then some { c with committed := offset + 1, inHand := none } else none
  | none => none

def restart (c : Consumer) : Consumer :=
  { c with position := c.committed, inHand := none, handled := false, failed := false }

/-- Every offset below the committed one satisfies `Done`, and so does every offset
below the position, the one in hand apart, unless a handler call has failed. -/
structure Covers (c : Consumer) (Done : Nat → Prop) : Prop where
  committed : ∀ offset, offset < c.committed → Done offset
  position : c.failed = false → ∀ offset, offset < c.position → c.inHand ≠ some offset → Done offset
  inHand : ∀ offset, c.inHand = some offset → offset + 1 = c.position ∧ (c.handled = true → Done offset)

variable {c c' : Consumer} {Done Done' : Nat → Prop}

theorem covers_initial (Done : Nat → Prop) : Covers {} Done :=
  ⟨fun _ h => absurd h (Nat.not_lt_zero _), fun _ _ h => absurd h (Nat.not_lt_zero _),
    fun _ h => nomatch h⟩

theorem Covers.mono (h : Covers c Done) (hd : ∀ offset, Done offset → Done' offset) : Covers c Done' :=
  ⟨fun o ho => hd o (h.committed o ho), fun hf o ho hi => hd o (h.position hf o ho hi),
    fun o ho => ⟨(h.inHand o ho).1, fun hh => hd o ((h.inHand o ho).2 hh)⟩⟩

theorem Covers.poll {size : Nat} (h : Covers c Done) (hp : c.poll size = some c') : Covers c' Done := by
  unfold Consumer.poll at hp
  split at hp
  · cases hp
  · next hnone =>
    split at hp
    · cases hp
      refine ⟨h.committed, fun hf offset ho hi => ?_, fun offset ho => ?_⟩
      · have hlt : offset ≠ c.position := fun he => hi (by rw [he])
        exact h.position hf offset (by change offset < c.position + 1 at ho; omega)
          (by rw [hnone]; exact fun e => nomatch e)
      · cases ho
        exact ⟨rfl, fun hh => nomatch hh⟩
    · cases hp

theorem Covers.handle (h : Covers c Done) (hd : ∀ offset, c.inHand = some offset → Done offset) :
    Covers c.handle Done :=
  ⟨h.committed, h.position, fun offset ho => ⟨(h.inHand offset ho).1, fun _ => hd offset ho⟩⟩

theorem Covers.fail (h : Covers c Done) (hp : c.fail = some c') : Covers c' Done := by
  unfold Consumer.fail at hp
  split at hp
  · cases hp
  · next o hsome =>
    cases hp
    refine ⟨h.committed, fun hf offset ho _ => ?_, fun _ he => nomatch he⟩
    simp only [Bool.or_eq_false_iff, Bool.not_eq_false'] at hf
    by_cases heq : o = offset
    · exact heq ▸ (h.inHand o hsome).2 hf.2
    · exact h.position hf.1 offset ho (by rw [hsome]; exact fun e => heq (Option.some.inj e))

/-- A commit keeps the cover when no handler call has failed since the last start. -/
theorem Covers.commit (h : Covers c Done) (hf : c.failed = false) (hp : c.commit = some c') :
    Covers c' Done := by
  unfold Consumer.commit at hp
  split at hp
  · next o hsome =>
    split at hp
    · next hh =>
      cases hp
      obtain ⟨hpos, hdone⟩ := h.inHand o hsome
      have hall : ∀ offset, offset < c.position → Done offset := by
        intro offset ho
        by_cases heq : o = offset
        · exact heq ▸ hdone hh
        · exact h.position hf offset ho (by rw [hsome]; exact fun e => heq (Option.some.inj e))
      refine ⟨fun offset ho => hall offset ?_, fun _ offset ho _ => hall offset ho, fun _ he => nomatch he⟩
      change offset < o + 1 at ho
      omega
    · cases hp
  · cases hp

theorem Covers.restart (h : Covers c Done) : Covers c.restart Done :=
  ⟨h.committed, fun _ offset ho _ => h.committed offset ho, fun _ he => nomatch he⟩

end Consumer
end DocPipeline.Lib

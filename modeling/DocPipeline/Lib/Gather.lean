import Mathlib.Data.List.Nodup
import Mathlib.Data.List.Perm.Subperm

/-!
# Gathering what was scattered

Work is scattered over the indices below `n`, and each index is claimed at most once. The
number of claims is then at most `n`, and it is `n` exactly when every index is claimed.
-/
namespace DocPipeline.Lib.Gather

set_option autoImplicit false

universe u
variable {K : Type u} [DecidableEq K] {claims : List (K × Nat)} {k k' : K} {i n : Nat}

/-- The indices claimed under a key, newest first. -/
def claimed (claims : List (K × Nat)) (k : K) : List Nat :=
  claims.filterMap fun c => if c.1 = k then some c.2 else none

theorem mem_claimed : i ∈ claimed claims k ↔ (k, i) ∈ claims := by
  simp only [claimed, List.mem_filterMap, Prod.exists, Option.ite_none_right_eq_some, Option.some.injEq]
  constructor
  · rintro ⟨_, _, hm, rfl, rfl⟩
    exact hm
  · intro hm
    exact ⟨k, i, hm, rfl, rfl⟩

@[simp] theorem claimed_cons_self : claimed ((k, i) :: claims) k = i :: claimed claims k := by
  simp [claimed]

theorem claimed_cons_of_ne (h : k' ≠ k) : claimed ((k', i) :: claims) k = claimed claims k := by
  simp [claimed, h]

theorem nodup_claimed (h : claims.Nodup) : (claimed claims k).Nodup := by
  refine List.Nodup.filterMap (fun a a' b hb hb' => ?_) h
  simp only [Option.mem_def, Option.ite_none_right_eq_some, Option.some.injEq] at hb hb'
  exact Prod.ext (hb.1.trans hb'.1.symm) (hb.2.trans hb'.2.symm)

variable {l : List Nat}

/-- Distinct indices below `n` are at most `n`. -/
theorem length_le (hnodup : l.Nodup) (hlt : ∀ i, i ∈ l → i < n) : l.length ≤ n := by
  have hsub : l ⊆ List.range n := fun i hi => List.mem_range.mpr (hlt i hi)
  have hle := (List.subperm_of_subset hnodup hsub).length_le
  rwa [List.length_range] at hle

/-- And there are `n` of them exactly when none is missing. -/
theorem full_iff (hnodup : l.Nodup) (hlt : ∀ i, i ∈ l → i < n) : (∀ i, i < n → i ∈ l) ↔ l.length = n := by
  have hsub : l ⊆ List.range n := fun i hi => List.mem_range.mpr (hlt i hi)
  constructor
  · intro hfull
    have hrange : List.range n ⊆ l := fun i hi => hfull i (List.mem_range.mp hi)
    have hle := (List.subperm_of_subset List.nodup_range hrange).length_le
    rw [List.length_range] at hle
    exact Nat.le_antisymm (length_le hnodup hlt) hle
  · intro hlen i hi
    have hle : (List.range n).length ≤ l.length := Nat.le_of_eq (List.length_range.trans hlen.symm)
    have hperm := (List.subperm_of_subset hnodup hsub).perm_of_length_le hle
    exact hperm.mem_iff.mpr (List.mem_range.mpr hi)

end DocPipeline.Lib.Gather

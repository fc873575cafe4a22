import Mathlib.Data.List.Basic

/-!
# Cutting a range into chunks

The numbers below `n`, cut every `s`: chunk `k` starts at `k * s`, and the last one may be
short. Put back one after the other, the chunks are the range again.
-/
namespace DocPipeline.Lib.Chunks

set_option autoImplicit false

def chunk (s n k : Nat) : List Nat := List.range' (k * s) (min (k * s + s) n - k * s)

/-- How many chunks there are, and one chunk at least. -/
def count (s n : Nat) : Nat := max 1 ((n + s - 1) / s)

variable {s n k : Nat}

theorem flatMap_chunk (s n k : Nat) : (List.range k).flatMap (chunk s n) = List.range (min (k * s) n) := by
  induction k with
  | zero => simp
  | succ k ih =>
    rw [List.range_succ, List.flatMap_append, ih, List.flatMap_singleton, chunk, List.range_eq_range',
      List.range_eq_range', Nat.succ_mul]
    by_cases hle : k * s ≤ n
    · have hjoin := List.range'_append_1 (s := 0) (m := k * s) (n := min (k * s + s) n - k * s)
      rw [Nat.zero_add] at hjoin
      rw [Nat.min_eq_left hle, hjoin]
      congr 1
      omega
    · have hnone : min (k * s + s) n - k * s = 0 := by omega
      rw [hnone, List.range'_zero, List.append_nil]
      congr 1
      omega

/-- The chunks reach the end. -/
theorem le_count_mul (hs : 0 < s) : n ≤ count s n * s := by
  have hdiv : n ≤ (n + s - 1) / s * s := by
    have hlt := Nat.lt_div_mul_add (a := n + s - 1) hs
    omega
  exact Nat.le_trans hdiv (Nat.mul_le_mul_right s (Nat.le_max_right 1 _))

/-- All of them together are the range. -/
theorem flatMap_all (hs : 0 < s) : (List.range (count s n)).flatMap (chunk s n) = List.range n := by
  rw [flatMap_chunk, Nat.min_eq_right (le_count_mul hs)]

theorem count_pos : 0 < count s n := Nat.lt_of_lt_of_le Nat.one_pos (Nat.le_max_left 1 _)

/-- One chunk holds everything that fits into it. -/
theorem count_eq_one (hs : 0 < s) (hle : n ≤ s) : count s n = 1 := by
  have hlt : (n + s - 1) / s < 2 := (Nat.div_lt_iff_lt_mul hs).mpr (by omega)
  unfold count
  omega

end DocPipeline.Lib.Chunks

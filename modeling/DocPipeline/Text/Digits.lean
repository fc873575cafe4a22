import DocPipeline.Text.Money
import Mathlib.Data.List.Infix

/-!
# Digits, groups of three and a point

How `fixed2` spells a number: digits without a leading zero, grouped or not, a point and
two more digits. A text of digits that starts with no zero is what its number is spelled as.
-/
namespace DocPipeline

set_option autoImplicit false

namespace Money

open Nat (toDigits ofDigitChars digitChar)

section Spelling

variable {ds : List Char} {c : Char} {n : Nat}

theorem digit_bounds (h : c.isDigit = true) : 48 ≤ c.toNat ∧ c.toNat ≤ 57 := by
  rw [Char.isDigit, Bool.and_eq_true, decide_eq_true_eq, decide_eq_true_eq] at h
  exact h

theorem digitChar_toNat (h : c.isDigit = true) : digitChar (c.toNat - 48) = c := by
  obtain ⟨hlow, hupp⟩ := digit_bounds h
  apply Char.toNat_inj.mp
  rw [Nat.toNat_digitChar_of_lt_ten (by omega)]
  omega

theorem ofDigitChars_pos (hc : c.isDigit = true) (hzero : c ≠ '0') : 0 < ofDigitChars 10 (c :: ds) 0 := by
  have hv : 0 < c.toNat - 48 := by
    have hlow : 48 ≤ c.toNat := (digit_bounds hc).1
    have hne : c.toNat ≠ 48 := fun he => hzero (Char.toNat_inj.mp he)
    omega
  rw [Nat.ofDigitChars_cons, Nat.ofDigitChars_eq_ofDigitChars_zero]
  have hpow : 0 < 10 ^ ds.length * (c.toNat - 48) := Nat.mul_pos (Nat.pow_pos (by decide)) hv
  show 0 < 10 ^ ds.length * (10 * 0 + (c.toNat - 48)) + _
  rw [Nat.mul_zero, Nat.zero_add]
  omega

/-- A text of digits that starts with no zero spells its number. -/
theorem toDigits_ofDigitChars (hne : ds ≠ []) (hdigits : ∀ c, c ∈ ds → c.isDigit = true) (hhead : ds.head? ≠ some '0') :
    toDigits 10 (ofDigitChars 10 ds 0) = ds := by
  induction ds using List.reverseRecOn with
  | nil => exact absurd rfl hne
  | append_singleton init c ih =>
    have hc : c.isDigit = true := hdigits c (List.mem_append_right init (List.mem_singleton_self c))
    have hlt : c.toNat - 48 < 10 := by
      have hupp : c.toNat ≤ 57 := (digit_bounds hc).2
      omega
    have hval : ofDigitChars 10 (init ++ [c]) 0 = 10 * ofDigitChars 10 init 0 + (c.toNat - 48) := by
      rw [Nat.ofDigitChars_append, Nat.ofDigitChars_cons, Nat.ofDigitChars_nil]
      rfl
    have hlast : toDigits 10 (c.toNat - 48) = [c] := by rw [Nat.toDigits_of_lt_base hlt, digitChar_toNat hc]
    cases init with
    | nil =>
      rw [hval, Nat.ofDigitChars_nil, Nat.mul_zero, Nat.zero_add, hlast]
      rfl
    | cons d init =>
      have hd : d ≠ '0' := fun he => hhead (congrArg some he)
      have hpos : 0 < ofDigitChars 10 (d :: init) 0 := ofDigitChars_pos (hdigits d List.mem_cons_self) hd
      have hinit : toDigits 10 (ofDigitChars 10 (d :: init) 0) = d :: init :=
        ih (List.cons_ne_nil d init) (fun e he => hdigits e (List.mem_append_left _ he)) hhead
      rw [hval, ← Nat.toDigits_append_toDigits (by decide) hpos hlt, hinit, hlast]

theorem isDigit_of_mem_toDigits (h : c ∈ toDigits 10 n) : c.isDigit = true :=
  Nat.isDigit_of_mem_toDigits (by decide) (by decide) h

theorem head?_toDigits (hn : 0 < n) : (toDigits 10 n).head? ≠ some '0' := by
  induction n using Nat.strongRecOn with
  | ind n ih =>
    rw [Nat.toDigits_eq_if (by decide)]
    split
    · intro he
      have hzero : n = 0 := Nat.digitChar_eq_zero.mp (Option.some.inj he)
      omega
    · rw [List.head?_append_of_ne_nil _ Nat.toDigits_ne_nil]
      exact ih (n / 10) (by omega) (by omega)

theorem groupThousands_cons (c : Char) (ds : List Char) : groupThousands (c :: ds) =
    c :: if ds.length % 3 = 0 ∧ 0 < ds.length then ',' :: groupThousands ds else groupThousands ds := by
  unfold groupThousands
  rw [List.reverse_cons, List.mapIdx_concat, List.flatten_append, List.reverse_append, List.length_reverse]
  split <;> simp

theorem filter_groupThousands (h : ',' ∉ ds) : (groupThousands ds).filter (· ≠ ',') = ds := by
  induction ds with
  | nil => rfl
  | cons c ds ih =>
    rw [List.mem_cons, not_or] at h
    have hrest : (if ds.length % 3 = 0 ∧ 0 < ds.length then ',' :: groupThousands ds
        else groupThousands ds).filter (· ≠ ',') = ds := by
      split
      · exact ih h.2
      · exact ih h.2
    rw [groupThousands_cons, List.filter_cons, hrest, if_pos (decide_eq_true (Ne.symm h.1))]

theorem head?_groupThousands : (groupThousands ds).head? = ds.head? := by
  cases ds with
  | nil => rfl
  | cons c ds => rw [groupThousands_cons, List.head?_cons, List.head?_cons]

theorem mem_groupThousands (h : c ∈ groupThousands ds) : c = ',' ∨ c ∈ ds := by
  induction ds with
  | nil => cases h
  | cons d ds ih =>
    rw [groupThousands_cons, List.mem_cons] at h
    rcases h with rfl | h
    · exact Or.inr List.mem_cons_self
    · have hrest : c = ',' ∨ c ∈ groupThousands ds := by
        split at h
        · exact List.mem_cons.mp h
        · exact Or.inr h
      rcases hrest with rfl | hrest
      · exact Or.inl rfl
      · exact (ih hrest).imp_right (List.mem_cons_of_mem d)

/-- The whole part of `fixed2`. -/
def spelled (grouped : Bool) (n : Nat) : List Char := if grouped then groupThousands (toDigits 10 n) else toDigits 10 n

/-- The two digits after the point. -/
def twoDigits (n : Nat) : List Char := [digitChar (n / 10), digitChar (n % 10)]

theorem toList_fixed2 (grouped : Bool) (n : Nat) :
    (fixed2 grouped n).toList = spelled grouped (n / 100) ++ '.' :: twoDigits (n % 100) := by
  have hcents : (if n % 100 < 10 then "0" ++ toString (n % 100) else toString (n % 100)).toList = twoDigits (n % 100) := by
    unfold twoDigits
    split
    · next h =>
      rw [String.toList_append, Nat.toString_eq_repr, Nat.toList_repr, Nat.toDigits_of_lt_base h,
        Nat.div_eq_of_lt h, Nat.mod_eq_of_lt h]
      rfl
    · next h =>
      have hbase : 10 ≤ n % 100 := Nat.le_of_not_lt h
      have hlt : n % 100 / 10 < 10 := by omega
      rw [Nat.toString_eq_repr, Nat.toList_repr, Nat.toDigits_of_base_le (by decide) hbase,
        Nat.toDigits_of_lt_base hlt]
      rfl
  have hwhole : (toString (n / 100)).toList = toDigits 10 (n / 100) := by rw [Nat.toString_eq_repr, Nat.toList_repr]
  unfold fixed2
  rw [String.toList_append, String.toList_append, String.toList_ofList, hcents, hwhole, List.append_assoc]
  rfl

theorem spelled_ne_nil (grouped : Bool) : spelled grouped n ≠ [] := by
  intro he
  have hhead : (spelled grouped n).head? = (toDigits 10 n).head? := by
    cases grouped
    · rfl
    · exact head?_groupThousands
  rw [he, List.head?_nil, eq_comm, List.head?_eq_none_iff] at hhead
  exact Nat.toDigits_ne_nil hhead

theorem mem_spelled {grouped : Bool} (h : c ∈ spelled grouped n) : c.isDigit = true ∨ c = ',' := by
  cases grouped
  · exact Or.inl (isDigit_of_mem_toDigits h)
  · exact (mem_groupThousands h).symm.imp_left isDigit_of_mem_toDigits

end Spelling

end Money
end DocPipeline

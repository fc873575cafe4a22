import Mathlib.Algebra.Order.Ring.Nat
import Mathlib.Data.Nat.Log

/-!
# Amounts as Python prints them

`cents / 100` is the double nearest to the quotient, and `.2f` prints the hundredths
nearest to that double. Below 2^53 dollars a double still has binary digits after the
point; above, it is a whole number of dollars. Beyond the doubles the division raises.
-/
namespace DocPipeline.Money

set_option autoImplicit false

/-- Rounding to the nearest integer, a tie to the even one. -/
def roundDiv (a b : Nat) : Nat :=
  let q := a / b
  let r := a % b
  if 2 * r < b then q else if b < 2 * r then q + 1 else q + q % 2

/-- The hundredths that `.2f` prints of the double `n / 100`; none when the division overflows. -/
def hundredths (n : Nat) : Option Nat :=
  if n < 100 then some n
  else
    let k := Nat.log2 (n / 100)
    if k ≤ 52 then some (roundDiv (roundDiv (n * 2 ^ (52 - k)) 100 * 100) (2 ^ (52 - k)))
    else
      let dollars := roundDiv n (100 * 2 ^ (k - 52)) * 2 ^ (k - 52)
      if 2 ^ 1024 ≤ dollars then none else some (dollars * 100)

/-- An even bound is reached from half a unit below it on: the tie goes to it. -/
theorem le_roundDiv_iff {a b m : Nat} (hb : 0 < b) (hm : m % 2 = 0) : m ≤ roundDiv a b ↔ 2 * m * b ≤ 2 * a + b := by
  have hdiv : b * (a / b) + a % b = a := Nat.div_add_mod a b
  have hr : a % b < b := Nat.mod_lt a hb
  unfold roundDiv
  generalize hq : a / b = q at hdiv ⊢
  generalize a % b = r at hdiv hr ⊢
  have hsplit : 2 * m * b ≤ 2 * a + b ↔ 2 * (b * m) ≤ 2 * (b * q) + 2 * r + b := by
    rw [← hdiv, Nat.mul_assoc, Nat.mul_comm m b, Nat.mul_add]
  have hmono : ∀ {x y : Nat}, x ≤ y → b * x ≤ b * y := fun h => Nat.mul_le_mul_left b h
  have hsucc : ∀ x, b * (x + 1) = b * x + b := fun x => Nat.mul_succ b x
  rw [hsplit]
  dsimp only
  split
  · next h =>
    constructor
    · intro hle
      have := hmono hle
      omega
    · intro hle
      by_contra hlt
      have := hmono (Nat.lt_of_not_le hlt)
      rw [Nat.succ_eq_add_one, hsucc] at this
      omega
  · split
    · next h =>
      constructor
      · intro hle
        have := hmono hle
        rw [hsucc] at this
        omega
      · intro hle
        by_contra hlt
        have := hmono (Nat.lt_of_not_le hlt)
        rw [Nat.succ_eq_add_one, hsucc, hsucc] at this
        omega
    · next h h' =>
      constructor
      · intro hle
        have := hmono (show m ≤ q + 1 by omega)
        rw [hsucc] at this
        omega
      · intro hle
        have hle' : m ≤ q + 1 := by
          by_contra hlt
          have := hmono (Nat.lt_of_not_le hlt)
          rw [Nat.succ_eq_add_one, hsucc, hsucc] at this
          omega
        omega

/-- Rounding is off by half a unit at most. -/
theorem roundDiv_error {a b : Nat} (hb : 0 < b) :
    2 * (b * roundDiv a b) ≤ 2 * a + b ∧ 2 * a ≤ 2 * (b * roundDiv a b) + b := by
  have hdiv : b * (a / b) + a % b = a := Nat.div_add_mod a b
  have hr : a % b < b := Nat.mod_lt a hb
  have hsucc : b * (a / b + 1) = b * (a / b) + b := Nat.mul_succ b (a / b)
  unfold roundDiv
  dsimp only
  split
  · omega
  · split
    · rw [hsucc]
      omega
    · rcases Nat.mod_two_eq_zero_or_one (a / b) with hm | hm
      · rw [hm, Nat.add_zero]
        omega
      · rw [hm, hsucc]
        omega

/-- What is nearer than half a unit is the nearest. -/
theorem roundDiv_eq {a b q : Nat} (hlow : 2 * (b * q) < 2 * a + b) (hupp : 2 * a < 2 * (b * q) + b) : roundDiv a b = q := by
  have hb : 0 < b := by omega
  obtain ⟨herr, herr'⟩ := roundDiv_error (a := a) hb
  generalize roundDiv a b = r at herr herr'
  have hmono : ∀ {x y : Nat}, x < y → b * x + b ≤ b * y := by
    intro x y h
    rw [← Nat.mul_succ]
    exact Nat.mul_le_mul_left b h
  rcases Nat.lt_trichotomy r q with hlt | rfl | hlt
  · have := hmono hlt
    omega
  · rfl
  · have := hmono hlt
    omega

/-- Below 2^46 dollars the double is printed as the amount it was divided from. -/
theorem hundredths_exact {n : Nat} (h : n < 100 * 2 ^ 46) : hundredths n = some n := by
  unfold hundredths
  split
  · rfl
  · next hn =>
    have hne : n / 100 ≠ 0 := by omega
    have hk : Nat.log2 (n / 100) < 46 := (Nat.log2_lt hne).mpr (by omega)
    have hunit : 128 ≤ 2 ^ (52 - Nat.log2 (n / 100)) := by
      have hpow : (2 : Nat) ^ 7 ≤ 2 ^ (52 - Nat.log2 (n / 100)) := Nat.pow_le_pow_right (by decide) (by omega)
      exact hpow
    dsimp only
    rw [if_pos (by omega)]
    generalize 2 ^ (52 - Nat.log2 (n / 100)) = unit at hunit
    obtain ⟨herr, herr'⟩ := roundDiv_error (a := n * unit) (b := 100) (by decide)
    have hcomm : n * unit = unit * n := Nat.mul_comm n unit
    have hexact : roundDiv (roundDiv (n * unit) 100 * 100) unit = n := by
      apply roundDiv_eq
      · omega
      · omega
    rw [hexact]

/-- The smallest number of cents whose double overflows: the hundredth part rounds up to 2^1024. -/
def overflowCents : Nat := 100 * (2 ^ 1024 - 2 ^ 970)

theorem hundredths_eq_none_iff {n : Nat} : hundredths n = none ↔ overflowCents ≤ n := by
  have hhigh : ∀ e, e = 54 + 970 → (2 : Nat) ^ e = 2 ^ 54 * 2 ^ 970 := fun e he => he ▸ pow_add 2 54 970
  have hpos : 0 < (2 : Nat) ^ 970 := pow_pos Nat.two_pos 970
  have hunder : ∀ {j : Nat}, j ≤ 970 → (2 : Nat) ^ j ≤ 2 ^ 970 := fun h => pow_le_pow_right₀ (by decide) h
  have hover : ∀ {j : Nat}, 972 ≤ j → 4 * (2 : Nat) ^ 970 ≤ 2 ^ j := by
    intro j h
    have hfour : 2 ^ 2 ≤ 2 ^ (j - 970) := Nat.pow_le_pow_right (by decide) (by omega)
    have hsplit : 2 ^ (j - 970) * 2 ^ 970 = 2 ^ j := by rw [← Nat.pow_add, Nat.sub_add_cancel (by omega)]
    rw [← hsplit]
    exact Nat.mul_le_mul_right _ hfour
  have htwice : (2 : Nat) ^ (970 + 1) = 2 * 2 ^ 970 := pow_succ' 2 970
  unfold hundredths overflowCents
  rewrite [hhigh 1024 rfl]
  generalize (2 : Nat) ^ 970 = u at hpos hunder hover htwice
  split
  · exact iff_of_false nofun (by omega)
  · next hn =>
    have hne : n / 100 ≠ 0 := by omega
    have hlow := Nat.log2_self_le hne
    have hupp : n / 100 < 2 ^ (Nat.log2 (n / 100) + 1) := Nat.lt_log2_self
    generalize Nat.log2 (n / 100) = k at hlow hupp ⊢
    dsimp only
    split
    · next hk =>
      have hle : (2 : Nat) ^ (k + 1) ≤ u := hunder (by omega)
      exact iff_of_false nofun (by omega)
    · next hk =>
      have hunit : (2 : Nat) ^ k = 2 ^ 52 * 2 ^ (k - 52) := by
        rw [← Nat.pow_add, Nat.add_sub_cancel' (by omega)]
      have hsucc : (2 : Nat) ^ (k + 1) = 2 * 2 ^ k := Nat.pow_succ'
      have hv : 0 < 2 ^ (k - 52) := Nat.two_pow_pos _
      have hround : ∀ {m : Nat}, m % 2 = 0 →
          (m ≤ roundDiv n (100 * 2 ^ (k - 52)) ↔ 2 * m * (100 * 2 ^ (k - 52)) ≤ 2 * n + 100 * 2 ^ (k - 52)) :=
        fun hm => le_roundDiv_iff (Nat.mul_pos (by decide) hv) hm
      generalize roundDiv n (100 * 2 ^ (k - 52)) = dollars at hround ⊢
      have hiff : (if 2 ^ 54 * u ≤ dollars * 2 ^ (k - 52) then (none : Option Nat)
          else some (dollars * 2 ^ (k - 52) * 100)) = none ↔ 2 ^ 54 * u ≤ dollars * 2 ^ (k - 52) := by
        by_cases h : 2 ^ 54 * u ≤ dollars * 2 ^ (k - 52)
        · rw [if_pos h]
          exact iff_of_true rfl h
        · rw [if_neg h]
          exact iff_of_false nofun h
      rw [hiff]
      rcases Nat.lt_trichotomy k 1023 with hk' | rfl | hk'
      · -- below 2^1023 dollars
        have hv' : 2 ^ (k - 52) ≤ u := hunder (by omega)
        have hdollars : dollars < 2 ^ 53 + 2 := by
          by_contra h
          have := (hround (m := 2 ^ 53 + 2) (by decide)).mp (by omega)
          omega
        have hle : dollars * 2 ^ (k - 52) ≤ (2 ^ 53 + 1) * u := Nat.mul_le_mul (by omega) hv'
        exact iff_of_false (by omega) (by omega)
      · -- the last power of two: the comparison is that of the rounding
        rw [show 1023 - 52 = 970 + 1 from rfl, htwice] at *
        have hmul : dollars * (2 * u) = 2 * (dollars * u) := Nat.mul_left_comm dollars 2 u
        have hcancel : 2 ^ 53 * u ≤ dollars * u ↔ 2 ^ 53 ≤ dollars := Nat.mul_le_mul_right_iff hpos
        have hbound := hcancel.trans (hround (m := 2 ^ 53) (by decide))
        omega
      · have hv' : 4 * u ≤ 2 ^ (k - 52) := hover (by omega)
        have hdollars : 2 ^ 52 ≤ dollars := (hround (by decide)).mpr (by omega)
        have hle : 2 ^ 52 * (4 * u) ≤ dollars * 2 ^ (k - 52) := Nat.mul_le_mul hdollars hv'
        exact iff_of_true (by omega) (by omega)

/-- Digits in groups of three from the right. -/
def groupThousands (digits : List Char) : List Char :=
  (digits.reverse.mapIdx fun i c => if i % 3 = 0 ∧ 0 < i then [',', c] else [c]).flatten.reverse

/-- `f"{dollars:.2f}"` of a number without sign, with or without `,`. -/
def fixed2 (grouped : Bool) (hundredths : Nat) : String :=
  let whole := (toString (hundredths / 100)).toList
  let cents := toString (hundredths % 100)
  String.ofList (if grouped then groupThousands whole else whole) ++ "." ++
    (if hundredths % 100 < 10 then "0" ++ cents else cents)

/-- `_money_reprs`; none when `cents / 100` raises `OverflowError`. -/
def moneyReprs (cents : Int) : Option (List String) :=
  (hundredths cents.natAbs).map fun h =>
    let sign := if cents < 0 then "-" else ""
    [sign ++ fixed2 false h, sign ++ fixed2 true h, fixed2 false h, "(" ++ fixed2 true h ++ ")"]

/-- The division raises exactly from `overflowCents` on, whatever the sign. -/
theorem moneyReprs_eq_none_iff {cents : Int} : moneyReprs cents = none ↔ overflowCents ≤ cents.natAbs := by
  rw [moneyReprs, Option.map_eq_none_iff, hundredths_eq_none_iff]

example : moneyReprs (-123456789) = some ["-1234567.89", "-1,234,567.89", "1234567.89", "(1,234,567.89)"] := by
  decide +kernel

end DocPipeline.Money

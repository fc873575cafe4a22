import DocPipeline.Stages.DeterministicExtractor
import DocPipeline.Text.Digits

/-!
# The amounts the backend accepts

What the pattern of a total reads, part by part, and the number `_money_to_cents` makes of
it. The parts are kept as they are written: leading zeros, commas in any place and
digits of any script are all accepted.
-/
namespace DocPipeline.DeterministicExtractor

set_option autoImplicit false

open Lib LlmClient

/-- What the code relies on of the decimal digits of Unicode. -/
structure DecimalTable (config : GateConfig) : Prop where
  ascii : ∀ c, c.isDigit = true → config.decimal c = some (c.toNat - 48)
  other : ∀ c, c.toNat < 128 → c.isDigit = false → config.decimal c = none
  space : ∀ c, isSpace c = true → config.decimal c = none
  lt_ten : ∀ c d, config.decimal c = some d → d < 10

/-- An optional character. -/
def mark (there : Bool) (c : Char) : Text := if there then [c] else []

/-- An amount as it is written. -/
structure Amount where
  space : Text
  dollar : Bool
  opening : Bool
  minus : Bool
  whole : Text
  cents : Text
  closing : Bool
  deriving DecidableEq, Repr

namespace Amount

def number (amount : Amount) : Text := amount.whole ++ '.' :: amount.cents

/-- With its sign, in either of the two ways. -/
def body (amount : Amount) : Text :=
  mark amount.opening '(' ++ (mark amount.minus '-' ++ (amount.number ++ mark amount.closing ')'))

def text (amount : Amount) : Text := amount.space ++ (mark amount.dollar '$' ++ amount.body)

/-- What stands before its digits. -/
def lead (amount : Amount) : Text :=
  amount.space ++ mark amount.dollar '$' ++ mark amount.opening '(' ++ mark amount.minus '-'

/-- The pattern reads it. -/
structure Read (config : GateConfig) (amount : Amount) : Prop where
  space : ∀ c, c ∈ amount.space → isSpace c = true
  whole_ne_nil : amount.whole ≠ []
  whole : ∀ c, c ∈ amount.whole → isDecimal config c = true ∨ c = ','
  cents_length : amount.cents.length = 2
  cents : ∀ c, c ∈ amount.cents → isDecimal config c = true

def negative (amount : Amount) : Bool := amount.opening || amount.minus

/-- The number the digits spell, in hundredths. -/
def hundredths (config : GateConfig) (amount : Amount) : Nat :=
  ofDigits config (amount.whole.filter (· ≠ ',') ++ amount.cents)

def value (config : GateConfig) (amount : Amount) : Int :=
  if amount.negative then -(amount.hundredths config : Int) else amount.hundredths config

end Amount

@[simp] theorem mark_true (c : Char) : mark true c = [c] := rfl

@[simp] theorem mark_false (c : Char) : mark false c = [] := rfl

theorem mem_mark {there : Bool} {c d : Char} : d ∈ mark there c ↔ there = true ∧ d = c := by
  cases there <;> simp [mark]

theorem mem_opt_lit {c : Char} {w t u : Text} :
    (w, u) ∈ Matcher.opt (Matcher.lit [c]) t ↔ ∃ there, w = mark there c ∧ t = mark there c ++ u := by
  rw [Matcher.mem_opt, Matcher.mem_lit]
  constructor
  · rintro (⟨rfl, rfl⟩ | ⟨rfl, rfl⟩)
    · exact ⟨true, rfl, rfl⟩
    · exact ⟨false, rfl, rfl⟩
  · rintro ⟨there, rfl, rfl⟩
    cases there
    · exact Or.inr ⟨rfl, rfl⟩
    · exact Or.inl ⟨rfl, rfl⟩

theorem mem_number {config : GateConfig} {w t u : Text} : (w, u) ∈ number config t ↔
    ∃ whole cents, w = whole ++ '.' :: cents ∧ t = whole ++ '.' :: cents ++ u ∧ whole ≠ [] ∧
      (∀ c, c ∈ whole → isDecimal config c = true ∨ c = ',') ∧ cents.length = 2 ∧
      ∀ c, c ∈ cents → isDecimal config c = true := by
  simp only [number, Matcher.mem_bind, Matcher.mem_many1, Matcher.mem_lit, Matcher.mem_exactly, Matcher.mem_pure,
    Bool.or_eq_true, decide_eq_true_eq]
  constructor
  · rintro ⟨whole, _, ⟨rfl, hne, hwhole⟩, _, _, ⟨rfl, rfl⟩, cents, _, ⟨rfl, hlen, hcents⟩, rfl, rfl⟩
    exact ⟨whole, cents, rfl, by simp, hne, hwhole, hlen, hcents⟩
  · rintro ⟨whole, cents, rfl, rfl, hne, hwhole, hlen, hcents⟩
    refine ⟨whole, '.' :: cents ++ u, ⟨?_, hne, hwhole⟩, ['.'], cents ++ u, ⟨rfl, rfl⟩, cents, u,
      ⟨rfl, hlen, hcents⟩, rfl, rfl⟩
    rw [List.append_assoc]

/-- A total is read where its label, a colon and an amount stand. -/
theorem mem_totalPattern {config : GateConfig} {key : Total} {group t u : Text} :
    (group, u) ∈ key.pattern config t ↔
      ∃ amount : Amount, amount.Read config ∧ group = amount.text ∧ t = key.label ++ ':' :: (amount.text ++ u) := by
  simp only [Total.pattern, amount, Matcher.mem_bind, Matcher.mem_lit, Matcher.mem_many, mem_opt_lit, mem_number,
    Matcher.mem_pure]
  constructor
  · rintro ⟨_, _, ⟨rfl, rfl⟩, space, _, ⟨rfl, hspace⟩, _, _, ⟨_, _, ⟨dollar, rfl, rfl⟩, _, _, ⟨opening, rfl, rfl⟩,
      _, _, ⟨minus, rfl, rfl⟩, _, _, ⟨whole, cents, rfl, rfl, hne, hwhole, hlen, hcents⟩, _, _, ⟨closing, rfl, rfl⟩,
      rfl, rfl⟩, rfl, rfl⟩
    refine ⟨⟨space, dollar, opening, minus, whole, cents, closing⟩, ⟨hspace, hne, hwhole, hlen, hcents⟩, ?_, ?_⟩
    · simp [Amount.text, Amount.body, Amount.number]
    · simp [Amount.text, Amount.body, Amount.number]
  · rintro ⟨⟨space, dollar, opening, minus, whole, cents, closing⟩, hread, rfl, rfl⟩
    refine ⟨_, _, ⟨rfl, ?_⟩, space, _, ⟨rfl, hread.space⟩, _, u, ⟨_, _, ⟨dollar, rfl, rfl⟩, _, _, ⟨opening, rfl, rfl⟩,
      _, _, ⟨minus, rfl, rfl⟩, _, _, ⟨whole, cents, rfl, rfl, hread.whole_ne_nil, hread.whole, hread.cents_length,
      hread.cents⟩, _, _, ⟨closing, rfl, rfl⟩, rfl, rfl⟩, ?_, rfl⟩
    · simp [Amount.text, Amount.body, Amount.number]
    · simp [Amount.text, Amount.body, Amount.number]

/-- Around the point. -/
theorem Amount.text_eq (amount : Amount) :
    amount.text = (amount.lead ++ amount.whole) ++ '.' :: (amount.cents ++ mark amount.closing ')') := by
  simp [text, body, number, lead]

section Value

variable {config : GateConfig} {amount : Amount} {a b : Text} {c x : Char}

theorem ne_of_isDecimal (hc : isDecimal config c = true) (hx : config.decimal x = none) : c ≠ x := by
  rintro rfl
  rw [isDecimal, hx] at hc
  cases hc

theorem ofDigits_append : ofDigits config (a ++ b) = ofDigits config a * 10 ^ b.length + ofDigits config b := by
  have hacc : ∀ (b : Text) (acc : Nat), b.foldl (fun acc c => acc * 10 + (config.decimal c).getD 0) acc =
      acc * 10 ^ b.length + ofDigits config b := by
    intro b
    unfold ofDigits
    induction b with
    | nil => simp
    | cons c b ih =>
      intro acc
      rw [List.foldl_cons, List.foldl_cons, ih, ih (0 * 10 + _), List.length_cons, pow_succ, Nat.add_mul, Nat.add_mul]
      ring
  rw [ofDigits, List.foldl_append, hacc]
  rfl

/-- Two digits after the point leave nothing to round. -/
theorem cents_eq (ha : '.' ∉ a) (hb : b.length = 2) : cents config (a ++ '.' :: b) = ofDigits config (a ++ b) := by
  have hbefore : ∀ c, c ∈ a → decide (c ≠ '.') = true := by
    intro c hc
    exact decide_eq_true fun he => ha (he ▸ hc)
  have hround : ∀ n, Money.roundDiv (n * 100) 100 = n := by
    intro n
    unfold Money.roundDiv
    rw [Nat.mul_div_cancel n (by decide), Nat.mul_mod_left]
    rfl
  unfold cents
  rw [List.takeWhile_append_of_pos hbefore, List.dropWhile_append_of_pos hbefore]
  simp [hb, hround]

theorem isSpace_of_isDecimal (h : DecimalTable config) (hc : isDecimal config c = true) : isSpace c = false := by
  by_contra hsp
  rw [Bool.not_eq_false] at hsp
  exact ne_of_isDecimal hc (h.space c hsp) rfl

/-- Signs, digits and comma: what an amount starts with behind the dollar. -/
def AmountChar (config : GateConfig) (c : Char) : Prop :=
  c = '(' ∨ c = '-' ∨ c = ')' ∨ c = ',' ∨ isDecimal config c = true

theorem AmountChar.isSpace (h : DecimalTable config) (hc : AmountChar config c) : isSpace c = false := by
  rcases hc with rfl | rfl | rfl | rfl | hc
  · rfl
  · rfl
  · rfl
  · rfl
  · exact isSpace_of_isDecimal h hc

theorem AmountChar.ne_dollar (h : DecimalTable config) (hc : AmountChar config c) : c ≠ '$' := by
  rcases hc with rfl | rfl | rfl | rfl | hc
  · decide
  · decide
  · decide
  · decide
  · exact ne_of_isDecimal hc (h.other '$' (by decide) rfl)

theorem number_head? (hread : amount.Read config) (hc : amount.number.head? = some c) :
    isDecimal config c = true ∨ c = ',' := by
  rw [Amount.number, List.head?_append_of_ne_nil _ hread.whole_ne_nil] at hc
  exact hread.whole c (List.mem_of_head? hc)

theorem number_getLast? (hread : amount.Read config) (hc : amount.number.getLast? = some c) : isDecimal config c = true := by
  have hne : amount.cents ≠ [] := fun he => by simpa [he] using hread.cents_length
  rw [Amount.number, List.append_cons, List.getLast?_append_of_ne_nil _ hne] at hc
  exact hread.cents c (List.mem_of_getLast? hc)

theorem number_ne_nil : amount.number ≠ [] := List.append_ne_nil_of_right_ne_nil _ (List.cons_ne_nil _ _)

theorem body_ne_nil : amount.body ≠ [] := fun he => by
  have hnumber := (List.append_eq_nil_iff.mp (List.append_eq_nil_iff.mp (List.append_eq_nil_iff.mp he).2).2).1
  exact number_ne_nil hnumber

theorem body_head? (hread : amount.Read config) (hc : amount.body.head? = some c) : AmountChar config c := by
  unfold Amount.body at hc
  cases hopening : amount.opening with
  | true =>
    rw [hopening] at hc
    exact Or.inl (Option.some.inj hc).symm
  | false =>
    cases hminus : amount.minus with
    | true =>
      rw [hopening, hminus] at hc
      exact Or.inr (Or.inl (Option.some.inj hc).symm)
    | false =>
      rw [hopening, hminus] at hc
      have hnumber : amount.number.head? = some c := by
        rw [← List.head?_append_of_ne_nil _ number_ne_nil]
        exact hc
      exact Or.inr (Or.inr (Or.inr (number_head? hread hnumber).symm))

theorem body_getLast? (hread : amount.Read config) (hc : amount.body.getLast? = some c) : AmountChar config c := by
  unfold Amount.body at hc
  rw [← List.append_assoc, ← List.append_assoc] at hc
  cases hclosing : amount.closing with
  | true =>
    rw [hclosing, mark_true, List.getLast?_concat] at hc
    exact Or.inr (Or.inr (Or.inl (Option.some.inj hc).symm))
  | false =>
    rw [hclosing, mark_false, List.append_nil,
      List.getLast?_append_of_ne_nil _ number_ne_nil] at hc
    exact Or.inr (Or.inr (Or.inr (Or.inr (number_getLast? hread hc))))

theorem stripOf_text (h : DecimalTable config) (hread : amount.Read config) :
    stripOf isSpace ((stripOf isSpace amount.text).dropWhile (· = '$')) = amount.body := by
  have hhead : ∀ c, amount.body.head? = some c → AmountChar config c := fun c hc => body_head? hread hc
  have hlast : ∀ c, amount.body.getLast? = some c → AmountChar config c := fun c hc => body_getLast? hread hc
  have houter : stripOf isSpace (amount.space ++ (mark amount.dollar '$' ++ amount.body ++ [])) =
      mark amount.dollar '$' ++ amount.body := by
    refine stripOf_eq hread.space nofun (fun c hc => ?_) (fun c hc => ?_)
    · cases hdollar : amount.dollar with
      | true =>
        rw [hdollar] at hc
        obtain rfl := Option.some.inj hc
        rfl
      | false =>
        rw [hdollar] at hc
        exact (hhead c hc).isSpace h
    · rw [List.getLast?_append_of_ne_nil _ body_ne_nil] at hc
      exact (hlast c hc).isSpace h
  have hdollar : (mark amount.dollar '$' ++ amount.body).dropWhile (· = '$') = amount.body := by
    have hbody : amount.body ≠ [] := body_ne_nil
    obtain ⟨c, rest, he⟩ := List.exists_cons_of_ne_nil hbody
    have hc : decide (c = '$') = false := decide_eq_false ((hhead c (by rw [he]; rfl)).ne_dollar h)
    rw [List.dropWhile_append_of_pos (fun c hc => decide_eq_true (mem_mark.mp hc).2), he,
      List.dropWhile_cons_of_neg (by rw [hc]; exact Bool.false_ne_true)]
  have hinner : stripOf isSpace ([] ++ (amount.body ++ [])) = amount.body :=
    stripOf_eq nofun nofun (fun c hc => (hhead c hc).isSpace h) (fun c hc => (hlast c hc).isSpace h)
  rw [List.append_nil] at houter
  rw [List.append_nil, List.nil_append] at hinner
  rw [Amount.text, houter, hdollar, hinner]

/-- The sign is seen at the first character. -/
theorem negative_iff (h : DecimalTable config) (hread : amount.Read config) :
    (amount.body.head? = some '(' ∨ amount.body.head? = some '-') ↔ amount.negative = true := by
  unfold Amount.body Amount.negative
  cases amount.opening with
  | true => exact iff_of_true (Or.inl rfl) rfl
  | false =>
    cases amount.minus with
    | true => exact iff_of_true (Or.inr rfl) rfl
    | false =>
      have hne : ∀ x, x.toNat < 128 → x.isDigit = false → x ≠ ',' → amount.number.head? ≠ some x := by
        intro x hlow hx hcomma he
        rcases number_head? hread he with hc | rfl
        · exact ne_of_isDecimal hc (h.other x hlow hx) rfl
        · exact hcomma rfl
      have hhead : (mark false '(' ++ (mark false '-' ++ (amount.number ++ mark amount.closing ')'))).head? =
          amount.number.head? := List.head?_append_of_ne_nil _ number_ne_nil
      rw [hhead]
      refine iff_of_false (not_or_intro ?_ ?_) Bool.false_ne_true
      · exact hne '(' (by decide) rfl (by decide)
      · exact hne '-' (by decide) rfl (by decide)

theorem stripOf_body (h : DecimalTable config) (hread : amount.Read config) :
    stripOf (fun c => c = '(' || c = ')' || c = '-') amount.body = amount.number := by
  have hkeep : ∀ c, isDecimal config c = true ∨ c = ',' → (c = '(' || c = ')' || c = '-') = false := by
    rintro c (hc | rfl)
    · have hne : ∀ x, x.toNat < 128 → x.isDigit = false → decide (c = x) = false := fun x hlow hx =>
        decide_eq_false (ne_of_isDecimal hc (h.other x hlow hx))
      rw [hne '(' (by decide) rfl, hne ')' (by decide) rfl, hne '-' (by decide) rfl]
      rfl
    · rfl
  unfold Amount.body
  rw [← List.append_assoc]
  refine stripOf_eq (fun c hc => ?_) (fun c hc => ?_) (fun c hc => hkeep c (number_head? hread hc))
    fun c hc => hkeep c (Or.inl (number_getLast? hread hc))
  · rcases List.mem_append.mp hc with hc | hc
    · rw [(mem_mark.mp hc).2]
      rfl
    · rw [(mem_mark.mp hc).2]
      rfl
  · rw [(mem_mark.mp hc).2]
    rfl

theorem cents_number (h : DecimalTable config) (hread : amount.Read config) :
    cents config (amount.number.filter (· ≠ ',')) = amount.hundredths config := by
  have hpoint : '.' ∉ amount.whole.filter (· ≠ ',') := by
    intro hmem
    rcases hread.whole '.' (List.mem_filter.mp hmem).1 with hc | hc
    · exact ne_of_isDecimal hc (h.other '.' (by decide) rfl) rfl
    · cases hc
  have hcents : amount.cents.filter (· ≠ ',') = amount.cents :=
    List.filter_eq_self.mpr fun c hc => decide_eq_true (ne_of_isDecimal (hread.cents c hc) (h.other ',' (by decide) rfl))
  have hsplit : amount.number.filter (· ≠ ',') = amount.whole.filter (· ≠ ',') ++ '.' :: amount.cents := by
    rw [Amount.number, List.filter_append, List.filter_cons_of_pos (by decide), hcents]
  rw [hsplit, cents_eq hpoint hread.cents_length, Amount.hundredths]

/-- `_money_to_cents` reads the value of what the pattern reads. -/
theorem moneyToCents_text (h : DecimalTable config) (hread : amount.Read config) :
    moneyToCents config amount.text = amount.value config := by
  unfold moneyToCents Amount.value
  dsimp only
  rw [stripOf_text h hread, stripOf_body h hread, cents_number h hread]
  exact if_congr (negative_iff h hread) rfl rfl

end Value

end DocPipeline.DeterministicExtractor

import DocPipeline.Stages.Amount
import DocPipeline.Audit.Grounding
import DocPipeline.Text.Lower

/-!
# Is the deterministic extraction in its own input?

An amount is accepted however its commas and zeros are placed, and is looked for as the
gate prints it. A seller is cut out of the text and lowered alone, and looked for in the
lowered text. Which ways of writing agree is said here, once of the amount and once of the
seller, and the gate passes exactly when both do.
-/
namespace DocPipeline.Audit

set_option autoImplicit false

open DeterministicExtractor LlmClient Lib Money
open Nat (toDigits ofDigitChars)

/-! ## The whole part of an amount -/

/-- Commas and zeros of any script. -/
def insignificant (config : GateConfig) (c : Char) : Bool := c = ',' || config.decimal c = some 0

/-- Without the commas and zeros in front. -/
def significant (config : GateConfig) (whole : Text) : Text := whole.dropWhile (insignificant config)

def wholeNumber (config : GateConfig) (whole : Text) : Nat := ofDigits config (whole.filter (· ≠ ','))

/-- It ends as its number is printed without commas. -/
def EndsPlain (config : GateConfig) (whole : Text) : Prop :=
  if significant config whole = [] then whole.getLast? = some '0'
  else ∀ c, c ∈ significant config whole → c.isDigit = true

/-- It ends as its number is printed with commas. -/
def EndsGrouped (config : GateConfig) (whole : Text) : Prop :=
  significant config whole ≠ [] ∧ (∀ c, c ∈ significant config whole → c.isDigit = true ∨ c = ',') ∧
    significant config whole = groupThousands ((significant config whole).filter (· ≠ ','))

section Whole

variable {config : GateConfig} {whole p : Text} {c : Char}

theorem ofDigits_ascii (h : DecimalTable config) {digits : Text} (hdigits : ∀ c, c ∈ digits → c.isDigit = true) :
    ofDigits config digits = ofDigitChars 10 digits 0 := by
  have hacc : ∀ acc, digits.foldl (fun acc c => acc * 10 + (config.decimal c).getD 0) acc = ofDigitChars 10 digits acc := by
    induction digits with
    | nil => exact fun acc => Nat.ofDigitChars_nil.symm
    | cons c digits ih =>
      intro acc
      have hc : (config.decimal c).getD 0 = c.toNat - '0'.toNat := by
        rw [h.ascii c (hdigits c List.mem_cons_self)]
        rfl
      rw [List.foldl_cons, Nat.ofDigitChars_cons, hc, Nat.mul_comm]
      exact ih (fun d hd => hdigits d (List.mem_cons_of_mem c hd)) _
  exact hacc 0

theorem ofDigits_eq_zero_iff {digits : Text} (hdecimal : ∀ c, c ∈ digits → isDecimal config c = true) :
    ofDigits config digits = 0 ↔ ∀ c, c ∈ digits → config.decimal c = some 0 := by
  induction digits with
  | nil => exact iff_of_true rfl fun _ hc => by cases hc
  | cons c digits ih =>
    obtain ⟨d, hd⟩ := Option.isSome_iff_exists.mp (hdecimal c List.mem_cons_self)
    have hsplit : ofDigits config (c :: digits) = d * 10 ^ digits.length + ofDigits config digits := by
      rw [← List.singleton_append, ofDigits_append]
      simp [ofDigits, hd]
    have hpow : 0 < 10 ^ digits.length := Nat.pow_pos (by decide)
    rw [hsplit, Nat.add_eq_zero_iff, ih fun e he => hdecimal e (List.mem_cons_of_mem c he), List.forall_mem_cons, hd,
      Option.some.injEq, Nat.mul_eq_zero, or_iff_left (Nat.ne_of_gt hpow)]

theorem wholeNumber_append (a b : Text) :
    wholeNumber config (a ++ b) = wholeNumber config a * 10 ^ (b.filter (· ≠ ',')).length + wholeNumber config b := by
  rw [wholeNumber, List.filter_append, ofDigits_append]
  rfl

theorem wholeNumber_eq_zero_iff (hread : ∀ c, c ∈ whole → isDecimal config c = true ∨ c = ',') :
    wholeNumber config whole = 0 ↔ ∀ c, c ∈ whole → insignificant config c = true := by
  have hdecimal : ∀ c, c ∈ whole.filter (· ≠ ',') → isDecimal config c = true := by
    intro c hc
    obtain ⟨hmem, hne⟩ := List.mem_filter.mp hc
    exact (hread c hmem).resolve_right (of_decide_eq_true hne)
  rw [wholeNumber, ofDigits_eq_zero_iff hdecimal]
  simp only [List.mem_filter, insignificant, Bool.or_eq_true, decide_eq_true_eq]
  constructor
  · intro h c hc
    by_cases he : c = ','
    · exact Or.inl he
    · exact Or.inr (h c ⟨hc, he⟩)
  · exact fun h c hc => (h c hc.1).resolve_left hc.2

theorem significant_eq_nil_iff (hread : ∀ c, c ∈ whole → isDecimal config c = true ∨ c = ',') :
    significant config whole = [] ↔ wholeNumber config whole = 0 := by
  rw [wholeNumber_eq_zero_iff hread, significant, List.dropWhile_eq_nil_iff]

theorem significant_head? (hc : (significant config whole).head? = some c) : insignificant config c = false := by
  have hhead := List.head?_dropWhile_not (insignificant config) whole
  unfold significant at hc
  rw [hc] at hhead
  exact Bool.eq_false_iff.mpr (by simpa using hhead)

theorem wholeNumber_significant (hread : ∀ c, c ∈ whole → isDecimal config c = true ∨ c = ',') :
    wholeNumber config (significant config whole) = wholeNumber config whole := by
  have hzero : wholeNumber config (whole.takeWhile (insignificant config)) = 0 :=
    (wholeNumber_eq_zero_iff fun c hc => hread c ((List.takeWhile_sublist _).subset hc)).mpr
      fun c hc => List.mem_takeWhile_imp hc
  have hsplit : wholeNumber config (_ ++ _) = _ := wholeNumber_append (whole.takeWhile (insignificant config))
    (significant config whole)
  rw [significant, List.takeWhile_append_dropWhile, hzero, Nat.zero_mul, Nat.zero_add] at hsplit
  exact hsplit.symm

/-- What is significant, of ASCII digits and commas, carries the digits of the number. -/
theorem filter_significant (h : DecimalTable config) (hread : ∀ c, c ∈ whole → isDecimal config c = true ∨ c = ',')
    (hne : significant config whole ≠ []) (hascii : ∀ c, c ∈ significant config whole → c.isDigit = true ∨ c = ',') :
    (significant config whole).filter (· ≠ ',') = toDigits 10 (wholeNumber config whole) := by
  obtain ⟨c, rest, hsig⟩ := List.exists_cons_of_ne_nil hne
  have hhead : insignificant config c = false := significant_head? (by rw [hsig]; rfl)
  have hkept : c ≠ ',' := by
    rintro rfl
    cases hhead
  have hdigits : ∀ d, d ∈ (significant config whole).filter (· ≠ ',') → d.isDigit = true := by
    intro d hd
    obtain ⟨hmem, hd⟩ := List.mem_filter.mp hd
    exact (hascii d hmem).resolve_right (of_decide_eq_true hd)
  have hcons : (significant config whole).filter (· ≠ ',') = c :: rest.filter (· ≠ ',') := by
    rw [hsig, List.filter_cons, if_pos (decide_eq_true hkept)]
  have hzero : ((significant config whole).filter (· ≠ ',')).head? ≠ some '0' := by
    rw [hcons]
    intro he
    obtain rfl := Option.some.inj he
    rw [insignificant, h.ascii '0' rfl] at hhead
    cases hhead
  have hnumber : ofDigitChars 10 ((significant config whole).filter (· ≠ ',')) 0 = wholeNumber config whole := by
    rw [← ofDigits_ascii h hdigits]
    exact wholeNumber_significant hread
  rw [← hnumber]
  exact (toDigits_ofDigitChars (by rw [hcons]; exact List.cons_ne_nil _ _) hdigits hzero).symm

/-- A printed form of the number ends the whole part exactly when it is what is significant. -/
theorem suffix_iff_significant (hread : ∀ c, c ∈ whole → isDecimal config c = true ∨ c = ',')
    (hp : wholeNumber config p = wholeNumber config whole) (hhead : ∀ c, p.head? = some c → insignificant config c = false)
    (hne : p ≠ []) : p <:+ whole ↔ significant config whole = p := by
  constructor
  · rintro ⟨before, rfl⟩
    have hbefore : ∀ c, c ∈ before → isDecimal config c = true ∨ c = ',' :=
      fun c hc => hread c (List.mem_append_left p hc)
    have hzero : wholeNumber config before = 0 := by
      have hpow : 0 < 10 ^ (p.filter (· ≠ ',')).length := Nat.pow_pos (by decide)
      rw [wholeNumber_append] at hp
      have hnothing : wholeNumber config before * 10 ^ (p.filter (· ≠ ',')).length = 0 := by omega
      exact (Nat.mul_eq_zero.mp hnothing).resolve_right (Nat.ne_of_gt hpow)
    obtain ⟨c, rest, rfl⟩ := List.exists_cons_of_ne_nil hne
    rw [significant, List.dropWhile_append_of_pos ((wholeNumber_eq_zero_iff hbefore).mp hzero),
      List.dropWhile_cons_of_neg (by rw [hhead c rfl]; exact Bool.false_ne_true)]
  · rintro rfl
    exact List.dropWhile_suffix _

theorem filter_spelled {grouped : Bool} {n : Nat} : (spelled grouped n).filter (· ≠ ',') = toDigits 10 n := by
  have hno : ',' ∉ toDigits 10 n := fun hmem => by cases isDigit_of_mem_toDigits hmem
  cases grouped with
  | false =>
    refine List.filter_eq_self.mpr fun c hc => decide_eq_true ?_
    rintro rfl
    exact hno hc
  | true => exact filter_groupThousands hno

theorem wholeNumber_spelled (h : DecimalTable config) {grouped : Bool} {n : Nat} :
    wholeNumber config (spelled grouped n) = n := by
  rw [wholeNumber, filter_spelled, ofDigits_ascii h fun c hc => isDigit_of_mem_toDigits hc, Nat.ofDigitChars_ten_toDigits]

theorem spelled_head? (h : DecimalTable config) {grouped : Bool} {n : Nat} (hn : 0 < n)
    (hc : (spelled grouped n).head? = some c) : insignificant config c = false := by
  have hhead : (toDigits 10 n).head? = some c := by
    cases grouped with
    | false => exact hc
    | true => rwa [spelled, if_pos rfl, head?_groupThousands] at hc
  have hdigit : c.isDigit = true := isDigit_of_mem_toDigits (List.mem_of_head? hhead)
  have hzero : c ≠ '0' := fun he => head?_toDigits hn (he ▸ hhead)
  have hlow : 48 ≤ c.toNat := (digit_bounds hdigit).1
  have hvalue : c.toNat - 48 ≠ 0 := by
    have hne : c.toNat ≠ 48 := fun he => hzero (Char.toNat_inj.mp he)
    omega
  have hcomma : c ≠ ',' := by
    rintro rfl
    cases hdigit
  rw [insignificant, h.ascii c hdigit, decide_eq_false hcomma, decide_eq_false fun he => hvalue (Option.some.inj he)]
  rfl

theorem spelled_suffix_iff (h : DecimalTable config) (hread : ∀ c, c ∈ whole → isDecimal config c = true ∨ c = ',')
    {grouped : Bool} (hpos : 0 < wholeNumber config whole) :
    spelled grouped (wholeNumber config whole) <:+ whole ↔
      significant config whole = spelled grouped (wholeNumber config whole) :=
  suffix_iff_significant hread (wholeNumber_spelled h) (fun _ hc => spelled_head? h hpos hc) (spelled_ne_nil grouped)

theorem endsPlain_iff (h : DecimalTable config) (hread : ∀ c, c ∈ whole → isDecimal config c = true ∨ c = ',') :
    spelled false (wholeNumber config whole) <:+ whole ↔ EndsPlain config whole := by
  unfold EndsPlain
  split
  · next hsig =>
    rw [(significant_eq_nil_iff hread).mp hsig]
    constructor
    · rintro ⟨before, rfl⟩
      exact List.getLast?_concat
    · intro hlast
      obtain ⟨before, rfl⟩ := List.getLast?_eq_some_iff.mp hlast
      exact List.suffix_append before ['0']
  · next hsig =>
    have hpos : 0 < wholeNumber config whole :=
      Nat.pos_of_ne_zero fun he => hsig ((significant_eq_nil_iff hread).mpr he)
    rw [spelled_suffix_iff h hread hpos]
    constructor
    · intro he c hc
      rw [he] at hc
      exact isDigit_of_mem_toDigits hc
    · intro hdigits
      have hfilter : (significant config whole).filter (· ≠ ',') = significant config whole := by
        refine List.filter_eq_self.mpr fun c hc => decide_eq_true ?_
        rintro rfl
        cases hdigits ',' hc
      rw [← hfilter]
      exact filter_significant h hread hsig fun c hc => Or.inl (hdigits c hc)

theorem endsGrouped_iff (h : DecimalTable config) (hread : ∀ c, c ∈ whole → isDecimal config c = true ∨ c = ',') :
    EndsGrouped config whole ↔
      0 < wholeNumber config whole ∧ significant config whole = spelled true (wholeNumber config whole) := by
  constructor
  · rintro ⟨hsig, hascii, he⟩
    have hpos : 0 < wholeNumber config whole :=
      Nat.pos_of_ne_zero fun he => hsig ((significant_eq_nil_iff hread).mpr he)
    rw [filter_significant h hread hsig hascii] at he
    exact ⟨hpos, he⟩
  · rintro ⟨hpos, he⟩
    refine ⟨fun hnil => Nat.ne_of_gt hpos ((significant_eq_nil_iff hread).mp hnil), fun c hc => ?_, ?_⟩
    · rw [he] at hc
      exact mem_spelled hc
    · rw [he, filter_spelled]
      rfl

theorem grouped_suffix_iff (h : DecimalTable config) (hread : ∀ c, c ∈ whole → isDecimal config c = true ∨ c = ',') :
    spelled true (wholeNumber config whole) <:+ whole ↔
      EndsGrouped config whole ∨ (wholeNumber config whole = 0 ∧ EndsPlain config whole) := by
  rw [endsGrouped_iff h hread, ← endsPlain_iff h hread]
  by_cases hzero : wholeNumber config whole = 0
  · rw [hzero]
    exact ⟨fun hs => Or.inr ⟨rfl, hs⟩, fun hs => hs.elim (fun hg => absurd hg.1 (Nat.lt_irrefl 0)) And.right⟩
  · have hpos : 0 < wholeNumber config whole := Nat.pos_of_ne_zero hzero
    rw [spelled_suffix_iff h hread hpos]
    exact ⟨fun hs => Or.inl ⟨hpos, hs⟩, fun hs => hs.elim And.right fun hz => absurd hz.1 hzero⟩

end Whole

/-! ## An amount and its renderings -/

/-- One of the printed forms of the amount is in what is written: digits of ASCII, the whole part
ending as it is printed, and with commas the sign standing where it is printed. -/
def WellWritten (config : GateConfig) (amount : Amount) : Prop :=
  (∀ c, c ∈ amount.cents → c.isDigit = true) ∧ (EndsPlain config amount.whole ∨
    (EndsGrouped config amount.whole ∧ (amount.negative = true →
      significant config amount.whole = amount.whole ∧ (amount.minus = true ∨ amount.closing = true))))

section Written

variable {config : GateConfig} {amount : Amount} {c : Char} {p : Text}

theorem ofDigits_pair {x y : Char} : ofDigits config [x, y] = (config.decimal x).getD 0 * 10 + (config.decimal y).getD 0 := by
  simp [ofDigits]

theorem decimal_getD_lt (h : DecimalTable config) : (config.decimal c).getD 0 < 10 := by
  cases hc : config.decimal c with
  | none => exact Nat.zero_lt_succ 9
  | some d => exact h.lt_ten c d hc

theorem cents_lt (h : DecimalTable config) (hread : amount.Read config) : ofDigits config amount.cents < 100 := by
  obtain ⟨x, y, he⟩ := List.length_eq_two.mp hread.cents_length
  have hx : (config.decimal x).getD 0 < 10 := decimal_getD_lt h
  have hy : (config.decimal y).getD 0 < 10 := decimal_getD_lt h
  rw [he, ofDigits_pair]
  omega

theorem hundredths_eq (hread : amount.Read config) :
    amount.hundredths config = wholeNumber config amount.whole * 100 + ofDigits config amount.cents := by
  rw [Amount.hundredths, ofDigits_append, hread.cents_length]
  rfl

theorem digitChar_decimal (h : DecimalTable config) : Nat.digitChar ((config.decimal c).getD 0) = c ↔ c.isDigit = true := by
  constructor
  · intro he
    rw [← he, Nat.isDigit_digitChar]
    exact decide_eq_true (decimal_getD_lt h)
  · intro hc
    rw [h.ascii c hc]
    exact digitChar_toNat hc

/-- The two digits are printed as they are written when they are digits of ASCII. -/
theorem twoDigits_prefix_iff (h : DecimalTable config) (hread : amount.Read config) (tail rest : Text) :
    twoDigits (ofDigits config amount.cents) ++ tail <+: amount.cents ++ rest ↔
      (∀ c, c ∈ amount.cents → c.isDigit = true) ∧ tail <+: rest := by
  obtain ⟨x, y, he⟩ := List.length_eq_two.mp hread.cents_length
  have hx : (config.decimal x).getD 0 < 10 := decimal_getD_lt h
  have hy : (config.decimal y).getD 0 < 10 := decimal_getD_lt h
  have htens : ((config.decimal x).getD 0 * 10 + (config.decimal y).getD 0) / 10 = (config.decimal x).getD 0 := by omega
  have hunits : ((config.decimal x).getD 0 * 10 + (config.decimal y).getD 0) % 10 = (config.decimal y).getD 0 := by omega
  rw [he, ofDigits_pair, twoDigits, htens, hunits]
  simp only [List.cons_append, List.nil_append, List.cons_prefix_cons, digitChar_decimal h, List.forall_mem_cons,
    List.not_mem_nil, false_implies, implies_true, and_true, and_assoc]

/-- Digits and commas are no part of what stands before them. -/
theorem notMem_lead (h : DecimalTable config) (hread : amount.Read config) (hc : c.isDigit = true ∨ c = ',') :
    c ∉ amount.lead := by
  have hspace : isSpace c = false := by
    rcases hc with hc | rfl
    · exact isSpace_of_isDecimal h (by rw [isDecimal, h.ascii c hc]; rfl)
    · rfl
  intro hmem
  simp only [Amount.lead, List.mem_append, mem_mark] at hmem
  rcases hmem with ((hmem | ⟨-, rfl⟩) | ⟨-, rfl⟩) | ⟨-, rfl⟩
  · rw [hread.space c hmem] at hspace
    cases hspace
  · rcases hc with hc | hc <;> cases hc
  · rcases hc with hc | hc <;> cases hc
  · rcases hc with hc | hc <;> cases hc

/-- A whole part without sign is looked for among the digits. -/
theorem suffix_lead_iff (hdisjoint : ∀ c, c ∈ p → c ∉ amount.lead) :
    p <:+ amount.lead ++ amount.whole ↔ p <:+ amount.whole := by
  constructor
  · rintro ⟨before, he⟩
    rcases List.append_eq_append_iff.mp he with ⟨rest, hlead, hp⟩ | ⟨rest, -, hwhole⟩
    · have hnil : rest = [] := List.eq_nil_iff_forall_not_mem.mpr fun c hc =>
        hdisjoint c (hp ▸ List.mem_append_left _ hc) (hlead ▸ List.mem_append_right _ hc)
      rw [hp, hnil]
      exact List.suffix_refl _
    · exact ⟨rest, hwhole.symm⟩
  · exact fun hs => hs.trans (List.suffix_append _ _)

/-- A whole part with a sign is looked for at the sign. -/
theorem marked_suffix_iff (hdisjoint : ∀ d, d ∈ p → d ∉ amount.lead) (hc : c ∉ amount.whole) :
    c :: p <:+ amount.lead ++ amount.whole ↔ amount.lead.getLast? = some c ∧ p = amount.whole := by
  constructor
  · rintro ⟨before, he⟩
    obtain ⟨rest, hlead, hp⟩ := split_after hc he.symm
    have hnil : rest = [] := List.eq_nil_iff_forall_not_mem.mpr fun d hd =>
      hdisjoint d (hp ▸ List.mem_append_left _ hd) (hlead ▸ List.mem_append_right _ (List.mem_cons_of_mem c hd))
    rw [hp, hlead, hnil]
    exact ⟨List.getLast?_concat, rfl⟩
  · rintro ⟨hlast, rfl⟩
    obtain ⟨before, hlead⟩ := List.getLast?_eq_some_iff.mp hlast
    exact ⟨before, by rw [hlead, List.append_assoc, List.singleton_append]⟩

theorem lead_minus_iff (hread : amount.Read config) : amount.lead.getLast? = some '-' ↔ amount.minus = true := by
  constructor
  · intro hlast
    have hmem := List.mem_of_getLast? hlast
    simp only [Amount.lead, List.mem_append, mem_mark] at hmem
    rcases hmem with ((hmem | ⟨-, he⟩) | ⟨-, he⟩) | ⟨hminus, -⟩
    · cases hread.space '-' hmem
    · cases he
    · cases he
    · exact hminus
  · intro hminus
    rw [Amount.lead, hminus, mark_true, List.getLast?_concat]

theorem lead_opening_iff (hread : amount.Read config) :
    amount.lead.getLast? = some '(' ↔ amount.opening = true ∧ amount.minus = false := by
  cases hminus : amount.minus with
  | true =>
    rw [(lead_minus_iff hread).mpr hminus]
    exact iff_of_false (by decide) fun he => by cases he.2
  | false =>
    constructor
    · intro hlast
      have hmem := List.mem_of_getLast? hlast
      simp only [Amount.lead, List.mem_append, mem_mark] at hmem
      rcases hmem with ((hmem | ⟨-, he⟩) | ⟨hopening, -⟩) | ⟨-, he⟩
      · cases hread.space '(' hmem
      · cases he
      · exact ⟨hopening, rfl⟩
      · cases he
    · rintro ⟨hopening, -⟩
      rw [Amount.lead, hminus, mark_false, List.append_nil, hopening, mark_true, List.getLast?_concat]

theorem notMem_whole (h : DecimalTable config) (hread : amount.Read config) (hlow : c.toNat < 128)
    (hdigit : c.isDigit = false) (hcomma : c ≠ ',') : c ∉ amount.whole := by
  intro hmem
  rcases hread.whole c hmem with hc | hc
  · exact ne_of_isDecimal hc (h.other c hlow hdigit) rfl
  · exact hcomma hc

/-- A text with a point is in the amount when it is around the amount's point. -/
theorem infix_text_iff (h : DecimalTable config) (hread : amount.Read config) {q : Text} :
    p ++ '.' :: q <:+: amount.text ↔
      p <:+ amount.lead ++ amount.whole ∧ q <+: amount.cents ++ mark amount.closing ')' := by
  have hbefore : '.' ∉ amount.lead ++ amount.whole := by
    rw [List.mem_append, not_or]
    refine ⟨fun hmem => ?_, notMem_whole h hread (by decide) rfl (by decide)⟩
    simp only [Amount.lead, List.mem_append, mem_mark] at hmem
    rcases hmem with ((hmem | ⟨-, he⟩) | ⟨-, he⟩) | ⟨-, he⟩
    · cases hread.space '.' hmem
    · cases he
    · cases he
    · cases he
  have hafter : '.' ∉ amount.cents ++ mark amount.closing ')' := by
    rw [List.mem_append, not_or]
    refine ⟨fun hmem => ne_of_isDecimal (hread.cents '.' hmem) (h.other '.' (by decide) rfl) rfl, fun hmem => ?_⟩
    cases (mem_mark.mp hmem).2
  rw [Amount.text_eq]
  constructor
  · rintro ⟨x, y, he⟩
    have hsame : (amount.lead ++ amount.whole) ++ '.' :: (amount.cents ++ mark amount.closing ')') =
        (x ++ p) ++ '.' :: (q ++ y) := by
      rw [← he]
      simp
    obtain ⟨hleft, -, hright⟩ := (List.append_cons_inj_of_notMem hbefore hafter).mp hsame
    exact ⟨⟨x, hleft.symm⟩, ⟨y, hright.symm⟩⟩
  · rintro ⟨⟨x, hleft⟩, ⟨y, hright⟩⟩
    exact ⟨x, y, by rw [← hleft, ← hright]; simp⟩

theorem fixed2_hundredths (h : DecimalTable config) (hread : amount.Read config) (grouped : Bool) :
    (fixed2 grouped (amount.hundredths config)).toList =
      spelled grouped (wholeNumber config amount.whole) ++ '.' :: twoDigits (ofDigits config amount.cents) := by
  have hlt := cents_lt h hread
  have hdiv : amount.hundredths config / 100 = wholeNumber config amount.whole := by
    rw [hundredths_eq hread]
    omega
  have hmod : amount.hundredths config % 100 = ofDigits config amount.cents := by
    rw [hundredths_eq hread]
    omega
  rw [toList_fixed2, hdiv, hmod]

/-- What is printed without parentheses is in the amount when its whole part is, up to the point. -/
theorem printed_infix_iff (h : DecimalTable config) (hread : amount.Read config) {sign : String} {grouped : Bool} :
    (sign ++ fixed2 grouped (amount.hundredths config)).toList <:+: amount.text ↔
      (∀ c, c ∈ amount.cents → c.isDigit = true) ∧
        sign.toList ++ spelled grouped (wholeNumber config amount.whole) <:+ amount.lead ++ amount.whole := by
  have hcents := twoDigits_prefix_iff h hread [] (mark amount.closing ')')
  rw [List.append_nil] at hcents
  rw [String.toList_append, fixed2_hundredths h hread, ← List.append_assoc, infix_text_iff h hread, hcents, and_comm]
  exact and_congr_left fun _ => and_iff_left (List.nil_prefix)

/-- The parenthesized form is there when both parentheses are written around it. -/
theorem parenthesized_infix_iff (h : DecimalTable config) (hread : amount.Read config) :
    ("(" ++ fixed2 true (amount.hundredths config) ++ ")").toList <:+: amount.text ↔
      (∀ c, c ∈ amount.cents → c.isDigit = true) ∧ amount.closing = true ∧
        '(' :: spelled true (wholeNumber config amount.whole) <:+ amount.lead ++ amount.whole := by
  have hclosing : [')'] <+: mark amount.closing ')' ↔ amount.closing = true := by
    cases amount.closing <;> simp
  have hcents := twoDigits_prefix_iff h hread [')'] (mark amount.closing ')')
  have htext : ("(" ++ fixed2 true (amount.hundredths config) ++ ")").toList =
      ('(' :: spelled true (wholeNumber config amount.whole)) ++ '.' :: (twoDigits (ofDigits config amount.cents) ++ [')']) := by
    rw [String.toList_append, String.toList_append, fixed2_hundredths h hread]
    simp
  rw [htext, infix_text_iff h hread, hcents, hclosing, and_comm, and_assoc]

theorem natAbs_value : (amount.value config).natAbs = amount.hundredths config := by
  unfold Amount.value
  split <;> omega

theorem value_lt_zero_iff : amount.value config < 0 ↔ amount.negative = true ∧ 0 < amount.hundredths config := by
  unfold Amount.value
  split
  · next hneg => simp [hneg]
  · next hneg => simp [hneg]

/-- A whole part that is printed with commas as it is written. -/
theorem ends_of_spelled (h : DecimalTable config) (hread : amount.Read config)
    (he : spelled true (wholeNumber config amount.whole) = amount.whole) : EndsPlain config amount.whole ∨
      (EndsGrouped config amount.whole ∧ significant config amount.whole = amount.whole) := by
  have hsuffix : spelled true (wholeNumber config amount.whole) <:+ amount.whole := by
    rw [he]
  rcases (grouped_suffix_iff h hread.whole).mp hsuffix with hg | hz
  · exact Or.inr ⟨hg, ((endsGrouped_iff h hread.whole).mp hg).2.trans he⟩
  · exact Or.inl hz.2

/-- The strings of `_money_reprs`, of the amount itself. -/
def exactReprs (cents : Int) : List String :=
  let sign := if cents < 0 then "-" else ""
  let n := cents.natAbs
  [sign ++ fixed2 false n, sign ++ fixed2 true n, fixed2 false n, "(" ++ fixed2 true n ++ ")"]

/-- A printed form of the amount is in what is written exactly when that is written well. -/
theorem rendered_own_iff (h : DecimalTable config) (hread : amount.Read config) :
    (∃ r, r ∈ exactReprs (amount.value config) ∧ r.toList <:+: amount.text) ↔ WellWritten config amount := by
  have hwhole := hread.whole
  have hdisjoint : ∀ {grouped : Bool}, ∀ c, c ∈ spelled grouped (wholeNumber config amount.whole) → c ∉ amount.lead :=
    fun c hc => notMem_lead h hread (mem_spelled hc)
  have hplain : spelled false (wholeNumber config amount.whole) <:+ amount.lead ++ amount.whole ↔
      EndsPlain config amount.whole := (suffix_lead_iff hdisjoint).trans (endsPlain_iff h hwhole)
  have hgrouped : spelled true (wholeNumber config amount.whole) <:+ amount.lead ++ amount.whole ↔
      EndsGrouped config amount.whole ∨ (wholeNumber config amount.whole = 0 ∧ EndsPlain config amount.whole) :=
    (suffix_lead_iff hdisjoint).trans (grouped_suffix_iff h hwhole)
  have hminus : ∀ {grouped : Bool}, '-' :: spelled grouped (wholeNumber config amount.whole) <:+ amount.lead ++ amount.whole ↔
      amount.minus = true ∧ spelled grouped (wholeNumber config amount.whole) = amount.whole :=
    (marked_suffix_iff hdisjoint (notMem_whole h hread (by decide) rfl (by decide))).trans
      (and_congr_left' (lead_minus_iff hread))
  have hopening : '(' :: spelled true (wholeNumber config amount.whole) <:+ amount.lead ++ amount.whole ↔
      (amount.opening = true ∧ amount.minus = false) ∧ spelled true (wholeNumber config amount.whole) = amount.whole :=
    (marked_suffix_iff hdisjoint (notMem_whole h hread (by decide) rfl (by decide))).trans
      (and_congr_left' (lead_opening_iff hread))
  have hempty : ("" : String).toList = [] := rfl
  have hdash : ("-" : String).toList = ['-'] := rfl
  have hunsigned : fixed2 false (amount.hundredths config) = "" ++ fixed2 false (amount.hundredths config) := by simp
  simp only [exactReprs, natAbs_value, List.mem_cons, List.not_mem_nil, or_false, exists_eq_or_imp, exists_eq_left]
  rw [printed_infix_iff h hread, printed_infix_iff h hread, hunsigned, printed_infix_iff h hread,
    parenthesized_infix_iff h hread, hempty, List.nil_append, hplain, hopening]
  unfold WellWritten
  by_cases hneg : amount.value config < 0
  · -- the sign is printed in front
    have hnegative : amount.negative = true := (value_lt_zero_iff.mp hneg).1
    rw [if_pos hneg, hdash, List.singleton_append, List.singleton_append, hminus, hminus]
    constructor
    · rintro (⟨hascii, -, he⟩ | ⟨hascii, hm, he⟩ | ⟨hascii, hends⟩ | ⟨hascii, hc, -, he⟩)
      · refine ⟨hascii, Or.inl ((endsPlain_iff h hwhole).mp ?_)⟩
        rw [he]
      · exact ⟨hascii, (ends_of_spelled h hread he).imp_right fun hg => ⟨hg.1, fun _ => ⟨hg.2, Or.inl hm⟩⟩⟩
      · exact ⟨hascii, Or.inl hends⟩
      · exact ⟨hascii, (ends_of_spelled h hread he).imp_right fun hg => ⟨hg.1, fun _ => ⟨hg.2, Or.inr hc⟩⟩⟩
    · rintro ⟨hascii, hends | ⟨hg, hsign⟩⟩
      · exact Or.inr (Or.inr (Or.inl ⟨hascii, hends⟩))
      · obtain ⟨hall, hmark⟩ := hsign hnegative
        have he : spelled true (wholeNumber config amount.whole) = amount.whole :=
          ((endsGrouped_iff h hwhole).mp hg).2.symm.trans hall
        cases hm : amount.minus with
        | true => exact Or.inr (Or.inl ⟨hascii, rfl, he⟩)
        | false =>
          have hopen : amount.opening = true := by
            rw [Amount.negative, hm, Bool.or_false] at hnegative
            exact hnegative
          have hclose : amount.closing = true := hmark.resolve_left (by rw [hm]; exact Bool.false_ne_true)
          exact Or.inr (Or.inr (Or.inr ⟨hascii, hclose, ⟨hopen, rfl⟩, he⟩))
  · rw [if_neg hneg, hempty, List.nil_append, List.nil_append, hplain, hgrouped]
    have hpositive : EndsGrouped config amount.whole → amount.negative = false := by
      intro hg
      have hpos : 0 < amount.hundredths config := by
        have hwholePos := ((endsGrouped_iff h hwhole).mp hg).1
        rw [hundredths_eq hread]
        omega
      by_contra hn
      rw [Bool.not_eq_false] at hn
      exact hneg (value_lt_zero_iff.mpr ⟨hn, hpos⟩)
    have hfree : EndsGrouped config amount.whole → (amount.negative = true →
        significant config amount.whole = amount.whole ∧ (amount.minus = true ∨ amount.closing = true)) := by
      intro hg hn
      rw [hpositive hg] at hn
      cases hn
    constructor
    · rintro (⟨hascii, hends⟩ | ⟨hascii, hg | hz⟩ | ⟨hascii, hends⟩ | ⟨hascii, -, -, he⟩)
      · exact ⟨hascii, Or.inl hends⟩
      · exact ⟨hascii, Or.inr ⟨hg, hfree hg⟩⟩
      · exact ⟨hascii, Or.inl hz.2⟩
      · exact ⟨hascii, Or.inl hends⟩
      · exact ⟨hascii, (ends_of_spelled h hread he).imp_right fun hg => ⟨hg.1, hfree hg.1⟩⟩
    · rintro ⟨hascii, hends | ⟨hg, -⟩⟩
      · exact Or.inl ⟨hascii, hends⟩
      · exact Or.inr (Or.inl ⟨hascii, Or.inl hg⟩)

end Written

/-! ## A value and its lower case -/

/-- What the code relies on of the cases of Unicode. -/
structure CaseFacts (tables : CaseTables) : Prop where
  space : ∀ c, isSpace c = true → tables.caseIgnorable c = false ∧ tables.cased c = false
  colon : tables.caseIgnorable ':' = true
  label : tables.caseIgnorable 'r' = false ∧ tables.cased 'r' = true
  sigma : tables.caseIgnorable 'Σ' = false

/-- The lower case of a value occurs in that of the text, and not where the value was read. -/
def OccursElsewhere (tables : CaseTables) (text before value : Text) : Prop :=
  ∃ x y, tables.lowerIn [] text [] = x ++ tables.lowerIn [] value [] ++ y ∧ x.length ≠ (tables.lowerIn [] before []).length

section Lowered

variable {tables : CaseTables} {before value after : Text}

theorem toList_lower (text : String) : (tables.lower text).toList = tables.lowerIn [] text.toList [] :=
  String.toList_ofList

/-- A value is found again where it was read, or elsewhere. -/
theorem lowered_infix_iff : tables.lowerIn [] value [] <:+: tables.lowerIn [] (before ++ value ++ after) [] ↔
    tables.lowerIn before.reverse value after = tables.lowerIn [] value [] ∨
      OccursElsewhere tables (before ++ value ++ after) before value := by
  have hsplit : tables.lowerIn [] (before ++ value ++ after) [] = tables.lowerIn [] before (value ++ after) ++
      tables.lowerIn before.reverse value after ++ tables.lowerIn (value.reverse ++ before.reverse) after [] := by
    rw [List.append_assoc, CaseTables.lowerIn_append, CaseTables.lowerIn_append, List.append_nil, List.append_nil,
      List.append_nil, List.append_assoc]
  have hlength : (tables.lowerIn [] before (value ++ after)).length = (tables.lowerIn [] before []).length :=
    CaseTables.length_lowerIn _ _
  constructor
  · rintro ⟨x, y, he⟩
    by_cases hx : x.length = (tables.lowerIn [] before []).length
    · left
      rw [hsplit, List.append_assoc, List.append_assoc] at he
      have hrest := (List.append_inj he (hx.trans hlength.symm)).2
      exact (List.append_inj_left hrest (CaseTables.length_lowerIn _ _)).symm
    · exact Or.inr ⟨x, y, he.symm, hx⟩
  · rintro (hown | ⟨x, y, he, -⟩)
    · exact ⟨_, _, by rw [hsplit, hown]⟩
    · exact ⟨x, y, he.symm⟩

theorem meetsCased_space (h : CaseFacts tables) {c : Char} (hc : isSpace c = true) (rest : Text) :
    tables.meetsCased (c :: rest) = false := by
  obtain ⟨hignored, hcased⟩ := h.space c hc
  rw [CaseTables.meetsCased, List.dropWhile_cons_of_neg (by rw [hignored]; exact Bool.false_ne_true)]
  exact hcased

end Lowered

/-- The gate, with the division by 100 taken exactly. -/
def exactGrounding (config : GateConfig) (fields : Fields) (sourceText : String) : GateResult :=
  let total := match fields.totalCents with
    | none => false
    | some cents => !(exactReprs cents).any fun r => Pdf.occursIn r.toList sourceText.toList
  let missing :=
    (if Gates.ungrounded config.unicode fields.invoiceNo sourceText then ["invoice_no"] else []) ++
    (if Gates.ungrounded config.unicode fields.seller sourceText then ["seller"] else []) ++
    (if total then ["total_cents"] else [])
  if missing = [] then ⟨.pass, none⟩ else ⟨.fail, some (.missingFields missing)⟩

/-- The gate computes this of amounts below 2^46 dollars. -/
theorem grounding_exact {config : GateConfig} {fields : Fields} {text : String}
    (h : ∀ cents, fields.totalCents = some cents → cents.natAbs < 100 * 2 ^ 46) :
    Gates.grounding config fields text = .ok (exactGrounding config fields text) := by
  have htotal : Gates.ungroundedTotal fields.totalCents text = .ok (match fields.totalCents with
      | none => false
      | some cents => !(exactReprs cents).any fun r => Pdf.occursIn r.toList text.toList) := by
    cases hc : fields.totalCents with
    | none => rfl
    | some cents =>
      have hreprs : Money.moneyReprs cents = some (exactReprs cents) := by
        rw [Money.moneyReprs, Money.hundredths_exact (h cents hc)]
        rfl
      rw [Gates.ungroundedTotal, hreprs]
  rw [Gates.grounding, htotal]
  rfl

theorem exactGrounding_passes_iff {config : GateConfig} {fields : Fields} {text : String} :
    (exactGrounding config fields text).outcome = .pass ↔
      (∀ val, fields.invoiceNo = some val → val ≠ "" → Occurs config.unicode text val) ∧
      (∀ val, fields.seller = some val → val ≠ "" → Occurs config.unicode text val) ∧
      ∀ cents, fields.totalCents = some cents → ∃ r, r ∈ exactReprs cents ∧ r.toList <:+: text.toList := by
  rw [← ungrounded_eq_false_iff, ← ungrounded_eq_false_iff]
  have htotal : (∀ cents, fields.totalCents = some cents → ∃ r, r ∈ exactReprs cents ∧ r.toList <:+: text.toList) ↔
      (match fields.totalCents with
        | none => false
        | some cents => !(exactReprs cents).any fun r => Pdf.occursIn r.toList text.toList) = false := by
    cases fields.totalCents with
    | none => simp
    | some cents => simp [← Pdf.occursIn_iff]
  rw [htotal]
  unfold exactGrounding
  dsimp only
  generalize (match fields.totalCents with
    | none => false
    | some cents => !(exactReprs cents).any fun r => Pdf.occursIn r.toList text.toList) = total
  cases Gates.ungrounded config.unicode fields.invoiceNo text <;>
    cases Gates.ungrounded config.unicode fields.seller text <;> cases total <;> simp

/-! ## What the backend reads of a text -/

/-- The seller the first line gives is lowered there as it is alone: white space stands before it,
or it does not start with the sigma of a word's end. Or it is repeated. -/
def SellerAgrees (tables : CaseTables) (config : GateConfig) (text : Text) : Prop :=
  ∀ before group after, Matcher.find (Key.seller.pattern config) text = some (before, group, after) →
    ¬ before ++ (Key.seller.label ++ ':' :: stripOf isSpace group) <+: text ∨
    ¬ CaseTables.SigmaFirst tables (stripOf isSpace group) ∨
    OccursElsewhere tables text (before ++ (Key.seller.label ++ [':'])) (stripOf isSpace group)

/-- The total the first line gives is written well. Or it is printed elsewhere. -/
def TotalAgrees (config : GateConfig) (text : Text) : Prop :=
  ∀ before amount after, Amount.Read config amount →
    Matcher.find (Total.total.pattern config) text = some (before, amount.text, after) →
    WellWritten config amount ∨
    ∃ r x y, r ∈ exactReprs (amount.value config) ∧ text = x ++ r.toList ++ y ∧
      ¬ ((before ++ (Total.total.label ++ [':'])).length ≤ x.length ∧ after.length ≤ y.length)

section Reads

variable {tables : CaseTables} {config : GateConfig} {text : Text}

/-- An invoice number is of ASCII, so where it was read it is lowered as it is alone. -/
theorem invoiceNo_occurs {val : String} (h : field config text .invoiceNo = some val) :
    tables.lowerIn [] val.toList [] <:+: tables.lowerIn [] text [] := by
  obtain ⟨group, hsearch, rfl⟩ := Option.map_eq_some_iff.mp h
  obtain ⟨a, t', u, rfl, hmem⟩ := Matcher.search_found hsearch
  obtain ⟨space, rest, rfl, -, hvalue⟩ := mem_labelled.mp hmem
  obtain ⟨rfl, -, hchars⟩ := Matcher.mem_many1.mp hvalue
  obtain ⟨x, y, hgroup, -, -, -⟩ := stripOf_split isSpace group
  have hplain : 'Σ' ∉ stripOf isSpace group := by
    intro hsigma
    have hbad := hchars 'Σ' (hgroup ▸ List.mem_append_right x (List.mem_append_left y hsigma))
    cases hbad
  have htext : a ++ (Key.label .invoiceNo ++ ':' :: (space ++ (group ++ u))) =
      (a ++ (Key.label .invoiceNo ++ ':' :: (space ++ x))) ++ stripOf isSpace group ++ (y ++ u) := by
    conv_lhs => rw [hgroup]
    simp
  rw [String.toList_ofList, htext]
  exact lowered_infix_iff.mpr (Or.inl ((CaseTables.lowerIn_plain hplain).trans (CaseTables.lowerIn_plain hplain).symm))

/-- Where the first line gives a seller, the text is what is before the value, the value and
what no cased character starts. -/
theorem seller_split (h : CaseFacts tables) {before group after : Text}
    (hfind : Matcher.find (Key.seller.pattern config) text = some (before, group, after)) :
    ∃ space rest, text = (before ++ (Key.seller.label ++ ':' :: space)) ++ stripOf isSpace group ++ rest ∧
      (∀ c, c ∈ space → isSpace c = true) ∧ tables.meetsCased rest = false ∧
      ∀ c, (stripOf isSpace group).head? = some c → isSpace c = false := by
  obtain ⟨t', rfl, hhead, -⟩ := Matcher.find_eq_some_iff.mp hfind
  obtain ⟨space, rest, rfl, hspace, hvalue⟩ := labelled_head? hhead
  obtain ⟨rfl, rfl⟩ := Matcher.many1_head? hvalue
  obtain ⟨x, y, hgroup, hx, hy, hfirst⟩ := stripOf_split isSpace (rest.takeWhile inLine)
  refine ⟨space ++ x, y ++ rest.dropWhile inLine, ?_, fun c hc => ?_, ?_, hfirst⟩
  · have hrest : rest = rest.takeWhile inLine ++ rest.dropWhile inLine := List.takeWhile_append_dropWhile.symm
    conv_lhs => rw [hrest, hgroup]
    simp
  · exact (List.mem_append.mp hc).elim (hspace c) (hx c)
  · cases y with
    | cons c y => exact meetsCased_space h (hy c List.mem_cons_self) _
    | nil =>
      cases hafter : rest.dropWhile inLine with
      | nil => rfl
      | cons c after =>
        have hnot := List.head?_dropWhile_not inLine rest
        rw [hafter] at hnot
        have hbreak : c = '\n' := by simpa [inLine] using hnot
        exact meetsCased_space h (by rw [hbreak]; rfl) _

/-- A label ends with a cased character before its colon, which case ignores. -/
theorem meetsCased_label (h : CaseFacts tables) (before : Text) :
    tables.meetsCased (before ++ (Key.seller.label ++ [':'])).reverse = true := by
  have hreverse : (before ++ (Key.seller.label ++ [':'])).reverse =
      [':'] ++ 'r' :: (['e', 'l', 'l', 'e', 'S'] ++ before.reverse) := by
    rw [List.reverse_append]
    rfl
  rw [hreverse, CaseTables.meetsCased_skip [':'] _ fun c hc => by rw [List.mem_singleton.mp hc]; exact h.colon,
    CaseTables.meetsCased, List.dropWhile_cons_of_neg (by rw [h.label.1]; exact Bool.false_ne_true)]
  exact h.label.2

/-- What the gate finds of the seller the first line gives. -/
theorem seller_found_iff (h : CaseFacts tables) {before group after : Text}
    (hfind : Matcher.find (Key.seller.pattern config) text = some (before, group, after)) (hne : stripOf isSpace group ≠ []) :
    tables.lowerIn [] (stripOf isSpace group) [] <:+: tables.lowerIn [] text [] ↔
      ¬ before ++ (Key.seller.label ++ ':' :: stripOf isSpace group) <+: text ∨
      ¬ CaseTables.SigmaFirst tables (stripOf isSpace group) ∨
      OccursElsewhere tables text (before ++ (Key.seller.label ++ [':'])) (stripOf isSpace group) := by
  obtain ⟨space, rest, htext, hspace, hrest, hfirst⟩ := seller_split h hfind
  obtain ⟨c, value, hvalue⟩ := List.exists_cons_of_ne_nil hne
  have hc : isSpace c = false := hfirst c (by rw [hvalue]; rfl)
  cases hlast : space.reverse with
  | nil =>
    obtain rfl := List.reverse_eq_nil_iff.mp hlast
    have hprefix : before ++ (Key.seller.label ++ ':' :: stripOf isSpace group) <+: text := ⟨rest, by rw [htext]; simp⟩
    have hown : tables.lowerIn (before ++ (Key.seller.label ++ [':'])).reverse (stripOf isSpace group) rest =
        tables.lowerIn [] (stripOf isSpace group) [] ↔ ¬ CaseTables.SigmaFirst tables (stripOf isSpace group) := by
      rw [← CaseTables.lowerIn_ne_iff h.sigma (meetsCased_label h before) hrest, not_not]
    rw [or_iff_right (not_not_intro hprefix), ← hown, htext]
    exact lowered_infix_iff
  | cons d space' =>
    have hd : isSpace d = true := hspace d (List.mem_reverse.mp (hlast ▸ List.mem_cons_self))
    have hown : tables.lowerIn (before ++ (Key.seller.label ++ ':' :: space)).reverse (stripOf isSpace group) rest =
        tables.lowerIn [] (stripOf isSpace group) [] := by
      refine CaseTables.lowerIn_congr ?_ hrest
      have hreverse : (before ++ (Key.seller.label ++ ':' :: space)).reverse =
          d :: (space' ++ (before ++ (Key.seller.label ++ [':'])).reverse) := by
        rw [← List.cons_append, ← hlast]
        simp
      rw [hreverse, meetsCased_space h hd]
      rfl
    refine iff_of_true ?_ (Or.inl ?_)
    · rw [htext]
      exact lowered_infix_iff.mpr (Or.inl hown)
    · rintro ⟨tail, he⟩
      have hhead : (stripOf isSpace group ++ tail).head? = (space ++ (stripOf isSpace group ++ rest)).head? := by
        have htail : stripOf isSpace group ++ tail = space ++ (stripOf isSpace group ++ rest) := by
          have hsame := he.trans htext
          simpa using hsame
        rw [htail]
      have hsome : space ≠ [] := by
        intro he
        rw [he] at hlast
        cases hlast
      obtain ⟨e, others, hspaceCons⟩ := List.exists_cons_of_ne_nil hsome
      rw [hvalue, hspaceCons] at hhead
      obtain rfl := Option.some.inj hhead
      rw [hspace c (hspaceCons ▸ List.mem_cons_self)] at hc
      cases hc

theorem seller_agrees_iff (h : CaseFacts tables) (hlower : config.unicode.lower = tables.lower) (source : String) :
    (∀ val, field config source.toList .seller = some val → val ≠ "" → Occurs config.unicode source val) ↔
      SellerAgrees tables config source.toList := by
  have hocc : ∀ value : Text, Occurs config.unicode source (String.ofList value) ↔
      tables.lowerIn [] value [] <:+: tables.lowerIn [] source.toList [] := by
    intro value
    rw [Occurs, hlower, toList_lower, toList_lower, String.toList_ofList]
  constructor
  · intro hall before group after hfind
    by_cases hne : stripOf isSpace group = []
    · refine Or.inr (Or.inl ?_)
      rintro ⟨ignored, rest, he, -⟩
      rw [hne] at he
      simp at he
    · have hfield : field config source.toList .seller = some (String.ofList (stripOf isSpace group)) := by
        rw [field, Matcher.search_eq_find, hfind]
        rfl
      refine (seller_found_iff h hfind hne).mp ((hocc _).mp (hall _ hfield fun he => hne ?_))
      rw [← String.toList_ofList (l := stripOf isSpace group), he]
      rfl
  · intro hagrees val hfield hval
    rw [field, Matcher.search_eq_find, Option.map_map] at hfield
    obtain ⟨⟨before, group, after⟩, hfind, rfl⟩ := Option.map_eq_some_iff.mp hfield
    have hne : stripOf isSpace group ≠ [] := fun he => hval (congrArg String.ofList he)
    exact (hocc _).mpr ((seller_found_iff h hfind hne).mpr (hagrees before group after hfind))

/-- An occurrence is in a part of the text, or not within it. -/
theorem infix_own_iff {before own after r : Text} : r <:+: before ++ (own ++ after) ↔ r <:+: own ∨
    ∃ x y, before ++ (own ++ after) = x ++ r ++ y ∧ ¬ (before.length ≤ x.length ∧ after.length ≤ y.length) := by
  constructor
  · rintro ⟨x, y, he⟩
    by_cases hin : before.length ≤ x.length ∧ after.length ≤ y.length
    · obtain ⟨x', rfl⟩ : before <+: x :=
        List.prefix_of_prefix_length_le ⟨own ++ after, rfl⟩ ⟨r ++ y, by rw [← he, List.append_assoc]⟩ hin.1
      obtain ⟨y', rfl⟩ : after <:+ y :=
        List.suffix_of_suffix_length_le ⟨before ++ own, List.append_assoc ..⟩ ⟨before ++ x' ++ r, he⟩ hin.2
      left
      have hsame : before ++ ((x' ++ r ++ y') ++ after) = before ++ (own ++ after) := by
        rw [← he]
        simp
      exact ⟨x', y', List.append_cancel_right (List.append_cancel_left hsame)⟩
    · exact Or.inr ⟨x, y, he.symm, hin⟩
  · rintro (hown | ⟨x, y, he, -⟩)
    · exact hown.trans ⟨before, after, by rw [List.append_assoc]⟩
    · exact ⟨x, y, he.symm⟩

theorem total_agrees_iff (h : DecimalTable config) :
    (∀ cents, totalCents config text .total = some cents → ∃ r, r ∈ exactReprs cents ∧ r.toList <:+: text) ↔
      TotalAgrees config text := by
  have hfound : ∀ {before after : Text} {amount : Amount}, amount.Read config →
      Matcher.find (Total.total.pattern config) text = some (before, amount.text, after) →
      ((∃ r, r ∈ exactReprs (amount.value config) ∧ r.toList <:+: text) ↔ WellWritten config amount ∨
        ∃ r x y, r ∈ exactReprs (amount.value config) ∧ text = x ++ r.toList ++ y ∧
          ¬ ((before ++ (Total.total.label ++ [':'])).length ≤ x.length ∧ after.length ≤ y.length)) := by
    intro before after amount hread hfind
    obtain ⟨t', rfl, hhead, -⟩ := Matcher.find_eq_some_iff.mp hfind
    obtain ⟨other, -, he, rfl⟩ := mem_totalPattern.mp (List.mem_of_head? hhead)
    have htext : before ++ (Total.total.label ++ ':' :: (other.text ++ after)) =
        before ++ (Total.total.label ++ [':']) ++ (amount.text ++ after) := by
      rw [he]
      simp
    rw [← rendered_own_iff h hread, htext]
    constructor
    · rintro ⟨r, hr, hin⟩
      exact (infix_own_iff.mp hin).imp (fun hown => ⟨r, hr, hown⟩) fun ⟨x, y, he, hn⟩ => ⟨r, x, y, hr, he, hn⟩
    · rintro (⟨r, hr, hown⟩ | ⟨r, x, y, hr, he, hn⟩)
      · exact ⟨r, hr, infix_own_iff.mpr (Or.inl hown)⟩
      · exact ⟨r, hr, infix_own_iff.mpr (Or.inr ⟨x, y, he, hn⟩)⟩
  constructor
  · intro hall before amount after hread hfind
    refine (hfound hread hfind).mp (hall _ ?_)
    rw [totalCents, Matcher.search_eq_find, hfind]
    exact congrArg some (moneyToCents_text h hread)
  · intro hagrees cents htotal
    rw [totalCents, Matcher.search_eq_find, Option.map_map] at htotal
    obtain ⟨⟨before, group, after⟩, hfind, rfl⟩ := Option.map_eq_some_iff.mp htotal
    obtain ⟨t', -, hhead, -⟩ := Matcher.find_eq_some_iff.mp hfind
    obtain ⟨amount, hread, rfl, -⟩ := mem_totalPattern.mp (List.mem_of_head? hhead)
    change ∃ r, r ∈ exactReprs (moneyToCents config amount.text) ∧ _
    rw [moneyToCents_text h hread]
    exact (hfound hread hfind).mpr (hagrees before amount after hread hfind)

/-- The gate passes what the backend read of a text exactly when the seller is lowered there as
it is alone and the total is written as it is printed, or they are repeated elsewhere. -/
theorem grounded_in_itself_iff (hdecimal : DecimalTable config) (hcase : CaseFacts tables)
    (hlower : config.unicode.lower = tables.lower) (source : String) :
    (exactGrounding config (defaultExtract config source) source).outcome = .pass ↔
      SellerAgrees tables config source.toList ∧ TotalAgrees config source.toList := by
  rw [exactGrounding_passes_iff, ← seller_agrees_iff hcase hlower, ← total_agrees_iff hdecimal]
  refine and_iff_right fun val hval _ => ?_
  rw [Occurs, hlower, toList_lower, toList_lower]
  exact invoiceNo_occurs hval

end Reads

/-- ASCII and the sigmas. -/
def sigmaTables : CaseTables where
  lowerChar c := [c.toLower]
  cased c := (65 ≤ c.toNat && c.toNat ≤ 90) || (97 ≤ c.toNat && c.toNat ≤ 122) || [0x3a3, 0x3c2, 0x3c3].contains c.toNat
  caseIgnorable c := [39, 46, 58, 94, 96].contains c.toNat

theorem caseFacts_sigmaTables : CaseFacts sigmaTables where
  space := by
    intro c hc
    simp only [isSpace, Bool.or_eq_true, Bool.and_eq_true, decide_eq_true_eq] at hc
    constructor
    · simp [sigmaTables]
      omega
    · simp [sigmaTables]
      omega
  colon := rfl
  label := ⟨rfl, rfl⟩
  sigma := rfl

def sigmaConfig : GateConfig := { GateConfig.defaults with unicode := { UnicodeTables.ascii with lower := sigmaTables.lower } }

theorem decimalTable_sigmaConfig : DecimalTable sigmaConfig where
  ascii := fun _ hc => if_pos hc
  other := fun _ _ hc => if_neg (by rw [hc]; exact Bool.false_ne_true)
  space := by
    intro c hc
    simp only [isSpace, Bool.or_eq_true, Bool.and_eq_true, decide_eq_true_eq] at hc
    refine if_neg fun hdigit => ?_
    have hbounds := digit_bounds hdigit
    omega
  lt_ten := by
    intro c d hd
    change (if c.isDigit then some (c.toNat - '0'.toNat) else none) = some d at hd
    split at hd
    · next hc =>
      have hupp := (digit_bounds hc).2
      have he : c.toNat - 48 = d := Option.some.inj hd
      omega
    · cases hd

/-- A credit of 4,297.00 in parentheses, from a seller that starts with a sigma. -/
def creditText : String := "Seller: Σigma\nTotal: (4,297.00)"

theorem credit_agrees : SellerAgrees sigmaTables sigmaConfig creditText.toList ∧ TotalAgrees sigmaConfig creditText.toList :=
  (grounded_in_itself_iff decimalTable_sigmaConfig caseFacts_sigmaTables rfl creditText).mp (by decide +kernel)

/-- Commas in odd places are read and not printed, an unclosed parenthesis is a sign that is not
printed, and a seller of one sigma right behind its label is lowered in two ways. -/
theorem accepted_and_missed :
    (exactGrounding sigmaConfig (defaultExtract sigmaConfig "Total: 1,2,3.45") "Total: 1,2,3.45").outcome ≠ .pass ∧
    (exactGrounding sigmaConfig (defaultExtract sigmaConfig "Total: (1,234.50") "Total: (1,234.50").outcome ≠ .pass ∧
    (exactGrounding sigmaConfig (defaultExtract sigmaConfig "Seller:Σ") "Seller:Σ").outcome ≠ .pass := by
  decide +kernel

end DocPipeline.Audit

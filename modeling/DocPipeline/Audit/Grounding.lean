import DocPipeline.Core.GatesSpec
import DocPipeline.Schedule

/-!
# Is every extracted value in the document?

The gate looks for three keys, and for an amount by a rendering that may be a part of a
longer number. What it promises is stated for the whole extraction: every non-empty text
occurs up to case, as the gate compares, and every amount as a number that no digit
continues and that has the amount's sign. The gate keeps the promise exactly when the keys
it passes over keep it too and the total stands so.
-/
namespace DocPipeline

set_option autoImplicit false

namespace Money

/-- How the number of an amount is written, without its sign. -/
def numbers (cents : Int) : List String :=
  [fixed2 false cents.natAbs, fixed2 true cents.natAbs]

/-- A number goes on here: a digit, or a separator before one. -/
def continues : List Char → Bool
  | [] => false
  | c :: rest => c.isDigit || ((c = '.' || c = ',') && rest.head?.any Char.isDigit)

/-- A minus sign stands before the number, or parentheses stand around it. A `$` may come
between; a hyphen after another number is no sign. What comes before is read backwards. -/
def negated (before after : List Char) : Bool :=
  match (if before.head? = some '$' then before.tail else before) with
  | [] => false
  | c :: rest => ((c = '-' || c = '−') && !continues rest) || (c = '(' && after.head? = some ')')

/-- A number of the amount between these is the whole number, and has the amount's sign. -/
def readsAs (cents : Int) (before after : List Char) : Bool :=
  !continues before && !continues after && (decide (cents = 0) || negated before after == decide (cents < 0))

/-- No number is read with both signs. -/
theorem readsAs_neg {cents : Int} {before after : List Char} (hne : cents ≠ 0) (h : readsAs cents before after = true) :
    readsAs (-cents) before after = false := by
  simp only [readsAs, Bool.and_eq_true, Bool.or_eq_true, decide_eq_true_eq, beq_iff_eq, hne, false_or] at h
  have hsign : (negated before after == decide (-cents < 0)) = false := by
    rw [h.2, beq_eq_false_iff_ne]
    intro he
    have hiff := decide_eq_decide.mp he
    omega
  have hneg : -cents ≠ 0 := by omega
  rw [readsAs, hsign, decide_eq_false hneg, Bool.or_false, Bool.and_false]

/-- The search for a number of the amount. -/
def standsIn (cents : Int) (text : List Char) : Bool :=
  (numbers cents).any fun number => (List.range (text.length + 1)).any fun i =>
    number.toList.isPrefixOf (text.drop i) && readsAs cents (text.take i).reverse (text.drop (i + number.toList.length))

theorem standsIn_iff {cents : Int} {text : List Char} : standsIn cents text = true ↔
    ∃ number before after, number ∈ numbers cents ∧ text = before ++ number.toList ++ after ∧
      readsAs cents before.reverse after = true := by
  simp only [standsIn, List.any_eq_true, List.mem_range, Bool.and_eq_true, List.isPrefixOf_iff_prefix]
  constructor
  · rintro ⟨number, hnumber, i, _, ⟨after, ha⟩, hreads⟩
    have hafter : text.drop (i + number.toList.length) = after := by
      rw [← List.drop_drop, ← ha, List.drop_left]
    refine ⟨number, text.take i, after, hnumber, ?_, hafter ▸ hreads⟩
    rw [List.append_assoc, ha, List.take_append_drop]
  · rintro ⟨number, before, after, hnumber, rfl, hreads⟩
    have hlen : before.length < (before ++ number.toList ++ after).length + 1 := by
      rw [List.length_append, List.length_append]
      omega
    refine ⟨number, hnumber, before.length, hlen, ⟨after, by simp⟩, ?_⟩
    simpa using hreads

end Money

namespace Audit

open Gates

/-- The text is there, up to case. -/
def Occurs (unicode : UnicodeTables) (text value : String) : Prop :=
  (unicode.lower value).toList <:+: (unicode.lower text).toList

/-- The amount is there: its number, that goes on on neither side, with its sign. -/
def Stands (text : String) (cents : Int) : Prop :=
  ∃ number before after, number ∈ Money.numbers cents ∧ text.toList = before ++ number.toList ++ after ∧
    Money.readsAs cents before.reverse after = true

instance (text : String) (cents : Int) : Decidable (Stands text cents) :=
  decidable_of_iff (Money.standsIn cents text.toList = true) Money.standsIn_iff

example : Stands "Total: $5.00" 500 ∧ ¬ Stands "Total: -5.00" 500 ∧ ¬ Stands "Total: (5.00)" 500 ∧
    ¬ Stands "Total: 12345.00" 500 ∧ ¬ Stands "Total: 5.00" (-500) ∧ Stands "Total: -$5.00" (-500) ∧
    Stands "Total: (5.00)" (-500) := by
  decide +kernel

def items (fields : Fields) : List LineItem := fields.lineItems.getD []

/-- The texts grounding looks for. -/
def checkedTexts (fields : Fields) : List String :=
  ([fields.invoiceNo, fields.seller].filterMap id).filter (· ≠ "")

/-- The texts it passes over. -/
def passedTexts (fields : Fields) : List String :=
  ([fields.buyer, fields.iban].filterMap id ++ (items fields).map LineItem.description).filter (· ≠ "")

/-- The amounts it passes over. -/
def passedAmounts (fields : Fields) : List Int :=
  [fields.subtotalCents, fields.taxCents].filterMap id ++ (items fields).map LineItem.amountCents

/-- Every value the extraction carries is in the text. -/
structure InDocument (unicode : UnicodeTables) (fields : Fields) (text : String) : Prop where
  checked : ∀ value, value ∈ checkedTexts fields → Occurs unicode text value
  passed : ∀ value, value ∈ passedTexts fields → Occurs unicode text value
  total : ∀ cents, fields.totalCents = some cents → Stands text cents
  amounts : ∀ cents, cents ∈ passedAmounts fields → Stands text cents

theorem ungrounded_eq_false_iff {unicode : UnicodeTables} {value : Option String} {text : String} :
    ungrounded unicode value text = false ↔ ∀ val, value = some val → val ≠ "" → Occurs unicode text val := by
  cases value with
  | none => simp [ungrounded]
  | some val =>
    have hocc : Occurs unicode text val ↔
        Pdf.occursIn (unicode.lower val).toList (unicode.lower text).toList = true := Pdf.occursIn_iff.symm
    by_cases he : val = ""
    · simp [ungrounded, he]
    · simp [ungrounded, he, hocc]

/-- A rendering of the amount is in the text, be it inside a longer number. -/
def Rendered (text : String) (cents : Int) : Prop :=
  ∃ reprs r, Money.moneyReprs cents = some reprs ∧ r ∈ reprs ∧ r.toList <:+: text.toList

theorem ungroundedTotal_eq_false_iff {total : Option Int} {text : String} :
    ungroundedTotal total text = .ok false ↔ ∀ cents, total = some cents → Rendered text cents := by
  cases total with
  | none => simp [ungroundedTotal]
  | some cents =>
    cases hr : Money.moneyReprs cents with
    | none => simp [ungroundedTotal, Rendered, hr]
    | some reprs => simp [ungroundedTotal, Rendered, hr, Pdf.occursIn_iff]

/-- What grounding passes: the texts it looks for occur, and the total is rendered. -/
theorem grounded_iff {config : GateConfig} {fields : Fields} {text : String} :
    Grounded config fields text ↔ (∀ value, value ∈ checkedTexts fields → Occurs config.unicode text value) ∧
      ∀ cents, fields.totalCents = some cents → Rendered text cents := by
  unfold Grounded
  rw [ungrounded_eq_false_iff, ungrounded_eq_false_iff, ungroundedTotal_eq_false_iff, ← and_assoc]
  refine and_congr_left fun _ => ?_
  constructor
  · rintro ⟨hno, hseller⟩ value hv
    simp only [checkedTexts, List.mem_filter, List.mem_filterMap, List.mem_cons, List.not_mem_nil, or_false,
      decide_eq_true_eq] at hv
    obtain ⟨⟨key, hkey, hval⟩, hne⟩ := hv
    rcases hkey with rfl | rfl
    · exact hno value hval hne
    · exact hseller value hval hne
  · intro h
    constructor
    · exact fun val hval hne => h val (by simp [checkedTexts, hval, hne])
    · exact fun val hval hne => h val (by simp [checkedTexts, hval, hne])

/-- The gate passes, and only then promises something, exactly when it has found the
texts and the total it looks for. -/
theorem grounding_passes_iff {config : GateConfig} {fields : Fields} {text : String} :
    (∃ g, grounding config fields text = .ok g ∧ g.outcome = .pass) ↔ Grounded config fields text := by
  constructor
  · rintro ⟨g, hok, hpass⟩
    rcases (grounding_ok hok).2 with ⟨_, hg⟩ | ⟨hfail, _⟩
    · exact hg
    · rw [hpass] at hfail
      cases hfail
  · intro hg
    cases hr : grounding config fields text with
    | ok g =>
      rcases (grounding_ok hr).2 with ⟨hpass, _⟩ | ⟨_, hn⟩
      · exact ⟨g, rfl, hpass⟩
      · exact absurd hg hn
    | error e =>
      cases e
      obtain ⟨cents, hc, hnone⟩ := grounding_raises_iff.mp hr
      obtain ⟨reprs, r, hsome, _⟩ := (grounded_iff.mp hg).2 cents hc
      rw [hnone] at hsome
      cases hsome

/-- Where the gate passes, the extraction is covered exactly when the keys it passes over
are, and the total stands with its sign. Where it does not pass, nothing is promised. -/
theorem grounding_covers_iff (config : GateConfig) (model : ExtractedFields) (text : String) :
    (∀ g, grounding config model.modelDump text = .ok g → g.outcome = .pass →
      InDocument config.unicode model.modelDump text) ↔
    (∃ value, value ∈ checkedTexts model.modelDump ∧ ¬ Occurs config.unicode text value) ∨
      (∃ cents, model.totalCents = some cents ∧ ¬ Rendered text cents) ∨
      ((∀ value, value ∈ passedTexts model.modelDump → Occurs config.unicode text value) ∧
        (∀ cents, cents ∈ passedAmounts model.modelDump → Stands text cents) ∧
        ∀ cents, model.totalCents = some cents → Stands text cents) := by
  by_cases hg : Grounded config model.modelDump text
  · obtain ⟨hchecked, hrendered⟩ := grounded_iff.mp hg
    constructor
    · intro h
      obtain ⟨g, hok, hpass⟩ := grounding_passes_iff.mpr hg
      have hin := h g hok hpass
      exact .inr (.inr ⟨hin.passed, hin.amounts, hin.total⟩)
    · rintro (⟨value, hv, hn⟩ | ⟨cents, hc, hn⟩ | ⟨hpassed, hamounts, htotal⟩)
      · exact absurd (hchecked value hv) hn
      · exact absurd (hrendered cents hc) hn
      · exact fun _ _ _ => ⟨hchecked, hpassed, htotal, hamounts⟩
  · constructor
    · intro _
      by_contra hnone
      simp only [not_or, not_exists, not_and, not_not] at hnone
      exact hg (grounded_iff.mpr ⟨hnone.1, hnone.2.1⟩)
    · exact fun _ g hok hpass => absurd (grounding_passes_iff.mp ⟨g, hok, hpass⟩) hg

/-- The invoice is over 12345.00, the total read is 5.00, and the buyer is made up. -/
def smallTotal : ExtractedFields where
  invoiceNo := some "INV-1"
  seller := some "Acme"
  totalCents := some 500

def bigInvoice : String := "INV-1 Acme Total: 12345.00"

/-- Only the buyer is made up here. -/
def ghostBuyer : ExtractedFields := { smallTotal with totalCents := none, buyer := some "Ghost" }

/-- A credit, read of an invoice that is none; and an amount read of a credit. -/
def credit : ExtractedFields := { smallTotal with totalCents := some (-500) }

/-- The gate passes an extraction that has a value the document has not. -/
def Uncovered (model : ExtractedFields) (text : String) : Prop :=
  ∃ g, grounding .defaults model.modelDump text = .ok g ∧ g.outcome = .pass ∧
    ¬ InDocument GateConfig.defaults.unicode model.modelDump text

/-- The total is found inside the larger one, and with either sign where the document has the
other; a made-up buyer is not looked for. -/
theorem small_total_passes : Uncovered smallTotal bigInvoice ∧ Uncovered ghostBuyer bigInvoice ∧
    Uncovered credit "INV-1 Acme Total: 5.00" ∧ Uncovered smallTotal "INV-1 Acme Total: -5.00" := by
  refine ⟨⟨⟨.pass, none⟩, by decide +kernel, rfl, fun h => ?_⟩, ⟨⟨.pass, none⟩, by decide +kernel, rfl, fun h => ?_⟩,
    ⟨⟨.pass, none⟩, by decide +kernel, rfl, fun h => ?_⟩, ⟨⟨.pass, none⟩, by decide +kernel, rfl, fun h => ?_⟩⟩
  · exact absurd (h.total 500 rfl) (by decide +kernel)
  · have hghost := h.passed "Ghost" (by decide +kernel)
    exact absurd (Pdf.occursIn_iff.mpr hghost) (by decide +kernel)
  · exact absurd (h.total (-500) rfl) (by decide +kernel)
  · exact absurd (h.total 500 rfl) (by decide +kernel)

end Audit
end DocPipeline

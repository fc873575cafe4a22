import DocPipeline.Core.Gates
import DocPipeline.Stages.LlmClient
import Mathlib.Data.List.TakeWhile

/-!
# The deterministic backend

`default_extract`, pattern by pattern. `\d` is any decimal digit of Unicode, whose value
`float` reads; its arithmetic is taken exactly, so that an amount is the number its digits
spell with the point moved by two places. The amounts that a float rounds or does not hold,
which start at 2^53 cents, are not told apart.
-/
namespace DocPipeline.DeterministicExtractor

set_option autoImplicit false

open Lib LlmClient

abbrev Text := List Char

def isUpper (c : Char) : Bool := 'A' ≤ c && c ≤ 'Z'

/-- `[A-Za-z0-9]`. -/
def isAlnum (c : Char) : Bool := isUpper c || ('a' ≤ c && c ≤ 'z') || ('0' ≤ c && c ≤ '9')

/-- `\d`. -/
def isDecimal (config : GateConfig) (c : Char) : Bool := (config.decimal c).isSome

/-- `.` without `DOTALL`. -/
def inLine (c : Char) : Bool := c ≠ '\n'

/-- `str.strip` of these characters. -/
def stripOf (p : Char → Bool) (text : Text) : Text := ((text.dropWhile p).reverse.dropWhile p).reverse

/-- `label:\s*` before a value. -/
def labelled (label : Text) (value : Matcher Char Text) : Matcher Char Text := do
  let _ ← Matcher.lit (label ++ [':'])
  let _ ← Matcher.many isSpace
  value

inductive Key where
  | invoiceNo | invoiceDate | dueDate | seller | buyer | currency | iban
  deriving DecidableEq, Repr

def Key.label : Key → Text
  | .invoiceNo => "Invoice No".toList
  | .invoiceDate => "Invoice Date".toList
  | .dueDate => "Due Date".toList
  | .seller => "Seller".toList
  | .buyer => "Buyer".toList
  | .currency => "Currency".toList
  | .iban => "IBAN".toList

/-- `\d{4}-\d{2}-\d{2}`. -/
def date (config : GateConfig) : Matcher Char Text := do
  let year ← Matcher.exactly (isDecimal config) 4
  let _ ← Matcher.lit ['-']
  let month ← Matcher.exactly (isDecimal config) 2
  let _ ← Matcher.lit ['-']
  let day ← Matcher.exactly (isDecimal config) 2
  return year ++ '-' :: (month ++ '-' :: day)

/-- The groups of `_FIELD_PATTERNS`. -/
def Key.value (config : GateConfig) : Key → Matcher Char Text
  | .invoiceNo => Matcher.many1 fun c => isAlnum c || c = '-'
  | .invoiceDate | .dueDate => date config
  | .seller | .buyer => Matcher.many1 inLine
  | .currency => Matcher.exactly isUpper 3
  | .iban => Matcher.many1 isAlnum

def Key.pattern (config : GateConfig) (key : Key) : Matcher Char Text := labelled key.label (key.value config)

/-- `[\d,]+\.\d{2}`. -/
def number (config : GateConfig) : Matcher Char Text := do
  let whole ← Matcher.many1 fun c => isDecimal config c || c = ','
  let _ ← Matcher.lit ['.']
  let cents ← Matcher.exactly (isDecimal config) 2
  return whole ++ '.' :: cents

inductive Total where
  | total | subtotal | tax
  deriving DecidableEq, Repr

def Total.label : Total → Text
  | .total => "Total".toList
  | .subtotal => "Subtotal".toList
  | .tax => "Tax".toList

/-- `\$?\(?-?[\d,]+\.\d{2}\)?`. -/
def amount (config : GateConfig) : Matcher Char Text := do
  let dollar ← Matcher.opt (Matcher.lit ['$'])
  let opening ← Matcher.opt (Matcher.lit ['('])
  let minus ← Matcher.opt (Matcher.lit ['-'])
  let number ← number config
  let closing ← Matcher.opt (Matcher.lit [')'])
  return dollar ++ opening ++ minus ++ number ++ closing

/-- The pattern of a total, and what stands after its colon. -/
def Total.pattern (config : GateConfig) (key : Total) : Matcher Char Text := do
  let _ ← Matcher.lit (key.label ++ [':'])
  let space ← Matcher.many isSpace
  let amount ← amount config
  return space ++ amount

def itemLabel : Text := "Line Item".toList

/-- `Line Item:\s*(.+?)\s*\|\s*(\$?-?[\d,]+\.\d{2})`, and its two groups. -/
def item (config : GateConfig) : Matcher Char (Text × Text) := do
  let _ ← Matcher.lit (itemLabel ++ [':'])
  let _ ← Matcher.many isSpace
  let description ← Matcher.few1 inLine
  let _ ← Matcher.many isSpace
  let _ ← Matcher.lit ['|']
  let _ ← Matcher.many isSpace
  let dollar ← Matcher.opt (Matcher.lit ['$'])
  let minus ← Matcher.opt (Matcher.lit ['-'])
  let number ← number config
  return (description, dollar ++ minus ++ number)

/-- The number that decimal digits spell. -/
def ofDigits (config : GateConfig) (digits : Text) : Nat :=
  digits.foldl (fun acc c => acc * 10 + (config.decimal c).getD 0) 0

/-- `round(float(text) * 100)` without a sign. -/
def cents (config : GateConfig) (text : Text) : Nat :=
  let whole := text.takeWhile (· ≠ '.')
  let fraction := (text.dropWhile (· ≠ '.')).drop 1
  Money.roundDiv (ofDigits config (whole ++ fraction) * 100) (10 ^ fraction.length)

/-- `_money_to_cents`. -/
def moneyToCents (config : GateConfig) (text : Text) : Int :=
  let cleaned := stripOf isSpace ((stripOf isSpace text).dropWhile (· = '$'))
  let negative := cleaned.head? = some '(' ∨ cleaned.head? = some '-'
  let cents := cents config ((stripOf (fun c => c = '(' || c = ')' || c = '-') cleaned).filter (· ≠ ','))
  if negative then -(cents : Int) else cents

def field (config : GateConfig) (text : Text) (key : Key) : Option String :=
  (Matcher.search (key.pattern config) text).map fun group => String.ofList (stripOf isSpace group)

def totalCents (config : GateConfig) (text : Text) (key : Total) : Option Int :=
  (Matcher.search (key.pattern config) text).map (moneyToCents config)

def lineItem (config : GateConfig) (groups : Text × Text) : LineItem :=
  ⟨String.ofList (stripOf isSpace groups.1), moneyToCents config groups.2⟩

def lineItems (config : GateConfig) (text : Text) : List LineItem :=
  (Matcher.findAll (item config) 0 text).map (lineItem config)

/-- `default_extract`. The type is found as triage finds it, in the whole text. -/
def defaultExtract (config : GateConfig) (sourceText : String) : Fields :=
  let text := sourceText.toList
  { docType := some (classifyDocType config.unicode sourceText)
    invoiceNo := field config text .invoiceNo
    invoiceDate := field config text .invoiceDate
    dueDate := field config text .dueDate
    seller := field config text .seller
    buyer := field config text .buyer
    currency := field config text .currency
    totalCents := totalCents config text .total
    subtotalCents := totalCents config text .subtotal
    taxCents := totalCents config text .tax
    iban := field config text .iban
    lineItems := if lineItems config text = [] then none else some (lineItems config text) }

/-! ## Labels and stripped values -/

section Labelled

variable {label w t u : Text} {value : Matcher Char Text}

theorem mem_labelled : (w, u) ∈ labelled label value t ↔
    ∃ space rest, t = label ++ ':' :: (space ++ rest) ∧ (∀ c, c ∈ space → isSpace c = true) ∧ (w, u) ∈ value rest := by
  simp only [labelled, Matcher.mem_bind, Matcher.mem_lit, Matcher.mem_many]
  constructor
  · rintro ⟨_, _, ⟨rfl, rfl⟩, space, rest, ⟨rfl, hspace⟩, hmem⟩
    exact ⟨space, rest, by simp, hspace, hmem⟩
  · rintro ⟨space, rest, rfl, hspace, hmem⟩
    exact ⟨_, space ++ rest, ⟨rfl, by simp⟩, space, rest, ⟨rfl, hspace⟩, hmem⟩

theorem labelled_head? (h : (labelled label value t).head? = some (w, u)) :
    ∃ space rest, t = label ++ ':' :: (space ++ rest) ∧ (∀ c, c ∈ space → isSpace c = true) ∧
      (value rest).head? = some (w, u) := by
  obtain ⟨⟨_, after⟩, hlabel, hafter⟩ := Matcher.head?_bind_mem h
  obtain ⟨⟨space, rest⟩, hmany, hvalue⟩ := Matcher.head?_bind_mem hafter
  obtain ⟨-, rfl⟩ := Matcher.mem_lit.mp hlabel
  obtain ⟨rfl, hspace⟩ := Matcher.mem_many.mp hmany
  exact ⟨space, rest, by simp, hspace, hvalue⟩

/-- What stripping takes away is around what it leaves. -/
theorem stripOf_split (p : Char → Bool) (t : Text) : ∃ a b, t = a ++ (stripOf p t ++ b) ∧ (∀ c, c ∈ a → p c = true) ∧
    (∀ c, c ∈ b → p c = true) ∧ ∀ c, (stripOf p t).head? = some c → p c = false := by
  have hright : (t.dropWhile p).reverse.takeWhile p ++ (t.dropWhile p).reverse.dropWhile p = (t.dropWhile p).reverse :=
    List.takeWhile_append_dropWhile
  have hsplit : t.dropWhile p = stripOf p t ++ ((t.dropWhile p).reverse.takeWhile p).reverse := by
    rw [stripOf, ← List.reverse_append, hright, List.reverse_reverse]
  refine ⟨t.takeWhile p, ((t.dropWhile p).reverse.takeWhile p).reverse, ?_, fun c hc => List.mem_takeWhile_imp hc, ?_, ?_⟩
  · rw [← hsplit, List.takeWhile_append_dropWhile]
  · exact fun c hc => List.mem_takeWhile_imp (List.mem_reverse.mp hc)
  · intro c hc
    have hhead : (t.dropWhile p).head? = some c := by
      rw [hsplit, List.head?_append, hc]
      rfl
    have hnot := List.head?_dropWhile_not p t
    rw [hhead] at hnot
    exact Bool.eq_false_iff.mpr (by simpa using hnot)

/-- Stripping takes what is around, and nothing that starts and ends with a character to keep. -/
theorem stripOf_eq {p : Char → Bool} {a m b : Text} (ha : ∀ c, c ∈ a → p c = true) (hb : ∀ c, c ∈ b → p c = true)
    (hhead : ∀ c, m.head? = some c → p c = false) (hlast : ∀ c, m.getLast? = some c → p c = false) :
    stripOf p (a ++ (m ++ b)) = m := by
  have hkept : ∀ l : Text, (∀ c, l.head? = some c → p c = false) → l.dropWhile p = l := by
    intro l hl
    cases l with
    | nil => rfl
    | cons c l => rw [List.dropWhile_cons_of_neg (by rw [hl c rfl]; exact Bool.false_ne_true)]
  unfold stripOf
  rw [List.dropWhile_append_of_pos ha]
  by_cases hm : m = []
  · subst hm
    rw [List.nil_append, List.dropWhile_eq_nil_iff.mpr hb]
    rfl
  · have hmb : ∀ c, (m ++ b).head? = some c → p c = false := by
      intro c hc
      rw [List.head?_append_of_ne_nil _ hm] at hc
      exact hhead c hc
    have hmr : ∀ c, m.reverse.head? = some c → p c = false := by
      intro c hc
      rw [List.head?_reverse] at hc
      exact hlast c hc
    rw [hkept _ hmb, List.reverse_append, List.dropWhile_append_of_pos (fun c hc => hb c (List.mem_reverse.mp hc)),
      hkept _ hmr, List.reverse_reverse]

end Labelled

end DocPipeline.DeterministicExtractor

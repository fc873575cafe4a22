import DocPipeline.Lib.Places
import DocPipeline.Stages.Amount
import DocPipeline.Schedule

/-!
# Does each label speak for its own line?

A text of labelled lines, and what each pattern reads on the line of its label alone. A
value that is not blank keeps a pattern on its line; a blank one lets `\s*` go on to the
next. Nothing keeps a label from matching inside another label or inside a value. The
backend reads every label from its own line exactly when no such place has a match.
-/
namespace DocPipeline.Audit

set_option autoImplicit false

open DeterministicExtractor LlmClient Lib Matcher

/-- A line `<label>:<value>`; the blank after the colon is part of the value. -/
structure Line where
  label : Text
  value : Text
  label_line : '\n' ∉ label
  label_colon : ':' ∉ label
  value_line : '\n' ∉ value

namespace Line

def text (line : Line) : Text := line.label ++ ':' :: line.value

def blank (line : Line) : Bool := line.value.all isSpace

end Line

/-- The lines below a line. -/
def below : List Line → Text
  | [] => []
  | line :: lines => '\n' :: (line.text ++ below lines)

def textOf : List Line → Text
  | [] => []
  | line :: lines => line.text ++ below lines

/-- What a pattern reads on the line of its label alone, and nothing where the value is blank;
`before` is what stands before the lines. -/
def ownMatch {β : Type} (m : Matcher Char β) (label : Text) : Text → List Line → Option (Text × β × Text)
  | _, [] => none
  | before, line :: lines =>
    if line.label = label then
      if line.blank then none else (m line.text).head?.map fun r => (before, r.1, r.2 ++ below lines)
    else ownMatch m label (before ++ (line.text ++ ['\n'])) lines

/-- The lines of items that are well formed alone, in order. -/
def ownItems (config : GateConfig) : Text → List Line → List (Text × (Text × Text) × Text)
  | _, [] => []
  | before, line :: lines =>
    (if line.label = itemLabel then
      (item config line.text).head?.map fun r => (before, r.1, r.2 ++ below lines) else none).toList ++
      ownItems config (before ++ (line.text ++ ['\n'])) lines

def ownField (config : GateConfig) (lines : List Line) (key : Key) : Option String :=
  (ownMatch (key.pattern config) key.label [] lines).map fun r => String.ofList (stripOf isSpace r.2.1)

def ownTotal (config : GateConfig) (lines : List Line) (key : Total) : Option Int :=
  (ownMatch (key.pattern config) key.label [] lines).map fun r => moneyToCents config r.2.1

def ownLineItems (config : GateConfig) (lines : List Line) : List LineItem :=
  (ownItems config [] lines).map fun r => lineItem config r.2.1

/-- What the lines say, each for its label. -/
def ownFields (config : GateConfig) (lines : List Line) : Fields where
  docType := some (classifyDocType config.unicode (String.ofList (textOf lines)))
  invoiceNo := ownField config lines .invoiceNo
  invoiceDate := ownField config lines .invoiceDate
  dueDate := ownField config lines .dueDate
  seller := ownField config lines .seller
  buyer := ownField config lines .buyer
  currency := ownField config lines .currency
  totalCents := ownTotal config lines .total
  subtotalCents := ownTotal config lines .subtotal
  taxCents := ownTotal config lines .tax
  iban := ownField config lines .iban
  lineItems := if ownLineItems config lines = [] then none else some (ownLineItems config lines)

/-- Every label is read from its own line, and the items from theirs in order. -/
structure OwnLines (config : GateConfig) (lines : List Line) : Prop where
  keys : ∀ key : Key, find (key.pattern config) (textOf lines) = ownMatch (key.pattern config) key.label [] lines
  totals : ∀ key : Total, find (key.pattern config) (textOf lines) = ownMatch (key.pattern config) key.label [] lines
  items : findAllAt (item config) 0 [] (textOf lines) = ownItems config [] lines
  extracted : defaultExtract config (String.ofList (textOf lines)) = ownFields config lines

/-- No pattern matches before what it reads on its own line, or at all where it reads nothing
there; and the one for items prefers what it reads on each well-formed line, and matches nowhere else. -/
structure Unambiguous (config : GateConfig) (lines : List Line) : Prop where
  keys : ∀ key : Key, NotBefore (key.pattern config) (textOf lines) (ownMatch (key.pattern config) key.label [] lines)
  totals : ∀ key : Total, NotBefore (key.pattern config) (textOf lines) (ownMatch (key.pattern config) key.label [] lines)
  items : OnlyAt (item config) [] (textOf lines) (ownItems config [] lines)

section Lines

variable {config : GateConfig} {lines : List Line} {before after : Text} {line : Line} {label : Text} {β : Type}

theorem stops_below (lines : List Line) : Stops '\n' (below lines) := by
  intro c hc
  cases lines with
  | nil => cases hc
  | cons line lines => exact (Option.some.inj hc).symm

theorem textOf_cons (line : Line) (lines : List Line) : textOf (line :: lines) = line.text ++ below lines := rfl

theorem below_eq (hne : lines ≠ []) : below lines = '\n' :: textOf lines := by
  cases lines with
  | nil => exact absurd rfl hne
  | cons line lines => rfl

/-- On the line of its label a pattern has the ways it has there alone, unless the value is blank. -/
def Bounded (m : Matcher Char β) (label : Text) : Prop :=
  ∀ line : Line, line.label = label → line.blank = false → ∀ after, Stops '\n' after → Extends m line.text after

theorem bounded_of_local {k : Text → Matcher Char β} (hk : ∀ space, Local '\n' (k space)) :
    Bounded (do let _ ← lit (label ++ [':']); let space ← many isSpace; k space) label := by
  intro line hlabel hblank after hafter
  have hsome : ∃ c, c ∈ line.value ∧ isSpace c = false := by
    by_contra hnone
    simp only [not_exists, not_and, Bool.not_eq_false] at hnone
    rw [Line.blank, List.all_eq_true.mpr hnone] at hblank
    cases hblank
  have hstart : ∀ rest : Text, line.label ++ ':' :: rest = (label ++ [':']) ++ rest := by
    intro rest
    rw [hlabel, List.append_assoc]
    rfl
  have hvalue : Extends (many isSpace >>= k) line.value after :=
    (extends_many (Or.inl hsome)).bind fun r _ => hk r.1 r.2 after hafter
  unfold Extends at hvalue ⊢
  rw [Line.text, List.append_assoc, List.cons_append, hstart, hstart]
  change (lit (label ++ [':']) >>= fun _ => many isSpace >>= k) _ =
    List.map _ ((lit (label ++ [':']) >>= fun _ => many isSpace >>= k) _)
  rw [lit_bind, lit_bind]
  exact hvalue

theorem local_number (h : config.decimal '\n' = none) : Local '\n' (number config) := by
  have hdigit : isDecimal config '\n' = false := by rw [isDecimal, h]; rfl
  have hwhole : Local '\n' (many1 fun c => isDecimal config c || c = ',') := Local.many1 (by rw [hdigit]; rfl)
  exact hwhole.bind fun _ => (Local.lit (by decide)).bind fun _ =>
    (Local.exactly hdigit 2).bind fun _ => Local.pure _

theorem bounded_total (h : config.decimal '\n' = none) (key : Total) : Bounded (key.pattern config) key.label := by
  refine bounded_of_local fun space => Local.bind ?_ fun _ => Local.pure _
  exact (Local.lit (by decide)).opt.bind fun _ => (Local.lit (by decide)).opt.bind fun _ =>
    (Local.lit (by decide)).opt.bind fun _ => (local_number h).bind fun _ =>
      (Local.lit (by decide)).opt.bind fun _ => Local.pure _

theorem local_date (h : config.decimal '\n' = none) : Local '\n' (date config) := by
  have hdigit : isDecimal config '\n' = false := by rw [isDecimal, h]; rfl
  exact (Local.exactly hdigit 4).bind fun _ => (Local.lit (by decide)).bind fun _ =>
    (Local.exactly hdigit 2).bind fun _ => (Local.lit (by decide)).bind fun _ =>
      (Local.exactly hdigit 2).bind fun _ => Local.pure _

theorem bounded_key (h : config.decimal '\n' = none) (key : Key) : Bounded (key.pattern config) key.label := by
  refine bounded_of_local fun _ => ?_
  cases key with
  | invoiceNo => exact Local.many1 rfl
  | invoiceDate => exact local_date h
  | dueDate => exact local_date h
  | seller => exact Local.many1 rfl
  | buyer => exact Local.many1 rfl
  | currency => exact Local.exactly rfl 3
  | iban => exact Local.many1 rfl

/-- What is read on the own line alone is preferred there in the text. -/
theorem ownMatch_way {m : Matcher Char β} (hm : Bounded m label) {a u : Text} {b : β}
    (h : ownMatch m label before lines = some (a, b, u)) :
    ∃ x t', a = before ++ x ∧ textOf lines = x ++ t' ∧ (m t').head? = some (b, u) := by
  induction lines generalizing before with
  | nil => cases h
  | cons line lines ih =>
    rw [ownMatch] at h
    split at h
    · next hlabel =>
      split at h
      · cases h
      · next hblank =>
        obtain ⟨r, hr, he⟩ := Option.map_eq_some_iff.mp h
        cases he
        refine ⟨[], line.text ++ below lines, (List.append_nil _).symm, rfl, ?_⟩
        rw [hm line hlabel (Bool.eq_false_iff.mpr hblank) _ (stops_below lines), List.head?_map, hr]
        rfl
    · obtain ⟨x, t', ha, ht, hhead⟩ := ih h
      have hne : lines ≠ [] := by
        rintro rfl
        cases h
      refine ⟨line.text ++ ['\n'] ++ x, t', by rw [ha]; simp only [List.append_assoc], ?_, hhead⟩
      rw [textOf_cons, below_eq hne, ht]
      simp

theorem find_own_iff {m : Matcher Char β} (hm : Bounded m label) :
    find m (textOf lines) = ownMatch m label [] lines ↔ NotBefore m (textOf lines) (ownMatch m label [] lines) := by
  refine find_eq_iff fun a b u h => ?_
  obtain ⟨x, t', rfl, ht, hhead⟩ := ownMatch_way hm h
  exact ⟨t', ht, hhead⟩

theorem proper_item {t u : Text} {groups : Text × Text} (h : (groups, u) ∈ item config t) :
    ∃ w, w ≠ [] ∧ t = w ++ u := by
  simp only [item, Matcher.mem_bind, Matcher.mem_lit, Matcher.mem_many, Matcher.mem_few1, mem_opt_lit, mem_number,
    Matcher.mem_pure] at h
  obtain ⟨_, _, ⟨rfl, rfl⟩, space, _, ⟨rfl, -⟩, description, _, ⟨rfl, -⟩, space', _, ⟨rfl, -⟩, _, _, ⟨rfl, rfl⟩,
    space'', _, ⟨rfl, -⟩, _, _, ⟨dollar, rfl, rfl⟩, _, _, ⟨minus, rfl, rfl⟩, _, _, ⟨whole, cents, rfl, rfl, -⟩, -, rfl⟩ := h
  refine ⟨itemLabel ++ ':' :: (space ++ (description ++ (space' ++ '|' :: (space'' ++ (mark dollar '$' ++
    (mark minus '-' ++ (whole ++ '.' :: cents))))))), ?_, ?_⟩
  · exact List.append_ne_nil_of_right_ne_nil _ (List.cons_ne_nil _ _)
  · simp

/-- The readings of the items lie in their lines. -/
theorem laid_ownItems (before : Text) (lines : List Line) : Laid before (textOf lines) (ownItems config before lines) := by
  induction lines generalizing before with
  | nil => exact .nil
  | cons line lines ih =>
    have hrest : Laid (before ++ line.text) (below lines) (ownItems config (before ++ (line.text ++ ['\n'])) lines) := by
      by_cases hne : lines = []
      · subst hne
        exact .nil
      · rw [below_eq hne]
        have hlines := ih (before ++ (line.text ++ ['\n']))
        rw [← List.append_assoc] at hlines ⊢
        exact hlines.prepend
    rw [textOf_cons, ownItems]
    cases hown : (if line.label = itemLabel then
        (item config line.text).head?.map fun r => (before, r.1, r.2 ++ below lines) else none) with
    | none => exact hrest.prepend
    | some r =>
      have hread : ∃ groups u, (item config line.text).head? = some (groups, u) ∧ r = (before, groups, u ++ below lines) := by
        split at hown
        · obtain ⟨q, hq, he⟩ := Option.map_eq_some_iff.mp hown
          exact ⟨q.1, q.2, hq, he.symm⟩
        · cases hown
      obtain ⟨groups, u, hhead, rfl⟩ := hread
      obtain ⟨w, hw, ht⟩ := proper_item (List.mem_of_head? hhead)
      rw [ht] at hrest ⊢
      rw [← List.append_assoc] at hrest
      have hlater := hrest.prepend
      rw [← List.append_nil before] at hlater
      have hcons := Laid.cons (b := groups) hw hlater
      rw [List.append_nil, List.nil_append, ← List.append_assoc] at hcons
      exact hcons

theorem extracted_of_own
    (hkeys : ∀ key : Key, find (key.pattern config) (textOf lines) = ownMatch (key.pattern config) key.label [] lines)
    (htotals : ∀ key : Total, find (key.pattern config) (textOf lines) = ownMatch (key.pattern config) key.label [] lines)
    (hitems : findAllAt (item config) 0 [] (textOf lines) = ownItems config [] lines) :
    defaultExtract config (String.ofList (textOf lines)) = ownFields config lines := by
  have hfield : ∀ key, field config (textOf lines) key = ownField config lines key := by
    intro key
    rw [field, ownField, Matcher.search_eq_find, hkeys key, Option.map_map]
    rfl
  have htotal : ∀ key, totalCents config (textOf lines) key = ownTotal config lines key := by
    intro key
    rw [totalCents, ownTotal, Matcher.search_eq_find, htotals key, Option.map_map]
    rfl
  have hlineItems : lineItems config (textOf lines) = ownLineItems config lines := by
    rw [lineItems, ownLineItems, Matcher.findAll_eq_map 0 [], hitems, List.map_map]
    rfl
  unfold defaultExtract ownFields
  simp only [String.toList_ofList, hfield, htotal, hlineItems]

/-- The backend reads every label from its own line exactly when no pattern matches elsewhere. -/
theorem own_lines_iff (h : config.decimal '\n' = none) (lines : List Line) :
    OwnLines config lines ↔ Unambiguous config lines := by
  have hitems : findAllAt (item config) 0 [] (textOf lines) = ownItems config [] lines ↔
      OnlyAt (item config) [] (textOf lines) (ownItems config [] lines) :=
    findAllAt_eq_iff (fun _ _ _ hmem => proper_item hmem) (laid_ownItems [] lines)
  constructor
  · intro hown
    exact ⟨fun key => (find_own_iff (bounded_key h key)).mp (hown.keys key),
      fun key => (find_own_iff (bounded_total h key)).mp (hown.totals key), hitems.mp hown.items⟩
  · intro hclear
    have hkeys := fun key => (find_own_iff (bounded_key h key)).mpr (hclear.keys key)
    have htotals := fun key => (find_own_iff (bounded_total h key)).mpr (hclear.totals key)
    have hall := hitems.mpr hclear.items
    exact ⟨hkeys, htotals, hall, extracted_of_own hkeys htotals hall⟩

/-- A blank seller above a buyer. -/
def blankSeller : List Line :=
  [⟨"Seller".toList, [], by decide, by decide, by decide⟩, ⟨"Buyer".toList, " Bob".toList, by decide, by decide, by decide⟩]

/-- A currency in a note above the line of the currency. -/
def notedCurrency : List Line :=
  [⟨"Note".toList, " Currency: USD no more".toList, by decide, by decide, by decide⟩,
    ⟨"Currency".toList, " EUR".toList, by decide, by decide, by decide⟩]

/-- A seller above a buyer. -/
def namedParties : List Line :=
  [⟨"Seller".toList, " Acme".toList, by decide, by decide, by decide⟩,
    ⟨"Buyer".toList, " Bob".toList, by decide, by decide, by decide⟩]

theorem parties_unambiguous_unless_blank :
    Unambiguous .defaults namedParties ∧ ¬ Unambiguous .defaults blankSeller := by
  constructor
  · refine (own_lines_iff rfl namedParties).mp ⟨fun key => ?_, fun key => ?_, ?_, ?_⟩
    · cases key <;> decide +kernel
    · cases key <;> decide +kernel
    · decide +kernel
    · decide +kernel
  · intro hclear
    have hown := ((own_lines_iff rfl blankSeller).mpr hclear).keys .seller
    exact absurd hown (by decide +kernel)

/-- The blank seller takes the line below it, and the currency is taken from the note. -/
theorem line_below_read :
    (defaultExtract .defaults (String.ofList (textOf blankSeller))).seller = some "Buyer: Bob" ∧
    (ownFields .defaults blankSeller).seller = none ∧
    (defaultExtract .defaults (String.ofList (textOf notedCurrency))).currency = some "USD" ∧
    (ownFields .defaults notedCurrency).currency = some "EUR" ∧
    ¬ ∀ lines, OwnLines .defaults lines := by
  refine ⟨by decide +kernel, by decide +kernel, by decide +kernel, by decide +kernel, fun hall => ?_⟩
  exact absurd ((hall blankSeller).keys .seller) (by decide +kernel)

end Lines

end DocPipeline.Audit

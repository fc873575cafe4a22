import Mathlib.Data.List.Basic

/-!
# Lower case as Python has it

Every character has its lower case, of one or more characters, wherever it stands, but for
the capital sigma: at the end of a word it becomes the final one. What ends a word is found
past the characters that case ignores, such as a colon.
-/
namespace DocPipeline

set_option autoImplicit false

/-- The tables of Unicode that `str.lower` reads. -/
structure CaseTables where
  lowerChar : Char → List Char
  cased : Char → Bool
  caseIgnorable : Char → Bool

namespace CaseTables

variable (tables : CaseTables)

/-- The first character that case does not ignore is a cased one. -/
def meetsCased (text : List Char) : Bool := (text.dropWhile tables.caseIgnorable).head?.any tables.cased

/-- `handle_capital_sigma`; `before` is what stands before, from right to left. -/
def sigma (before after : List Char) : Char :=
  if tables.meetsCased before && !tables.meetsCased after then 'ς' else 'σ'

def lowerAt (before : List Char) (c : Char) (after : List Char) : List Char :=
  if c = 'Σ' then [tables.sigma before after] else tables.lowerChar c

/-- The lower case of a part of a text. -/
def lowerIn (tables : CaseTables) : List Char → List Char → List Char → List Char
  | _, [], _ => []
  | before, c :: part, after => tables.lowerAt before c (part ++ after) ++ lowerIn tables (c :: before) part after

/-- `str.lower`. -/
def lower (text : String) : String := String.ofList (tables.lowerIn [] text.toList [])

variable {tables} {before part after : List Char} {c : Char}

theorem lowerIn_append (a b : List Char) : tables.lowerIn before (a ++ b) after =
    tables.lowerIn before a (b ++ after) ++ tables.lowerIn (a.reverse ++ before) b after := by
  induction a generalizing before with
  | nil => rfl
  | cons c a ih =>
    rw [List.cons_append, lowerIn, lowerIn, ih, List.append_assoc, List.append_assoc, List.reverse_cons,
      List.append_assoc]
    rfl

theorem meetsCased_append (a b : List Char) (h : ∃ c, c ∈ a ∧ tables.caseIgnorable c = false) :
    tables.meetsCased (a ++ b) = tables.meetsCased a := by
  induction a with
  | nil =>
    obtain ⟨_, hmem, _⟩ := h
    cases hmem
  | cons c a ih =>
    unfold meetsCased at ih ⊢
    rw [List.cons_append, List.dropWhile_cons, List.dropWhile_cons]
    split
    · next hc =>
      obtain ⟨d, hmem, hd⟩ := h
      refine ih ⟨d, (List.mem_cons.mp hmem).resolve_left ?_, hd⟩
      rintro rfl
      rw [hc] at hd
      cases hd
    · rfl

theorem meetsCased_skip (a b : List Char) (h : ∀ c, c ∈ a → tables.caseIgnorable c = true) :
    tables.meetsCased (a ++ b) = tables.meetsCased b := by
  unfold meetsCased
  rw [List.dropWhile_append_of_pos h]

/-- Two texts that meet the same go on to meet the same behind any other. -/
theorem meetsCased_congr (a : List Char) {b b' : List Char} (h : tables.meetsCased b = tables.meetsCased b') :
    tables.meetsCased (a ++ b) = tables.meetsCased (a ++ b') := by
  by_cases hall : ∀ c, c ∈ a → tables.caseIgnorable c = true
  · rw [meetsCased_skip a b hall, meetsCased_skip a b' hall, h]
  · have hsome : ∃ c, c ∈ a ∧ tables.caseIgnorable c = false := by simpa using hall
    rw [meetsCased_append a b hsome, meetsCased_append a b' hsome]

/-- The lower case of a part depends on what stands around it only through what it meets. -/
theorem lowerIn_congr {before' after' : List Char} (hbefore : tables.meetsCased before = tables.meetsCased before')
    (hafter : tables.meetsCased after = tables.meetsCased after') :
    tables.lowerIn before part after = tables.lowerIn before' part after' := by
  induction part generalizing before before' with
  | nil => rfl
  | cons c part ih =>
    have hsigma : tables.sigma before (part ++ after) = tables.sigma before' (part ++ after') := by
      rw [sigma, sigma, hbefore, meetsCased_congr part hafter]
    have hrest : tables.lowerIn (c :: before) part after = tables.lowerIn (c :: before') part after' :=
      ih (meetsCased_congr [c] hbefore)
    rw [lowerIn, lowerIn, lowerAt, lowerAt, hsigma, hrest]

/-- A part without capital sigma has one lower case. -/
theorem lowerIn_plain (h : 'Σ' ∉ part) : tables.lowerIn before part after = part.flatMap tables.lowerChar := by
  induction part generalizing before with
  | nil => rfl
  | cons c part ih =>
    rw [List.mem_cons, not_or] at h
    rw [lowerIn, lowerAt, if_neg (Ne.symm h.1), ih h.2, List.flatMap_cons]

theorem length_lowerIn (before' after' : List Char) :
    (tables.lowerIn before part after).length = (tables.lowerIn before' part after').length := by
  induction part generalizing before before' with
  | nil => rfl
  | cons c part ih =>
    have hat : (tables.lowerAt before c (part ++ after)).length = (tables.lowerAt before' c (part ++ after')).length := by
      unfold lowerAt
      split <;> rfl
    rw [lowerIn, lowerIn, List.length_append, List.length_append, hat, ih]

/-- The part starts, past what case ignores, with a capital sigma that ends a word. -/
def SigmaFirst (tables : CaseTables) (part : List Char) : Prop :=
  ∃ ignored rest, part = ignored ++ 'Σ' :: rest ∧ (∀ c, c ∈ ignored → tables.caseIgnorable c = true) ∧
    tables.meetsCased rest = false

/-- Behind a cased character a part has another lower case than alone exactly when it starts so. -/
theorem lowerIn_ne_iff (hsigma : tables.caseIgnorable 'Σ' = false) (hbefore : tables.meetsCased before = true)
    (hafter : tables.meetsCased after = false) :
    tables.lowerIn before part after ≠ tables.lowerIn [] part [] ↔ SigmaFirst tables part := by
  induction part generalizing before with
  | nil =>
    refine iff_of_false (fun h => h rfl) ?_
    rintro ⟨ignored, rest, he, _⟩
    simp at he
  | cons c part ih =>
    have hrest : tables.meetsCased (part ++ after) = tables.meetsCased part := by
      have hsame : tables.meetsCased after = tables.meetsCased [] := hafter
      rw [meetsCased_congr part hsame, List.append_nil]
    rw [lowerIn, lowerIn, List.append_nil]
    by_cases hc : tables.caseIgnorable c = true
    · have hne : c ≠ 'Σ' := by
        rintro rfl
        rw [hsigma] at hc
        cases hc
      have hpast : ∀ before, tables.meetsCased (c :: before) = tables.meetsCased before :=
        fun before => meetsCased_skip [c] before fun d hd => by rwa [List.mem_singleton.mp hd]
      have hfirst : ∀ before, tables.lowerAt before c (part ++ after) = tables.lowerAt [] c part := by
        intro before
        rw [lowerAt, lowerAt, if_neg hne, if_neg hne]
      have hstep : SigmaFirst tables (c :: part) ↔ SigmaFirst tables part := by
        constructor
        · rintro ⟨ignored, rest, he, hall, hmeets⟩
          cases ignored with
          | nil => exact absurd (List.cons.inj he).1 hne
          | cons d ignored =>
            exact ⟨ignored, rest, (List.cons.inj he).2, fun e he => hall e (List.mem_cons_of_mem _ he), hmeets⟩
        · rintro ⟨ignored, rest, rfl, hall, hmeets⟩
          exact ⟨c :: ignored, rest, rfl, fun d hd => (List.mem_cons.mp hd).elim (fun he => he ▸ hc) (hall d), hmeets⟩
      rw [hfirst before, ne_eq, List.append_cancel_left_eq, lowerIn_congr (hpast []) rfl, hstep]
      exact ih ((hpast before).trans hbefore)
    · have hmeets : ∀ before, tables.meetsCased (c :: before) = tables.meetsCased [c] := by
        intro before
        exact meetsCased_append [c] before ⟨c, List.mem_singleton_self c, by simpa using hc⟩
      have hsame : tables.lowerIn (c :: before) part after = tables.lowerIn [c] part [] :=
        lowerIn_congr (hmeets before) hafter
      rw [hsame, ne_eq, List.append_cancel_right_eq]
      by_cases he : c = 'Σ'
      · subst he
        have hstarts : SigmaFirst tables ('Σ' :: part) ↔ tables.meetsCased part = false := by
          constructor
          · rintro ⟨ignored, rest, he, hall, hmeets⟩
            cases ignored with
            | nil => rwa [(List.cons.inj he).2]
            | cons d ignored =>
              have hd := hall d List.mem_cons_self
              rw [← (List.cons.inj he).1, hsigma] at hd
              cases hd
          · exact fun hmeets => ⟨[], part, rfl, nofun, hmeets⟩
        have hnil : tables.meetsCased [] = false := rfl
        rw [hstarts, lowerAt, lowerAt, if_pos rfl, if_pos rfl, sigma, sigma, hbefore, hrest, hnil]
        cases tables.meetsCased part <;> simp
      · rw [lowerAt, lowerAt, if_neg he, if_neg he]
        refine iff_of_false (fun h => h rfl) ?_
        rintro ⟨ignored, rest, hstart, hall, _⟩
        cases ignored with
        | nil => exact he (List.cons.inj hstart).1
        | cons d ignored =>
          have hd := hall d List.mem_cons_self
          rw [← (List.cons.inj hstart).1] at hd
          exact hc hd

end CaseTables
end DocPipeline

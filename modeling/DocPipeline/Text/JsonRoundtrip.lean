import DocPipeline.Text.Json
import Mathlib.Data.Nat.Digits.Lemmas
import Mathlib.Tactic.IntervalCases

/-!
# What dumps prints is read back

Each reader is run on what the printer gives, followed by a rest. A numeral needs a rest
that does not go on with it; strings, lists and dictionaries end by themselves.
-/
namespace DocPipeline

set_option autoImplicit false

/-! ## Numbers -/

namespace Numeral

/-- A text that no number goes on with. -/
def Stops (t : Text) : Prop := ∀ c u, t = c :: u → c.isDigit = false ∧ c ≠ '.' ∧ c ≠ 'e' ∧ c ≠ 'E'

def NoDigit (t : Text) : Prop := ∀ c u, t = c :: u → c.isDigit = false

theorem Stops.noDigit {t : Text} (h : Stops t) : NoDigit t := fun c u he => (h c u he).1

theorem noDigit_cons {c : Char} {t : Text} (h : c.isDigit = false) : NoDigit (c :: t) := by
  intro d u he
  rwa [← (List.cons.inj he).1]

theorem isDigit_digitChar {d : Nat} (h : d < 10) : (Nat.digitChar d).isDigit = true := by
  rw [Nat.isDigit_digitChar, decide_eq_true h]

theorem readDigits_text {ds : List Nat} {rest : Text} (hds : ∀ d, d ∈ ds → d < 10) (hrest : NoDigit rest) :
    readDigits (digitsText ds ++ rest) = (ds, rest) := by
  have hall : ∀ c, c ∈ digitsText ds → c.isDigit = true := by
    intro c hc
    obtain ⟨d, hd, rfl⟩ := List.mem_map.mp hc
    exact isDigit_digitChar (hds d hd)
  have hstop : rest.takeWhile Char.isDigit = [] ∧ rest.dropWhile Char.isDigit = rest := by
    cases rest with
    | nil => exact ⟨rfl, rfl⟩
    | cons c u => simp [hrest c u rfl]
  have hback : (digitsText ds).map (fun c => c.toNat - '0'.toNat) = ds := by
    rw [digitsText, List.map_map]
    exact (List.map_congr_left fun d hd => Nat.toNat_digitChar_sub_48_of_lt_ten (hds d hd)).trans (List.map_id ds)
  rw [readDigits, List.takeWhile_append_of_pos hall, List.dropWhile_append_of_pos hall, hstop.1, hstop.2,
    List.append_nil, hback]

theorem digitsText_cons (d : Nat) (ds : List Nat) : digitsText (d :: ds) = Nat.digitChar d :: digitsText ds := rfl

theorem readWhole_text {whole : List Nat} {rest : Text} (hds : ∀ d, d ∈ whole → d < 10)
    (hhead : whole = [0] ∨ ∃ d ds, whole = d :: ds ∧ d ≠ 0) (hrest : NoDigit rest) :
    readWhole (digitsText whole ++ rest) = some (whole, rest) := by
  rcases hhead with rfl | ⟨d, ds, rfl, hd⟩
  · rfl
  · have hread : readDigits (Nat.digitChar d :: (digitsText ds ++ rest)) = (d :: ds, rest) := readDigits_text hds hrest
    have hzero : Nat.digitChar d ≠ '0' := fun he => hd (Nat.digitChar_eq_zero.mp he)
    rw [digitsText_cons, List.cons_append, readWhole, hread]
    intro t he
    exact hzero (List.cons.inj he).1

theorem readFraction_text {fraction : List Nat} {rest : Text} (hds : ∀ d, d ∈ fraction → d < 10) (hrest : NoDigit rest)
    (hpoint : ∀ t, rest ≠ '.' :: t) : readFraction (fractionText fraction ++ rest) = (fraction, rest) := by
  cases fraction with
  | nil =>
    rw [fractionText, List.nil_append, readFraction]
    exact hpoint
  | cons d ds =>
    rw [fractionText, List.cons_append, readFraction, readDigits_text hds hrest]

theorem readExponent_text {exponent : Option (Bool × List Nat)} {rest : Text}
    (hds : ∀ negative ds, exponent = some (negative, ds) → ds ≠ [] ∧ ∀ d, d ∈ ds → d < 10) (hrest : Stops rest) :
    readExponent (exponentText exponent ++ rest) = (exponent, rest) := by
  match exponent, hds with
  | none, _ =>
    cases rest with
    | nil => rfl
    | cons c u =>
      have ⟨_, _, he, hE⟩ := hrest c u rfl
      rw [exponentText, List.nil_append, readExponent, if_neg (not_or.mpr ⟨he, hE⟩)]
  | some (negative, ds), hds =>
    have ⟨hne, hlt⟩ := hds negative ds rfl
    have hsign : readSign ((if negative then '-' else '+') :: (digitsText ds ++ rest)) = (negative, digitsText ds ++ rest) := by
      cases negative <;> rfl
    obtain ⟨d, ds, rfl⟩ := List.exists_cons_of_ne_nil hne
    rw [exponentText, List.cons_append, List.cons_append, readExponent, if_pos (Or.inl rfl), hsign,
      readDigits_text hlt hrest.noDigit]

theorem stops_fraction {fraction : List Nat} {rest : Text} (hrest : NoDigit rest) :
    NoDigit (fractionText fraction ++ rest) := by
  cases fraction with
  | nil => exact hrest
  | cons d ds => exact noDigit_cons rfl

theorem stops_exponent (exponent : Option (Bool × List Nat)) {rest : Text} (hrest : Stops rest) :
    NoDigit (exponentText exponent ++ rest) ∧ ∀ t, exponentText exponent ++ rest ≠ '.' :: t := by
  match exponent with
  | none => exact ⟨hrest.noDigit, fun t he => (hrest _ t he).2.1 rfl⟩
  | some (negative, ds) =>
    refine ⟨noDigit_cons rfl, fun t he => ?_⟩
    have he : 'e' = '.' := (List.cons.inj he).1
    exact absurd he (by decide)

theorem Wf.head {n : Numeral} (h : n.Wf) : ∃ d ds, n.whole = d :: ds ∧ d < 10 := by
  rcases h.whole_head with hw | ⟨d, ds, hw, -⟩
  · exact ⟨0, [], hw, by decide⟩
  · exact ⟨d, ds, hw, h.whole_digits d (hw ▸ List.mem_cons_self)⟩

theorem text_head {n : Numeral} (h : n.Wf) :
    ∃ d u, d < 10 ∧ (n.text = Nat.digitChar d :: u ∨ n.text = '-' :: Nat.digitChar d :: u) := by
  obtain ⟨d, ds, hw, hd⟩ := h.head
  refine ⟨d, digitsText ds ++ fractionText n.fraction ++ exponentText n.exponent, hd, ?_⟩
  rw [text, hw]
  cases n.negative with
  | false => exact Or.inl rfl
  | true => exact Or.inr rfl

theorem readUnsigned_text {n : Numeral} {rest : Text} (h : n.Wf) (hrest : Stops rest) :
    readUnsigned n.negative (digitsText n.whole ++ (fractionText n.fraction ++ (exponentText n.exponent ++ rest))) =
      some (n, rest) := by
  have ⟨hexp, hpoint⟩ := stops_exponent n.exponent hrest
  rw [readUnsigned, readWhole_text h.whole_digits h.whole_head (stops_fraction hexp), Option.map_some]
  simp only [readFraction_text h.fraction_digits hexp hpoint, readExponent_text h.exponent_digits hrest]

theorem read_text {n : Numeral} {rest : Text} (h : n.Wf) (hrest : Stops rest) :
    read (n.text ++ rest) = some (n, rest) := by
  have hread := readUnsigned_text h hrest
  rw [text]
  simp only [List.append_assoc]
  cases hneg : n.negative with
  | true =>
    rw [hneg] at hread
    exact hread
  | false =>
    rw [hneg] at hread
    rw [if_neg (by decide), List.nil_append, read, hread]
    intro t he
    obtain ⟨d, ds, hw, hd⟩ := h.head
    rw [hw, digitsText_cons, List.cons_append] at he
    have hdigit := isDigit_digitChar hd
    rw [(List.cons.inj he).1] at hdigit
    exact absurd hdigit (by decide)

theorem ofInt_wf (z : Int) : (ofInt z).Wf where
  whole_digits := by
    intro d hd
    unfold ofInt at hd
    dsimp only at hd
    split at hd
    · rw [List.mem_singleton.mp hd]
      decide
    · exact Nat.digits_lt_base (by decide) (List.mem_reverse.mp hd)
  whole_head := by
    unfold ofInt
    dsimp only
    split
    · exact Or.inl rfl
    · next hz =>
      have hne : Nat.digits 10 z.natAbs ≠ [] := Nat.digits_ne_nil_iff_ne_zero.mpr (Int.natAbs_ne_zero.mpr hz)
      have hlast := Nat.getLast_digit_ne_zero 10 (Int.natAbs_ne_zero.mpr hz)
      refine Or.inr ⟨_, (Nat.digits 10 z.natAbs).dropLast.reverse, ?_, hlast⟩
      calc (Nat.digits 10 z.natAbs).reverse
          = ((Nat.digits 10 z.natAbs).dropLast ++ [(Nat.digits 10 z.natAbs).getLast hne]).reverse := by
            rw [List.dropLast_append_getLast hne]
        _ = _ := List.reverse_concat
  fraction_digits := fun _ hd => nomatch hd
  exponent_digits := fun _ _ he => nomatch he

theorem toInt_ofInt (z : Int) : (ofInt z).toInt = z := by
  have hwhole : (Nat.ofDigits 10 (ofInt z).whole.reverse : Int) = z.natAbs := by
    unfold ofInt
    dsimp only
    split
    · next hz =>
      rw [hz]
      rfl
    · rw [List.reverse_reverse]
      exact (Nat.coe_ofDigits ℤ 10 _).symm.trans (congrArg _ (Nat.ofDigits_digits 10 z.natAbs))
  unfold toInt
  dsimp only
  rw [hwhole]
  change (if decide (z < 0) = true then -(z.natAbs : Int) else z.natAbs) = z
  split
  · next hneg => exact (Int.eq_neg_natAbs_of_nonpos (Int.le_of_lt (of_decide_eq_true hneg))).symm
  · next hneg => exact Int.natAbs_of_nonneg (Int.not_lt.mp fun h => hneg (decide_eq_true h))

end Numeral

namespace Json

/-! ## Strings -/

theorem hexVal_digitChar : ∀ {d : Nat}, d < 16 → hexVal (Nat.digitChar d) = some d := by decide

theorem unit_digits {n : Nat} (h : n < 0x10000) :
    unit (Nat.digitChar (n / 4096 % 16)) (Nat.digitChar (n / 256 % 16)) (Nat.digitChar (n / 16 % 16))
      (Nat.digitChar (n % 16)) = some n := by
  have hlt (m : Nat) : m % 16 < 16 := Nat.mod_lt m (by decide)
  have hsum : n / 4096 % 16 * 4096 + n / 256 % 16 * 256 + n / 16 % 16 * 16 + n % 16 = n := by omega
  simp only [unit, hexVal_digitChar (hlt _), Option.bind_eq_bind, Option.bind_some, hsum]
  rfl

theorem toNat_valid (c : Char) : c.toNat < 0xd800 ∨ (0xdfff < c.toNat ∧ c.toNat < 0x110000) := c.valid

theorem chr_toNat (c : Char) : Point.chr c.toNat = .char c := by
  have hvalid := toNat_valid c
  rw [Point.chr, dif_neg (by omega), Char.ofNat_toNat]

theorem chr_surrogate (n : Fin 0x800) : Point.chr (0xd800 + n) = .surrogate n := by
  rw [Point.chr, dif_pos (by omega)]
  exact congrArg Point.surrogate (Fin.ext (Nat.add_sub_cancel_left 0xd800 n))

/-- A text that does not begin with the escape of a low surrogate. -/
def NoLow (t : Text) : Prop :=
  ∀ e f g h u, t = '\\' :: 'u' :: e :: f :: g :: h :: u → ∃ m, unit e f g h = some m ∧ isLow m = false

theorem readString_unit {n : Nat} {t : Text} (h : n < 0x10000) (ht : isHigh n = true → NoLow t) :
    readString (unitText n ++ t) = onto (.chr n) (readString t) := by
  change readString ('\\' :: 'u' :: _ :: _ :: _ :: _ :: t) = _
  rw [readString, unit_digits h]
  dsimp only
  split
  · next hhigh =>
    split
    · next e f g h' u =>
      obtain ⟨m, hm, hlow⟩ := ht hhigh e f g h' u rfl
      simp only [hm, hlow, Bool.false_eq_true, if_false]
    · rfl
  · rfl

theorem readString_pair {n m : Nat} (t : Text) (hn : n < 0x10000) (hm : m < 0x10000) (hhigh : isHigh n = true)
    (hlow : isLow m = true) :
    readString (unitText n ++ (unitText m ++ t)) =
      onto (.chr (0x10000 + (n - 0xd800) * 0x400 + (m - 0xdc00))) (readString t) := by
  change readString ('\\' :: 'u' :: _ :: _ :: _ :: _ :: '\\' :: 'u' :: _ :: _ :: _ :: _ :: t) = _
  rw [readString, unit_digits hn]
  simp only [hhigh, if_true, unit_digits hm, hlow]

/-- A character that stands for itself. -/
theorem readString_cons {c : Char} (t : Text) (hquote : c ≠ '"') (hback : c ≠ '\\') (h : 0x20 ≤ c.toNat) :
    readString (c :: t) = onto (.char c) (readString t) := by
  rw [readString, if_neg (Nat.not_lt.mpr h)]
  all_goals simp_all

theorem readString_escapeChar (c : Char) (t : Text) : readString (escapeChar c ++ t) = onto (.char c) (readString t) := by
  unfold escapeChar
  split
  · next h => subst h; rfl
  split
  · next h => subst h; rfl
  split
  · next h => subst h; rfl
  split
  · next h => subst h; rfl
  split
  · next h => subst h; rfl
  split
  · next h => subst h; rfl
  split
  · next h => subst h; rfl
  split
  · next hback hquote _ _ _ _ _ h => exact readString_cons t hquote hback h.1
  have hvalid := toNat_valid c
  split
  · next h =>
    have hhigh : isHigh c.toNat = false := by simp [isHigh]; omega
    rw [readString_unit h (fun he => by rw [hhigh] at he; cases he), chr_toNat]
  · next h =>
    rw [List.append_assoc, readString_pair t (by omega) (by omega) (by simp [isHigh]; omega) (by simp [isLow]; omega)]
    have hsum : 0x10000 + (0xd800 + (c.toNat - 0x10000) / 0x400 - 0xd800) * 0x400 +
        (0xdc00 + (c.toNat - 0x10000) % 0x400 - 0xdc00) = c.toNat := by omega
    rw [hsum, chr_toNat]

theorem noLow_of_head {c : Char} {t : Text} (h : c ≠ '\\' ) : NoLow (c :: t) :=
  fun _ _ _ _ _ he => absurd (List.cons.inj he).1 h

theorem noLow_unit {n : Nat} (t : Text) (h : n < 0x10000) (hlow : isLow n = false) : NoLow (unitText n ++ t) := by
  intro e f g h' u he
  have hdigits := unit_digits h
  simp only [unitText, List.cons_append, List.nil_append, List.cons.injEq, true_and] at he
  obtain ⟨rfl, rfl, rfl, rfl, -⟩ := he
  exact ⟨n, hdigits, hlow⟩

theorem noLow_escapeChar (c : Char) (t : Text) : NoLow (escapeChar c ++ t) := by
  have hvalid := toNat_valid c
  have hshort (d : Char) (hd : d ≠ 'u') : NoLow ('\\' :: d :: t) :=
    fun _ _ _ _ _ he => absurd (List.cons.inj (List.cons.inj he).2).1 hd
  unfold escapeChar
  split
  · exact hshort _ (by decide)
  split
  · exact hshort _ (by decide)
  split
  · exact hshort _ (by decide)
  split
  · exact hshort _ (by decide)
  split
  · exact hshort _ (by decide)
  split
  · exact hshort _ (by decide)
  split
  · exact hshort _ (by decide)
  split
  · next hback _ _ _ _ _ _ _ => exact noLow_of_head hback
  split
  · next h => exact noLow_unit t h (by simp [isLow]; omega)
  · rw [List.append_assoc]
    exact noLow_unit _ (by omega) (by simp [isLow]; omega)

theorem noLow_escape {p : Point} (t : Text) (h : p.isLow = false) : NoLow (escape p ++ t) := by
  cases p with
  | char c => exact noLow_escapeChar c t
  | surrogate n =>
    have hn : n.val < 0x400 := by simpa [Point.isLow] using h
    exact noLow_unit t (by omega) (by simp [isLow]; omega)

/-- No high surrogate stands right before a low one. -/
def Unpaired (s : Str) : Prop := s.IsChain fun p q => p.isHigh = true → q.isLow = false

theorem readString_quoted {s : Str} (rest : Text) (hs : Unpaired s) :
    readString (s.flatMap escape ++ '"' :: rest) = .ok (s, rest) := by
  induction s with
  | nil => rfl
  | cons p s ih =>
    have hnext : p.isHigh = true → NoLow (s.flatMap escape ++ '"' :: rest) := by
      intro hhigh
      cases s with
      | nil => exact noLow_of_head (by decide)
      | cons q s =>
        rw [List.flatMap_cons, List.append_assoc]
        exact noLow_escape _ ((List.isChain_cons_cons.mp hs).1 hhigh)
    have htail : readString (s.flatMap escape ++ '"' :: rest) = .ok (s, rest) := ih (List.IsChain.tail hs)
    rw [List.flatMap_cons, List.append_assoc]
    cases p with
    | char c => rw [escape, readString_escapeChar, htail]; rfl
    | surrogate n =>
      have hhigh : isHigh (0xd800 + n) = true → (Point.surrogate n).isHigh = true := by
        simp only [isHigh, Point.isHigh, Bool.and_eq_true, decide_eq_true_eq]
        omega
      rw [escape, readString_unit (by omega) (fun h => hnext (hhigh h)), htail, chr_surrogate]
      rfl

/-! ## Dictionaries -/

variable {F : Type}

theorem setItem_new {key : Str} {v : Json F} {members : List (Str × Json F)} (h : key ∉ members.map Prod.fst) :
    setItem key v members = members ++ [(key, v)] := by
  induction members with
  | nil => rfl
  | cons member members ih =>
    rw [List.map_cons, List.mem_cons, not_or] at h
    rw [setItem, if_neg (Ne.symm h.1), ih h.2, List.cons_append]

theorem foldl_setItem {pairs : List (Str × Json F)} (members : List (Str × Json F))
    (h : ((members ++ pairs).map Prod.fst).Nodup) :
    pairs.foldl (fun members pair => setItem pair.1 pair.2 members) members = members ++ pairs := by
  induction pairs generalizing members with
  | nil => exact (List.append_nil members).symm
  | cons pair pairs ih =>
    have hnew : pair.1 ∉ members.map Prod.fst := by
      rw [List.map_append, List.map_cons] at h
      exact fun hmem => (List.nodup_append.mp h).2.2 _ hmem _ List.mem_cons_self rfl
    rw [List.append_cons] at h
    rw [List.foldl_cons, setItem_new hnew, ih _ h, List.append_assoc, List.singleton_append]

/-- Distinct keys stay as they are. -/
theorem dict_distinct {pairs : List (Str × Json F)} (h : (pairs.map Prod.fst).Nodup) : dict pairs = pairs :=
  foldl_setItem [] h

/-! ## Values -/

/-- What may follow a value inside another. -/
def Delimits (t : Text) : Prop := ∀ c u, t = c :: u → c = ',' ∨ c = ']' ∨ c = '}'

theorem Delimits.stops {t : Text} (h : Delimits t) : Numeral.Stops t := by
  intro c u he
  rcases h c u he with rfl | rfl | rfl <;> decide

theorem delimits_nil : Delimits [] := fun _ _ he => nomatch he

theorem delimits_cons {c : Char} {t : Text} (h : c = ',' ∨ c = ']' ∨ c = '}') : Delimits (c :: t) := by
  intro d u he
  rwa [← (List.cons.inj he).1]

theorem skipBlanks_cons {c : Char} (t : Text) (h : isBlank c = false) : skipBlanks (c :: t) = c :: t :=
  List.dropWhile_cons_of_neg (Bool.not_eq_true _ ▸ h)

section
variable (floats : Floats F)

theorem readValue_digit (fuel : Nat) (t : Text) {d : Nat} (hd : d < 10) :
    readValue floats (fuel + 1) (Nat.digitChar d :: t) =
      match Numeral.read (Nat.digitChar d :: t) with
      | none => .error .expectingValue
      | some (n, u) => (ofNumeral floats n).map fun v => (v, u) := by
  interval_cases d <;> rfl

theorem readValue_minus (fuel : Nat) (t : Text) {d : Nat} (hd : d < 10) :
    readValue floats (fuel + 1) ('-' :: Nat.digitChar d :: t) =
      match Numeral.read ('-' :: Nat.digitChar d :: t) with
      | none => .error .expectingValue
      | some (n, u) => (ofNumeral floats n).map fun v => (v, u) := by
  interval_cases d <;> rfl

theorem readValue_numeral (fuel : Nat) {n : Numeral} {rest : Text} (h : n.Wf) (hrest : Numeral.Stops rest) :
    readValue floats (fuel + 1) (n.text ++ rest) = (ofNumeral floats n).map fun v => (v, rest) := by
  have hread := Numeral.read_text h hrest
  obtain ⟨d, u, hd, he | he⟩ := Numeral.text_head h
  · rw [he, List.cons_append] at hread ⊢
    rw [readValue_digit floats fuel _ hd, hread]
  · rw [he, List.cons_append, List.cons_append] at hread ⊢
    rw [readValue_minus floats fuel _ hd, hread]

theorem ofNumeral_int (n : PyInt) : ofNumeral floats (Numeral.ofInt n.val) = .ok (.int n) := by
  have hback := Numeral.toInt_ofInt n.val
  have hint : (Numeral.ofInt n.val).isInt = true := rfl
  rw [ofNumeral, if_pos hint, dif_pos (hback.symm ▸ n.short)]
  simp only [hback]

theorem readValue_float (fuel : Nat) (x : F) {rest : Text} (hrest : Numeral.Stops rest) :
    readValue floats (fuel + 1) (floatText (floats.repr x) ++ rest) = .ok (.float x, rest) := by
  cases hrepr : floats.repr x with
  | numeral n =>
    have ⟨hwf, hfloat⟩ := floats.repr_wf x n hrepr
    have hback : floats.read (.numeral n) = x := by rw [← hrepr, floats.read_repr]
    rw [floatText, readValue_numeral floats fuel hwf hrest, ofNumeral, if_neg (by rw [hfloat]; decide), hback]
    rfl
  | nan =>
    have hback : floats.read .nan = x := by rw [← hrepr, floats.read_repr]
    rw [← hback]
    rfl
  | infinity negative =>
    have hback : floats.read (.infinity negative) = x := by rw [← hrepr, floats.read_repr]
    rw [← hback]
    cases negative <;> rfl

theorem numeral_head {n : Numeral} (h : n.Wf) : ∃ c u, n.text = c :: u ∧ isBlank c = false ∧ c ≠ ']' := by
  obtain ⟨d, u, hd, he | he⟩ := Numeral.text_head h
  · refine ⟨_, u, he, ?_⟩
    clear he
    interval_cases d <;> decide
  · exact ⟨_, _, he, by decide⟩

theorem dumps_head (v : Json F) : ∃ c u, dumps floats v = c :: u ∧ isBlank c = false ∧ c ≠ ']' := by
  match v with
  | .null | .bool true | .bool false | .str _ | .arr [] | .arr (_ :: _) | .obj [] | .obj (_ :: _) =>
    exact ⟨_, _, rfl, by decide⟩
  | .int n => exact numeral_head (Numeral.ofInt_wf n.val)
  | .float x =>
    rw [dumps]
    cases hrepr : floats.repr x with
    | numeral n => exact numeral_head (floats.repr_wf x n hrepr).1
    | nan => exact ⟨_, _, rfl, by decide⟩
    | infinity negative => cases negative <;> exact ⟨_, _, rfl, by decide⟩

theorem skipBlanks_dumps (v : Json F) (t : Text) : skipBlanks (dumps floats v ++ t) = dumps floats v ++ t := by
  obtain ⟨c, u, he, hblank, -⟩ := dumps_head floats v
  rw [he, List.cons_append, skipBlanks_cons _ hblank]

theorem delimits_items (items : List (Json F)) (t : Text) : Delimits (dumpsItems floats items ++ t) := by
  cases items with
  | nil => exact delimits_cons (by decide)
  | cons v items => exact delimits_cons (by decide)

theorem delimits_members (members : List (Str × Json F)) (t : Text) : Delimits (dumpsMembers floats members ++ t) := by
  cases members with
  | nil => exact delimits_cons (by decide)
  | cons member members => exact delimits_cons (by decide)

theorem quote_append (s : Str) (t : Text) : quote s ++ t = '"' :: (s.flatMap escape ++ '"' :: t) := by
  rw [quote, List.cons_append, List.append_assoc, List.singleton_append]

/-- A list that is not empty is read by its items. -/
theorem readValue_items (fuel : Nat) (v : Json F) (t : Text) :
    readValue floats (fuel + 1) ('[' :: (dumps floats v ++ t)) =
      (readItems floats fuel (dumps floats v ++ t)).map fun r => (.arr r.1, r.2) := by
  have hskip := skipBlanks_dumps floats v t
  obtain ⟨c, u, he, -, hclose⟩ := dumps_head floats v
  rw [he, List.cons_append] at hskip ⊢
  simp only [readValue, hskip]
  split
  · next heq => exact absurd (List.cons.inj heq).1 hclose
  · rfl

/-- A dictionary that is not empty is read by its members. -/
theorem readValue_members (fuel : Nat) (t : Text) :
    readValue floats (fuel + 1) ('{' :: '"' :: t) =
      (readMembers floats fuel ('"' :: t)).map fun r => (.obj (dict r.1), r.2) := by
  simp only [readValue, skipBlanks_cons t (show isBlank '"' = false from rfl)]
  rfl

theorem readItems_step (fuel : Nat) {v : Json F} {t u : Text} (hv : readValue floats fuel t = .ok (v, u)) :
    readItems floats (fuel + 1) t =
      match skipBlanks u with
      | ']' :: u => .ok ([v], u)
      | ',' :: u => (readItems floats fuel (skipBlanks u)).map fun r => (v :: r.1, r.2)
      | _ => .error .expectingComma := by
  rw [readItems, hv]
  rfl

theorem readMembers_step (fuel : Nat) {key : Str} {v : Json F} {t u : Text} (hkey : Unpaired key)
    (hv : readValue floats fuel (skipBlanks t) = .ok (v, u)) :
    readMembers floats (fuel + 1) (quote key ++ ':' :: t) =
      match skipBlanks u with
      | '}' :: u => .ok ([(key, v)], u)
      | ',' :: u => (readMembers floats fuel (skipBlanks u)).map fun r => ((key, v) :: r.1, r.2)
      | _ => .error .expectingComma := by
  rw [quote_append, readMembers, readString_quoted _ hkey]
  change (match skipBlanks (':' :: t) with | _ => _) = _
  rw [skipBlanks_cons t rfl]
  change (readValue floats fuel (skipBlanks t)).bind _ = _
  rw [hv]
  rfl

mutual
theorem readValue_dumps : ∀ (v : Json F) (fuel : Nat) (rest : Text), v.Distinct → (∀ s, s ∈ v.strings → Unpaired s) →
    Delimits rest → 2 * (dumps floats v).length ≤ fuel →
    readValue floats (fuel + 1) (dumps floats v ++ rest) = .ok (v, rest)
  | .null, _, _, _, _, _, _ | .bool true, _, _, _, _, _, _ | .bool false, _, _, _, _, _, _ => rfl
  | .arr [], _, _, _, _, _, _ | .obj [], _, _, _, _, _, _ => rfl
  | .int n, fuel, rest, _, _, hrest, _ => by
    rw [dumps, readValue_numeral floats fuel (Numeral.ofInt_wf n.val) hrest.stops, ofNumeral_int]
    rfl
  | .float x, fuel, rest, _, _, hrest, _ => readValue_float floats fuel x hrest.stops
  | .str s, fuel, rest, _, hs, _, _ => by
    have hread := readString_quoted rest (hs s (List.mem_singleton.mpr rfl))
    rw [dumps, quote_append]
    simp only [readValue, hread]
    rfl
  | .arr (v :: items), fuel, rest, hv, hs, _, hfuel => by
    rw [Distinct] at hv
    rw [dumps, List.length_cons, List.length_append] at hfuel
    obtain ⟨fuel, rfl⟩ : ∃ k, fuel = k + 2 := ⟨fuel - 2, by omega⟩
    have hitems := readItems_dumps v items fuel rest hv hs (by omega)
    rw [dumps, List.cons_append, List.append_assoc, readValue_items, hitems]
    rfl
  | .obj ((key, v) :: members), fuel, rest, hv, hs, _, hfuel => by
    rw [Distinct] at hv
    simp only [dumps, List.length_cons, List.length_append] at hfuel
    obtain ⟨fuel, rfl⟩ : ∃ k, fuel = k + 2 := ⟨fuel - 2, by omega⟩
    have hmembers := readMembers_dumps key v members fuel rest hv.2 hs (by omega)
    rw [quote_append] at hmembers
    simp only [dumps, List.cons_append, List.append_assoc, quote_append]
    rw [readValue_members, hmembers]
    exact congrArg (fun ms => Except.ok (Json.obj ms, rest)) (dict_distinct hv.1)
termination_by v => sizeOf v

theorem readItems_dumps : ∀ (v : Json F) (items : List (Json F)) (fuel : Nat) (rest : Text),
    DistinctItems (v :: items) → (∀ s, s ∈ stringsItems (v :: items) → Unpaired s) →
    2 * ((dumps floats v).length + (dumpsItems floats items).length) ≤ fuel →
    readItems floats (fuel + 2) (dumps floats v ++ (dumpsItems floats items ++ rest)) = .ok (v :: items, rest)
  | v, [], fuel, rest, hv, hs, hfuel => by
    rw [DistinctItems] at hv
    simp only [stringsItems, List.append_nil] at hs
    have hfirst := readValue_dumps v fuel _ hv.1 hs (delimits_items floats [] rest) (by omega)
    rw [readItems_step floats (fuel + 1) hfirst]
    rfl
  | v, w :: items, fuel, rest, hv, hs, hfuel => by
    rw [DistinctItems] at hv
    rw [stringsItems, List.forall_mem_append] at hs
    have hfirst := readValue_dumps v fuel _ hv.1 hs.1 (delimits_items floats (w :: items) rest) (by omega)
    simp only [dumpsItems, List.length_cons, List.length_append] at hfuel
    obtain ⟨fuel, rfl⟩ : ∃ k, fuel = k + 1 := ⟨fuel - 1, by omega⟩
    have hrest := readItems_dumps w items fuel rest hv.2 hs.2 (by omega)
    rw [readItems_step floats (fuel + 2) hfirst]
    simp only [dumpsItems, List.cons_append, List.append_assoc]
    rw [skipBlanks_cons _ rfl]
    change (readItems floats (fuel + 2) (skipBlanks (dumps floats w ++ _))).map _ = _
    rw [skipBlanks_dumps, hrest]
    rfl
termination_by v items => 1 + sizeOf v + sizeOf items

theorem readMembers_dumps : ∀ (key : Str) (v : Json F) (members : List (Str × Json F)) (fuel : Nat) (rest : Text),
    DistinctMembers ((key, v) :: members) → (∀ s, s ∈ stringsMembers ((key, v) :: members) → Unpaired s) →
    2 * ((dumps floats v).length + (dumpsMembers floats members).length) ≤ fuel →
    readMembers floats (fuel + 2) (quote key ++ (':' :: ' ' :: (dumps floats v ++ (dumpsMembers floats members ++ rest)))) =
      .ok ((key, v) :: members, rest)
  | key, v, [], fuel, rest, hv, hs, hfuel => by
    rw [DistinctMembers] at hv
    simp only [stringsMembers, List.append_nil, List.forall_mem_cons] at hs
    have hfirst := readValue_dumps v fuel _ hv.1 hs.2 (delimits_members floats [] rest) (by omega)
    rw [← skipBlanks_dumps] at hfirst
    exact readMembers_step floats (fuel + 1) (t := ' ' :: _) hs.1 hfirst
  | key, v, (next, w) :: members, fuel, rest, hv, hs, hfuel => by
    rw [DistinctMembers] at hv
    rw [stringsMembers, List.forall_mem_cons, List.forall_mem_append] at hs
    obtain ⟨hkey, hs, hsrest⟩ := hs
    have hfirst := readValue_dumps v fuel _ hv.1 hs (delimits_members floats ((next, w) :: members) rest) (by omega)
    rw [← skipBlanks_dumps] at hfirst
    simp only [dumpsMembers, List.length_cons, List.length_append] at hfuel
    obtain ⟨fuel, rfl⟩ : ∃ k, fuel = k + 1 := ⟨fuel - 1, by omega⟩
    have hrest := readMembers_dumps next w members fuel rest hv.2 hsrest (by omega)
    refine (readMembers_step floats (fuel + 2) (t := ' ' :: _) hkey hfirst).trans ?_
    simp only [dumpsMembers, List.cons_append, List.append_assoc]
    rw [skipBlanks_cons _ rfl]
    change (readMembers floats (fuel + 2) (skipBlanks (quote next ++ _))).map _ = _
    rw [quote_append, skipBlanks_cons _ rfl, ← quote_append, hrest]
    rfl
termination_by _ v members => 1 + sizeOf v + sizeOf members
end

/-- A dictionary printed is read back, its order kept. -/
theorem loads_dumps {o : Object F} (ho : ∀ s, s ∈ (Json.obj o.members).strings → Unpaired s) :
    loads floats (dumps floats (.obj o.members)) = .ok (.obj o.members) := by
  have hread := readValue_dumps floats (.obj o.members) (2 * (dumps floats (.obj o.members)).length) [] o.distinct ho
    delimits_nil (Nat.le_refl _)
  have hskip := skipBlanks_dumps floats (.obj o.members) []
  have hbom : (dumps floats (.obj o.members)).head? ≠ some '\ufeff' := by
    match o.members with
    | [] | _ :: _ => exact fun he => absurd (Option.some.inj he) (show '{' ≠ '\ufeff' by decide)
  rw [List.append_nil] at hread hskip
  rw [loads, if_neg hbom, hskip, hread]
  rfl

end

end Json
end DocPipeline

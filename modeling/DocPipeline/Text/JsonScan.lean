import DocPipeline.Text.JsonRoundtrip

/-!
# What loads reads

A text that is read is made of strings and of what stands between them, where no backslash
and no backtick occurs. `scan` follows that division without reading, so it can also be
started in the middle of a text.
-/
namespace DocPipeline.Json

set_option autoImplicit false

/-- Between strings, in one, or in one after a backslash. -/
inductive Mode where
  | outside | inside | escaped
  deriving DecidableEq

def Mode.next : Mode → Char → Option Mode
  | .outside, c => if c = '"' then some .inside else if c = '`' ∨ c = '\\' then none else some .outside
  | .inside, c => if c = '"' then some .outside else if c = '\\' then some .escaped else some .inside
  | .escaped, _ => some .inside

def scan : Mode → Text → Option Mode
  | m, [] => some m
  | m, c :: t => (m.next c).bind fun m => scan m t

def Plain (c : Char) : Prop := c ≠ '"' ∧ c ≠ '`' ∧ c ≠ '\\'
  deriving Decidable

theorem scan_append {a b : Text} (m : Mode) : scan m (a ++ b) = (scan m a).bind fun m => scan m b := by
  induction a generalizing m with
  | nil => rfl
  | cons c a ih =>
    rw [List.cons_append, scan, scan, Option.bind_assoc]
    exact congrArg _ (funext ih)

theorem scan_stays {m : Mode} {t : Text} (h : ∀ c, c ∈ t → m.next c = some m) : scan m t = some m := by
  induction t with
  | nil => rfl
  | cons c t ih =>
    rw [scan, h c List.mem_cons_self]
    exact ih fun d hd => h d (List.mem_cons_of_mem _ hd)

theorem scan_plain {t : Text} (h : ∀ c, c ∈ t → Plain c) : scan .outside t = some .outside := by
  apply scan_stays
  intro c hc
  have ⟨hquote, htick, hback⟩ := h c hc
  rw [Mode.next, if_neg hquote, if_neg (not_or.mpr ⟨htick, hback⟩)]

/-- Started in two ways, a text without escapes is between strings for one of them. -/
theorem scan_both {t : Text} {a b : Mode} (ha : a = .outside ∧ b = .inside ∨ a = .inside ∧ b = .outside) {m n : Mode}
    (h : scan a t = some m) (h' : scan b t = some n) : '`' ∉ t ∧ '\\' ∉ t := by
  induction t generalizing a b with
  | nil => exact ⟨List.not_mem_nil, List.not_mem_nil⟩
  | cons c t ih =>
    rw [scan] at h h'
    obtain ⟨a', hstep, hrest⟩ := Option.bind_eq_some_iff.mp h
    obtain ⟨b', hstep', hrest'⟩ := Option.bind_eq_some_iff.mp h'
    have hboth : Plain c ∨ c = '"' := by
      rcases ha with ⟨rfl, rfl⟩ | ⟨rfl, rfl⟩ <;> grind [Mode.next, Plain]
    have hmodes : a' = .outside ∧ b' = .inside ∨ a' = .inside ∧ b' = .outside := by
      rcases ha with ⟨rfl, rfl⟩ | ⟨rfl, rfl⟩ <;> grind [Mode.next, Plain]
    have ⟨htick, hback⟩ := ih hmodes hrest hrest'
    have hc : c ≠ '`' ∧ c ≠ '\\' := by
      rcases hboth with hplain | rfl
      · exact hplain.2
      · decide
    exact ⟨List.not_mem_cons_of_ne_of_not_mem hc.1.symm htick, List.not_mem_cons_of_ne_of_not_mem hc.2.symm hback⟩

/-! ## What stands between strings -/

/-- From the one text to the other, only plain characters are passed. -/
def Skips (t rest : Text) : Prop := ∃ used, t = used ++ rest ∧ ∀ c, c ∈ used → Plain c

namespace Skips

variable {t u v : Text} {c : Char}

theorem refl (t : Text) : Skips t t := ⟨[], rfl, fun _ h => nomatch h⟩

theorem trans (h : Skips t u) (h' : Skips u v) : Skips t v := by
  obtain ⟨a, rfl, ha⟩ := h
  obtain ⟨b, rfl, hb⟩ := h'
  exact ⟨a ++ b, (List.append_assoc a b v).symm, fun c hc => (List.mem_append.mp hc).elim (ha c) (hb c)⟩

theorem cons (hc : Plain c) (h : Skips t u) : Skips (c :: t) u := by
  obtain ⟨a, rfl, ha⟩ := h
  exact ⟨c :: a, rfl, fun d hd => (List.mem_cons.mp hd).elim (fun he => he ▸ hc) (ha d)⟩

theorem dropWhile {p : Char → Bool} (t : Text) (hp : ∀ c, p c = true → Plain c) : Skips t (t.dropWhile p) :=
  ⟨t.takeWhile p, List.takeWhile_append_dropWhile.symm, fun c hc =>
    hp c (List.all_eq_true.mp List.all_takeWhile c hc)⟩

end Skips

theorem plain_blank (c : Char) (h : isBlank c = true) : Plain c := by
  refine ⟨?_, ?_, ?_⟩ <;> (rintro rfl; revert h; decide)

theorem plain_digit (c : Char) (h : c.isDigit = true) : Plain c := by
  refine ⟨?_, ?_, ?_⟩ <;> (rintro rfl; revert h; decide)

theorem skips_blanks (t : Text) : Skips t (skipBlanks t) := Skips.dropWhile t plain_blank

theorem skips_digits (t : Text) : Skips t (Numeral.readDigits t).2 := Skips.dropWhile t plain_digit

theorem skips_whole {t rest : Text} {ds : List Nat} (h : Numeral.readWhole t = some (ds, rest)) : Skips t rest := by
  rw [Numeral.readWhole.eq_def] at h
  split at h
  · obtain ⟨rfl, rfl⟩ := Prod.mk.inj (Option.some.inj h)
    exact Skips.cons (by decide) (Skips.refl _)
  · have hskip := skips_digits t
    split at h
    · cases h
    · next hread =>
      rw [hread] at hskip
      obtain ⟨-, rfl⟩ := Prod.mk.inj (Option.some.inj h)
      exact hskip

theorem skips_fraction (t : Text) : Skips t (Numeral.readFraction t).2 := by
  rw [Numeral.readFraction.eq_def]
  split
  · next t =>
    have hskip := skips_digits t
    split
    · exact Skips.refl _
    · next hread =>
      rw [hread] at hskip
      exact Skips.cons (by decide) hskip
  · exact Skips.refl _

theorem skips_sign (t : Text) : Skips t (Numeral.readSign t).2 := by
  rw [Numeral.readSign.eq_def]
  split
  · exact Skips.cons (by decide) (Skips.refl _)
  · exact Skips.cons (by decide) (Skips.refl _)
  · exact Skips.refl _

theorem skips_exponent (t : Text) : Skips t (Numeral.readExponent t).2 := by
  rw [Numeral.readExponent.eq_def]
  split
  · exact Skips.refl _
  · next c t =>
    split
    · next hc =>
      have hplain : Plain c := by rcases hc with rfl | rfl <;> decide
      have hskip := (skips_sign t).trans (skips_digits _)
      split
      · exact Skips.refl _
      · next hread =>
        rw [hread] at hskip
        exact Skips.cons hplain hskip
    · exact Skips.refl _

theorem skips_unsigned {negative : Bool} {t rest : Text} {n : Numeral}
    (h : Numeral.readUnsigned negative t = some (n, rest)) : Skips t rest := by
  obtain ⟨whole, hwhole, he⟩ := Option.map_eq_some_iff.mp h
  obtain ⟨-, rfl⟩ := Prod.mk.inj he
  exact (skips_whole hwhole).trans ((skips_fraction _).trans (skips_exponent _))

theorem skips_numeral {t rest : Text} {n : Numeral} (h : Numeral.read t = some (n, rest)) : Skips t rest := by
  rw [Numeral.read.eq_def] at h
  split at h
  · exact Skips.cons (by decide) (skips_unsigned h)
  · exact skips_unsigned h

/-! ## Strings -/

/-- From the one text to the other, a part is read that gives these strings. -/
structure Reads (m : Mode) (t rest : Text) (ss : List Str) : Prop where
  unpaired : ∀ s, s ∈ ss → Unpaired s
  used : ∃ used, t = used ++ rest ∧ scan m used = some .outside ∧
    ('\\' ∉ used → ∀ s, s ∈ ss → ∀ c, .char c ∈ s → c ∈ used)

namespace Reads

variable {m : Mode} {t u v : Text} {ss ss' : List Str}

theorem of_skips (h : Skips t u) : Reads .outside t u [] := by
  obtain ⟨used, rfl, hplain⟩ := h
  exact ⟨nofun, used, rfl, scan_plain hplain, fun _ => nofun⟩

theorem append (h : Reads m t u ss) (h' : Reads .outside u v ss') : Reads m t v (ss ++ ss') := by
  refine ⟨fun s hs => (List.mem_append.mp hs).elim (h.unpaired s) (h'.unpaired s), ?_⟩
  obtain ⟨-, a, rfl, hscan, hss⟩ := h
  obtain ⟨-, b, rfl, hscan', hss'⟩ := h'
  refine ⟨a ++ b, (List.append_assoc a b v).symm, ?_, fun hback s hs c hc => ?_⟩
  · rw [scan_append, hscan]
    exact hscan'
  · rw [List.mem_append, not_or] at hback
    rw [List.mem_append] at hs ⊢
    exact hs.imp (fun hs => hss hback.1 s hs c hc) (fun hs => hss' hback.2 s hs c hc)

theorem mono (h : Reads m t u ss) (hsub : ∀ s, s ∈ ss' → s ∈ ss) : Reads m t u ss' := by
  obtain ⟨hunpaired, used, he, hscan, hss⟩ := h
  exact ⟨fun s hs => hunpaired s (hsub s hs), used, he, hscan, fun hback s hs => hss hback s (hsub s hs)⟩

theorem skip (h' : Reads .outside u v ss) (h : Skips t u) : Reads .outside t v ss := (of_skips h).append h'

theorem quote (h : Reads .inside t u ss) : Reads .outside ('"' :: t) u ss := by
  obtain ⟨hunpaired, used, rfl, hscan, hss⟩ := h
  refine ⟨hunpaired, '"' :: used, rfl, hscan, fun hback s hs c hc => List.mem_cons_of_mem _ ?_⟩
  exact hss (fun hmem => hback (List.mem_cons_of_mem _ hmem)) s hs c hc

/-- One code point of a string, written in some way. -/
theorem point {written : Text} {p : Point} {s : Str} (hscan : scan .inside written = some .inside)
    (hwritten : '\\' ∈ written ∨ ∀ c, p = .char c → c ∈ written)
    (hnext : ∀ q s', s = q :: s' → p.isHigh = true → q.isLow = false) (h : Reads .inside t u [s]) :
    Reads .inside (written ++ t) u [p :: s] := by
  obtain ⟨hunpaired, used, rfl, hused, hss⟩ := h
  constructor
  · intro r hr
    have hs : Unpaired s := hunpaired s (List.mem_singleton.mpr rfl)
    rw [List.mem_singleton.mp hr]
    cases s with
    | nil => exact List.IsChain.singleton _
    | cons q s => exact List.isChain_cons_cons.mpr ⟨hnext q s rfl, hs⟩
  · refine ⟨written ++ used, (List.append_assoc ..).symm, ?_, fun hback r hr d hd => ?_⟩
    · rw [scan_append, hscan]
      exact hused
    · rw [List.mem_append, not_or] at hback
      rw [List.mem_singleton.mp hr, List.mem_cons] at hd
      rw [List.mem_append]
      rcases hd with hd | hd
      · exact Or.inl ((hwritten.resolve_left hback.1) d hd.symm)
      · exact Or.inr (hss hback.2 s (List.mem_singleton.mpr rfl) d hd)

end Reads

theorem isLow_chr (n : Nat) : (Point.chr n).isLow = isLow n := by
  unfold Point.chr
  split
  · next h =>
    simp only [Point.isLow, isLow]
    rw [← Bool.decide_and, decide_eq_decide]
    omega
  · next h =>
    simp only [Point.isLow, isLow]
    rw [← Bool.decide_and, eq_comm, decide_eq_false_iff_not]
    omega

theorem isHigh_chr (n : Nat) : (Point.chr n).isHigh = isHigh n := by
  unfold Point.chr
  split
  · next h =>
    simp only [Point.isHigh, isHigh]
    rw [← Bool.decide_and, decide_eq_decide]
    omega
  · next h =>
    simp only [Point.isHigh, isHigh]
    rw [← Bool.decide_and, eq_comm, decide_eq_false_iff_not]
    omega

section
variable {ε α β : Type} {r : Except ε α} {b : β}

theorem ok_of_map {f : α → β} (h : r.map f = .ok b) : ∃ a, r = .ok a ∧ b = f a := by
  cases r with
  | error e => cases h
  | ok a => exact ⟨a, rfl, (Except.ok.inj h).symm⟩

theorem ok_of_bind {f : α → Except ε β} (h : r >>= f = .ok b) : ∃ a, r = .ok a ∧ f a = .ok b := by
  cases r with
  | error e => cases h
  | ok a => exact ⟨a, rfl, h⟩

end

theorem of_onto {p : Point} {r : Except Error (Str × Text)} {s : Str} {rest : Text} (h : onto p r = .ok (s, rest)) :
    ∃ s', s = p :: s' ∧ r = .ok (s', rest) := by
  obtain ⟨r, hr, he⟩ := ok_of_map h
  obtain ⟨rfl, rfl⟩ := Prod.mk.inj he
  exact ⟨r.1, rfl, hr⟩

/-- Only the escape of a low surrogate gives one at the beginning. -/
theorem low_head {t rest : Text} {q : Point} {s : Str} (h : readString t = .ok (q :: s, rest)) (hq : q.isLow = true) :
    ∃ a b c d u n, t = '\\' :: 'u' :: a :: b :: c :: d :: u ∧ unit a b c d = some n ∧ isLow n = true := by
  have hunit (n : Nat) {r : Except Error (Str × Text)} (h : onto (.chr n) r = .ok (q :: s, rest)) : isLow n = true := by
    obtain ⟨s', he, -⟩ := of_onto h
    rw [← isLow_chr, ← (List.cons.inj he).1]
    exact hq
  have hchar (c : Char) {r : Except Error (Str × Text)} (h : onto (.char c) r = .ok (q :: s, rest)) : False := by
    obtain ⟨s', he, -⟩ := of_onto h
    rw [(List.cons.inj he).1] at hq
    cases hq
  have hpair (n m : Nat) (hn : isHigh n = true) (hm : isLow m = true)
      {r : Except Error (Str × Text)} (h : onto (.chr (0x10000 + (n - 0xd800) * 0x400 + (m - 0xdc00))) r = .ok (q :: s, rest)) :
      False := by
    have hlow := hunit _ h
    simp only [isLow, isHigh, Bool.and_eq_true, decide_eq_true_eq] at hlow hn hm
    omega
  rw [readString.eq_def] at h
  split at h
  · cases h
  · cases h
  · next a b c d t =>
    split at h
    · cases h
    · next n hn =>
      split at h
      · next hhigh =>
        split at h
        · split at h
          · cases h
          · split at h
            · next hlow => exact (hpair n _ hhigh hlow h).elim
            · exact ⟨a, b, c, d, _, n, rfl, hn, hunit n h⟩
        · exact ⟨a, b, c, d, _, n, rfl, hn, hunit n h⟩
      · exact ⟨a, b, c, d, t, n, rfl, hn, hunit n h⟩
  · cases h
  · split at h
    · cases h
    · exact (hchar _ h).elim
  · cases h
  · split at h
    · cases h
    · exact (hchar _ h).elim

theorem unit_hex {a b c d : Char} {n : Nat} (h : unit a b c d = some n) :
    ∀ e, e ∈ [a, b, c, d] → (hexVal e).isSome = true := by
  simp only [unit, Option.bind_eq_bind, Option.bind_eq_some_iff] at h
  obtain ⟨i, ha, j, hb, k, hc, l, hd, -⟩ := h
  simp [ha, hb, hc, hd]

theorem plain_hex {c : Char} (h : (hexVal c).isSome = true) : Plain c := by
  refine ⟨?_, ?_, ?_⟩ <;> (rintro rfl; revert h; decide)

theorem scan_unit {a b c d : Char} {n : Nat} (h : unit a b c d = some n) :
    scan .inside ['\\', 'u', a, b, c, d] = some .inside := by
  change scan .inside [a, b, c, d] = some .inside
  apply scan_stays
  intro e he
  have ⟨hquote, _, hback⟩ := plain_hex (unit_hex h e he)
  rw [Mode.next, if_neg hquote, if_neg hback]

theorem reads_string {t rest : Text} {s : Str} (h : readString t = .ok (s, rest)) : Reads .inside t rest [s] := by
  fun_induction readString t generalizing s with
  | case1 => cases h
  | case2 t =>
    obtain ⟨rfl, rfl⟩ := Prod.mk.inj (Except.ok.inj h)
    refine ⟨fun s hs => ?_, ['"'], rfl, rfl, fun _ s hs c hc => ?_⟩
    · rw [List.mem_singleton.mp hs]
      exact List.IsChain.nil
    · rw [List.mem_singleton.mp hs] at hc
      cases hc
  | case3 => cases h
  | case4 => cases h
  | case5 a b c d n hn hhigh e f g h' u m hm hlow ih =>
    obtain ⟨s, rfl, htail⟩ := of_onto h
    have hscan : scan .inside (['\\', 'u', a, b, c, d] ++ ['\\', 'u', e, f, g, h']) = some .inside := by
      rw [scan_append, scan_unit hn]
      exact scan_unit hm
    refine Reads.point hscan (Or.inl List.mem_cons_self) (fun q s' _ hpoint => ?_) (ih htail)
    rw [isHigh_chr] at hpoint
    simp only [isHigh, isLow, Bool.and_eq_true, decide_eq_true_eq] at hhigh hlow hpoint
    omega
  | case6 a b c d n hn hhigh e f g h' u m hm hlow ih =>
    obtain ⟨s, rfl, htail⟩ := of_onto h
    refine Reads.point (scan_unit hn) (Or.inl List.mem_cons_self) (fun q s' he _ => ?_) (ih htail)
    subst he
    by_contra hq
    obtain ⟨_, _, _, _, _, k, he, hk, hklow⟩ := low_head htail (Bool.not_eq_false _ ▸ hq)
    simp only [List.cons.injEq, true_and] at he
    obtain ⟨rfl, rfl, rfl, rfl, -⟩ := he
    rw [hm] at hk
    exact hlow (Option.some.inj hk ▸ hklow)
  | case7 a b c d n hn hhigh t hno ih =>
    obtain ⟨s, rfl, htail⟩ := of_onto h
    refine Reads.point (scan_unit hn) (Or.inl List.mem_cons_self) (fun q s' he _ => ?_) (ih htail)
    subst he
    by_contra hq
    obtain ⟨_, _, _, _, _, _, he, -⟩ := low_head htail (Bool.not_eq_false _ ▸ hq)
    exact hno _ _ _ _ _ he
  | case8 a b c d t n hn hhigh ih =>
    obtain ⟨s, rfl, htail⟩ := of_onto h
    refine Reads.point (scan_unit hn) (Or.inl List.mem_cons_self) (fun q s' _ hpoint => ?_) (ih htail)
    rw [isHigh_chr] at hpoint
    exact absurd hpoint hhigh
  | case9 => cases h
  | case10 => cases h
  | case11 c t hno hno' d hd ih =>
    obtain ⟨s, rfl, htail⟩ := of_onto h
    have hscan : scan .inside ['\\', c] = some .inside := rfl
    exact Reads.point hscan (Or.inl List.mem_cons_self) (fun _ _ _ hpoint => by cases hpoint) (ih htail)
  | case12 => cases h
  | case13 => cases h
  | case14 c t hquote _ _ hback hback' _ ih =>
    obtain ⟨s, rfl, htail⟩ := of_onto h
    have hplain : c ≠ '\\' := by
      rintro rfl
      cases t with
      | nil => exact hback' rfl rfl
      | cons d t => exact hback d t rfl rfl
    have hscan : scan .inside [c] = some .inside := by
      rw [scan, Mode.next, if_neg hquote, if_neg hplain]
      rfl
    refine Reads.point hscan (Or.inr fun d hd => ?_) (fun _ _ _ hpoint => by cases hpoint) (ih htail)
    rw [Point.char.inj hd]
    exact List.mem_cons_self

/-! ## Values -/

section
variable {F : Type}

theorem mem_setItem {key : Str} {v : Json F} {members : List (Str × Json F)} {member : Str × Json F}
    (h : member ∈ setItem key v members) : member = (key, v) ∨ member ∈ members := by
  induction members with
  | nil => exact Or.inl (List.mem_singleton.mp h)
  | cons first members ih =>
    rw [setItem] at h
    split at h
    · exact (List.mem_cons.mp h).imp id (List.mem_cons_of_mem _)
    · rcases List.mem_cons.mp h with rfl | h
      · exact Or.inr List.mem_cons_self
      · exact (ih h).imp id (List.mem_cons_of_mem _)

theorem mem_dict {pairs : List (Str × Json F)} {member : Str × Json F} (h : member ∈ dict pairs) : member ∈ pairs := by
  have hfold : ∀ members, member ∈ pairs.foldl (fun members pair => setItem pair.1 pair.2 members) members →
      member ∈ members ∨ member ∈ pairs := by
    clear h
    induction pairs with
    | nil => exact fun members h => Or.inl h
    | cons pair pairs ih =>
      intro members h
      rcases ih _ h with h | h
      · rcases mem_setItem h with rfl | h
        · exact Or.inr List.mem_cons_self
        · exact Or.inl h
      · exact Or.inr (List.mem_cons_of_mem _ h)
  exact (hfold [] h).resolve_left List.not_mem_nil

theorem mem_stringsMembers {members : List (Str × Json F)} {s : Str} :
    s ∈ stringsMembers members ↔ ∃ member, member ∈ members ∧ (s = member.1 ∨ s ∈ member.2.strings) := by
  induction members with
  | nil => exact iff_of_false List.not_mem_nil nofun
  | cons member members ih =>
    rw [stringsMembers, List.mem_cons, List.mem_append, ih, ← or_assoc]
    simp only [List.mem_cons, or_and_right, exists_or, exists_eq_left]

theorem strings_dict {pairs : List (Str × Json F)} {s : Str} (h : s ∈ (Json.obj (dict pairs)).strings) :
    s ∈ stringsMembers pairs := by
  obtain ⟨member, hmember, hs⟩ := mem_stringsMembers.mp h
  exact mem_stringsMembers.mpr ⟨member, mem_dict hmember, hs⟩

end

section
variable {F : Type} {floats : Floats F} {t rest : Text}

theorem Reads.plain {c : Char} {u : Text} {ss : List Str} (hc : Plain c) (h : Reads .outside t u ss) :
    Reads .outside (c :: t) u ss := h.skip (Skips.cons hc (Skips.refl t))

theorem reads_numeral {n : Numeral} {v : Json F} (h : Numeral.read t = some (n, rest)) (hv : ofNumeral floats n = .ok v) :
    Reads .outside t rest v.strings := by
  have hnone : v.strings = [] := by
    unfold ofNumeral at hv
    split at hv
    · split at hv
      · rw [← Except.ok.inj hv]; rfl
      · cases hv
    · rw [← Except.ok.inj hv]; rfl
  rw [hnone]
  exact Reads.of_skips (skips_numeral h)

/-- A delimiter after blanks, and what follows it. -/
theorem Reads.after {c : Char} {u : Text} {ss : List Str} (hblank : skipBlanks t = c :: u) (hc : Plain c)
    (h : Reads .outside u rest ss) : Reads .outside t rest ss := by
  refine Reads.skip ?_ (skips_blanks t)
  rw [hblank]
  exact h.plain hc

theorem reads_close {c : Char} (hblank : skipBlanks t = c :: rest) (hc : Plain c) : Reads .outside t rest [] :=
  Reads.after hblank hc (Reads.of_skips (Skips.refl rest))

theorem reads_member {key : Str} {v : Json F} {fuel : Nat} {u w : Text}
    (ih : ∀ t v rest, readValue floats fuel t = .ok (v, rest) → Reads .outside t rest v.strings)
    (hkey : readString t = .ok (key, u)) (hcolon : skipBlanks u = ':' :: w)
    (hv : readValue floats fuel (skipBlanks w) = .ok (v, rest)) :
    Reads .outside ('"' :: t) rest (key :: v.strings) :=
  (reads_string hkey).quote.append (Reads.after hcolon (by decide) ((ih _ v rest hv).skip (skips_blanks w)))

theorem reads_value_succ {fuel : Nat} {v : Json F}
    (items : ∀ t vs rest, readItems floats fuel t = .ok (vs, rest) → Reads .outside t rest (stringsItems vs))
    (members : ∀ t ms rest, readMembers floats fuel t = .ok (ms, rest) → Reads .outside t rest (stringsMembers ms))
    (h : readValue floats (fuel + 1) t = .ok (v, rest)) : Reads .outside t rest v.strings := by
  unfold readValue at h
  split at h
  · obtain ⟨r, hr, he⟩ := ok_of_map h
    obtain ⟨rfl, rfl⟩ := Prod.mk.inj he
    exact (reads_string hr).quote
  · next t =>
    split at h
    · next hblank =>
      obtain ⟨rfl, rfl⟩ := Prod.mk.inj (Except.ok.inj h)
      exact Reads.plain (by decide) (reads_close hblank (by decide))
    · obtain ⟨r, hr, he⟩ := ok_of_map h
      obtain ⟨rfl, rfl⟩ := Prod.mk.inj he
      have hmembers := (members _ r.1 r.2 hr).mono (fun s => strings_dict)
      exact Reads.plain (by decide) (hmembers.skip (skips_blanks t))
  · next t =>
    split at h
    · next hblank =>
      obtain ⟨rfl, rfl⟩ := Prod.mk.inj (Except.ok.inj h)
      exact Reads.plain (by decide) (reads_close hblank (by decide))
    · obtain ⟨r, hr, he⟩ := ok_of_map h
      obtain ⟨rfl, rfl⟩ := Prod.mk.inj he
      exact Reads.plain (by decide) ((items _ r.1 r.2 hr).skip (skips_blanks t))
  · obtain ⟨rfl, rfl⟩ := Prod.mk.inj (Except.ok.inj h)
    exact Reads.of_skips ⟨['n', 'u', 'l', 'l'], rfl, by simp [Plain]⟩
  · obtain ⟨rfl, rfl⟩ := Prod.mk.inj (Except.ok.inj h)
    exact Reads.of_skips ⟨['t', 'r', 'u', 'e'], rfl, by simp [Plain]⟩
  · obtain ⟨rfl, rfl⟩ := Prod.mk.inj (Except.ok.inj h)
    exact Reads.of_skips ⟨['f', 'a', 'l', 's', 'e'], rfl, by simp [Plain]⟩
  · obtain ⟨rfl, rfl⟩ := Prod.mk.inj (Except.ok.inj h)
    exact Reads.of_skips ⟨['N', 'a', 'N'], rfl, by simp [Plain]⟩
  · obtain ⟨rfl, rfl⟩ := Prod.mk.inj (Except.ok.inj h)
    exact Reads.of_skips ⟨['I', 'n', 'f', 'i', 'n', 'i', 't', 'y'], rfl, by simp [Plain]⟩
  · obtain ⟨rfl, rfl⟩ := Prod.mk.inj (Except.ok.inj h)
    exact Reads.of_skips ⟨['-', 'I', 'n', 'f', 'i', 'n', 'i', 't', 'y'], rfl, by simp [Plain]⟩
  · split at h
    · cases h
    · next hread =>
      obtain ⟨w, hw, he⟩ := ok_of_map h
      obtain ⟨rfl, rfl⟩ := Prod.mk.inj he
      exact reads_numeral hread hw

theorem reads_items_succ {fuel : Nat} {vs : List (Json F)}
    (value : ∀ t v rest, readValue floats fuel t = .ok (v, rest) → Reads .outside t rest v.strings)
    (items : ∀ t vs rest, readItems floats fuel t = .ok (vs, rest) → Reads .outside t rest (stringsItems vs))
    (h : readItems floats (fuel + 1) t = .ok (vs, rest)) : Reads .outside t rest (stringsItems vs) := by
  rw [readItems] at h
  obtain ⟨⟨v, u⟩, hv, h⟩ := ok_of_bind h
  have hfirst := value t v u hv
  dsimp only at h
  split at h
  · next hblank =>
    obtain ⟨rfl, rfl⟩ := Prod.mk.inj (Except.ok.inj h)
    exact hfirst.append (reads_close hblank (by decide))
  · next w hblank =>
    obtain ⟨r, hr, he⟩ := ok_of_map h
    obtain ⟨rfl, rfl⟩ := Prod.mk.inj he
    exact hfirst.append (Reads.after hblank (by decide) ((items _ r.1 r.2 hr).skip (skips_blanks w)))
  · cases h

theorem reads_members_succ {fuel : Nat} {ms : List (Str × Json F)}
    (value : ∀ t v rest, readValue floats fuel t = .ok (v, rest) → Reads .outside t rest v.strings)
    (members : ∀ t ms rest, readMembers floats fuel t = .ok (ms, rest) → Reads .outside t rest (stringsMembers ms))
    (h : readMembers floats (fuel + 1) t = .ok (ms, rest)) : Reads .outside t rest (stringsMembers ms) := by
  unfold readMembers at h
  split at h
  · obtain ⟨⟨key, u⟩, hkey, h⟩ := ok_of_bind h
    dsimp only at h
    split at h
    · next w hcolon =>
      obtain ⟨⟨v, u'⟩, hv, h⟩ := ok_of_bind h
      have hfirst := reads_member value hkey hcolon hv
      dsimp only at h
      split at h
      · next hblank =>
        obtain ⟨rfl, rfl⟩ := Prod.mk.inj (Except.ok.inj h)
        exact hfirst.append (reads_close hblank (by decide))
      · next w hblank =>
        obtain ⟨r, hr, he⟩ := ok_of_map h
        obtain ⟨rfl, rfl⟩ := Prod.mk.inj he
        exact hfirst.append (Reads.after hblank (by decide) ((members _ r.1 r.2 hr).skip (skips_blanks w)))
      · cases h
    · cases h
  · cases h

theorem reads_all (fuel : Nat) :
    (∀ t v rest, readValue floats fuel t = .ok (v, rest) → Reads .outside t rest v.strings) ∧
    (∀ t vs rest, readItems floats fuel t = .ok (vs, rest) → Reads .outside t rest (stringsItems vs)) ∧
    (∀ t ms rest, readMembers floats fuel t = .ok (ms, rest) → Reads .outside t rest (stringsMembers ms)) := by
  induction fuel with
  | zero => exact ⟨nofun, nofun, nofun⟩
  | succ fuel ih =>
    obtain ⟨value, items, members⟩ := ih
    exact ⟨fun _ _ _ h => reads_value_succ items members h, fun _ _ _ h => reads_items_succ value items h,
      fun _ _ _ h => reads_members_succ value members h⟩

/-- The text that is loaded is one that `scan` goes through, and holds the strings loaded. -/
theorem reads_loads {v : Json F} (h : loads floats t = .ok v) : Reads .outside t [] v.strings := by
  unfold loads at h
  split at h
  · cases h
  · obtain ⟨⟨w, rest⟩, hw, h⟩ := ok_of_bind h
    dsimp only at h
    split at h
    · next hend =>
      cases h
      have hrest : Reads .outside rest [] [] := Reads.of_skips (hend ▸ skips_blanks rest)
      have hvalue := ((reads_all _).1 _ v rest hw).skip (skips_blanks t)
      exact (hvalue.append hrest).mono (fun s hs => List.mem_append_left _ hs)
    · cases h

/-! ## Backticks -/

/-- A string in which a backtick stands. -/
def Ticked (s : Str) : Prop := .char '`' ∈ s

theorem no_tick_unit (n : Nat) : '`' ∉ unitText n := by
  have hdigit : ∀ d, d < 16 → '`' ≠ Nat.digitChar d := by decide
  have hlt (m : Nat) : m % 16 < 16 := Nat.mod_lt m (by decide)
  simp only [unitText, List.mem_cons, List.not_mem_nil, or_false, not_or]
  exact ⟨by decide, by decide, hdigit _ (hlt _), hdigit _ (hlt _), hdigit _ (hlt _), hdigit _ (hlt _)⟩

theorem tick_escape {p : Point} (h : '`' ∈ escape p) : p = .char '`' := by
  cases p with
  | surrogate n => exact absurd h (no_tick_unit _)
  | char c =>
    have hunits (n m : Nat) : '`' ∉ unitText n ++ unitText m := by
      rw [List.mem_append, not_or]
      exact ⟨no_tick_unit n, no_tick_unit m⟩
    have hsame : '`' ∈ [c] → Point.char c = .char '`' := fun h => congrArg _ (List.mem_singleton.mp h).symm
    rw [escape, escapeChar] at h
    split at h
    · exact absurd h (by decide)
    split at h
    · exact absurd h (by decide)
    split at h
    · exact absurd h (by decide)
    split at h
    · exact absurd h (by decide)
    split at h
    · exact absurd h (by decide)
    split at h
    · exact absurd h (by decide)
    split at h
    · exact absurd h (by decide)
    split at h
    · exact hsame h
    split at h
    · exact absurd h (no_tick_unit _)
    · exact absurd h (hunits _ _)

theorem tick_quote {s : Str} (h : '`' ∈ quote s) : Ticked s := by
  rw [quote, List.mem_cons, List.mem_append, List.mem_flatMap] at h
  rcases h with h | ⟨p, hp, h⟩ | h
  · exact absurd h (by decide)
  · rw [tick_escape h] at hp
    exact hp
  · exact absurd h (by decide)

theorem no_tick_numeral {n : Numeral} (h : n.Wf) : '`' ∉ n.text := by
  have hread : Numeral.read (n.text ++ []) = some (n, []) := Numeral.read_text h (fun _ _ he => nomatch he)
  obtain ⟨used, he, hplain⟩ := skips_numeral hread
  rw [List.append_nil, List.append_nil] at he
  exact fun hmem => (hplain _ (he ▸ hmem)).2.1 rfl

theorem no_tick_float (x : F) : '`' ∉ floatText (floats.repr x) := by
  cases hrepr : floats.repr x with
  | numeral n => exact no_tick_numeral (floats.repr_wf x n hrepr).1
  | nan => decide
  | infinity negative => cases negative <;> decide

mutual
theorem tick_dumps : ∀ v : Json F, '`' ∈ dumps floats v → ∃ s, s ∈ v.strings ∧ Ticked s
  | .null, h | .bool true, h | .bool false, h | .arr [], h | .obj [], h => by simp [dumps] at h
  | .int n, h => absurd h (no_tick_numeral (Numeral.ofInt_wf n.val))
  | .float x, h => absurd h (no_tick_float x)
  | .str s, h => ⟨s, List.mem_singleton.mpr rfl, tick_quote h⟩
  | .arr (v :: items), h => by
    rw [dumps, List.mem_cons, List.mem_append] at h
    rcases h with h | h | h
    · exact absurd h (by decide)
    · obtain ⟨s, hs, htick⟩ := tick_dumps v h
      exact ⟨s, List.mem_append_left _ hs, htick⟩
    · obtain ⟨s, hs, htick⟩ := tick_items items h
      exact ⟨s, List.mem_append_right _ hs, htick⟩
  | .obj ((key, v) :: members), h => by
    have hmember : '`' ∈ dumpsMembers floats ((key, v) :: members) := by
      rw [dumps] at h
      rw [dumpsMembers]
      exact List.mem_cons_of_mem _ (List.mem_cons_of_mem _ ((List.mem_cons.mp h).resolve_left (by decide)))
    exact tick_members ((key, v) :: members) hmember

theorem tick_items : ∀ items : List (Json F), '`' ∈ dumpsItems floats items → ∃ s, s ∈ stringsItems items ∧ Ticked s
  | [], h => by simp [dumpsItems] at h
  | v :: items, h => by
    simp only [dumpsItems, List.mem_cons, List.mem_append] at h
    rcases h with h | h | h | h
    · exact absurd h (by decide)
    · exact absurd h (by decide)
    · obtain ⟨s, hs, htick⟩ := tick_dumps v h
      exact ⟨s, List.mem_append_left _ hs, htick⟩
    · obtain ⟨s, hs, htick⟩ := tick_items items h
      exact ⟨s, List.mem_append_right _ hs, htick⟩

theorem tick_members : ∀ members : List (Str × Json F), '`' ∈ dumpsMembers floats members →
    ∃ s, s ∈ stringsMembers members ∧ Ticked s
  | [], h => by simp [dumpsMembers] at h
  | (key, v) :: members, h => by
    simp only [dumpsMembers, List.mem_cons, List.mem_append] at h
    rcases h with h | h | h | h | h | h | h
    · exact absurd h (by decide)
    · exact absurd h (by decide)
    · exact ⟨key, List.mem_cons_self, tick_quote h⟩
    · exact absurd h (by decide)
    · exact absurd h (by decide)
    · obtain ⟨s, hs, htick⟩ := tick_dumps v h
      exact ⟨s, List.mem_cons_of_mem _ (List.mem_append_left _ hs), htick⟩
    · obtain ⟨s, hs, htick⟩ := tick_members members h
      exact ⟨s, List.mem_cons_of_mem _ (List.mem_append_right _ hs), htick⟩
end

end

end DocPipeline.Json

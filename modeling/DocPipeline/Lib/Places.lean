import DocPipeline.Lib.Matcher

/-!
# Where a matcher matches

A matcher that reads nothing from a stop on has the same ways in front of any text that
starts there. A search through the whole text is then compared with the places where a
match is expected: it finds these and no others exactly when every place that has a way is
one of them or inside one.
-/
namespace DocPipeline.Lib

set_option autoImplicit false

universe u
variable {α β γ : Type u}

namespace Matcher

/-! ## In front of a stop -/

/-- Nothing, or the stop and anything. -/
def Stops (stop : α) (after : List α) : Prop := ∀ c, after.head? = some c → c = stop

/-- The same ways, with more left over. -/
def Extends (m : Matcher α β) (t after : List α) : Prop := m (t ++ after) = (m t).map fun r => (r.1, r.2 ++ after)

def Local (stop : α) (m : Matcher α β) : Prop := ∀ t after, Stops stop after → Extends m t after

section Local

variable {m : Matcher α β} {k : β → Matcher α γ} {p : α → Bool} {t after : List α} {stop : α}

theorem Extends.bind (hm : Extends m t after) (hk : ∀ r, r ∈ m t → Extends (k r.1) r.2 after) :
    Extends (m >>= k) t after := by
  change (m (t ++ after)).flatMap _ = ((m t).flatMap _).map _
  rw [hm, List.flatMap_map, List.map_flatMap]
  exact List.flatMap_congr fun r hr => hk r hr

theorem Local.bind (hm : Local stop m) (hk : ∀ b, Local stop (k b)) : Local stop (m >>= k) :=
  fun t after hafter => (hm t after hafter).bind fun r _ => hk r.1 r.2 after hafter

theorem Local.pure (b : β) : Local stop (Pure.pure b : Matcher α β) := fun _ _ _ => rfl

theorem Local.opt {m : Matcher α (List α)} (h : Local stop m) : Local stop (opt m) := by
  intro t after hafter
  change m (t ++ after) ++ [([], t ++ after)] = (m t ++ [([], t)]).map _
  rw [h t after hafter, List.map_append]
  rfl

theorem Local.lit [DecidableEq α] {word : List α} (h : stop ∉ word) : Local stop (lit word) := by
  intro t after hafter
  have hmatch : word <+: t ++ after ↔ word <+: t := by
    constructor
    · rintro ⟨rest, he⟩
      rcases List.append_eq_append_iff.mp he with ⟨tail, ht, -⟩ | ⟨tail, hword, hrest⟩
      · exact ⟨tail, ht.symm⟩
      · cases tail with
        | nil => exact ⟨[], by rw [List.append_nil, hword, List.append_nil]⟩
        | cons c tail =>
          have hc : c = stop := hafter c (by rw [hrest]; rfl)
          exact absurd (hword ▸ List.mem_append_right t (hc ▸ List.mem_cons_self)) h
    · exact fun hp => hp.trans (List.prefix_append t after)
  unfold Extends Matcher.lit
  by_cases hp : word <+: t
  · obtain ⟨rest, rfl⟩ := hp
    rw [if_pos (hmatch.mpr (List.prefix_append word rest)), if_pos (List.prefix_append word rest), List.append_assoc,
      List.drop_left, List.drop_left]
    rfl
  · rw [if_neg (mt hmatch.mp hp), if_neg hp]
    rfl

theorem Local.one (h : p stop = false) : Local stop (one p) := by
  intro t after hafter
  cases t with
  | nil =>
    cases after with
    | nil => rfl
    | cons c after =>
      have hc : ¬ p c = true := by
        rw [hafter c rfl, h]
        exact Bool.false_ne_true
      have hnone : Matcher.one p (c :: after) = [] := if_neg hc
      exact hnone
  | cons c t =>
    change Matcher.one p (c :: (t ++ after)) = (Matcher.one p (c :: t)).map _
    rw [Matcher.one, Matcher.one]
    split <;> rfl

/-- A run ends in front of the stop, or at a character before it. -/
theorem extends_many (h : (∃ c, c ∈ t ∧ p c = false) ∨ ∀ c, after.head? = some c → p c = false) :
    Extends (many p) t after := by
  induction t with
  | nil =>
    have hnone : ¬ ∃ c, c ∈ [] ∧ p c = false := by simp
    have hstop := h.resolve_left hnone
    cases after with
    | nil => rfl
    | cons c after =>
      have hc : ¬ p c = true := by
        rw [hstop c rfl]
        exact Bool.false_ne_true
      have hempty : many p (c :: after) = [([], c :: after)] := if_neg hc
      exact hempty
  | cons c t ih =>
    change many p (c :: (t ++ after)) = (many p (c :: t)).map _
    rw [many, many]
    by_cases hc : p c = true
    · have hrest : (∃ d, d ∈ t ∧ p d = false) ∨ ∀ d, after.head? = some d → p d = false := by
        refine h.imp_left ?_
        rintro ⟨d, hd, hp⟩
        refine ⟨d, (List.mem_cons.mp hd).resolve_left ?_, hp⟩
        rintro rfl
        rw [hc] at hp
        cases hp
      rw [if_pos hc, if_pos hc, ih hrest, List.map_append, List.map_map, List.map_map]
      rfl
    · rw [if_neg hc, if_neg hc]
      rfl

theorem Local.many (h : p stop = false) : Local stop (many p) :=
  fun _ _ hafter => extends_many (Or.inr fun c hc => by rw [hafter c hc, h])

theorem Local.many1 (h : p stop = false) : Local stop (many1 p) :=
  (Local.one h).bind fun _ => (Local.many h).bind fun _ => Local.pure _

theorem Local.exactly (h : p stop = false) (n : Nat) : Local stop (exactly p n) := by
  induction n with
  | zero => exact Local.pure _
  | succ n ih => exact (Local.one h).bind fun _ => ih.bind fun _ => Local.pure _

end Local

/-- Two splits of a text, the first one not after the second. -/
theorem split_le {a b x y : List α} (h : x ++ y = a ++ b) (hle : x.length ≤ a.length) : ∃ z, a = x ++ z ∧ y = z ++ b := by
  obtain ⟨z, rfl⟩ : x <+: a := List.prefix_of_prefix_length_le ⟨y, rfl⟩ ⟨b, h.symm⟩ hle
  exact ⟨z, rfl, List.append_cancel_left (h.trans (List.append_assoc x z b))⟩

/-! ## A search and where it is expected to match -/

section Find

variable {m : Matcher α β} {t : List α}

/-- Each place that has a way is at the expected one or after it. -/
def NotBefore (m : Matcher α β) (t : List α) (expected : Option (List α × β × List α)) : Prop :=
  ∀ before rest, t = before ++ rest → m rest ≠ [] → ∃ r, expected = some r ∧ r.1.length ≤ before.length

theorem find_eq_none_iff : find m t = none ↔ ∀ a b, t = a ++ b → m b = [] := by
  rw [← search_eq_none, search_eq_find, Option.map_eq_none_iff]

theorem find_eq_iff {expected : Option (List α × β × List α)}
    (hway : ∀ a b u, expected = some (a, b, u) → ∃ t', t = a ++ t' ∧ (m t').head? = some (b, u)) :
    find m t = expected ↔ NotBefore m t expected := by
  constructor
  · rintro rfl before rest he hne
    cases hfind : find m t with
    | none => exact absurd (find_eq_none_iff.mp hfind before rest he) hne
    | some r =>
      refine ⟨r, rfl, ?_⟩
      obtain ⟨a, b, u⟩ := r
      obtain ⟨t', ht, -, hnone⟩ := find_eq_some_iff.mp hfind
      by_contra hlt
      obtain ⟨tail, ha, hrest⟩ := split_le (he.symm.trans ht) (Nat.le_of_not_le hlt)
      cases tail with
      | nil =>
        rw [List.append_nil] at ha
        exact hlt (Nat.le_of_eq (congrArg List.length ha))
      | cons c tail => exact hne (hrest ▸ hnone before c tail ha)
  · intro hclear
    cases hexpected : expected with
    | none =>
      refine find_eq_none_iff.mpr fun a b he => ?_
      by_contra hne
      obtain ⟨r, hr, -⟩ := hclear a b he hne
      rw [hexpected] at hr
      cases hr
    | some r =>
      obtain ⟨a, b, u⟩ := r
      obtain ⟨t', ht, hhead⟩ := hway a b u hexpected
      refine find_eq_some_iff.mpr ⟨t', ht, hhead, fun a₁ c a₂ ha => ?_⟩
      by_contra hne
      obtain ⟨r, hr, hle⟩ := hclear a₁ (c :: a₂ ++ t') (by rw [ht, ha]; simp) hne
      rw [hexpected] at hr
      cases hr
      rw [ha, List.length_append, List.length_cons] at hle
      omega

end Find

/-! ## All matches and where they are expected -/

/-- `findAll`, with what stands before and after each match; `before` is before the text. -/
def findAllAt (m : Matcher α β) : Nat → List α → List α → List (List α × β × List α)
  | 0, before, [] => ((m []).head?.map fun r => (before, r)).toList
  | _ + 1, _, [] => []
  | 0, before, c :: t =>
    match m (c :: t) with
    | r :: _ => (before, r) :: findAllAt m (t.length - r.2.length) (before ++ [c]) t
    | [] => findAllAt m 0 (before ++ [c]) t
  | skip + 1, before, c :: t => findAllAt m skip (before ++ [c]) t

theorem findAll_eq_map {m : Matcher α β} {t : List α} (skip : Nat) (before : List α) :
    findAll m skip t = (findAllAt m skip before t).map fun r => r.2.1 := by
  induction t generalizing skip before with
  | nil =>
    cases skip with
    | zero =>
      rw [findAll, findAllAt]
      cases (m []).head? <;> rfl
    | succ skip => rfl
  | cons c t ih =>
    cases skip with
    | zero =>
      rw [findAll, findAllAt]
      cases m (c :: t) with
      | nil => exact ih _ _
      | cons r ways => exact congrArg (r.1 :: ·) (ih _ _)
    | succ skip => exact ih _ _

/-- The matches of a text one after the other: no way before each, and the preferred one there. -/
inductive Spans (m : Matcher α β) : List α → List α → List (List α × β × List α) → Prop
  | nil {before t : List α} (hnone : ∀ a b, t = a ++ b → m b = []) : Spans m before t []
  | cons {before a w u : List α} {b : β} {l : List (List α × β × List α)}
      (hnone : ∀ a₁ c a₂, a = a₁ ++ c :: a₂ → m (c :: a₂ ++ (w ++ u)) = [])
      (hhead : (m (w ++ u)).head? = some (b, u)) (hne : w ≠ []) (hrest : Spans m (before ++ a ++ w) u l) :
      Spans m before (a ++ (w ++ u)) ((before ++ a, b, u) :: l)

/-- Texts that lie one after the other in a text. -/
inductive Laid : List α → List α → List (List α × β × List α) → Prop
  | nil {before t : List α} : Laid before t []
  | cons {before a w u : List α} {b : β} {l : List (List α × β × List α)} (hne : w ≠ [])
      (hrest : Laid (before ++ a ++ w) u l) : Laid before (a ++ (w ++ u)) ((before ++ a, b, u) :: l)

/-- The matcher prefers what is expected where it is, and has no way outside. -/
structure OnlyAt (m : Matcher α β) (before t : List α) (l : List (List α × β × List α)) : Prop where
  prefers : ∀ a b u t', t = a ++ t' → (before ++ a, b, u) ∈ l → (m t').head? = some (b, u)
  covers : ∀ a t', t = a ++ t' → m t' ≠ [] →
    ∃ r, r ∈ l ∧ r.1.length ≤ (before ++ a).length ∧ r.2.2.length < t'.length

section FindAll

variable {m : Matcher α β} {before a b t u w : List α} {l : List (List α × β × List α)}

theorem findAllAt_pass (h : ∀ a₁ c a₂, a = a₁ ++ c :: a₂ → m (c :: a₂ ++ t) = []) :
    findAllAt m 0 before (a ++ t) = findAllAt m 0 (before ++ a) t := by
  induction a generalizing before with
  | nil => rw [List.nil_append, List.append_nil]
  | cons c a ih =>
    have hfirst : m (c :: (a ++ t)) = [] := h [] c a rfl
    rw [List.cons_append, findAllAt, hfirst]
    dsimp only
    rw [ih fun a₁ d a₂ he => h (c :: a₁) d a₂ (congrArg _ he), List.append_assoc]
    rfl

theorem findAllAt_skip : findAllAt m w.length before (w ++ u) = findAllAt m 0 (before ++ w) u := by
  induction w generalizing before with
  | nil => rw [List.length_nil, List.nil_append, List.append_nil]
  | cons c w ih =>
    rw [List.length_cons, List.cons_append, findAllAt, ih, List.append_assoc]
    rfl

theorem findAllAt_none (h : ∀ a b, t = a ++ b → m b = []) : findAllAt m 0 before t = [] := by
  induction t generalizing before with
  | nil =>
    rw [findAllAt, h [] [] rfl]
    rfl
  | cons c t ih =>
    rw [findAllAt, h [] (c :: t) rfl]
    exact ih fun a b he => h (c :: a) b (congrArg _ he)

theorem findAllAt_of_spans (h : Spans m before t l) : findAllAt m 0 before t = l := by
  induction h with
  | nil hnone => exact findAllAt_none hnone
  | @cons before a w u b l hnone hhead hne hrest ih =>
    rw [findAllAt_pass hnone]
    obtain ⟨c, w, rfl⟩ := List.exists_cons_of_ne_nil hne
    obtain ⟨ways, hways⟩ := List.head?_eq_some_iff.mp hhead
    have hskip : (w ++ u).length - u.length = w.length := by
      rw [List.length_append]
      omega
    rw [List.cons_append] at hways ⊢
    rw [findAllAt, hways]
    dsimp only
    rw [hskip, findAllAt_skip, ← ih, List.append_assoc (before ++ a)]
    rfl

/-- Where no way is empty, the matches are one after the other. -/
theorem spans_findAllAt (hproper : ∀ t b u, (b, u) ∈ m t → ∃ w, w ≠ [] ∧ t = w ++ u) (before t : List α) :
    Spans m before t (findAllAt m 0 before t) := by
  have hsome : ∀ n (before t : List α), t.length ≤ n → ∃ l, Spans m before t l := by
    intro n
    induction n with
    | zero =>
      intro before t hlen
      obtain rfl := List.eq_nil_of_length_eq_zero (Nat.le_zero.mp hlen)
      refine ⟨[], .nil fun a b he => ?_⟩
      obtain ⟨rfl, rfl⟩ := List.append_eq_nil_iff.mp he.symm
      refine List.eq_nil_iff_forall_not_mem.mpr fun r hr => ?_
      obtain ⟨w, hw, he⟩ := hproper [] r.1 r.2 hr
      exact hw (List.append_eq_nil_iff.mp he.symm).1
    | succ n ih =>
      intro before t hlen
      cases hfind : find m t with
      | none => exact ⟨[], .nil (find_eq_none_iff.mp hfind)⟩
      | some r =>
        obtain ⟨a, b, u⟩ := r
        obtain ⟨t', rfl, hhead, hnone⟩ := find_eq_some_iff.mp hfind
        obtain ⟨w, hw, rfl⟩ := hproper t' b u (List.mem_of_head? hhead)
        have hpos : 0 < w.length := List.length_pos_of_ne_nil hw
        rw [List.length_append, List.length_append] at hlen
        obtain ⟨l, hl⟩ := ih (before ++ a ++ w) u (by omega)
        exact ⟨_, .cons hnone hhead hw hl⟩
  obtain ⟨l, hl⟩ := hsome t.length before t (Nat.le_refl _)
  rw [findAllAt_of_spans hl]
  exact hl

theorem Laid.start (h : Laid before t l) {r : List α × β × List α} (hr : r ∈ l) : before.length ≤ r.1.length := by
  induction h with
  | nil => cases hr
  | @cons before a w u b l hne hrest ih =>
    rcases List.mem_cons.mp hr with rfl | hr
    · rw [List.length_append]
      exact Nat.le_add_right _ _
    · have hlater := ih hr
      rw [List.length_append, List.length_append] at hlater
      omega

theorem Laid.prepend {x : List α} (h : Laid (before ++ x) t l) : Laid before (x ++ t) l := by
  generalize hstart : before ++ x = start at h
  cases h with
  | nil => exact .nil
  | @cons _ a w u b l hne hrest =>
    subst hstart
    rw [← List.append_assoc x, List.append_assoc before]
    refine .cons hne ?_
    rwa [← List.append_assoc before]

theorem Laid.of_spans (h : Spans m before t l) : Laid before t l := by
  induction h with
  | nil _ => exact .nil
  | cons _ _ hne _ ih => exact .cons hne ih

theorem onlyAt_of_spans (h : Spans m before t l) : OnlyAt m before t l := by
  induction h with
  | nil hnone => exact ⟨nofun, fun a t' he hne => absurd (hnone a t' he) hne⟩
  | @cons before a w u b l hnone hhead hne hrest ih =>
    have hsplit : a ++ (w ++ u) = (a ++ w) ++ u := (List.append_assoc a w u).symm
    constructor
    · intro a' b' u' t' he hmem
      rcases List.mem_cons.mp hmem with heq | hmem
      · obtain ⟨ha, hb⟩ := Prod.mk.inj heq
        obtain ⟨rfl, rfl⟩ := Prod.mk.inj hb
        obtain rfl := List.append_cancel_left ha
        rw [← List.append_cancel_left he]
        exact hhead
      · have hlater := (Laid.of_spans hrest).start hmem
        have hle : (a ++ w).length ≤ a'.length := by
          simp only [List.length_append] at hlater ⊢
          omega
        obtain ⟨a'', rfl, hu⟩ := split_le (hsplit.symm.trans he) hle
        refine ih.prefers a'' b' u' t' hu ?_
        rwa [List.append_assoc before, List.append_assoc before]
    · intro a' t' he hway
      by_cases hbefore : a'.length < a.length
      · obtain ⟨z, rfl, rfl⟩ := split_le he.symm (Nat.le_of_lt hbefore)
        cases z with
        | nil => simp at hbefore
        | cons c z => exact absurd (hnone a' c z rfl) hway
      · by_cases hafter : (a ++ w).length ≤ a'.length
        · obtain ⟨a'', rfl, hu⟩ := split_le (hsplit.symm.trans he) hafter
          obtain ⟨r, hr, hstart, hend⟩ := ih.covers a'' t' hu hway
          refine ⟨r, List.mem_cons_of_mem _ hr, ?_, hend⟩
          rwa [List.append_assoc before, List.append_assoc before] at hstart
        · have hlen := congrArg List.length he
          simp only [List.length_append] at hlen hafter
          refine ⟨(before ++ a, b, u), List.mem_cons_self, ?_, ?_⟩
          · simp only [List.length_append]
            omega
          · show u.length < t'.length
            omega

theorem spans_of_onlyAt (hlaid : Laid before t l) (h : OnlyAt m before t l) : Spans m before t l := by
  induction hlaid with
  | nil =>
    refine .nil fun a b he => ?_
    by_contra hway
    obtain ⟨r, hr, -⟩ := h.covers a b he hway
    cases hr
  | @cons before a w u b l hne hrest ih =>
    refine .cons (fun a₁ c a₂ ha => ?_) (h.prefers a b u (w ++ u) rfl List.mem_cons_self) hne (ih ⟨?_, ?_⟩)
    · by_contra hway
      obtain ⟨r, hr, hstart, -⟩ := h.covers a₁ (c :: a₂ ++ (w ++ u)) (by rw [ha, List.append_assoc]) hway
      have hlen := congrArg List.length ha
      simp only [List.length_append, List.length_cons] at hlen hstart
      rcases List.mem_cons.mp hr with rfl | hr
      · simp only [List.length_append] at hstart
        omega
      · have hlater := hrest.start hr
        simp only [List.length_append] at hlater
        omega
    · intro a' b' u' t' he hmem
      refine h.prefers (a ++ w ++ a') b' u' t' (by rw [he]; simp only [List.append_assoc]) (List.mem_cons_of_mem _ ?_)
      rwa [← List.append_assoc before, ← List.append_assoc before]
    · intro a' t' he hway
      obtain ⟨r, hr, hstart, hend⟩ := h.covers (a ++ w ++ a') t' (by rw [he]; simp only [List.append_assoc]) hway
      rcases List.mem_cons.mp hr with rfl | hr
      · rw [he, List.length_append] at hend
        omega
      · rw [← List.append_assoc before, ← List.append_assoc before] at hstart
        exact ⟨r, hr, hstart, hend⟩

/-- All matches are the expected ones exactly when the matcher has its ways only there. -/
theorem findAllAt_eq_iff (hproper : ∀ t b u, (b, u) ∈ m t → ∃ w, w ≠ [] ∧ t = w ++ u) (hlaid : Laid before t l) :
    findAllAt m 0 before t = l ↔ OnlyAt m before t l := by
  constructor
  · rintro rfl
    exact onlyAt_of_spans (spans_findAllAt hproper before t)
  · exact fun h => findAllAt_of_spans (spans_of_onlyAt hlaid h)

end FindAll

end Matcher
end DocPipeline.Lib

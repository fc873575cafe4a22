import Mathlib.Data.List.Basic

/-!
# Backtracking matchers

A matcher gives the ways in which a beginning of a text matches, the preferred one first,
each with what it captures and what is left. `search` takes the preferred way at the first
position that has one. What a way consists of needs no order; which way is taken does, and
the rules for it are at the end.
-/
namespace DocPipeline.Lib

set_option autoImplicit false

universe u
variable {α β γ : Type u}

/-- Matchers on texts over `α` that capture a `β`. -/
def Matcher (α β : Type u) := List α → List (β × List α)

/-! ## Where a character stands in two splits of a text -/

section Split

variable {a b x y : List α} {c : α}

theorem split_before (hc : c ∉ a) (h : a ++ x = b ++ c :: y) : ∃ b', b = a ++ b' ∧ x = b' ++ c :: y := by
  rcases List.append_eq_append_iff.mp h with ⟨b', hb, hx⟩ | ⟨cs, rfl, he⟩
  · exact ⟨b', hb, hx⟩
  · cases cs with
    | nil => exact ⟨[], (List.append_nil _).symm ▸ (List.append_nil _).symm, he.symm⟩
    | cons d cs =>
      refine absurd (List.mem_append_right b ?_) hc
      rw [(List.cons.inj he).1]
      exact List.mem_cons_self

theorem split_after (hc : c ∉ x) (h : a ++ x = b ++ c :: y) : ∃ y', a = b ++ c :: y' ∧ y = y' ++ x := by
  rcases List.append_eq_append_iff.mp h with ⟨b', -, hx⟩ | ⟨cs, ha, he⟩
  · exact absurd (hx ▸ List.mem_append_right b' List.mem_cons_self) hc
  · cases cs with
    | nil => exact absurd (he ▸ List.mem_cons_self : c ∈ [] ++ x) hc
    | cons d cs =>
      obtain ⟨rfl, rfl⟩ := List.cons.inj he
      exact ⟨cs, ha, rfl⟩

end Split

namespace Matcher

instance : Monad (Matcher α) where
  pure b := fun t => [(b, t)]
  bind m k := fun t => (m t).flatMap fun r => k r.1 r.2

def lit [DecidableEq α] (word : List α) : Matcher α (List α) := fun t =>
  if word <+: t then [(word, t.drop word.length)] else []

def opt (m : Matcher α (List α)) : Matcher α (List α) := fun t => m t ++ [([], t)]

/-- Any number of characters, as many as possible first. -/
def many (p : α → Bool) : Matcher α (List α)
  | [] => [([], [])]
  | c :: t =>
    if p c then ((many p t).map fun r => (c :: r.1, r.2)) ++ [([], c :: t)]
    else [([], c :: t)]

/-- Any number of characters, as few as possible first. -/
def few (p : α → Bool) : Matcher α (List α)
  | [] => [([], [])]
  | c :: t => ([], c :: t) :: if p c then (few p t).map fun r => (c :: r.1, r.2) else []

def one (p : α → Bool) : Matcher α (List α)
  | [] => []
  | c :: t => if p c then [([c], t)] else []

/-- At least one character, as many as possible first. -/
def many1 (p : α → Bool) : Matcher α (List α) := do
  let first ← one p
  let rest ← many p
  return first ++ rest

/-- At least one character, as few as possible first. -/
def few1 (p : α → Bool) : Matcher α (List α) := do
  let first ← one p
  let rest ← few p
  return first ++ rest

def exactly (p : α → Bool) : Nat → Matcher α (List α)
  | 0 => pure []
  | n + 1 => do
    let first ← one p
    let rest ← exactly p n
    return first ++ rest

/-- The preferred way of the first position that has one. -/
def search (m : Matcher α β) : List α → Option β
  | [] => (m []).head?.map Prod.fst
  | c :: t =>
    match m (c :: t) with
    | r :: _ => some r.1
    | [] => search m t

/-- The same, with what stands before and after the match. -/
def find (m : Matcher α β) : List α → Option (List α × β × List α)
  | [] => (m []).head?.map fun r => ([], r)
  | c :: t =>
    match m (c :: t) with
    | r :: _ => some ([], r)
    | [] => (find m t).map fun r => (c :: r.1, r.2)

/-- Every match, each search starting where the match before it ended; `skip` characters
are still part of it. -/
def findAll (m : Matcher α β) : Nat → List α → List β
  | 0, [] => ((m []).head?.map Prod.fst).toList
  | _ + 1, [] => []
  | 0, c :: t =>
    match m (c :: t) with
    | r :: _ => r.1 :: findAll m (t.length - r.2.length) t
    | [] => findAll m 0 t
  | skip + 1, _ :: t => findAll m skip t

section Ways

variable {m : Matcher α β} {k : β → Matcher α γ} {p : α → Bool} {t u w : List α}

@[simp] theorem mem_pure {b c : β} : (c, u) ∈ (pure b : Matcher α β) t ↔ c = b ∧ u = t := by
  change (c, u) ∈ [(b, t)] ↔ _
  rw [List.mem_singleton, Prod.mk.injEq]

@[simp] theorem mem_bind {c : γ} : (c, u) ∈ (m >>= k) t ↔ ∃ b v, (b, v) ∈ m t ∧ (c, u) ∈ k b v := by
  change (c, u) ∈ (m t).flatMap _ ↔ _
  rw [List.mem_flatMap]
  exact Prod.exists

@[simp] theorem mem_lit [DecidableEq α] {word : List α} : (w, u) ∈ lit word t ↔ w = word ∧ t = word ++ u := by
  unfold lit
  split
  · next h =>
    obtain ⟨v, rfl⟩ := h
    rw [List.drop_left, List.mem_singleton, Prod.mk.injEq, List.append_cancel_left_eq, eq_comm (a := u)]
  · next h => exact iff_of_false (by simp) fun he => h ⟨u, he.2.symm⟩

@[simp] theorem mem_opt {m : Matcher α (List α)} : (w, u) ∈ opt m t ↔ (w, u) ∈ m t ∨ (w = [] ∧ u = t) := by
  unfold opt
  rw [List.mem_append, List.mem_singleton, Prod.mk.injEq]

theorem mem_map_cons {c : α} {ways : List (List α × List α)} :
    (w, u) ∈ ways.map (fun r => (c :: r.1, r.2)) ↔ ∃ v, w = c :: v ∧ (v, u) ∈ ways := by
  rw [List.mem_map]
  constructor
  · rintro ⟨⟨v, _⟩, hmem, he⟩
    obtain ⟨rfl, rfl⟩ := Prod.mk.inj he
    exact ⟨v, rfl, hmem⟩
  · rintro ⟨v, rfl, hmem⟩
    exact ⟨(v, u), hmem, rfl⟩

/-- The two ways a run of characters can go on at the next one. -/
theorem run_cons {c : α} : (∃ v, w = c :: v ∧ t = v ++ u ∧ ∀ d, d ∈ v → p d = true) ∧ p c = true ∨ (w = [] ∧ u = c :: t) ↔
    c :: t = w ++ u ∧ ∀ d, d ∈ w → p d = true := by
  constructor
  · rintro (⟨⟨v, rfl, rfl, hv⟩, hc⟩ | ⟨rfl, rfl⟩)
    · exact ⟨rfl, fun d hd => (List.mem_cons.mp hd).elim (fun he => he ▸ hc) (hv d)⟩
    · exact ⟨rfl, fun _ hd => nomatch hd⟩
  · rintro ⟨he, hall⟩
    cases w with
    | nil => exact Or.inr ⟨rfl, he.symm⟩
    | cons d v =>
      obtain ⟨rfl, rfl⟩ := List.cons.inj he
      exact Or.inl ⟨⟨v, rfl, rfl, fun d hd => hall d (List.mem_cons_of_mem _ hd)⟩, hall c List.mem_cons_self⟩

@[simp] theorem mem_many : (w, u) ∈ many p t ↔ t = w ++ u ∧ ∀ c, c ∈ w → p c = true := by
  induction t generalizing w u with
  | nil =>
    rw [many, List.mem_singleton, Prod.mk.injEq, eq_comm (a := []), List.append_eq_nil_iff]
    exact ⟨fun h => ⟨h, by simp [h.1]⟩, And.left⟩
  | cons c t ih =>
    rw [many, ← run_cons]
    split
    · next hc => simp only [List.mem_append, mem_map_cons, ih, hc, and_true, List.mem_singleton, Prod.mk.injEq]
    · next hc => simp only [hc, Bool.false_eq_true, and_false, false_or, List.mem_singleton, Prod.mk.injEq]

@[simp] theorem mem_few : (w, u) ∈ few p t ↔ t = w ++ u ∧ ∀ c, c ∈ w → p c = true := by
  induction t generalizing w u with
  | nil =>
    rw [few, List.mem_singleton, Prod.mk.injEq, eq_comm (a := []), List.append_eq_nil_iff]
    exact ⟨fun h => ⟨h, by simp [h.1]⟩, And.left⟩
  | cons c t ih =>
    rw [few, ← run_cons, List.mem_cons, Prod.mk.injEq, or_comm]
    split
    · next hc => simp only [mem_map_cons, ih, hc, and_true]
    · next hc => simp only [hc, Bool.false_eq_true, and_false, List.not_mem_nil]

@[simp] theorem mem_one : (w, u) ∈ one p t ↔ ∃ c, w = [c] ∧ t = c :: u ∧ p c = true := by
  cases t with
  | nil => simp [one]
  | cons c t =>
    by_cases hc : p c = true
    · simp only [one, hc, if_true, List.mem_singleton, Prod.mk.injEq, List.cons.injEq]
      constructor
      · rintro ⟨rfl, rfl⟩
        exact ⟨c, rfl, ⟨rfl, rfl⟩, hc⟩
      · rintro ⟨_, rfl, ⟨rfl, rfl⟩, _⟩
        exact ⟨rfl, rfl⟩
    · simp only [one, hc, Bool.false_eq_true, if_false, List.not_mem_nil, List.cons.injEq, false_iff]
      rintro ⟨_, _, ⟨rfl, _⟩, hp⟩
      exact hc hp

/-- What a first character and a run after it make together. -/
theorem first_rest {w u t : List α} :
    (∃ c v, t = c :: (v ++ u) ∧ p c = true ∧ (∀ d, d ∈ v → p d = true) ∧ w = c :: v) ↔
      t = w ++ u ∧ w ≠ [] ∧ ∀ c, c ∈ w → p c = true := by
  constructor
  · rintro ⟨c, v, rfl, hc, hv, rfl⟩
    exact ⟨rfl, List.cons_ne_nil _ _, fun d hd => (List.mem_cons.mp hd).elim (fun he => he ▸ hc) (hv d)⟩
  · rintro ⟨rfl, hne, hall⟩
    cases w with
    | nil => exact absurd rfl hne
    | cons c v =>
      exact ⟨c, v, rfl, hall c List.mem_cons_self, fun d hd => hall d (List.mem_cons_of_mem _ hd), rfl⟩

@[simp] theorem mem_many1 : (w, u) ∈ many1 p t ↔ t = w ++ u ∧ w ≠ [] ∧ ∀ c, c ∈ w → p c = true := by
  rw [← first_rest]
  simp only [many1, mem_bind, mem_one, mem_many, mem_pure]
  constructor
  · rintro ⟨_, _, ⟨c, rfl, rfl, hc⟩, v, _, ⟨rfl, hv⟩, rfl, rfl⟩
    exact ⟨c, v, rfl, hc, hv, rfl⟩
  · rintro ⟨c, v, rfl, hc, hv, rfl⟩
    exact ⟨_, _, ⟨c, rfl, rfl, hc⟩, v, _, ⟨rfl, hv⟩, rfl, rfl⟩

@[simp] theorem mem_few1 : (w, u) ∈ few1 p t ↔ t = w ++ u ∧ w ≠ [] ∧ ∀ c, c ∈ w → p c = true := by
  rw [← first_rest]
  simp only [few1, mem_bind, mem_one, mem_few, mem_pure]
  constructor
  · rintro ⟨_, _, ⟨c, rfl, rfl, hc⟩, v, _, ⟨rfl, hv⟩, rfl, rfl⟩
    exact ⟨c, v, rfl, hc, hv, rfl⟩
  · rintro ⟨c, v, rfl, hc, hv, rfl⟩
    exact ⟨_, _, ⟨c, rfl, rfl, hc⟩, v, _, ⟨rfl, hv⟩, rfl, rfl⟩

@[simp] theorem mem_exactly {n : Nat} :
    (w, u) ∈ exactly p n t ↔ t = w ++ u ∧ w.length = n ∧ ∀ c, c ∈ w → p c = true := by
  induction n generalizing t w u with
  | zero =>
    simp only [exactly, mem_pure, List.length_eq_zero_iff]
    constructor
    · rintro ⟨rfl, rfl⟩
      exact ⟨rfl, rfl, nofun⟩
    · rintro ⟨rfl, rfl, _⟩
      exact ⟨rfl, rfl⟩
  | succ n ih =>
    simp only [exactly, mem_bind, mem_one, ih, mem_pure]
    constructor
    · rintro ⟨_, _, ⟨c, rfl, rfl, hc⟩, v, _, ⟨rfl, hlen, hv⟩, rfl, rfl⟩
      exact ⟨rfl, congrArg Nat.succ hlen, fun d hd => (List.mem_cons.mp hd).elim (fun he => he ▸ hc) (hv d)⟩
    · rintro ⟨rfl, hlen, hall⟩
      cases w with
      | nil => cases hlen
      | cons c v =>
        exact ⟨_, _, ⟨c, rfl, rfl, hall c List.mem_cons_self⟩, v, _,
          ⟨rfl, Nat.succ.inj hlen, fun d hd => hall d (List.mem_cons_of_mem _ hd)⟩, rfl, rfl⟩

/-- A search finds the preferred way at a position before which no way starts. -/
theorem find_eq_some_iff {a : List α} {b : β} : find m t = some (a, b, u) ↔
    ∃ t', t = a ++ t' ∧ (m t').head? = some (b, u) ∧ ∀ a₁ c a₂, a = a₁ ++ c :: a₂ → m (c :: a₂ ++ t') = [] := by
  induction t generalizing a with
  | nil =>
    rw [find, Option.map_eq_some_iff]
    constructor
    · rintro ⟨_, hr, he⟩
      cases he
      exact ⟨[], rfl, hr, fun a₁ c a₂ he => by simp at he⟩
    · rintro ⟨t', he, hr, _⟩
      obtain ⟨rfl, rfl⟩ := List.append_eq_nil_iff.mp he.symm
      exact ⟨(b, u), hr, rfl⟩
  | cons c t ih =>
    rw [find]
    split
    · next r rs hr =>
      constructor
      · intro he
        cases he
        exact ⟨c :: t, rfl, by rw [hr]; rfl, fun a₁ c a₂ he => by simp at he⟩
      · rintro ⟨t', he, hhead, hnone⟩
        cases a with
        | nil =>
          obtain rfl : c :: t = t' := he
          rw [hr] at hhead
          cases hhead
          rfl
        | cons d a =>
          have hfirst := hnone [] d a rfl
          rw [List.cons_append, ← List.cons_append, ← he, hr] at hfirst
          cases hfirst
    · next hnil =>
      rw [Option.map_eq_some_iff]
      constructor
      · rintro ⟨⟨a', _⟩, hr, he⟩
        cases he
        obtain ⟨t', rfl, hhead, hnone⟩ := ih.mp hr
        refine ⟨t', rfl, hhead, fun a₁ d a₂ he => ?_⟩
        cases a₁ with
        | nil =>
          obtain ⟨rfl, rfl⟩ := List.cons.inj he
          exact hnil
        | cons e a₁ => exact hnone a₁ d a₂ (List.cons.inj he).2
      · rintro ⟨t', he, hhead, hnone⟩
        cases a with
        | nil =>
          rw [← show c :: t = t' from he, hnil] at hhead
          cases hhead
        | cons d a =>
          obtain ⟨rfl, rfl⟩ := List.cons.inj he
          exact ⟨(a, b, u), ih.mpr ⟨t', rfl, hhead, fun a₁ e a₂ he => hnone (c :: a₁) e a₂ (congrArg _ he)⟩, rfl⟩

theorem search_eq_find : search m t = (find m t).map fun r => r.2.1 := by
  induction t with
  | nil =>
    rw [search, find, Option.map_map]
    rfl
  | cons c t ih =>
    rw [search, find]
    cases m (c :: t) with
    | cons r rs => rfl
    | nil =>
      rw [Option.map_map]
      exact ih

theorem search_eq_none : search m t = none ↔ ∀ a b, t = a ++ b → m b = [] := by
  induction t with
  | nil =>
    rw [search, Option.map_eq_none_iff, List.head?_eq_none_iff]
    constructor
    · intro h a b he
      rw [(List.append_eq_nil_iff.mp he.symm).2, h]
    · exact fun h => h [] [] rfl
  | cons c t ih =>
    rw [search]
    split
    · next r rs hr => exact iff_of_false nofun fun h => by simp [h [] _ rfl] at hr
    · next hnil =>
      rw [ih]
      constructor
      · intro h a b he
        cases a with
        | nil => rwa [← show c :: t = b from he]
        | cons d a => exact h a b (List.cons.inj he).2
      · exact fun h a b he => h (c :: a) b (congrArg _ he)

/-- What a search finds is a way of one of the positions. -/
theorem search_found {b : β} (h : search m t = some b) : ∃ a t' u, t = a ++ t' ∧ (b, u) ∈ m t' := by
  induction t with
  | nil =>
    obtain ⟨r, hr, rfl⟩ := Option.map_eq_some_iff.mp h
    exact ⟨[], [], r.2, rfl, List.mem_of_head? hr⟩
  | cons c t ih =>
    rw [search] at h
    split at h
    · next r rs hr =>
      cases h
      exact ⟨[], c :: t, r.2, rfl, hr ▸ List.mem_cons_self⟩
    · obtain ⟨a, t', u, rfl, hmem⟩ := ih h
      exact ⟨c :: a, t', u, rfl, hmem⟩

end Ways

/-! ## The preferred way -/

section Preferred

variable {m : Matcher α β} {k : β → Matcher α γ} {p : α → Bool} {t : List α}

/-- Positions without a way are passed over. -/
theorem search_skip {a b : List α} (h : ∀ a₁ c a₂, a = a₁ ++ c :: a₂ → m (c :: a₂ ++ b) = []) :
    search m (a ++ b) = search m b := by
  induction a with
  | nil => rfl
  | cons c a ih =>
    have hfirst : m (c :: (a ++ b)) = [] := h [] c a rfl
    rw [List.cons_append, search, hfirst]
    exact ih fun a₁ d a₂ he => h (c :: a₁) d a₂ (congrArg _ he)

theorem search_here (h : m t ≠ []) : search m t = (m t).head?.map Prod.fst := by
  cases t with
  | nil => rfl
  | cons c t =>
    rw [search]
    split
    · next r rs hr => rw [hr]; rfl
    · next hnil => exact absurd hnil h

/-- A sequence goes on from the preferred way, when that leads anywhere. -/
theorem head?_bind_of_cons {r : β × List α} {rs : List (β × List α)} (h : m t = r :: rs) (hk : k r.1 r.2 ≠ []) :
    ((m >>= k) t).head? = (k r.1 r.2).head? := by
  change ((m t).flatMap _).head? = _
  rw [h, List.flatMap_cons, List.head?_append_of_ne_nil _ hk]

/-- Where the ways are ordered, the one taken comes before all that lead anywhere. -/
theorem head?_bind_ordered {R : β × List α → β × List α → Prop} {x : γ × List α} (hordered : (m t).Pairwise R)
    (h : ((m >>= k) t).head? = some x) :
    ∃ r, r ∈ m t ∧ x ∈ k r.1 r.2 ∧ ∀ s, s ∈ m t → k s.1 s.2 ≠ [] → s = r ∨ R r s := by
  change ((m t).flatMap _).head? = _ at h
  generalize m t = ways at hordered h ⊢
  induction ways with
  | nil => cases h
  | cons r ways ih =>
    rw [List.pairwise_cons] at hordered
    by_cases hk : k r.1 r.2 = []
    · rw [List.flatMap_cons, hk, List.nil_append] at h
      obtain ⟨r', hmem, hx, hfirst⟩ := ih hordered.2 h
      refine ⟨r', List.mem_cons_of_mem _ hmem, hx, fun s hs hne => ?_⟩
      rcases List.mem_cons.mp hs with rfl | hs
      · exact absurd hk hne
      · exact hfirst s hs hne
    · rw [List.flatMap_cons, List.head?_append_of_ne_nil _ hk] at h
      refine ⟨r, List.mem_cons_self, List.mem_of_head? h, fun s hs _ => ?_⟩
      rcases List.mem_cons.mp hs with rfl | hs
      · exact Or.inl rfl
      · exact Or.inr (hordered.1 s hs)

/-- What a sequence prefers is what its end prefers after one of the ways of its start. -/
theorem head?_bind_mem {x : γ × List α} (h : ((m >>= k) t).head? = some x) :
    ∃ r, r ∈ m t ∧ (k r.1 r.2).head? = some x := by
  change ((m t).flatMap _).head? = _ at h
  generalize m t = ways at h ⊢
  induction ways with
  | nil => cases h
  | cons r ways ih =>
    by_cases hk : k r.1 r.2 = []
    · rw [List.flatMap_cons, hk, List.nil_append] at h
      obtain ⟨r', hmem, hx⟩ := ih h
      exact ⟨r', List.mem_cons_of_mem _ hmem, hx⟩
    · rw [List.flatMap_cons, List.head?_append_of_ne_nil _ hk] at h
      exact ⟨r, List.mem_cons_self, h⟩

theorem lit_bind [DecidableEq α] {k : List α → Matcher α γ} (word : List α) :
    (lit word >>= k) (word ++ t) = k word t := by
  change (lit word (word ++ t)).flatMap _ = _
  rw [lit, if_pos (List.prefix_append word t), List.drop_left, List.flatMap_singleton]

theorem opt_eq_cons [DecidableEq α] (word : List α) : opt (lit word) (word ++ t) = [(word, t), ([], word ++ t)] := by
  rw [opt, lit, if_pos (List.prefix_append word t), List.drop_left, List.singleton_append]

theorem many_eq_cons (p : α → Bool) (t : List α) : ∃ ways, many p t = (t.takeWhile p, t.dropWhile p) :: ways := by
  induction t with
  | nil => exact ⟨[], rfl⟩
  | cons c t ih =>
    obtain ⟨ways, hways⟩ := ih
    rw [many, List.takeWhile_cons, List.dropWhile_cons]
    split
    · exact ⟨_, by rw [hways]; rfl⟩
    · exact ⟨[], rfl⟩

/-- The preferred run goes on as far as it can. -/
theorem many1_head? {w u : List α} (h : (many1 p t).head? = some (w, u)) : w = t.takeWhile p ∧ u = t.dropWhile p := by
  cases t with
  | nil => cases h
  | cons c t =>
    obtain ⟨⟨first, rest⟩, hone, h⟩ := head?_bind_mem h
    obtain ⟨_, rfl, he, hc⟩ := mem_one.mp hone
    obtain ⟨rfl, rfl⟩ := List.cons.inj he
    obtain ⟨ways, hways⟩ := many_eq_cons p t
    rw [head?_bind_of_cons hways (List.cons_ne_nil _ _)] at h
    cases h
    rw [List.takeWhile_cons, List.dropWhile_cons, if_pos hc, if_pos hc]
    exact ⟨rfl, rfl⟩

theorem many_ordered (p : α → Bool) (t : List α) :
    (many p t).Pairwise fun r s : List α × List α => s.1.length < r.1.length := by
  induction t with
  | nil => exact List.pairwise_singleton _ _
  | cons c t ih =>
    rw [many]
    split
    · refine List.pairwise_append.mpr ⟨?_, List.pairwise_singleton _ _, ?_⟩
      · exact List.pairwise_map.mpr (ih.imp fun h => Nat.succ_lt_succ h)
      · intro r hr s hs
        obtain ⟨_, _, rfl⟩ := List.mem_map.mp hr
        rw [List.mem_singleton.mp hs]
        exact Nat.succ_pos _
    · exact List.pairwise_singleton _ _

theorem few_ordered (p : α → Bool) (t : List α) :
    (few p t).Pairwise fun r s : List α × List α => r.1.length < s.1.length := by
  induction t with
  | nil => exact List.pairwise_singleton _ _
  | cons c t ih =>
    rw [few]
    refine List.pairwise_cons.mpr ⟨fun r hr => ?_, ?_⟩
    · split at hr
      · obtain ⟨_, _, rfl⟩ := List.mem_map.mp hr
        exact Nat.succ_pos _
      · cases hr
    · split
      · exact List.pairwise_map.mpr (ih.imp fun h => Nat.succ_lt_succ h)
      · exact List.Pairwise.nil

end Preferred

end Matcher
end DocPipeline.Lib

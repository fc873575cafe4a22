import Mathlib.Data.List.Induction
import Mathlib.Logic.Relation

/-!
# Runs of a labelled step relation

`Run step Guard s as t` is a finite run from `s` to `t` through the labels `as`,
each of whose steps meets `Guard` in the state it starts from. An unguarded run
is the same relation with the guard that is always true. Everything proved of one
step is carried to whole runs here, once.
-/
namespace DocPipeline.Lib

set_option autoImplicit false

universe u v
variable {σ : Type u} {α : Type v}

/-- The guard that every step meets. -/
def Always (_ : σ) (_ : α) : Prop := True

inductive Run (step : σ → α → σ → Prop) (Guard : σ → α → Prop) (s : σ) : List α → σ → Prop
  | nil : Run step Guard s [] s
  | snoc {t u : σ} {as : List α} {a : α} :
      Run step Guard s as t → Guard t a → step t a u → Run step Guard s (as ++ [a]) u

namespace Run

variable {step : σ → α → σ → Prop} {Guard : σ → α → Prop}

theorem single {s t : σ} {a : α} (hg : Guard s a) (h : step s a t) : Run step Guard s [a] t :=
  snoc nil hg h

theorem trans {s t u : σ} {as bs : List α} (h : Run step Guard s as t)
    (k : Run step Guard t bs u) : Run step Guard s (as ++ bs) u := by
  induction k with
  | nil => rwa [List.append_nil]
  | snoc _ hg hs ih =>
    rw [← List.append_assoc]
    exact snoc ih hg hs

/-- Folding a function over labels that meet the guard anywhere is a run. -/
theorem foldl {f : σ → α → σ} (as : List α) (hguard : ∀ a, a ∈ as → ∀ s, Guard s a) (s : σ) :
    Run (fun s a t => f s a = t) Guard s as (as.foldl f s) := by
  induction as generalizing s with
  | nil => exact nil
  | cons a as ih =>
    have hfirst : Run (fun s a t => f s a = t) Guard s [a] (f s a) := single (hguard a List.mem_cons_self s) rfl
    exact hfirst.trans (ih (fun b hb => hguard b (List.mem_cons_of_mem _ hb)) (f s a))

/-- Weakening the guard keeps a run. -/
theorem mono {Weak : σ → α → Prop} {s t : σ} {as : List α} (h : Run step Guard s as t)
    (hw : ∀ s a, Guard s a → Weak s a) : Run step Weak s as t := by
  induction h with
  | nil => exact nil
  | snoc _ hg hs ih => exact snoc ih (hw _ _ hg) hs

theorem unguarded {s t : σ} {as : List α} (h : Run step Guard s as t) : Run step Always s as t :=
  h.mono fun _ _ _ => trivial

/-- An invariant that every guarded step keeps holds at the end of every guarded run. -/
theorem invariant {P : σ → Prop} {s t : σ} {as : List α} (h : Run step Guard s as t)
    (h0 : P s) (hstep : ∀ s a t, P s → Guard s a → step s a t → P t) : P t := by
  induction h with
  | nil => exact h0
  | snoc _ hg hs ih => exact hstep _ _ _ ih hg hs

/-- Two step relations that agree wherever an invariant of the first holds have the same runs. -/
theorem congr {step' : σ → α → σ → Prop} {P : σ → Prop} {s t : σ} {as : List α}
    (hinv : ∀ as t, Run step Guard s as t → P t)
    (hsame : ∀ s a t, P s → Guard s a → (step s a t ↔ step' s a t)) : Run step Guard s as t ↔ Run step' Guard s as t := by
  constructor
  · intro h
    induction h with
    | nil => exact nil
    | snoc hrun hg hs ih => exact snoc ih hg ((hsame _ _ _ (hinv _ _ hrun) hg).mp hs)
  · intro h
    induction h with
    | nil => exact nil
    | snoc _ hg hs ih => exact snoc ih hg ((hsame _ _ _ (hinv _ _ ih) hg).mpr hs)

/-- A reflexive and transitive relation that every guarded step respects relates the
two ends of every guarded run. -/
theorem relates {R : σ → σ → Prop} {s t : σ} {as : List α} (h : Run step Guard s as t)
    (hrefl : ∀ s, R s s) (htrans : ∀ s t u, R s t → R t u → R s u)
    (hstep : ∀ s a t, Guard s a → step s a t → R s t) : R s t := by
  induction h with
  | nil => exact hrefl s
  | snoc _ hg hs ih => exact htrans _ _ _ ih (hstep _ _ _ hg hs)

theorem snoc_inv {s u : σ} {as : List α} {a : α} (h : Run step Guard s (as ++ [a]) u) :
    ∃ t, Run step Guard s as t ∧ Guard t a ∧ step t a u := by
  generalize heq : as ++ [a] = bs at h
  cases h with
  | nil => exact absurd heq (List.append_ne_nil_of_right_ne_nil _ (List.cons_ne_nil _ _))
  | snoc hrun hg hs =>
    obtain ⟨rfl, hlast⟩ := List.append_inj' heq rfl
    cases hlast
    exact ⟨_, hrun, hg, hs⟩

theorem split {s u : σ} {as bs : List α} (h : Run step Guard s (as ++ bs) u) :
    ∃ t, Run step Guard s as t ∧ Run step Guard t bs u := by
  induction bs using List.reverseRecOn generalizing u with
  | nil => exact ⟨u, List.append_nil as ▸ h, .nil⟩
  | append_singleton bs a ih =>
    rw [← List.append_assoc] at h
    obtain ⟨m, hm, hg, hs⟩ := snoc_inv h
    obtain ⟨t, hfirst, hrest⟩ := ih hm
    exact ⟨t, hfirst, .snoc hrest hg hs⟩

/-- Where a step has one outcome, the labels decide where a run ends. -/
theorem unique {Other : σ → α → Prop} {s t t' : σ} {as : List α} (hdet : ∀ s a t t', step s a t → step s a t' → t = t')
    (h : Run step Guard s as t) (h' : Run step Other s as t') : t = t' := by
  induction h generalizing t' with
  | nil =>
    generalize heq : ([] : List α) = bs at h'
    cases h' with
    | nil => rfl
    | snoc => exact absurd heq.symm (List.append_ne_nil_of_right_ne_nil _ (List.cons_ne_nil _ _))
  | snoc _ _ hs ih =>
    obtain ⟨m, hm, _, hs'⟩ := snoc_inv h'
    obtain rfl := ih hm
    exact hdet _ _ _ _ hs hs'

end Run

/-- The state after a list of labels, as long as the guard holds of each step. -/
def execWhile (next : σ → α → Option σ) (guard : σ → α → Bool) : σ → List α → Option σ
  | s, [] => some s
  | s, a :: as => if guard s a then (next s a).bind fun t => execWhile next guard t as else none

theorem run_of_execWhile {next : σ → α → Option σ} {guard : σ → α → Bool} {s t : σ} {as : List α}
    (h : execWhile next guard s as = some t) :
    Run (fun s a t => next s a = some t) (fun s a => guard s a = true) s as t := by
  induction as generalizing s with
  | nil =>
    cases h
    exact .nil
  | cons a as ih =>
    unfold execWhile at h
    split at h
    · next hg =>
      obtain ⟨m, hm, ht⟩ := Option.bind_eq_some_iff.mp h
      have hfirst : Run (fun s a t => next s a = some t) (fun s a => guard s a = true) s [a] m := .single hg hm
      exact hfirst.trans (ih ht)
    · cases h

/-- The run from `s` to `t` has been in a state with `P`, its last one included. -/
def Passed (step : σ → α → σ → Prop) (Guard : σ → α → Prop) (s : σ) (as : List α) (P : σ → Prop) (t : σ) :
    Prop :=
  ∃ as₁ as₂ m, as = as₁ ++ as₂ ∧ Run step Guard s as₁ m ∧ Run step Guard m as₂ t ∧ P m

namespace Passed

variable {step : σ → α → σ → Prop} {Guard : σ → α → Prop} {s t u : σ} {as : List α} {a : α} {P : σ → Prop}

theorem here (h : Run step Guard s as t) (hp : P t) : Passed step Guard s as P t :=
  ⟨as, [], t, (List.append_nil as).symm, h, .nil, hp⟩

theorem snoc (h : Passed step Guard s as P t) (hg : Guard t a) (hs : step t a u) :
    Passed step Guard s (as ++ [a]) P u := by
  obtain ⟨as₁, as₂, m, rfl, hfirst, hrest, hp⟩ := h
  exact ⟨as₁, as₂ ++ [a], m, List.append_assoc .., hfirst, .snoc hrest hg hs, hp⟩

end Passed

/-- Some step of the run from `s` to `t` is taken in a state and by a label that meet `P`. -/
def Fired (step : σ → α → σ → Prop) (Guard : σ → α → Prop) (s : σ) (as : List α) (P : σ → α → Prop) (t : σ) :
    Prop :=
  ∃ as₁ a as₂ m m', as = as₁ ++ [a] ++ as₂ ∧ Run step Guard s as₁ m ∧ P m a ∧ step m a m' ∧ Run step Guard m' as₂ t

namespace Fired

variable {step : σ → α → σ → Prop} {Guard : σ → α → Prop} {s t u : σ} {as : List α} {a : α} {P : σ → α → Prop}

theorem last (h : Run step Guard s as t) (hp : P t a) (hs : step t a u) : Fired step Guard s (as ++ [a]) P u :=
  ⟨as, a, [], t, u, (List.append_nil _).symm, h, hp, hs, .nil⟩

theorem snoc (h : Fired step Guard s as P t) (hg : Guard t a) (hs : step t a u) :
    Fired step Guard s (as ++ [a]) P u := by
  obtain ⟨as₁, b, as₂, m, m', rfl, hfirst, hp, hstep, hrest⟩ := h
  exact ⟨as₁, b, as₂ ++ [a], m, m', List.append_assoc .., hfirst, hp, hstep, .snoc hrest hg hs⟩

/-- Where a step has one outcome, what fired met the guard of any run with these labels. -/
theorem met {Other : σ → α → Prop} (hdet : ∀ s a t t', step s a t → step s a t' → t = t')
    (h : Fired step Other s as P t) (hrun : Run step Guard s as u) :
    ∃ m a, Guard m a ∧ P m a := by
  obtain ⟨as₁, a, as₂, m, m', rfl, hfirst, hp, _, _⟩ := h
  obtain ⟨_, hto, _⟩ := hrun.split
  obtain ⟨k, hk, hg, _⟩ := hto.snoc_inv
  obtain rfl := hfirst.unique hdet hk
  exact ⟨m, a, hg, hp⟩

end Fired

/-- The run from `s` to `t`, with the sum of `f` over its steps. -/
inductive Tally {M : Type} [Add M] [Zero M] (step : σ → α → σ → Prop) (f : σ → α → σ → M) (s : σ) :
    List α → σ → M → Prop
  | nil : Tally step f s [] s 0
  | snoc {t u : σ} {as : List α} {a : α} {n : M} :
      Tally step f s as t n → step t a u → Tally step f s (as ++ [a]) u (n + f t a u)

namespace Tally

variable {M : Type} [Add M] [Zero M] {step : σ → α → σ → Prop} {f : σ → α → σ → M} {s t : σ} {as : List α} {n : M}

theorem run (h : Tally step f s as t n) : Run step Always s as t := by
  induction h with
  | nil => exact .nil
  | snoc _ hs ih => exact .snoc ih trivial hs

theorem mono {step' : σ → α → σ → Prop} (h : Tally step f s as t n) (hw : ∀ s a t, step s a t → step' s a t) :
    Tally step' f s as t n := by
  induction h with
  | nil => exact .nil
  | snoc _ hs ih => exact ih.snoc (hw _ _ _ hs)

theorem of_run (h : Run step Always s as t) : ∃ n, Tally step f s as t n := by
  induction h with
  | nil => exact ⟨0, .nil⟩
  | snoc _ _ hs ih =>
    obtain ⟨n, hn⟩ := ih
    exact ⟨_, hn.snoc hs⟩

/-- What holds of every label can be used at every step. -/
theorem labelled {G : α → Prop} (h : Tally step f s as t n) (hg : ∀ a, a ∈ as → G a) :
    Tally (fun s a t => G a ∧ step s a t) f s as t n := by
  induction h with
  | nil => exact .nil
  | snoc _ hs ih =>
    exact (ih fun a ha => hg a (List.mem_append_left _ ha)).snoc
      ⟨hg _ (List.mem_append_right _ (List.mem_singleton.mpr rfl)), hs⟩

/-- A relation of state and sum that holds at the start and that every step keeps. -/
theorem invariant {P : σ → M → Prop} (h : Tally step f s as t n) (h0 : P s 0)
    (hstep : ∀ s n a t, P s n → step s a t → P t (n + f s a t)) : P t n := by
  induction h with
  | nil => exact h0
  | snoc _ hs ih => exact hstep _ _ _ _ ih hs

end Tally

/-- Every step of a guarded run, summed up. -/
theorem Tally.of_guardedRun {M : Type} [Add M] [Zero M] {step : σ → α → σ → Prop} {Guard : σ → α → Prop}
    {f : σ → α → σ → M} {s t : σ} {as : List α} (h : Run step Guard s as t) :
    ∃ n, Tally (fun s a t => Guard s a ∧ step s a t) f s as t n := by
  induction h with
  | nil => exact ⟨0, .nil⟩
  | snoc _ hg hs ih =>
    obtain ⟨n, hn⟩ := ih
    exact ⟨_, hn.snoc ⟨hg, hs⟩⟩

/-- One more label of a tallied run, as long as the guard holds of the step. -/
def tallyNext {M : Type} [Add M] (next : σ → α → Option σ) (guard : σ → α → Bool) (f : σ → α → σ → M)
    (r : σ × M) (a : α) : Option (σ × M) :=
  if guard r.1 a then (next r.1 a).map fun t => (t, r.2 + f r.1 a t) else none

theorem tally_of_foldlM {M : Type} [Add M] [Zero M] {next : σ → α → Option σ} {guard : σ → α → Bool}
    {f : σ → α → σ → M} {s t : σ} {as : List α} {n : M} (h : as.foldlM (tallyNext next guard f) (s, 0) = some (t, n)) :
    Tally (fun s a t => guard s a = true ∧ next s a = some t) f s as t n := by
  induction as using List.reverseRecOn generalizing t n with
  | nil =>
    cases h
    exact .nil
  | append_singleton as a ih =>
    rw [List.foldlM_append] at h
    obtain ⟨⟨m, k⟩, hfirst, hlast⟩ := Option.bind_eq_some_iff.mp h
    rw [List.foldlM_cons, tallyNext] at hlast
    split at hlast
    · next hg =>
      obtain ⟨_, hnext, hrest⟩ := Option.bind_eq_some_iff.mp hlast
      obtain ⟨u, hu, rfl⟩ := Option.map_eq_some_iff.mp hnext
      cases hrest
      exact (ih hfirst).snoc ⟨hg, hu⟩
    · cases hlast

/-- The last of the values that the steps of a run note, to be tallied: a later one replaces it. -/
structure Latest (β : Type) where
  value : Option β

namespace Latest

variable {β : Type}

instance : Zero (Latest β) := ⟨⟨none⟩⟩

instance : Add (Latest β) := ⟨fun before noted => ⟨noted.value.or before.value⟩⟩

@[simp] theorem add_none (n : Latest β) : n + ⟨none⟩ = n := rfl

@[simp] theorem add_some (n : Latest β) (b : β) : n + ⟨some b⟩ = ⟨some b⟩ := rfl

end Latest

/-- Some run leads from `s` to `t`. -/
def Reaches (step : σ → α → σ → Prop) (Guard : σ → α → Prop) (s t : σ) : Prop :=
  ∃ as, Run step Guard s as t

namespace Reaches

variable {step : σ → α → σ → Prop} {Guard : σ → α → Prop}

theorem refl (s : σ) : Reaches step Guard s s := ⟨[], .nil⟩

theorem single {s t : σ} {a : α} (hg : Guard s a) (h : step s a t) : Reaches step Guard s t :=
  ⟨[a], .single hg h⟩

theorem trans {s t u : σ} (h : Reaches step Guard s t) (k : Reaches step Guard t u) :
    Reaches step Guard s u := by
  obtain ⟨as, ha⟩ := h
  obtain ⟨bs, hb⟩ := k
  exact ⟨as ++ bs, ha.trans hb⟩

theorem snoc {s t u : σ} {a : α} (h : Reaches step Guard s t) (hg : Guard t a) (hs : step t a u) :
    Reaches step Guard s u := h.trans (single hg hs)

theorem mono {Weak : σ → α → Prop} {s t : σ} (h : Reaches step Guard s t)
    (hw : ∀ s a, Guard s a → Weak s a) : Reaches step Weak s t := by
  obtain ⟨as, ha⟩ := h
  exact ⟨as, ha.mono hw⟩

theorem invariant {P : σ → Prop} {s t : σ} (h : Reaches step Guard s t) (h0 : P s)
    (hstep : ∀ s a t, P s → Guard s a → step s a t → P t) : P t := by
  obtain ⟨_, ha⟩ := h
  exact ha.invariant h0 hstep

theorem relates {R : σ → σ → Prop} {s t : σ} (h : Reaches step Guard s t)
    (hrefl : ∀ s, R s s) (htrans : ∀ s t u, R s t → R t u → R s u)
    (hstep : ∀ s a t, Guard s a → step s a t → R s t) : R s t := by
  obtain ⟨_, ha⟩ := h
  exact ha.relates hrefl htrans hstep

end Reaches
end DocPipeline.Lib

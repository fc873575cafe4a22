import Mathlib.Logic.Basic

/-!
# Transactions

A transaction reads and writes a database state and may raise. `Commits t s a s'`
says that `t`, started on `s`, returns `a` and commits `s'`; a transaction that
raises commits nothing, so its effect is the identity (`settle`). The lemmas invert
`Commits` through the monad, so that the effect of a handler is read off its text.
-/
namespace DocPipeline.Lib

set_option autoImplicit false

universe u
variable {σ ε α β : Type u}

abbrev Transaction (σ ε α : Type u) := StateT σ (Except ε) α

namespace Transaction

def Commits (t : Transaction σ ε α) (s : σ) (a : α) (s' : σ) : Prop := t.run s = .ok (a, s')

/-- The state after `t`: committed, or rolled back to where it started. -/
def settle (t : Transaction σ ε α) (s : σ) : σ :=
  match t.run s with
  | .ok (_, s') => s'
  | .error _ => s

@[simp] theorem commits_pure {a b : α} {s s' : σ} :
    Commits (pure a : Transaction σ ε α) s b s' ↔ a = b ∧ s = s' := by
  change (Except.ok (a, s) : Except ε (α × σ)) = .ok (b, s') ↔ _
  rw [Except.ok.injEq, Prod.mk.injEq]

@[simp] theorem commits_bind {t : Transaction σ ε α} {f : α → Transaction σ ε β} {s s' : σ} {b : β} :
    Commits (t >>= f) s b s' ↔ ∃ a m, Commits t s a m ∧ Commits (f a) m b s' := by
  unfold Commits
  rw [StateT.run_bind]
  cases t.run s with
  | error e => simp [bind, Except.bind]
  | ok r =>
    obtain ⟨a, m⟩ := r
    change (f a).run m = .ok (b, s') ↔ _
    constructor
    · intro h
      exact ⟨a, m, rfl, h⟩
    · rintro ⟨a', m', he, h⟩
      cases he
      exact h

@[simp] theorem commits_map {t : Transaction σ ε α} {f : α → β} {s s' : σ} {b : β} :
    Commits (f <$> t) s b s' ↔ ∃ a, Commits t s a s' ∧ f a = b := by
  rw [← bind_pure_comp, commits_bind]
  constructor
  · rintro ⟨a, m, h, hp⟩
    rw [commits_pure] at hp
    exact ⟨a, hp.2 ▸ h, hp.1⟩
  · rintro ⟨a, h, rfl⟩
    exact ⟨a, s', h, commits_pure.mpr ⟨rfl, rfl⟩⟩

@[simp] theorem commits_get {s s' a : σ} :
    Commits (get : Transaction σ ε σ) s a s' ↔ s = a ∧ s = s' := by
  change (Except.ok (s, s) : Except ε (σ × σ)) = .ok (a, s') ↔ _
  rw [Except.ok.injEq, Prod.mk.injEq]

@[simp] theorem commits_set {v s s' : σ} {a : PUnit} :
    Commits (set v : Transaction σ ε PUnit) s a s' ↔ v = s' := by
  change (Except.ok (PUnit.unit, v) : Except ε (PUnit × σ)) = .ok (a, s') ↔ _
  rw [Except.ok.injEq, Prod.mk.injEq]
  exact and_iff_right rfl

@[simp] theorem commits_modify {f : σ → σ} {s s' : σ} {a : PUnit} :
    Commits (modify f : Transaction σ ε PUnit) s a s' ↔ f s = s' := by
  change (Except.ok (PUnit.unit, f s) : Except ε (PUnit × σ)) = .ok (a, s') ↔ _
  rw [Except.ok.injEq, Prod.mk.injEq]
  exact and_iff_right rfl

@[simp] theorem commits_throw {e : ε} {s s' : σ} {a : α} :
    ¬ Commits (throw e : Transaction σ ε α) s a s' := by
  intro h
  change (Except.error e : Except ε (α × σ)) = .ok (a, s') at h
  cases h

theorem commits_ite {p : Prop} [Decidable p] {t t' : Transaction σ ε α} {s s' : σ} {a : α} :
    Commits (if p then t else t') s a s' ↔ (p ∧ Commits t s a s') ∨ (¬ p ∧ Commits t' s a s') := by
  by_cases h : p <;> simp [h]

/-- The statements of a transaction, one after another. -/
def execAll {ω : Type u} (exec : ω → Transaction σ ε PUnit) : List ω → Transaction σ ε PUnit
  | [] => pure ⟨⟩
  | w :: rest => do
    exec w
    execAll exec rest

section ExecAll

variable {ω : Type u} {exec : ω → Transaction σ ε PUnit} {s s' : σ} {a : PUnit}

@[simp] theorem commits_execAll_nil : Commits (execAll exec []) s a s' ↔ s' = s := by
  rw [execAll, commits_pure, eq_comm (a := s)]
  exact and_iff_right rfl

@[simp] theorem commits_execAll_cons {w : ω} {rest : List ω} :
    Commits (execAll exec (w :: rest)) s a s' ↔ ∃ m, Commits (exec w) s ⟨⟩ m ∧ Commits (execAll exec rest) m a s' := by
  rw [execAll, commits_bind]
  exact ⟨fun ⟨_, m, h⟩ => ⟨m, h⟩, fun ⟨m, h⟩ => ⟨_, m, h⟩⟩

end ExecAll

/-- Every commit of `t` leaves the part `f` of the state as it was. -/
def Keeps {γ : Type u} (f : σ → γ) (t : Transaction σ ε α) : Prop := ∀ s a s', Commits t s a s' → f s' = f s

namespace Keeps

variable {γ : Type u} {f : σ → γ} {t t' : Transaction σ ε α}

theorem pure (a : α) : Keeps f (Pure.pure a : Transaction σ ε α) := by
  intro s b s' h
  rw [(commits_pure.mp h).2]

theorem throw (e : ε) : Keeps f (MonadExcept.throw e : Transaction σ ε α) :=
  fun _ _ _ h => absurd h commits_throw

theorem modify {g : σ → σ} (hg : ∀ s, f (g s) = f s) : Keeps f (modify g : Transaction σ ε PUnit) := by
  intro s a s' h
  rw [← commits_modify.mp h, hg]

theorem get : Keeps f (MonadState.get : Transaction σ ε σ) := by
  intro s a s' h
  rw [(commits_get.mp h).2]

theorem bind {k : α → Transaction σ ε β} (ht : Keeps f t) (hk : ∀ a, Keeps f (k a)) : Keeps f (t >>= k) := by
  intro s b s' h
  obtain ⟨a, m, hfirst, hrest⟩ := commits_bind.mp h
  exact (hk a m b s' hrest).trans (ht s a m hfirst)

theorem ite {p : Prop} [Decidable p] (ht : Keeps f t) (ht' : Keeps f t') : Keeps f (if p then t else t') := by
  by_cases h : p
  · rwa [if_pos h]
  · rwa [if_neg h]

end Keeps

/-- Every commit of `t` leads from a state to one that `R` relates it to. -/
def Respects (R : σ → σ → Prop) (t : Transaction σ ε α) : Prop := ∀ s a s', Commits t s a s' → R s s'

namespace Respects

variable {R : σ → σ → Prop} {t t' : Transaction σ ε α}

theorem pure (hrefl : ∀ s, R s s) (a : α) : Respects R (Pure.pure a : Transaction σ ε α) := by
  intro s b s' h
  rw [(commits_pure.mp h).2]
  exact hrefl s'

theorem throw (e : ε) : Respects R (MonadExcept.throw e : Transaction σ ε α) :=
  fun _ _ _ h => absurd h commits_throw

theorem modify {g : σ → σ} (hg : ∀ s, R s (g s)) : Respects R (modify g : Transaction σ ε PUnit) := by
  intro s a s' h
  rw [← commits_modify.mp h]
  exact hg s

theorem get (hrefl : ∀ s, R s s) : Respects R (MonadState.get : Transaction σ ε σ) := by
  intro s a s' h
  rw [(commits_get.mp h).2]
  exact hrefl s'

theorem bind {k : α → Transaction σ ε β} (htrans : ∀ s t u, R s t → R t u → R s u) (ht : Respects R t)
    (hk : ∀ a, Respects R (k a)) : Respects R (t >>= k) := by
  intro s b s' h
  obtain ⟨a, m, hfirst, hrest⟩ := commits_bind.mp h
  exact htrans s m s' (ht s a m hfirst) (hk a m b s' hrest)

theorem ite {p : Prop} [Decidable p] (ht : Respects R t) (ht' : Respects R t') :
    Respects R (if p then t else t') := by
  by_cases h : p
  · rwa [if_pos h]
  · rwa [if_neg h]

end Respects

/-- `t`, started on `s`, raises `e`. -/
def Raises (t : Transaction σ ε α) (s : σ) (e : ε) : Prop := t.run s = .error e

/-- What commits does not raise. -/
theorem Commits.not_raises {t : Transaction σ ε α} {s s' : σ} {a : α} {e : ε} (h : Commits t s a s') :
    ¬ Raises t s e := by
  intro hraises
  cases h.symm.trans hraises

@[simp] theorem raises_pure {a : α} {s : σ} {e : ε} : ¬ Raises (pure a : Transaction σ ε α) s e :=
  Commits.not_raises (commits_pure.mpr ⟨rfl, rfl⟩)

@[simp] theorem raises_get {s : σ} {e : ε} : ¬ Raises (get : Transaction σ ε σ) s e :=
  Commits.not_raises (commits_get.mpr ⟨rfl, rfl⟩)

@[simp] theorem raises_set {v s : σ} {e : ε} : ¬ Raises (set v : Transaction σ ε PUnit) s e :=
  Commits.not_raises (a := ⟨⟩) (commits_set.mpr rfl)

@[simp] theorem raises_modify {f : σ → σ} {s : σ} {e : ε} : ¬ Raises (modify f : Transaction σ ε PUnit) s e :=
  Commits.not_raises (a := ⟨⟩) (commits_modify.mpr rfl)

@[simp] theorem raises_throw {e e' : ε} {s : σ} : Raises (throw e : Transaction σ ε α) s e' ↔ e = e' := by
  change (Except.error e : Except ε (α × σ)) = .error e' ↔ _
  rw [Except.error.injEq]

@[simp] theorem raises_bind {t : Transaction σ ε α} {f : α → Transaction σ ε β} {s : σ} {e : ε} :
    Raises (t >>= f) s e ↔ Raises t s e ∨ ∃ a m, Commits t s a m ∧ Raises (f a) m e := by
  unfold Raises Commits
  rw [StateT.run_bind]
  cases t.run s with
  | error e' => simp [bind, Except.bind]
  | ok r =>
    obtain ⟨a, m⟩ := r
    change (f a).run m = .error e ↔ _
    constructor
    · intro h
      exact Or.inr ⟨a, m, rfl, h⟩
    · rintro (he | ⟨a', m', he, h⟩)
      · cases he
      · cases he
        exact h

@[simp] theorem raises_map {t : Transaction σ ε α} {f : α → β} {s : σ} {e : ε} : Raises (f <$> t) s e ↔ Raises t s e := by
  rw [← bind_pure_comp, raises_bind]
  simp

theorem raises_ite {p : Prop} [Decidable p] {t t' : Transaction σ ε α} {s : σ} {e : ε} :
    Raises (if p then t else t') s e ↔ (p ∧ Raises t s e) ∨ (¬ p ∧ Raises t' s e) := by
  by_cases h : p <;> simp [h]

/-- What `t` raises satisfies `P`, wherever it starts. -/
def RaisesOnly (P : ε → Prop) (t : Transaction σ ε α) : Prop := ∀ s e, t.run s = .error e → P e

namespace RaisesOnly

variable {P : ε → Prop} {t t' : Transaction σ ε α}

theorem pure (a : α) : RaisesOnly P (Pure.pure a : Transaction σ ε α) := fun _ _ h => nomatch h

theorem throw {e : ε} (he : P e) : RaisesOnly P (MonadExcept.throw e : Transaction σ ε α) := by
  intro s e' h
  change Except.error e = Except.error e' at h
  rwa [← Except.error.inj h]

theorem modify (g : σ → σ) : RaisesOnly P (modify g : Transaction σ ε PUnit) := fun _ _ h => nomatch h

theorem get : RaisesOnly P (MonadState.get : Transaction σ ε σ) := fun _ _ h => nomatch h

theorem set (v : σ) : RaisesOnly P (MonadStateOf.set v : Transaction σ ε PUnit) := fun _ _ h => nomatch h

theorem bind {k : α → Transaction σ ε β} (ht : RaisesOnly P t) (hk : ∀ a, RaisesOnly P (k a)) :
    RaisesOnly P (t >>= k) := by
  intro s e h
  rw [StateT.run_bind] at h
  cases hrun : t.run s with
  | error e' =>
    rw [hrun] at h
    cases h
    exact ht s e hrun
  | ok r =>
    rw [hrun] at h
    exact hk r.1 r.2 e h

theorem ite {p : Prop} [Decidable p] (ht : RaisesOnly P t) (ht' : RaisesOnly P t') :
    RaisesOnly P (if p then t else t') := by
  by_cases h : p
  · rwa [if_pos h]
  · rwa [if_neg h]

theorem execAll {ω : Type u} {exec : ω → Transaction σ ε PUnit} (h : ∀ w, RaisesOnly P (exec w)) (ws : List ω) :
    RaisesOnly P (execAll exec ws) := by
  induction ws with
  | nil => exact pure _
  | cons w rest ih => exact (h w).bind fun _ => ih

end RaisesOnly

end Transaction
end DocPipeline.Lib

import DocPipeline.Lifecycle.Model

/-!
# What holds over every life

Each invariant is kept by every step that meets its guard. The guards say what a
discipline of the writers would have to be: a closing write finds the document where a
worker left it, a lost race leaves the key alone, an override has nothing to carry.
-/
namespace DocPipeline.Lifecycle

set_option autoImplicit false

open Lib

variable {D F K : Type} [DecidableEq D] {pair : F → Option K × Option K} {empty : F}
  {σ τ : State D F K} {e : Event D F K}

/-! ## Without a guard -/

/-- The unique index: no two documents hold one full key. -/
def KeysUnique (σ : State D F K) : Prop :=
  ∀ d d' r r', σ.docs d = some r → σ.docs d' = some r' → Full r.key → r.key = r'.key → d = d'

/-- Every complete document has been announced. -/
def CompleteAnnounced (σ : State D F K) : Prop :=
  ∀ d r, σ.docs d = some r → r.state = .complete → ∃ a, a ∈ σ.announced ∧ a.docId = d

theorem announced_mono (h : Step pair empty σ e τ) {a : Announcement D F} (ha : a ∈ σ.announced) :
    a ∈ τ.announced := by
  rcases h.announces with h | ⟨_, _, _, _, _, _, _, h⟩ | ⟨_, _, _, _, h⟩
  · rwa [h]
  · rw [h]
    exact List.mem_cons_of_mem _ ha
  · rw [h]
    exact List.mem_cons_of_mem _ ha

theorem completeAnnounced_step (hi : CompleteAnnounced σ) (h : Step pair empty σ e τ) :
    CompleteAnnounced τ := by
  intro d r' hr' hc
  have hold : ∀ r, σ.docs d = some r → r.state = .complete → ∃ a, a ∈ τ.announced ∧ a.docId = d := by
    intro r hr hc
    obtain ⟨a, ha, hd⟩ := hi d r hr hc
    exact ⟨a, announced_mono h ha, hd⟩
  rcases h.backward hr' with ⟨_, _, _, hs⟩ | ⟨r, hr, hw⟩
  · rw [hc] at hs
    rcases hs with hs | hs | hs <;> cases hs
  · cases hw with
    | same => exact hold r' hr hc
    | moved _ hne _ => exact absurd hc hne
    | settled _ | routed => cases hc
    | posted _ =>
      cases h with
      | post _ _ _ => exact ⟨_, List.mem_cons_self, rfl⟩
    | rekeyed _ => exact hold r hr hc
    | accepted _ =>
      cases h with
      | accept _ _ => exact ⟨_, List.mem_cons_self, rfl⟩

theorem keysUnique_step (hi : KeysUnique σ) (h : Step pair empty σ e τ) : KeysUnique τ := by
  -- a key that the step has written was free, so no document next to it holds it
  have hnew : ∀ {d d' : D} {r r' : Record F K}, τ.docs d' = some r' → Full r.key → r.key = r'.key →
      σ.Free d r.key → (∀ x, x ≠ d → τ.docs x = σ.docs x) → d = d' := by
    intro d d' r r' hr' hfull heq hfree hothers
    by_contra hne
    have hne' : d' ≠ d := fun he => hne he.symm
    rw [hothers d' hne'] at hr'
    exact hfree hfull d' r' hne' hr' heq.symm
  intro d d' r r' hr hr' hfull heq
  rcases h.key_cases hr with hblank | ⟨r₀, hr₀, hk₀⟩ | ⟨hfree, hothers⟩
  · rw [hblank] at hfull
    exact absurd rfl hfull.1
  · rcases h.key_cases hr' with hblank | ⟨r₁, hr₁, hk₁⟩ | ⟨hfree, hothers⟩
    · rw [heq, hblank] at hfull
      exact absurd rfl hfull.1
    · refine hi d d' r₀ r₁ hr₀ hr₁ (hk₀ ▸ hfull) ?_
      rw [← hk₀, ← hk₁, heq]
    · exact (hnew hr (heq ▸ hfull) heq.symm hfree hothers).symm
  · exact hnew hr' hfull heq hfree hothers

/-! ## One posting per key -/

/-- A lost race keeps the key under which the document was posted. -/
def KeepsPostedKey (pair : F → Option K × Option K) (σ : State D F K) : Event D F K → Prop
  | .rekey d key => ∀ a f, a ∈ σ.announced → a.docId = d → a.autoPost = true → a.fields = some f →
      Full (pair f) → key = pair f
  | _ => True

structure PostedOnce (pair : F → Option K × Option K) (σ : State D F K) : Prop where
  unique : KeysUnique σ
  /-- An auto-posted document keeps its result, and its key while both parts are there. -/
  holds : ∀ a, a ∈ σ.announced → a.autoPost = true → ∃ r f, σ.docs a.docId = some r ∧
    a.fields = some f ∧ r.result ≠ none ∧ (Full (pair f) → r.key = pair f)
  once : σ.announced.Pairwise fun a b => a.autoPost = true → b.autoPost = true → a.docId ≠ b.docId

omit [DecidableEq D] in
theorem postedOnce_initial : PostedOnce pair (State.initial : State D F K) :=
  ⟨fun _ _ _ _ h => (nomatch h), fun _ h => (nomatch h), List.Pairwise.nil⟩

/-- The key of an auto-posted document survives a guarded step. -/
theorem holds_step (hi : PostedOnce pair σ) (h : Step pair empty σ e τ) (hg : KeepsPostedKey pair σ e)
    {a : Announcement D F} (ha : a ∈ σ.announced) (hauto : a.autoPost = true) :
    ∃ r f, τ.docs a.docId = some r ∧ a.fields = some f ∧ r.result ≠ none ∧ (Full (pair f) → r.key = pair f) := by
  obtain ⟨r, f, hr, hf, hres, hkey⟩ := hi.holds a ha hauto
  obtain ⟨r', hr', hw⟩ := h.forward hr
  refine ⟨r', f, hr', hf, by rw [hw.result hres]; exact hres, fun hfull => ?_⟩
  cases hw with
  | same | moved | routed | accepted => exact hkey hfull
  | settled hnone | posted hnone => exact absurd hnone hres
  | rekeyed _ => exact hg a f ha rfl hauto hf hfull

theorem postedOnce_step (hi : PostedOnce pair σ) (h : Step pair empty σ e τ) (hg : KeepsPostedKey pair σ e) :
    PostedOnce pair τ := by
  refine ⟨keysUnique_step hi.unique h, ?_, ?_⟩
  · intro a ha hauto
    rcases h.announces with heq | ⟨d, f, r, rfl, _, _, hnew, heq⟩ | ⟨d, r, rfl, _, heq⟩
    · exact holds_step hi h hg (heq ▸ ha) hauto
    · rw [heq, List.mem_cons] at ha
      rcases ha with rfl | ha
      · exact ⟨_, f, hnew, rfl, Option.some_ne_none f, fun _ => rfl⟩
      · exact holds_step hi h hg ha hauto
    · rw [heq, List.mem_cons] at ha
      rcases ha with rfl | ha
      · cases hauto
      · exact holds_step hi h hg ha hauto
  · rcases h.announces with heq | ⟨d, f, r, rfl, hr, hnone, _, heq⟩ | ⟨d, r, rfl, _, heq⟩
    · rw [heq]
      exact hi.once
    · rw [heq, List.pairwise_cons]
      refine ⟨fun b hb _ hbauto hd => ?_, hi.once⟩
      obtain ⟨r', f', hr', _, hres, _⟩ := hi.holds b hb hbauto
      rw [← show d = b.docId from hd, hr] at hr'
      cases hr'
      exact hres hnone
    · rw [heq, List.pairwise_cons]
      exact ⟨fun b _ hauto => (nomatch hauto), hi.once⟩

omit [DecidableEq D] in
/-- Two auto-posts of one full key are one. -/
theorem PostedOnce.pairwise (hi : PostedOnce pair σ) :
    σ.announced.Pairwise fun a b => ∀ f g, a.autoPost = true → b.autoPost = true → a.fields = some f →
      b.fields = some g → Full (pair f) → pair f ≠ pair g := by
  refine hi.once.imp_of_mem ?_
  intro a b ha hb hne f g hauto hbauto hf hg hfull heq
  obtain ⟨r, f', hr, hf', _, hkey⟩ := hi.holds a ha hauto
  obtain ⟨r', g', hr', hg', _, hkey'⟩ := hi.holds b hb hbauto
  cases hf.symm.trans hf'
  cases hg.symm.trans hg'
  have hk := hkey hfull
  have hk' := hkey' (heq ▸ hfull)
  exact hne hauto hbauto (hi.unique _ _ r r' hr hr' (hk ▸ hfull) (by rw [hk, hk', heq]))

/-! ## The key belongs to posted documents -/

/-- The document was auto-posted with these fields. -/
def AutoPosted (σ : State D F K) (d : D) (f : F) : Prop :=
  ∃ a, a ∈ σ.announced ∧ a.docId = d ∧ a.autoPost = true ∧ a.fields = some f

/-- A lost race leaves no key, or the one of the posting; and nothing that has its result
is routed to review while it holds a key. -/
def KeepsKeyPosted (pair : F → Option K × Option K) (σ : State D F K) : Event D F K → Prop
  | .rekey d key => key = (none, none) ∨ ∃ r f, σ.docs d = some r ∧ r.state = .complete ∧
      r.result = some f ∧ AutoPosted σ d f ∧ key = pair f
  | .route d => ∀ r, σ.docs d = some r → r.result ≠ none → r.key = (none, none)
  | _ => True

/-- The key is held only by posted documents, and is the one of the posted fields. -/
def KeyPosted (pair : F → Option K × Option K) (σ : State D F K) : Prop :=
  ∀ d r, σ.docs d = some r → r.key ≠ (none, none) →
    r.state = .complete ∧ ∃ f, r.result = some f ∧ r.key = pair f ∧ AutoPosted σ d f

theorem keyPosted_step (hi : KeyPosted pair σ) (h : Step pair empty σ e τ) (hg : KeepsKeyPosted pair σ e) :
    KeyPosted pair τ := by
  intro d r' hr' hkey
  have hmono : ∀ {f : F}, AutoPosted σ d f → AutoPosted τ d f := fun ⟨a, ha, h'⟩ =>
    ⟨a, announced_mono h ha, h'⟩
  rcases h.backward hr' with ⟨_, _, hblank, _⟩ | ⟨r, hr, hw⟩
  · exact absurd hblank hkey
  · cases hw with
    | same =>
      obtain ⟨hc, f, hf, hk, hp⟩ := hi d r' hr hkey
      exact ⟨hc, f, hf, hk, hmono hp⟩
    | moved hallowed hne _ =>
      obtain ⟨hc, _⟩ := hi d r hr hkey
      rw [hc] at hallowed
      rcases hallowed with hm | hm
      · exact absurd hm (Ledger.complete_final _)
      · exact absurd hm.symm hne
    | settled hnone =>
      obtain ⟨_, f, hf, _⟩ := hi d r hr hkey
      rw [hnone] at hf
      cases hf
    | posted _ =>
      cases h with
      | post _ _ _ => exact ⟨rfl, _, rfl, rfl, _, List.mem_cons_self, rfl, rfl, rfl⟩
    | rekeyed _ =>
      rcases hg with hblank | ⟨r₀, f, hr₀, hc, hf, hp, hk⟩
      · exact absurd hblank hkey
      · rw [hr] at hr₀
        cases hr₀
        exact ⟨hc, f, hf, hk, hmono hp⟩
    | routed =>
      obtain ⟨_, f, hf, _⟩ := hi d r hr hkey
      exact absurd (hg r hr (by rw [hf]; exact Option.some_ne_none f)) hkey
    | accepted _ =>
      obtain ⟨_, f, hf, hk, hp⟩ := hi d r hr hkey
      exact ⟨rfl, f, hf, hk, hmono hp⟩

/-! ## What is posted is what was extracted -/

/-- An override carries no fields, so it may only stand for an empty result, unless the
document's row is posted already. -/
def OverridesEmpty (empty : F) (σ : State D F K) : Event D F K → Prop
  | .accept d => ∀ r, σ.docs d = some r → σ.posted d ≠ none ∨ r.result = some empty
  | _ => True

structure PostsResult (empty : F) (σ : State D F K) : Prop where
  posted : ∀ d f, σ.posted d = some f → ∃ r, σ.docs d = some r ∧ r.result = some f
  announced : ∀ a, a ∈ σ.announced → σ.posted a.docId ≠ none ∨
    ∃ r, σ.docs a.docId = some r ∧ r.result = some (a.fields.getD empty)

omit [DecidableEq D] in
theorem postsResult_initial : PostsResult empty (State.initial : State D F K) :=
  ⟨fun _ _ h => (nomatch h), fun _ h => (nomatch h)⟩

/-- A recorded result stays. -/
theorem result_step (h : Step pair empty σ e τ) {d : D} {f : F}
    (hr : ∃ r, σ.docs d = some r ∧ r.result = some f) : ∃ r, τ.docs d = some r ∧ r.result = some f := by
  obtain ⟨r, hr, hf⟩ := hr
  obtain ⟨r', hr', hw⟩ := h.forward hr
  exact ⟨r', hr', by rw [hw.result (by rw [hf]; exact Option.some_ne_none f), hf]⟩

/-- What a step posts. -/
theorem posted_step (h : Step pair empty σ e τ) :
    τ.posted = σ.posted ∨ ∃ a, a ∈ σ.announced ∧ e = .deliver a ∧ τ.docs = σ.docs ∧
      ∀ d, τ.posted d =
        if d = a.docId then some ((σ.posted a.docId).getD (a.fields.getD empty)) else σ.posted d := by
  cases h with
  | deliver ha => exact Or.inr ⟨_, ha, rfl, rfl, fun d => State.store_posted ..⟩
  | insert | move | settle | post | rekey | route | accept => exact Or.inl rfl

theorem posted_mono (h : Step pair empty σ e τ) {d : D} (hp : σ.posted d ≠ none) : τ.posted d ≠ none := by
  rcases posted_step h with heq | ⟨a, _, _, _, heq⟩
  · rwa [heq]
  · rw [heq]
    split
    · exact Option.some_ne_none _
    · exact hp

theorem postsResult_step (hi : PostsResult empty σ) (h : Step pair empty σ e τ)
    (hg : OverridesEmpty empty σ e) : PostsResult empty τ := by
  have hold : ∀ a, a ∈ σ.announced → τ.posted a.docId ≠ none ∨
      ∃ r, τ.docs a.docId = some r ∧ r.result = some (a.fields.getD empty) := fun a ha =>
    (hi.announced a ha).imp (posted_mono h) (result_step h)
  refine ⟨fun d f hp => ?_, fun a ha => ?_⟩
  · rcases posted_step h with heq | ⟨a, ha, _, hdocs, heq⟩
    · exact result_step h (hi.posted d f (heq ▸ hp))
    · rw [heq] at hp
      split at hp
      · next hd =>
        cases hq : σ.posted a.docId with
        | some f' =>
          rw [hq] at hp
          cases hp
          exact result_step h (hi.posted d f' (hd ▸ hq))
        | none =>
          rw [hq] at hp
          cases hp
          rcases hi.announced a ha with hne | hr
          · exact absurd hq hne
          · exact result_step h (hd ▸ hr)
      · exact result_step h (hi.posted d f hp)
  · rcases h.announces with heq | ⟨d, f, r, rfl, _, _, hnew, heq⟩ | ⟨d, r, rfl, hr, heq⟩
    · exact hold a (heq ▸ ha)
    · rw [heq, List.mem_cons] at ha
      rcases ha with rfl | ha
      · exact Or.inr ⟨⟨.complete, some f, _⟩, hnew, rfl⟩
      · exact hold a ha
    · rw [heq, List.mem_cons] at ha
      rcases ha with rfl | ha
      · exact (hg r hr).imp (posted_mono h) fun hres => result_step h ⟨r, hr, hres⟩
      · exact hold a ha

/-! ## The state machine -/

/-- A closing write finds the document where the transition table starts from, or where
it leads. -/
def ClosesInTime (σ : State D F K) : Event D F K → Prop
  | .settle d _ | .route d => ∀ r, σ.docs d = some r →
      (r.state, DocState.review) ∈ Ledger.allowedTransitions ∨ r.state = .review
  | .post d _ => ∀ r, σ.docs d = some r → r.state = .extractRunning ∨ r.state = .complete
  | _ => True

/-- What a step adds to the history. -/
theorem history_step (h : Step pair empty σ e τ) (hg : ClosesInTime σ e) :
    ∃ new, τ.history = new ++ σ.history ∧ ∀ c, c ∈ new →
      c.2 ∈ Ledger.allowedTransitions ∧ (c.2 = (.review, .complete) → e = .accept c.1) := by
  have hput : ∀ {d : D} {old new : Record F K},
      (old.state ≠ new.state → (old.state, new.state) ∈ Ledger.allowedTransitions) →
      ((old.state, new.state) = (.review, .complete) → e = .accept d) →
      ∃ l, (σ.put d old new).history = l ++ σ.history ∧ ∀ c, c ∈ l →
        c.2 ∈ Ledger.allowedTransitions ∧ (c.2 = (.review, .complete) → e = .accept c.1) := by
    intro d old new hallowed haccept
    unfold State.put
    by_cases heq : old.state = new.state
    · exact ⟨[], by simp [heq], fun _ h => nomatch h⟩
    · refine ⟨[(d, old.state, new.state)], by simp [heq], fun c hc => ?_⟩
      rw [List.mem_singleton] at hc
      subst hc
      exact ⟨hallowed heq, haccept⟩
  cases h with
  | insert _ _ | deliver _ => exact ⟨[], rfl, fun _ h => nomatch h⟩
  | move hr hallowed hc _ =>
    refine hput (fun hne => hallowed.resolve_right hne) fun he => ?_
    exact absurd (Prod.mk.inj he).2 hc
  | settle hr _ =>
    refine hput (fun hne => (hg _ hr).resolve_right hne) fun he => ?_
    cases (Prod.mk.inj he).2
  | route hr =>
    refine hput (fun hne => (hg _ hr).resolve_right hne) fun he => ?_
    cases (Prod.mk.inj he).2
  | @post d r f hr _ _ =>
    refine hput (fun hne => ?_) fun he => ?_
    · rcases hg r hr with hs | hs
      · change (r.state, DocState.complete) ∈ _
        rw [hs]
        decide
      · exact absurd hs hne
    · have hs : r.state = .review := (Prod.mk.inj he).1
      rcases hg r hr with h | h <;> (rw [hs] at h; cases h)
  | rekey _ _ _ =>
    refine hput (fun hne => absurd rfl hne) fun he => ?_
    cases (Prod.mk.inj he).1.symm.trans (Prod.mk.inj he).2
  | @accept d r hr hs =>
    refine hput (fun hne => ?_) fun _ => rfl
    rcases hs with hs | hs
    · change (r.state, DocState.complete) ∈ _
      rw [hs]
      decide
    · exact absurd hs hne

/-- What a guarded run adds to the history. -/
theorem history_reaches {Guard : State D F K → Event D F K → Prop} {Accepts : D → Prop}
    (h : Reaches (Step pair empty) Guard σ τ) (hclose : ∀ σ e, Guard σ e → ClosesInTime σ e)
    (haccept : ∀ σ d, Guard σ (.accept d) → Accepts d) :
    ∃ new, τ.history = new ++ σ.history ∧ ∀ c, c ∈ new →
      c.2 ∈ Ledger.allowedTransitions ∧ (c.2 = (.review, .complete) → Accepts c.1) := by
  refine h.relates (R := fun σ τ => ∃ new, τ.history = new ++ σ.history ∧ ∀ c, c ∈ new →
      c.2 ∈ Ledger.allowedTransitions ∧ (c.2 = (.review, .complete) → Accepts c.1))
    (fun σ => ⟨[], rfl, fun _ hc => nomatch hc⟩) ?_ ?_
  · rintro σ τ υ ⟨l, hl, hcl⟩ ⟨l', hl', hcl'⟩
    refine ⟨l' ++ l, by rw [hl', hl, List.append_assoc], fun c hc => ?_⟩
    rw [List.mem_append] at hc
    exact hc.elim (hcl' c) (hcl c)
  · intro σ e τ hg hs
    obtain ⟨l, hl, hcl⟩ := history_step hs (hclose σ e hg)
    exact ⟨l, hl, fun c hc => ⟨(hcl c hc).1, fun hrc => haccept σ c.1 ((hcl c hc).2 hrc ▸ hg)⟩⟩

/-! ## Openings and entries -/

/-- How often the document has entered `extract_pending`. -/
def entries (σ : State D F K) (d : D) : Nat :=
  σ.history.countP fun c => decide (c.1 = d) && decide (c.2.2 = .extractPending)

/-- The document is waiting in `extract_pending`. -/
def waiting (σ : State D F K) (d : D) : Nat :=
  match σ.docs d with
  | some r => if r.state = .extractPending then 1 else 0
  | none => 0

omit [DecidableEq D] in
theorem waiting_of_docs {r : Record F K} {d : D} (hr : σ.docs d = some r) :
    waiting σ d = if r.state = .extractPending then 1 else 0 := by
  simp only [waiting, hr]

theorem entries_put (docId d : D) (old new : Record F K) :
    entries (σ.put docId old new) d = entries σ d +
      if old.state ≠ new.state ∧ docId = d ∧ new.state = .extractPending then 1 else 0 := by
  unfold entries State.put
  by_cases heq : old.state = new.state
  · simp [heq]
  · simp [heq, List.countP_cons]

theorem entries_mono (h : Step pair empty σ e τ) (d : D) : entries σ d ≤ entries τ d := by
  have hput : ∀ (docId : D) (old new : Record F K), entries σ d ≤ entries (σ.put docId old new) d := by
    intro docId old new
    rw [entries_put]
    exact Nat.le_add_right _ _
  cases h with
  | insert _ _ | deliver _ => exact Nat.le_refl _
  | move _ _ _ _ | settle _ _ | post _ _ _ | rekey _ _ _ | route _ | accept _ _ => exact hput ..

/-- A step that makes a document wait has entered it: unused entries never go down. -/
theorem entries_step (h : Step pair empty σ e τ) (d : D) :
    entries σ d + waiting τ d ≤ entries τ d + waiting σ d := by
  have hput : ∀ {docId : D} {old new : Record F K}, σ.docs docId = some old →
      entries σ d + waiting (σ.put docId old new) d ≤ entries (σ.put docId old new) d + waiting σ d := by
    intro docId old new hold
    rw [entries_put]
    by_cases hd : d = docId
    · subst hd
      rw [waiting_of_docs (State.put_docs_self ..), waiting_of_docs hold]
      by_cases heq : old.state = new.state
      · simp [heq]
      · by_cases hn : new.state = .extractPending
        · have hold' : old.state ≠ .extractPending := fun ho => heq (ho.trans hn.symm)
          simp [hn, hold']
        · simp [hn]
    · have hw : waiting (σ.put docId old new) d = waiting σ d := by
        unfold waiting
        rw [State.put_docs, if_neg hd]
      rw [hw]
      omega
  cases h with
  | @insert d' state hnone hstate =>
    have hw : waiting (σ.enter d' state) d = waiting σ d := by
      unfold waiting
      rw [State.enter_docs]
      by_cases hd : d = d'
      · rw [if_pos hd, hd, hnone]
        rcases hstate with rfl | rfl | rfl <;> rfl
      · rw [if_neg hd]
    rw [hw]
    exact Nat.le_refl _
  | move hr _ _ _ | settle hr _ | post hr _ _ | rekey hr _ _ | route hr | accept hr _ => exact hput hr
  | deliver _ => exact Nat.le_refl _

end DocPipeline.Lifecycle

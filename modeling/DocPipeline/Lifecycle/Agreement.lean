import DocPipeline.Lifecycle.Posting

/-!
# The record and its announcements agree

Without a guard a document is auto-posted at most once, with the result it keeps for ever.
That an announced document is still complete needs a discipline: no closing write may take
a complete document back to review.
-/
namespace DocPipeline.Lifecycle

set_option autoImplicit false

open Lib

variable {D F K : Type} [DecidableEq D] {pair : F → Option K × Option K} {empty : F}
  {σ τ : State D F K} {e : Event D F K}

/-! ## One auto-post for each document -/

structure AutoOnce (σ : State D F K) : Prop where
  /-- An auto-post carries the result its document holds. -/
  holds : ∀ a, a ∈ σ.announced → a.autoPost = true → ∃ r f, σ.docs a.docId = some r ∧
    a.fields = some f ∧ r.result = some f
  once : σ.announced.Pairwise fun a b => a.autoPost = true → b.autoPost = true → a.docId ≠ b.docId

omit [DecidableEq D] in
theorem autoOnce_initial : AutoOnce (State.initial : State D F K) :=
  ⟨fun _ h => (nomatch h), List.Pairwise.nil⟩

theorem autoOnce_step (hi : AutoOnce σ) (h : Step pair empty σ e τ) : AutoOnce τ := by
  have hkept : ∀ a, a ∈ σ.announced → a.autoPost = true → ∃ r f, τ.docs a.docId = some r ∧
      a.fields = some f ∧ r.result = some f := by
    intro a ha hauto
    obtain ⟨r, f, hr, hf, hres⟩ := hi.holds a ha hauto
    obtain ⟨r', hr', hres'⟩ := result_step h ⟨r, hr, hres⟩
    exact ⟨r', f, hr', hf, hres'⟩
  refine ⟨fun a ha hauto => ?_, ?_⟩
  · rcases h.announces with heq | ⟨d, f, r, rfl, _, _, hnew, heq⟩ | ⟨d, r, rfl, _, heq⟩
    · exact hkept a (heq ▸ ha) hauto
    · rw [heq, List.mem_cons] at ha
      rcases ha with rfl | ha
      · exact ⟨_, f, hnew, rfl, rfl⟩
      · exact hkept a ha hauto
    · rw [heq, List.mem_cons] at ha
      rcases ha with rfl | ha
      · cases hauto
      · exact hkept a ha hauto
  · rcases h.announces with heq | ⟨d, f, r, rfl, hr, hnone, _, heq⟩ | ⟨d, r, rfl, _, heq⟩
    · rw [heq]
      exact hi.once
    · rw [heq, List.pairwise_cons]
      refine ⟨fun b hb _ hbauto hd => ?_, hi.once⟩
      -- the document of an earlier auto-post has its result
      obtain ⟨r', f', hr', _, hres⟩ := hi.holds b hb hbauto
      rw [← show d = b.docId from hd, hr] at hr'
      cases hr'
      rw [hnone] at hres
      cases hres
    · rw [heq, List.pairwise_cons]
      exact ⟨fun b _ hauto => (nomatch hauto), hi.once⟩

/-! ## Announced and complete -/

/-- No closing write takes a complete document back to review. -/
def LeavesComplete (σ : State D F K) : Event D F K → Prop
  | .settle d _ | .route d => ∀ r, σ.docs d = some r → r.state ≠ .complete
  | _ => True

def AnnouncedComplete (σ : State D F K) : Prop :=
  ∀ a, a ∈ σ.announced → ∃ r, σ.docs a.docId = some r ∧ r.state = .complete

def PostedAnnounced (σ : State D F K) : Prop :=
  ∀ d, σ.posted d ≠ none → ∃ a, a ∈ σ.announced ∧ a.docId = d

theorem complete_step (h : Step pair empty σ e τ) (hg : LeavesComplete σ e) {d : D} {r : Record F K}
    (hr : σ.docs d = some r) (hc : r.state = .complete) : ∃ r', τ.docs d = some r' ∧ r'.state = .complete := by
  obtain ⟨r', hr', hw⟩ := h.forward hr
  refine ⟨r', hr', ?_⟩
  cases hw with
  | same | rekeyed _ => exact hc
  | moved hallowed hne _ =>
    rw [hc] at hallowed
    rcases hallowed with hm | heq
    · exact absurd hm (Ledger.complete_final _)
    · exact absurd heq.symm hne
  | settled _ | routed => exact absurd hc (hg r hr)
  | posted _ | accepted _ => rfl

theorem announcedComplete_step (hi : AnnouncedComplete σ) (h : Step pair empty σ e τ)
    (hg : LeavesComplete σ e) : AnnouncedComplete τ := by
  have hkept : ∀ a, a ∈ σ.announced → ∃ r, τ.docs a.docId = some r ∧ r.state = .complete := by
    intro a ha
    obtain ⟨r, hr, hc⟩ := hi a ha
    exact complete_step h hg hr hc
  intro a ha
  cases h with
  | @post d r f _ _ _ =>
    rcases List.mem_cons.mp ha with rfl | ha
    · exact ⟨_, State.put_docs_self σ d r _, rfl⟩
    · exact hkept a ha
  | @accept d r _ _ =>
    rcases List.mem_cons.mp ha with rfl | ha
    · exact ⟨_, State.put_docs_self σ d r _, rfl⟩
    · exact hkept a ha
  | insert | move | settle | rekey | route | deliver => exact hkept a ha

theorem postedAnnounced_step (hi : PostedAnnounced σ) (h : Step pair empty σ e τ) : PostedAnnounced τ := by
  intro d hp
  have hkept : σ.posted d ≠ none → ∃ a, a ∈ τ.announced ∧ a.docId = d := by
    intro hp
    obtain ⟨a, ha, hd⟩ := hi d hp
    exact ⟨a, announced_mono h ha, hd⟩
  cases h with
  | @deliver a ha =>
    rw [State.store_posted] at hp
    split at hp
    · next hd => exact ⟨a, ha, hd.symm⟩
    · exact hkept hp
  | insert | move | settle | post | rekey | route | accept => exact hkept hp

end DocPipeline.Lifecycle

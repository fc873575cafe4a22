import DocPipeline.Effects.Operator
import DocPipeline.Audit.Agreement

/-!
# The kill switch

A worker reads the flag in one statement and posts in a later transaction, and nothing
ties the two together. So the switch holds from the moment it is turned off for every
worker that has not read the flag yet, and for no worker that has.
-/
namespace DocPipeline.Audit

set_option autoImplicit false

open Lib Sys

variable {site : Deployment} {s t u v : Sys} {a : Action} {d : DocId}

/-- No document becomes complete, and no auto-post is enqueued. -/
structure Withholds (db db' : Db) : Prop where
  completes : ∀ d row, db'.documents.lookup d = some row → row.state = .complete →
    ∃ old, db.documents.lookup d = some old ∧ old.state = .complete
  announces : ∀ d, db'.sent.countP (isAutoPost d) = db.sent.countP (isAutoPost d)

theorem Withholds.refl (db : Db) : Withholds db db :=
  ⟨fun _ row hrow hc => ⟨row, hrow, hc⟩, fun _ => rfl⟩

theorem Withholds.trans {db m db' : Db} (h : Withholds db m) (k : Withholds m db') : Withholds db db' := by
  refine ⟨fun d row hrow hc => ?_, fun d => (k.announces d).trans (h.announces d)⟩
  obtain ⟨mid, hmid, hcm⟩ := k.completes d row hrow hc
  exact h.completes d mid hmid hcm

theorem withholds_write {db : Db} {row row' : Document} (hrow : db.documents.lookup d = some row)
    (hstate : row'.state = .complete → row.state = .complete) : Withholds db (db.write d row row') := by
  refine ⟨fun d' r hr hc => ?_, fun _ => rfl⟩
  rw [Db.write_lookup] at hr
  split at hr
  · next hd =>
    cases hr
    exact ⟨row, hd ▸ hrow, hstate hc⟩
  · exact ⟨r, hr, hc⟩

/-- What a worker does anywhere but at its posting withholds. -/
theorem withholds_of_does {start db db' : Db} {pc : Extraction.Pc} {op : Operation}
    (hd : Extraction.Does site d start pc db op) (hs : Operation.Step db op db')
    (hpc : ∀ assembled fields gates, pc ≠ .posting assembled fields gates) : Withholds db db' := by
  cases hd with
  | opening =>
    cases hs with
    | move hrow _ hnot _ => exact withholds_write hrow fun hc => absurd hc hnot
  | stamping | counting | funnel =>
    cases hs with
    | note hrow => exact withholds_write hrow id
  | logging =>
    cases hs with
    | aside hsame =>
      refine ⟨fun d' r hr hc => ⟨r, ?_, hc⟩, fun _ => by rw [hsame.sent]⟩
      rwa [hsame.documents] at hr
  | routing =>
    cases hs with
    | route hrow => exact withholds_write hrow fun hc => nomatch hc
  | exhausted | holding =>
    cases hs with
    | settle hrow _ => exact withholds_write hrow fun hc => nomatch hc
  | posting | losing => exact absurd rfl (hpc _ _ _)

theorem withholds_of_extraction {w : World} {verdict : Extraction.Verdict} {pc : Extraction.Pc}
    (hpc : ∀ assembled fields gates, pc ≠ .posting assembled fields gates) :
    Withholds w.db (Extraction.step site d verdict w pc).1.db :=
  (Extraction.step_performs w verdict pc).relates Withholds.refl (fun _ _ _ => Withholds.trans)
    fun _ _ _ hd hs => withholds_of_does hd hs hpc

/-- No run has read the flag and is about to post. -/
def NonePosting (s : Sys) : Prop :=
  ∀ tid d assembled fields gates, s.tasks tid ≠ some (.extraction d (.posting assembled fields gates))

/-- The switch is off, and every worker that goes on will see it. -/
structure Off (s : Sys) : Prop where
  flag : Ledger.getFeatureFlag s.db Extraction.autoPostFlag true = false
  settled : NonePosting s

/-- Only a run that finds the switch on gets to its posting. -/
theorem posting_of_step (h : Step site s a t) {tid : Nat} {assembled : Artifact} {fields : Fields}
    {gates : GateResults} (ht : t.tasks tid = some (.extraction d (.posting assembled fields gates))) :
    s.tasks tid = some (.extraction d (.posting assembled fields gates)) ∨
      (∃ input pc, a = .run tid input ∧ s.tasks tid = some (.extraction d pc)) ∧
      Ledger.getFeatureFlag s.db Extraction.autoPostFlag true = true := by
  rcases extraction_of_step h ht with hkept | hopen | ⟨input, pc, ha, htask, hgoto⟩
  · exact Or.inl hkept
  · cases hopen
  · refine Or.inr ⟨⟨input, pc, ha, htask⟩, ?_⟩
    have hgoes := Extraction.step_goes hgoto
    generalize (Extraction.step site d input.verdict s.world pc).1 = w at hgoes
    generalize hto : Extraction.Pc.posting assembled fields gates = pc' at hgoes
    cases hgoes with
    | enabled hflag => exact hflag
    | found _ hcheck | readBack _ hcheck =>
      rcases Extraction.checkPages_goto hcheck with rfl | ⟨_, rfl⟩ <;> cases hto
    | _ => cases hto

theorem off_step (hi : Off s) (hon : toggles site true s a = false) (h : Step site s a t) : Off t := by
  constructor
  · rcases flags_of_step h with hsame | ⟨enabled, htoggle, hflags⟩
    · unfold Ledger.getFeatureFlag
      rw [hsame]
      exact hi.flag
    · cases enabled with
      | true =>
        rw [htoggle] at hon
        cases hon
      | false => exact flag_of_toggle htoggle h
  · intro tid d assembled fields gates ht
    rcases posting_of_step h ht with hkept | ⟨_, hflag⟩
    · exact hi.settled tid d assembled fields gates hkept
    · rw [hi.flag] at hflag
      cases hflag

/-- The step that turns the switch off, taken while no worker is about to post. -/
theorem off_of_toggle (hoff : toggles site false s a = true) (hnone : NonePosting s) (h : Step site s a t) :
    Off t := by
  refine ⟨flag_of_toggle hoff h, fun tid d assembled fields gates ht => ?_⟩
  rcases posting_of_step h ht with hkept | ⟨⟨input, pc, rfl, htask⟩, _⟩
  · exact hnone tid d assembled fields gates hkept
  · rw [toggles, htask] at hoff
    cases hoff

/-- From a `set_kill_switch(False)` that commits while no worker is about to post, until
the switch is turned on, no worker completes a document or enqueues an auto-post. -/
theorem switched_off_withholds {as : List Action} (hs : Step site s a t) (hoff : toggles site false s a = true)
    (hnone : NonePosting s) (h : GuardedRun site (fun s a => toggles site true s a = false) t as u)
    {tid : Nat} {input : Input} {pc : Extraction.Pc} (htask : u.tasks tid = some (.extraction d pc))
    (hv : Step site u (.run tid input) v) : Withholds u.db v.db := by
  have hu : Off u := h.invariant (off_of_toggle hoff hnone hs) fun _ _ _ hi hon hs => off_step hi hon hs
  have hpc : ∀ assembled fields gates, pc ≠ .posting assembled fields gates := by
    intro assembled fields gates he
    exact hu.settled tid d assembled fields gates (he ▸ htask)
  obtain ⟨task, r, htask', hr, rfl⟩ := runTask_eq hv
  rw [htask] at htask'
  cases htask'
  cases hr
  exact withholds_of_extraction hpc

def atPosting : Option Task → Bool
  | some (.extraction _ (.posting _ _ _)) => true
  | _ => false

def worksOn (d : DocId) : Option Task → Bool
  | some (.extraction d' _) => d' = d
  | _ => false

theorem worksOn_inv {task : Option Task} (h : worksOn d task = true) : ∃ pc, task = some (.extraction d pc) := by
  unfold worksOn at h
  split at h
  · next d' pc =>
    cases of_decide_eq_true h
    exact ⟨pc, rfl⟩
  · cases h

/-- It is enough to look at the slots a schedule uses. -/
theorem nonePosting_of_slots {as : List Action} {n : Nat} (h : FreeRun site initial as s)
    (hslots : as.all (fun a => a.slot.all (· < n)) = true)
    (hnone : (List.range n).all (fun tid => !atPosting (s.tasks tid)) = true) : NonePosting s := by
  intro tid d assembled fields gates htask
  by_cases htid : tid < n
  · have hat := List.all_eq_true.mp hnone tid (List.mem_range.mpr htid)
    rw [htask] at hat
    cases hat
  · have hidle : s.tasks tid = none := by
      refine idle_of_freeRun h fun a ha hslot => htid ?_
      have hlt := List.all_eq_true.mp hslots a ha
      rw [hslot] at hlt
      simpa using hlt
    rw [hidle] at htask
    cases htask

/-- A run with the model's answer has gone on by some steps; the operator is about to commit. -/
def atToggle (further : Nat) : List Action :=
  Schedule.intake ["a.pdf"] ++ Schedule.textLayer 0 ++ Schedule.extract 1 0 (verdictOn (reads "A")) ++
    Schedule.turns 1 further ++ [.spawn 2 (.killSwitch false "incident" "ops")]

/-- The worker has not read the flag: it holds the result for review. -/
theorem waiting_worker_withholds :
    ∃ s t u v, FreeRun oneInvoice initial (atToggle 0) s ∧ Step oneInvoice s (.run 2 {}) t ∧
      toggles oneInvoice false s (.run 2 {}) = true ∧ Step oneInvoice t (.run 1 {}) u ∧
      Step oneInvoice u (.run 1 {}) v ∧ Withholds u.db v.db := by
  obtain ⟨s, hrun, hs⟩ := exists_freeRun oneInvoice (atToggle 0)
    (fun s => toggles oneInvoice false s (.run 2 {}) && (List.range 3).all (fun tid => !atPosting (s.tasks tid)) &&
      (s.step oneInvoice (.run 2 {})).any fun t => !toggles oneInvoice true t (.run 1 {}) &&
        (t.step oneInvoice (.run 1 {})).any fun u => worksOn "crc32c-a" (u.tasks 1) &&
          (u.step oneInvoice (.run 1 {})).isSome) (by decide +kernel)
  simp only [Bool.and_eq_true, Option.any_eq_true, Bool.not_eq_true', Option.isSome_iff_exists] at hs
  obtain ⟨⟨hoff, hslots⟩, t, ht, hon, u, hu, hworks, v, hv⟩ := hs
  have hnone : NonePosting s := nonePosting_of_slots hrun (by decide) hslots
  have hrest : GuardedRun oneInvoice (fun s a => toggles oneInvoice true s a = false) t [.run 1 {}] u :=
    .single hon hu
  obtain ⟨pc, htask⟩ := worksOn_inv hworks
  exact ⟨s, t, u, v, hrun, ht, hoff, hu, hv, switched_off_withholds ht hoff hnone hrest htask hv⟩

/-- The worker has read the flag: the switch is off, and it posts. -/
theorem posted_after_switch_off :
    ¬ ∀ (site : Deployment) (before after : List Action) (s t u v : Sys) (a : Action) (tid : Nat) (input : Input)
      (d : DocId) (pc : Extraction.Pc), FreeRun site initial before s → Step site s a t →
      toggles site false s a = true → GuardedRun site (fun s a => toggles site true s a = false) t after u →
      u.tasks tid = some (.extraction d pc) → Step site u (.run tid input) v → Withholds u.db v.db := by
  intro hclaim
  obtain ⟨s, hrun, hs⟩ := exists_freeRun oneInvoice (atToggle 1)
    (fun s => toggles oneInvoice false s (.run 2 {}) && (s.step oneInvoice (.run 2 {})).any fun t =>
      worksOn "crc32c-a" (t.tasks 1) && (t.step oneInvoice (.run 1 {})).any fun (v : Sys) =>
        decide (v.db.sent.countP (isAutoPost "crc32c-a") ≠ t.db.sent.countP (isAutoPost "crc32c-a")))
    (by decide +kernel)
  simp only [Bool.and_eq_true, Option.any_eq_true, decide_eq_true_eq] at hs
  obtain ⟨hoff, t, ht, hworks, v, hv, hdiff⟩ := hs
  obtain ⟨pc, htask⟩ := worksOn_inv hworks
  have hkept : Withholds t.db v.db :=
    hclaim oneInvoice (atToggle 1) [] s t t v (.run 2 {}) 1 {} "crc32c-a" pc hrun ht hoff .nil htask hv
  exact hdiff (hkept.announces "crc32c-a")

end DocPipeline.Audit

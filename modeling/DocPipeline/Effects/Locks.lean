import DocPipeline.Effects.Desk

/-!
# What the row locks at the desk protect

A connection that has updated a row keeps it from everyone else until its commit: two
connections never hold the same row, and no step of another process changes a row that is
held.
-/
namespace DocPipeline

set_option autoImplicit false

open Lib Lib.Transaction Ledger

namespace Desk

variable {site : Deployment} {d : DocId} {db db' : Db} {w : World} {pending todo : List Write} {k k' : Desk} {cid : Nat}
  {o : Open} {a : Action}

/-- The rows a connection holds. -/
def Open.holds (o : Open) : List DocId := o.pending.filterMap Write.locks

/-! ## Writes -/

theorem write_elsewhere {write : Write} (hd : write.locks ≠ some d) :
    Keeps (fun db => db.documents.lookup d) (write.exec site) := by
  intro db u db' h
  cases write with
  | transition docId toState fromStates =>
    simp only [Write.exec, commits_bind, transition_commits] at h
    obtain ⟨_, _, ⟨row, _, _, _, rfl⟩, h⟩ := h
    rw [← (commits_pure.mp h).2]
    exact (Db.write_lookup ..).trans (if_neg fun he => hd (congrArg some he.symm))
  | redrive docId row => exact congrArg (AList.lookup d) (Sweeper.redriveDocument_kept h).1
  | gateResults docId gates =>
    rcases updateDocument_commits.mp h with ⟨row, _, rfl⟩ | ⟨_, rfl⟩
    · exact (Db.write_lookup ..).trans (if_neg fun he => hd (congrArg some he.symm))
    · rfl
  | enqueue | featureFlag | audit =>
    obtain rfl := commits_modify.mp h
    rfl

/-- A transaction leaves the rows alone that it does not lock. -/
theorem transaction_elsewhere {writes : List Write} {u : Unit} (hd : d ∉ writes.filterMap Write.locks)
    (h : Commits (transaction site writes) db u db') : db'.documents.lookup d = db.documents.lookup d := by
  induction writes generalizing db with
  | nil => rw [commits_execAll_nil.mp h]
  | cons write rest ih =>
    obtain ⟨m, hfirst, hrest⟩ := commits_execAll_cons.mp h
    have hnot : write.locks ≠ some d ∧ d ∉ rest.filterMap Write.locks := by
      simp only [List.mem_filterMap, List.mem_cons, not_exists, not_and] at hd ⊢
      exact ⟨hd write (Or.inl rfl), fun other ho => hd other (Or.inr ho)⟩
    exact (ih hnot.2 hrest).trans (write_elsewhere hnot.1 _ _ _ hfirst)

/-! ## One statement -/

/-- The write a statement list is about to execute. -/
def upcomingOf : List Write → Option Write
  | write :: _ => some write
  | [] => none

/-- How the connection goes on: nothing pending, the same, or the next write more. -/
inductive Kept (pending : List Write) (upcoming : Option Write) : List Write → Prop
  | cleared : Kept pending upcoming []
  | same : Kept pending upcoming pending
  | executed {write : Write} : upcoming = some write → Kept pending upcoming (pending ++ [write])

/-- What a statement leaves: it commits at most what is pending, and adds at most its own write. -/
structure Executes (w : World) (pending : List Write) (upcoming : Option Write) (w' : World) (pending' : List Write) :
    Prop where
  kept : Kept pending upcoming pending'
  committed : w' = w ∨ pending' = []
  elsewhere : ∀ d, d ∉ pending.filterMap Write.locks → w'.db.documents.lookup d = w.db.documents.lookup d

theorem Executes.same {upcoming : Option Write} : Executes w pending upcoming w pending :=
  ⟨.same, Or.inl rfl, fun _ _ => rfl⟩

theorem writeStep_executes (site : Deployment) (w : World) (pending todo : List Write) :
    Executes w pending (upcomingOf todo) (writeStep site w pending todo).1 (writeStep site w pending todo).2.1 := by
  have hwrote := writeStep_wrote site w pending todo
  generalize writeStep site w pending todo = r at hwrote
  cases hwrote with
  | executed => exact ⟨.executed rfl, Or.inl rfl, fun _ _ => rfl⟩
  | committed hc => exact ⟨.cleared, Or.inr rfl, fun _ hd => transaction_elsewhere hd hc⟩
  | raised => exact .same

/-- The write an action is about to execute. -/
def Pc.upcoming : Pc → Option Write
  | .writing todo => upcomingOf todo
  | .requiring | .selecting | .planning _ => none

theorem Pc.step_executes (action : BreakGlass) (pc : Pc) :
    Executes w pending pc.upcoming (pc.step site action w pending).1 (pc.step site action w pending).2.1 := by
  cases pc with
  | writing todo => exact writeStep_executes site w pending todo
  | requiring => exact .same
  | selecting => cases action <;> exact .same
  | planning found =>
    simp only [step]
    split <;> exact .same

theorem Progress.step_executes {progress : Progress} {found : List DocId} {r : Desk.Outcome Progress Result}
    (h : progress.step site w found pending = some r) : Executes w pending progress.upcoming r.1 r.2.1 := by
  have hpc : ∀ pc : Pc, (∀ action, Progress.upcoming (.acting action pc) = pc.upcoming) ∧
      ∀ loop docId, Progress.upcoming (.looping loop docId pc) = pc.upcoming := by
    intro pc
    cases pc with
    | writing todo => cases todo <;> exact ⟨fun _ => rfl, fun _ _ => rfl⟩
    | requiring | selecting | planning => exact ⟨fun _ => rfl, fun _ _ => rfl⟩
  cases progress with
  | acting action pc =>
    cases h
    rw [(hpc pc).1]
    exact Pc.step_executes action pc
  | requiring bulk =>
    cases h
    exact .same
  | matching bulk | finding actor dryRun =>
    simp only [step] at h
    split at h <;> cases h
    exact .same
  | looping loop docId pc =>
    cases h
    rw [(hpc pc).2]
    exact Pc.step_executes (loop.job.redrive site docId) pc
  | concluding bulk loop todo =>
    cases h
    have hexecutes := writeStep_executes site w pending todo
    cases todo <;> exact hexecutes

/-! ## The desk -/

theorem mem_locked {other : Option Nat} :
    d ∈ k.locked other ↔ ∃ i o, some i ≠ other ∧ k.calls.lookup i = some o ∧ d ∈ o.holds := by
  simp only [locked, List.mem_flatMap, List.mem_filter, decide_eq_true_eq, Prod.exists, Table.mem_rows]
  exact ⟨fun ⟨i, o, ⟨ho, hi⟩, hd⟩ => ⟨i, o, hi, ho, hd⟩, fun ⟨i, o, hi, ho, hd⟩ => ⟨i, o, ⟨ho, hi⟩, hd⟩⟩

/-- No row is held by two connections. -/
def NoSharedRow (k : Desk) : Prop :=
  ∀ i j o p, i ≠ j → k.calls.lookup i = some o → k.calls.lookup j = some p → ∀ d, d ∈ o.holds → d ∉ p.holds

/-- A statement that runs writes no row that another connection holds. -/
theorem runStatement_free {found : List DocId} {progress : Progress} (h : k.runStatement site cid found = some k')
    (ho : k.calls.lookup cid = some ⟨progress, pending⟩) :
    ∀ d, (progress.upcoming.bind Write.locks) = some d → d ∉ k.locked (some cid) := by
  intro d hd hheld
  unfold runStatement at h
  rw [ho] at h
  simp only [hd, Option.any_some, hheld, decide_true, if_true] at h
  cases h

/-- What a connection holds after a statement: at most the row it has just written more. -/
theorem Kept.holds {upcoming : Option Write} {pending' : List Write} (h : Kept pending upcoming pending') :
    ∀ d, d ∈ pending'.filterMap Write.locks → d ∈ pending.filterMap Write.locks ∨ upcoming.bind Write.locks = some d := by
  intro d hd
  cases h with
  | cleared => cases hd
  | same => exact Or.inl hd
  | @executed write hup =>
    rw [List.filterMap_append, List.mem_append] at hd
    refine hd.imp_right fun hnew => ?_
    obtain ⟨write', hmem, hlock⟩ := List.mem_filterMap.mp hnew
    rw [List.mem_singleton.mp hmem] at hlock
    rw [hup, Option.bind_some, hlock]

/-- Where an open call comes from: it was there, it has just been made, or the step was its own. -/
theorem open_of_step (hs : Step site k a k') (ho : k'.calls.lookup cid = some o) :
    ((∀ found, a ≠ .statement cid found) ∧ k.calls.lookup cid = some o) ∨ (∃ call : Call, o = ⟨call.start, []⟩) ∨
    ∃ found before r, a = .statement cid found ∧ k.calls.lookup cid = some before ∧
      before.progress.step site k.sys.world found before.pending = some r ∧ r.2.2 = .goto o.progress ∧
      o.pending = r.2.1 ∧ k'.sys.world = r.1 := by
  unfold Step step at hs
  cases a with
  | pipeline act =>
    obtain ⟨sys, _, hs⟩ := Option.bind_eq_some_iff.mp hs
    split at hs <;> cases hs
    exact Or.inl ⟨nofun, ho⟩
  | call i call =>
    dsimp only at hs
    split at hs <;> cases hs
    rw [Table.lookup_insert_ite] at ho
    split at ho
    · cases ho
      exact Or.inr (Or.inl ⟨call, rfl⟩)
    · exact Or.inl ⟨nofun, ho⟩
  | fault i =>
    obtain ⟨_, _, rfl⟩ := Option.map_eq_some_iff.mp hs
    by_cases hcid : cid = i
    · subst hcid
      rw [AList.lookup_erase] at ho
      cases ho
    · rw [AList.lookup_erase_ne hcid] at ho
      exact Or.inl ⟨nofun, ho⟩
  | statement i found =>
    obtain ⟨before, r, hbefore, hr, rfl⟩ := runStatement_inv hs
    rcases goOn_lookup ho with ⟨hne, hkept⟩ | ⟨rfl, progress, hnext, rfl⟩
    · refine Or.inl ⟨fun found' he => ?_, hkept⟩
      cases he
      exact hne rfl
    · exact Or.inr (Or.inr ⟨found, before, r, rfl, hbefore, hr, hnext, rfl, rfl⟩)

theorem noSharedRow_step (hi : NoSharedRow k) (hs : Step site k a k') : NoSharedRow k' := by
  -- whoever else holds a row was there before, and the row of a statement was free
  have hown : ∀ {i j : Nat} {found : List DocId} {before p : Open} {r : Desk.Outcome Progress Result}, i ≠ j →
      a = .statement i found → k.calls.lookup i = some before →
      before.progress.step site k.sys.world found before.pending = some r → k.calls.lookup j = some p →
      ∀ d, d ∈ r.2.1.filterMap Write.locks → d ∉ p.holds := by
    intro i j found before p r hij ha hbefore hr hp d hd hdp
    subst ha
    rcases (Progress.step_executes hr).kept.holds d hd with hold | hnew
    · exact hi i j before p hij hbefore hp d hold hdp
    · exact runStatement_free hs hbefore d hnew (mem_locked.mpr ⟨j, p, fun he => hij (Option.some.inj he).symm, hp, hdp⟩)
  intro i j o p hij ho hp d hdo hdp
  rcases open_of_step hs ho with ⟨_, ho⟩ | ⟨_, rfl⟩ | ⟨found, before, r, ha, hbefore, hr, _, hpending, _⟩
  · rcases open_of_step hs hp with ⟨_, hp⟩ | ⟨_, rfl⟩ | ⟨found, before, r, ha, hbefore, hr, _, hpending, _⟩
    · exact hi i j o p hij ho hp d hdo hdp
    · cases hdp
    · rw [Open.holds, hpending] at hdp
      exact hown (Ne.symm hij) ha hbefore hr ho d hdp hdo
  · cases hdo
  · rw [Open.holds, hpending] at hdo
    rcases open_of_step hs hp with ⟨_, hp⟩ | ⟨_, rfl⟩ | ⟨_, _, _, ha', _⟩
    · exact hown hij ha hbefore hr hp d hdo hdp
    · cases hdp
    · rw [ha] at ha'
      cases ha'
      exact hij rfl

/-- A row that a connection holds is only changed by that connection's own statements. -/
theorem held_of_step (hi : NoSharedRow k) (ho : k.calls.lookup cid = some o) (hd : d ∈ o.holds)
    (hother : ∀ found, a ≠ .statement cid found) (hs : Step site k a k') :
    k'.db.documents.lookup d = k.db.documents.lookup d := by
  unfold Step step at hs
  cases a with
  | pipeline act =>
    obtain ⟨sys, _, hs⟩ := Option.bind_eq_some_iff.mp hs
    split at hs <;> cases hs
    next hkept => exact hkept d (mem_locked.mpr ⟨cid, o, nofun, ho, hd⟩)
  | call i call =>
    dsimp only at hs
    split at hs <;> cases hs
    rfl
  | fault i =>
    obtain ⟨_, _, rfl⟩ := Option.map_eq_some_iff.mp hs
    rfl
  | statement i found =>
    obtain ⟨p, r, hp, hr, rfl⟩ := runStatement_inv hs
    refine (Progress.step_executes hr).elsewhere d ?_
    exact hi cid i o p (fun he => hother found (by rw [he])) ho hp d hd

end Desk
end DocPipeline

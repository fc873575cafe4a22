import Mathlib.Algebra.Order.Group.Basic
import Mathlib.Algebra.Order.Ring.Int
import DocPipeline.Reconciliation.GpuWatchdog

/-!
# A watchdog that spares a healthy pod

The timestamp a poll returns is either the one it was given or the reading of the clock
after its deletion, and an exception keeps the one before. So a deletion that has passed
the cooldown check starts that much later than every earlier one has finished, whatever
fails in between.
-/
namespace DocPipeline.Audit

set_option autoImplicit false

open GpuWatchdog

section

variable {T : Type} {config : Config T} {poll : Poll T} {lastRestart : T}

/-! ## One poll -/

/-- What the pinning loop has done: attempts in order, all of them unless one raises. -/
structure PinsInOrder (models : List String) (attempts : List (String × Reply)) : Prop where
  ordered : attempts.map Prod.fst <+: models
  last : ∀ r, r ∈ attempts.dropLast → r.2 ≠ .otherError
  all : (∀ r, r ∈ attempts → r.2 ≠ .otherError) → attempts.map Prod.fst = models

theorem PinsInOrder.nil : PinsInOrder [] [] := ⟨List.prefix_rfl, nofun, fun _ => rfl⟩

theorem PinsInOrder.raised {model : String} {rest : List String} :
    PinsInOrder (model :: rest) [(model, .otherError)] :=
  ⟨⟨rest, rfl⟩, nofun, fun h => absurd rfl (h _ List.mem_cons_self)⟩

theorem PinsInOrder.cons {model : String} {reply : Reply} {rest : List String} {attempts : List (String × Reply)}
    (hreply : reply ≠ .otherError) (h : PinsInOrder rest attempts) :
    PinsInOrder (model :: rest) ((model, reply) :: attempts) := by
  refine ⟨?_, ?_, ?_⟩
  · rw [List.map_cons, List.prefix_cons_inj]
    exact h.ordered
  · intro r hr
    cases attempts with
    | nil => cases hr
    | cons first others =>
      rw [List.dropLast_cons_of_ne_nil (List.cons_ne_nil _ _)] at hr
      rcases List.mem_cons.mp hr with rfl | hr
      · exact hreply
      · exact h.last r hr
  · intro hall
    rw [List.map_cons, h.all fun r hr => hall r (List.mem_cons_of_mem _ hr)]

/-- The calls of the pinning loop: only pins, and the timestamp stays. -/
theorem pinMissing_spec (lastRestart : T) (pin : Nat → Reply) (models : List String) (i : Nat) :
    PinsInOrder models ((pinMissing pin lastRestart i models).events.filterMap Event.pinned) ∧
    (∀ e, e ∈ (pinMissing pin lastRestart i models).events → e.isDeletion = false) ∧
    (pinMissing pin lastRestart i models).returned.getD lastRestart = lastRestart := by
  induction models generalizing i with
  | nil => exact ⟨.nil, fun _ he => (nomatch he), rfl⟩
  | cons model rest ih =>
    obtain ⟨hpins, hevents, hreturned⟩ := ih (i + 1)
    have hgoesOn : ∀ reply, pin i = reply → reply ≠ .otherError →
        pinMissing pin lastRestart i (model :: rest) =
          ⟨.pin model reply :: (pinMissing pin lastRestart (i + 1) rest).events,
            (pinMissing pin lastRestart (i + 1) rest).returned⟩ := by
      intro reply hreply hne
      cases reply with
      | success | httpError => simp only [pinMissing, hreply]
      | otherError => exact absurd rfl hne
    by_cases hother : pin i = .otherError
    · have hstops : pinMissing pin lastRestart i (model :: rest) = ⟨[.pin model .otherError], none⟩ := by
        simp only [pinMissing, hother]
      rw [hstops]
      refine ⟨.raised, fun e he => ?_, rfl⟩
      rw [List.mem_singleton.mp he]
      rfl
    · rw [hgoesOn _ rfl hother]
      refine ⟨.cons hother hpins, fun e he => ?_, hreturned⟩
      rcases List.mem_cons.mp he with rfl | he
      · rfl
      · exact hevents e he

theorem restarted_of_pins {events : List (Event T)} (h : ∀ e, e ∈ events → e.isDeletion = false) :
    events.filterMap Event.restarted = [] := by
  rw [List.filterMap_eq_nil_iff]
  intro e he
  have hpin := h e he
  cases e with
  | deletion => cases hpin
  | pin => rfl

/-- What the calls of one poll may be. -/
structure Spares (config : Config T) (poll : Poll T) (events : List (Event T)) : Prop where
  deletes : ∀ e, e ∈ events → e.isDeletion = true → poll.sawCpu = true ∧ config.dryRun = false
  idle : poll.sawCpu = true ∨ poll.models = .unreachable → events.filterMap Event.pinned = []
  pins : PinsInOrder (poll.toPin config) (events.filterMap Event.pinned)

variable [AddCommGroup T] [LinearOrder T]

/-- How one poll goes: with no deletion that succeeds, or with one after the cooldown. -/
theorem checkOnce_spec (config : Config T) (poll : Poll T) (lastRestart : T) :
    Spares config poll (checkOnce config poll lastRestart).events ∧
    (((checkOnce config poll lastRestart).events.filterMap Event.restarted = [] ∧
        (checkOnce config poll lastRestart).returned.getD lastRestart = lastRestart) ∨
      ((checkOnce config poll lastRestart).events.filterMap Event.restarted = [(poll.checked, poll.deleted)] ∧
        (checkOnce config poll lastRestart).returned = some poll.deleted ∧
        ¬ poll.checked - lastRestart < config.cooldown)) := by
  have hquiet : poll.toPin config = [] → Spares config poll [] := by
    intro hpin
    refine ⟨fun _ he => (nomatch he), fun _ => rfl, ?_⟩
    rw [hpin]
    exact .nil
  cases hmodels : poll.models with
  | unreachable | raised =>
    have hcheck : (checkOnce config poll lastRestart).events = [] ∧
        (checkOnce config poll lastRestart).returned.getD lastRestart = lastRestart := by
      rw [checkOnce, hmodels]
      exact ⟨rfl, rfl⟩
    have hpin : poll.toPin config = [] := by simp only [Poll.toPin, hmodels]
    rw [hcheck.1]
    exact ⟨hquiet hpin, Or.inl ⟨rfl, hcheck.2⟩⟩
  | listed models =>
    by_cases hcpu : (classify models).2 ≠ []
    · have hsaw : poll.sawCpu = true := by
        rw [Poll.sawCpu, hmodels]
        exact decide_eq_true hcpu
      have hpin : poll.toPin config = [] := by simp only [Poll.toPin, hmodels, if_pos hcpu]
      have hdeletes : config.dryRun = false → ∀ reply,
          Spares config poll [.deletion poll.checked poll.deleted reply] := by
        intro hdry reply
        refine ⟨fun _ _ _ => ⟨hsaw, hdry⟩, fun _ => rfl, ?_⟩
        rw [hpin]
        exact .nil
      simp only [checkOnce, hmodels, if_pos hcpu]
      split
      · exact ⟨hquiet hpin, Or.inl ⟨rfl, rfl⟩⟩
      · next hdry =>
        have hlive : config.dryRun = false := Bool.eq_false_iff.mpr hdry
        split
        · exact ⟨hquiet hpin, Or.inl ⟨rfl, rfl⟩⟩
        · next hcool =>
          cases poll.deletion with
          | success => exact ⟨hdeletes hlive _, Or.inr ⟨rfl, rfl, hcool⟩⟩
          | httpError | otherError => exact ⟨hdeletes hlive _, Or.inl ⟨rfl, rfl⟩⟩
    · obtain ⟨hpins, hevents, hreturned⟩ :=
        pinMissing_spec lastRestart poll.pin (missing config (classify models).1) 0
      have hpin : poll.toPin config = missing config (classify models).1 := by
        simp only [Poll.toPin, hmodels, if_neg hcpu]
      have hsaw : ¬ (poll.sawCpu = true ∨ poll.models = .unreachable) := by
        simp only [Poll.sawCpu, hmodels, decide_eq_true_eq]
        exact fun h => h.elim hcpu nofun
      simp only [checkOnce, hmodels, if_neg hcpu]
      refine ⟨⟨fun e he hdel => ?_, fun h => absurd h hsaw, hpin ▸ hpins⟩,
        Or.inl ⟨restarted_of_pins hevents, hreturned⟩⟩
      rw [hevents e he] at hdel
      cases hdel

/-! ## Every run of the loop -/

/-- The readings of the clock, in the order in which the polls take them. -/
def readings (polls : List (Poll T)) : List T := polls.flatMap fun p => [p.checked, p.deleted]

/-- The successful deletions of a run. -/
def restarts (run : List (Poll T × List (Event T))) : List (T × T) := run.flatMap fun p => p.2.filterMap Event.restarted

theorem restarts_cons (config : Config T) (lastRestart : T) (poll : Poll T) (rest : List (Poll T)) :
    restarts (pollForever config lastRestart (poll :: rest)) =
      (checkOnce config poll lastRestart).events.filterMap Event.restarted ++
        restarts (pollForever config ((checkOnce config poll lastRestart).returned.getD lastRestart) rest) := rfl

theorem pollForever_spares (config : Config T) (lastRestart : T) (polls : List (Poll T)) :
    ∀ p, p ∈ pollForever config lastRestart polls → Spares config p.1 p.2 := by
  induction polls generalizing lastRestart with
  | nil => exact fun _ hp => nomatch hp
  | cons poll rest ih =>
    intro p hp
    rcases List.mem_cons.mp hp with rfl | hp
    · exact (checkOnce_spec config poll lastRestart).1
    · exact ih _ p hp

variable [IsOrderedAddMonoid T]

/-- With a timestamp that the clock has reached, every deletion is a cooldown away from it. -/
theorem restarts_after (config : Config T) {polls : List (Poll T)} {lastRestart : T}
    (hlast : ∀ r, r ∈ readings polls → lastRestart ≤ r) (hclock : (readings polls).Pairwise (· ≤ ·)) :
    ∀ d, d ∈ restarts (pollForever config lastRestart polls) → lastRestart + config.cooldown ≤ d.1 := by
  induction polls generalizing lastRestart with
  | nil => exact fun _ hd => nomatch hd
  | cons poll rest ih =>
    intro d hd
    obtain ⟨hdeleted, hrest⟩ := List.pairwise_cons.mp (List.pairwise_cons.mp hclock).2
    have hreached : lastRestart ≤ poll.deleted := hlast _ (List.mem_cons_of_mem _ List.mem_cons_self)
    rw [restarts_cons] at hd
    rcases (checkOnce_spec config poll lastRestart).2 with ⟨hnone, hkept⟩ | ⟨hone, hreturned, hcool⟩
    · rw [hnone, hkept, List.nil_append] at hd
      exact ih (fun r hr => hreached.trans (hdeleted r hr)) hrest d hd
    · rw [hone, hreturned, Option.getD_some, List.singleton_append] at hd
      rcases List.mem_cons.mp hd with rfl | hd
      · have hsince : config.cooldown ≤ poll.checked - lastRestart := not_lt.mp hcool
        calc lastRestart + config.cooldown ≤ lastRestart + (poll.checked - lastRestart) := by gcongr
          _ = poll.checked := add_sub_cancel _ _
      · calc lastRestart + config.cooldown ≤ poll.deleted + config.cooldown := by gcongr
          _ ≤ d.1 := ih hdeleted hrest d hd

/-- Whatever timestamp the loop starts with, its deletions are a cooldown apart. -/
theorem restarts_spaced (config : Config T) {polls : List (Poll T)} (lastRestart : T)
    (hclock : (readings polls).Pairwise (· ≤ ·)) :
    (restarts (pollForever config lastRestart polls)).Pairwise fun d e => d.2 + config.cooldown ≤ e.1 := by
  induction polls generalizing lastRestart with
  | nil => exact .nil
  | cons poll rest ih =>
    obtain ⟨hdeleted, hrest⟩ := List.pairwise_cons.mp (List.pairwise_cons.mp hclock).2
    rw [restarts_cons]
    rcases (checkOnce_spec config poll lastRestart).2 with ⟨hnone, _⟩ | ⟨hone, hreturned, _⟩
    · rw [hnone, List.nil_append]
      exact ih _ hrest
    · rw [hone, hreturned, Option.getD_some, List.singleton_append]
      exact List.pairwise_cons.mpr ⟨restarts_after config hdeleted hrest, ih _ hrest⟩

/-- Deletions that succeed are a cooldown apart, and every poll spares a healthy pod. -/
theorem watchdog_rate_limited (config : Config T) (polls : List (Poll T))
    (hclock : (readings polls).Pairwise (· ≤ ·)) :
    (restarts (runForever config polls)).Pairwise (fun d e => d.2 + config.cooldown ≤ e.1) ∧
    ∀ p, p ∈ runForever config polls → Spares config p.1 p.2 := by
  unfold runForever
  split
  · exact ⟨restarts_spaced config 0 hclock, pollForever_spares config 0 polls⟩
  · exact ⟨.nil, fun _ hp => nomatch hp⟩

end

/-! ## An exception that is no HTTP error -/

/-- Two models to keep, a restart at most every five minutes. -/
def twoModels : Config Int := ⟨true, false, 300, ["llama3.2:1b", "qwen2.5:1.5b"]⟩

/-- Nothing is resident. -/
def idlePoll (pin : Nat → Reply) : Poll Int := ⟨.listed [], 1000, .success, 1000, pin⟩

/-- A model on the CPU, at some time. -/
def faultyPoll (time : Int) : Poll Int :=
  ⟨.listed [{ name := some "llama3.2:1b", sizeVram := some 0 }], time, .success, time, fun _ => .success⟩

theorem rate_limited_run :
    (readings [faultyPoll 1000, faultyPoll 1200, faultyPoll 1400]).Pairwise (· ≤ ·) ∧
    restarts (runForever twoModels [faultyPoll 1000, faultyPoll 1200, faultyPoll 1400]) = [(1000, 1000), (1400, 1400)] ∧
    (restarts (runForever twoModels [faultyPoll 1000, faultyPoll 1200, faultyPoll 1400])).Pairwise
      (fun d e => d.2 + 300 ≤ e.1) :=
  ⟨by decide, by decide, (watchdog_rate_limited twoModels _ (by decide)).1⟩

/-- The first pin raises something else, and the second model is not attempted. -/
theorem pin_raised_stops : ¬ ∀ (config : Config Int) (polls : List (Poll Int)), (readings polls).Pairwise (· ≤ ·) →
    ∀ p, p ∈ runForever config polls → p.1.sawCpu = false → p.1.models ≠ .unreachable →
      (p.2.filterMap Event.pinned).map Prod.fst = p.1.toPin config := by
  intro hclaim
  have hpins := hclaim twoModels [idlePoll fun _ => .otherError] (by decide) _ List.mem_cons_self rfl nofun
  exact absurd hpins (by decide)

end DocPipeline.Audit

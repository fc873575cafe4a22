import DocPipeline.Audit.StateMachine

/-!
# Is every invoice posted once, under its own key, with its own fields?

The key columns are written by a statement of their own, and the run that loses the race
for the result has written them too. The override announces no fields. Each theorem below
is about the runs in which these two things do no harm.
-/
namespace DocPipeline.Audit

set_option autoImplicit false

open Lib Lifecycle Sys

variable {site : Deployment} {s t : Sys} {a : Action}

/-- The document and the fields of an auto-post that a row announces. -/
def autoPostOf (row : OutboxRow) : Option (DocId × Fields) :=
  match row.topic, row.payload with
  | .documentExtracted, .extracted payload =>
    if payload.route = some "auto_post" then payload.fields.map fun fields => (payload.docId, fields) else none
  | _, _ => none

/-- Every auto-post ever enqueued. -/
def autoPosts (s : Sys) : List (DocId × Fields) := s.db.sent.filterMap autoPostOf

/-- The auto-post a step is about to try under a free key: its document, the row and the fields. -/
def posting (s : Sys) : Action → Option (DocId × Document × Fields)
  | .run tid _ =>
    match s.tasks tid with
    | some (.extraction docId (.posting _ fields _)) =>
      (s.document docId).bind fun row =>
        if s.db.holdsKey docId fields.seller fields.invoiceNo then none else some (docId, row, fields)
    | _ => none
  | _ => none

theorem autoPostOf_eq (row : OutboxRow) :
    autoPostOf row = (announcementOf row).bind fun a => if a.autoPost then a.fields.map (a.docId, ·) else none := by
  unfold autoPostOf announcementOf
  cases row.topic <;> cases row.payload <;> try rfl
  simp only [announcement, Option.bind_some, decide_eq_true_eq]

/-- The auto-posts are the announcements of the abstract model that are auto-posts. -/
theorem autoPosts_eq :
    autoPosts s = (ofDb s.db).announced.filterMap fun a => if a.autoPost then a.fields.map (a.docId, ·) else none := by
  unfold autoPosts ofDb
  rw [List.filterMap_filterMap]
  congr 1
  funext row
  exact autoPostOf_eq row

theorem autoPost_inv {a : Announcement DocId Fields} {p : DocId × Fields}
    (h : (if a.autoPost then a.fields.map (a.docId, ·) else none) = some p) :
    a.autoPost = true ∧ ∃ f, a.fields = some f ∧ (a.docId, f) = p := by
  split at h
  · next hauto => exact ⟨hauto, Option.map_eq_some_iff.mp h⟩
  · cases h

theorem mem_autoPosts {d : DocId} {f : Fields} : (d, f) ∈ autoPosts s ↔ AutoPosted (ofDb s.db) d f := by
  rw [autoPosts_eq, List.mem_filterMap]
  constructor
  · rintro ⟨a, ha, he⟩
    obtain ⟨hauto, f', hf', heq⟩ := autoPost_inv he
    cases heq
    exact ⟨a, ha, rfl, hauto, hf'⟩
  · rintro ⟨a, ha, rfl, hauto, hf⟩
    exact ⟨a, ha, by rw [if_pos hauto, hf, Option.map_some]⟩

/-- A key that is re-written is a posting step on a document that has its result. -/
theorem posting_of_rekey {tid : Nat} (input : Input) {task : Task} {db : Db} {docId : DocId} {row : Document}
    {vendor invoiceNo : Option String} (htask : s.tasks tid = some task)
    (hd : task.Does site s.db db (.rekey docId vendor invoiceNo))
    (hrow : db.documents.lookup docId = some row) (hk : db.holdsKey docId vendor invoiceNo = false) :
    db = s.db ∧ ∃ fields, posting s (.run tid input) = some (docId, row, fields) ∧
      pair fields = (vendor, invoiceNo) := by
  obtain ⟨pc, rfl, rfl, hd⟩ := hd.closing rfl
  cases hd
  exact ⟨rfl, _, by simp [posting, htask, document, hrow, hk], rfl⟩

/-! ## One auto-post per key -/

/-- An auto-post that loses the race carries the key the document was posted under. -/
def keepsPostedKey (s : Sys) (a : Action) : Bool :=
  match posting s a with
  | some (docId, row, fields) =>
    row.extractionResult = none || (autoPosts s).all fun p =>
      p.1 ≠ docId || p.2.seller = none || p.2.invoiceNo = none || decide (pair fields = pair p.2)
  | none => true

theorem keepsPostedKey_of_seen {σ : State DocId Fields String} {e : Event DocId Fields String}
    (hg : keepsPostedKey s a = true) (h : Seen site s a σ e) : KeepsPostedKey pair σ e := by
  cases h with
  | delivery => trivial
  | @operation db db' op e hd hs he =>
    obtain ⟨tid, input, rfl, task, htask, hd⟩ := hd.run
    cases hs with
    | insert | move | route | settle | post | accept =>
      cases he
      trivial
    | note | fallThrough | split | recordShard | send | aside => cases he
    | @rekey docId row vendor invoiceNo hrow hsome hk =>
      cases he
      obtain ⟨rfl, fields, hposting, hpair⟩ := posting_of_rekey input htask hd hrow hk
      intro a f ha hdoc hauto hf hfull
      have hmem : (docId, f) ∈ autoPosts s := mem_autoPosts.mpr ⟨a, ha, hdoc, hauto, hf⟩
      simp only [keepsPostedKey, hposting, Bool.or_eq_true, List.all_eq_true, decide_eq_true_eq] at hg
      rcases hg.resolve_left hsome _ hmem with ((hne | hv) | hi) | heq
      · exact absurd rfl hne
      · exact absurd hv hfull.1
      · exact absurd hi hfull.2
      · rw [← hpair, heq]

theorem countP_le_one {α : Type} {p : α → Bool} {l : List α}
    (h : l.Pairwise fun a b => p a = true → p b = true → False) : l.countP p ≤ 1 := by
  induction l with
  | nil => exact Nat.zero_le _
  | cons a l ih =>
    rw [List.pairwise_cons] at h
    rw [List.countP_cons]
    cases hp : p a with
    | false => simpa using ih h.2
    | true =>
      have hzero : l.countP p = 0 := List.countP_eq_zero.mpr fun b hb hpb => h.1 b hb hp hpb
      simp [hzero]

def postsKey (vendor invoiceNo : String) (p : DocId × Fields) : Bool :=
  decide (p.2.seller = some vendor) && decide (p.2.invoiceNo = some invoiceNo)

/-- In a run whose lost races keep the posted key, no pair is auto-posted twice. -/
theorem auto_posted_once {as : List Action}
    (h : GuardedRun site (fun s a => keepsPostedKey s a = true) initial as s) (vendor invoiceNo : String) :
    (autoPosts s).countP (postsKey vendor invoiceNo) ≤ 1 := by
  have hlife := life_run (H := KeepsPostedKey pair) (fun s a σ e => keepsPostedKey_of_seen) h
  have hinv : PostedOnce pair (ofDb s.db) := hlife.invariant postedOnce_initial
    fun _ _ _ hi hg hs => postedOnce_step hi hs hg
  refine countP_le_one ?_
  rw [autoPosts_eq, List.pairwise_filterMap]
  refine hinv.pairwise.imp fun {a b} hab p hp q hq hpv hqv => ?_
  obtain ⟨ha, f, hf, rfl⟩ := autoPost_inv hp
  obtain ⟨hb, g, hg, rfl⟩ := autoPost_inv hq
  simp only [postsKey, Bool.and_eq_true, decide_eq_true_eq] at hpv hqv
  refine hab f g ha hb hf hg ⟨?_, ?_⟩ ?_
  · rw [pair, hpv.1]
    exact Option.some_ne_none _
  · rw [pair, hpv.2]
    exact Option.some_ne_none _
  · rw [pair, pair, hpv.1, hpv.2, hqv.1, hqv.2]

/-- Two scans of one invoice. -/
def twoScans : Deployment :=
  .defaults fun path =>
    if path = "a.pdf" then some invoicePdf
    else if path = "b.pdf" then some { invoicePdf with crc32c := "b" }
    else none

def sellerB : Fields := (readingOf "B").modelDump

/-- Both documents wait for extraction; the first message of the topic is the first one's. -/
def bothWaiting : List Action :=
  Schedule.intake ["a.pdf", "b.pdf"] ++ Schedule.textLayer 0 ++ Schedule.textLayer 1

/-- The second scan is sent to review because the first one holds the pair. -/
def postedOnceEach : List Action :=
  bothWaiting ++ Schedule.extract 1 0 (verdictOn (reads "A")) ++ Schedule.extract 2 1 (verdictOn (reads "A")) ++
    Schedule.turns 1 2 ++ Schedule.turns 2 3

theorem second_scan_not_posted :
    ∃ s, GuardedRun twoScans (fun s a => keepsPostedKey s a = true) initial postedOnceEach s ∧
      (autoPosts s).length = 1 ∧ (autoPosts s).countP (postsKey "A" "1") ≤ 1 := by
  obtain ⟨s, hrun, hs⟩ := exists_guardedRun twoScans keepsPostedKey postedOnceEach
    (fun s => decide ((autoPosts s).length = 1)) (by decide +kernel)
  exact ⟨s, hrun, of_decide_eq_true hs, auto_posted_once hrun "A" "1"⟩

/-- Two runs on the first scan read different sellers. The first posts, the second loses
and takes the key with it, and the second scan posts under the key that was left. -/
def keyTaken : List Action :=
  bothWaiting ++ Schedule.extract 1 0 (verdictOn (reads "A")) ++ Schedule.extract 2 0 (verdictOn (reads "B")) ++
    Schedule.turns 1 2 ++ Schedule.turns 2 2 ++ Schedule.extract 3 1 (verdictOn (reads "A")) ++ Schedule.turns 3 2

theorem key_taken_posts_twice :
    ¬ ∀ (site : Deployment) (as : List Action) (s : Sys) (vendor invoiceNo : String), FreeRun site initial as s →
      vendor ≠ "" → invoiceNo ≠ "" → (autoPosts s).countP (postsKey vendor invoiceNo) ≤ 1 := by
  intro hclaim
  obtain ⟨s, hrun, hs⟩ := exists_judgedRun twoScans (fun tid => reads (if tid = 2 then "B" else "A")) keyTaken
    (fun s => decide (1 < (autoPosts s).countP (postsKey "A" "1"))) (by decide +kernel)
  exact absurd (hclaim twoScans keyTaken s "A" "1" hrun (by decide) (by decide))
    (Nat.not_le.mpr (of_decide_eq_true hs))

/-! ## The key belongs to posted documents -/

/-- A lost auto-post writes no key, or the one the complete document was posted under; and
no document that has its result is sent to review while it holds a key. -/
def keepsKeyPosted (s : Sys) (a : Action) : Bool :=
  (match posting s a with
    | some (docId, row, fields) =>
      row.extractionResult = none || decide (pair fields = (none, none)) ||
        (row.state = .complete && row.extractionResult.any fun f =>
          decide ((docId, f) ∈ autoPosts s) && decide (pair fields = pair f))
    | none => true) &&
  match closing s a with
  | some (row, .review) => row.extractionResult = none || (row.vendor = none && row.invoiceNo = none)
  | _ => true

theorem keepsKeyPosted_of_seen {σ : State DocId Fields String} {e : Event DocId Fields String}
    (hg : keepsKeyPosted s a = true) (h : Seen site s a σ e) : KeepsKeyPosted pair σ e := by
  simp only [keepsKeyPosted, Bool.and_eq_true] at hg
  obtain ⟨hpost, hroute⟩ := hg
  cases h with
  | delivery => trivial
  | @operation db db' op e hd hs he =>
    obtain ⟨tid, input, rfl, task, htask, hd⟩ := hd.run
    cases hs with
    | insert | move | settle | post | accept =>
      cases he
      trivial
    | note | fallThrough | split | recordShard | send | aside => cases he
    | @rekey docId row vendor invoiceNo hrow hsome hk =>
      cases he
      obtain ⟨rfl, fields, hposting, hpair⟩ := posting_of_rekey input htask hd hrow hk
      simp only [hposting, Bool.or_eq_true, Bool.and_eq_true, decide_eq_true_eq, Option.any_eq_true] at hpost
      rcases hpost with (hnone | hblank) | ⟨hc, f, hf, hposted, heq⟩
      · exact absurd hnone hsome
      · exact Or.inl (hpair ▸ hblank)
      · exact Or.inr ⟨record row, f, ofDb_docs hrow, hc, hf, mem_autoPosts.mp hposted, hpair ▸ heq⟩
    | @route docId row gates hrow =>
      obtain ⟨pc, rfl, rfl, hd⟩ := hd.closing rfl
      cases hd
      cases he
      intro r hr hsome
      rw [ofDb_docs hrow] at hr
      cases hr
      simp only [closing, htask, document, hrow, Option.bind_some, Bool.or_eq_true, Bool.and_eq_true,
        decide_eq_true_eq] at hroute
      obtain ⟨hv, hi⟩ := hroute.resolve_left hsome
      exact Prod.ext hv hi

/-- The run in `tid` is about to post `docId` under the key of another document that was
auto-posted. -/
def HeldByPosted (s : Sys) (tid : Nat) (docId : DocId) : Prop :=
  ∃ assembled fields gates d f, s.tasks tid = some (.extraction docId (.posting assembled fields gates)) ∧
    d ≠ docId ∧ (d, f) ∈ autoPosts s ∧ pair f = pair fields

/-- A key that is taken is taken by a posted document. -/
theorem posted_of_holdsKey (hi : KeyPosted pair (ofDb s.db)) {docId : DocId} {fields : Fields}
    (hk : s.db.holdsKey docId fields.seller fields.invoiceNo = true) :
    ∃ d f, d ≠ docId ∧ (d, f) ∈ autoPosts s ∧ pair f = pair fields := by
  have hheld : ¬ (ofDb s.db).Free docId (pair fields) := fun hfree => by
    rw [pair, ← holdsKey_iff, hk] at hfree
    cases hfree
  unfold State.Free at hheld
  push Not at hheld
  obtain ⟨hfull, d, r, hne, hr, hkey⟩ := hheld
  have hsome : r.key ≠ (none, none) := fun h => by
    rw [h] at hkey
    rw [← hkey] at hfull
    exact hfull.1 rfl
  obtain ⟨_, f, _, hf, hposted⟩ := hi d r hr hsome
  exact ⟨d, f, hne, mem_autoPosts.mpr hposted, hf ▸ hkey⟩

theorem keyPosted_run {as : List Action}
    (h : GuardedRun site (fun s a => keepsKeyPosted s a = true) initial as s) : KeyPosted pair (ofDb s.db) :=
  (life_run (H := KeepsKeyPosted pair) (fun _ _ _ _ => keepsKeyPosted_of_seen) h).invariant
    (fun _ _ hr => nomatch hr) fun _ _ _ hi hg hs => keyPosted_step hi hs hg

/-- A run that is about to leave through `review:duplicate`, or has, has met a posted document. -/
theorem duplicate_of_posted {as : List Action}
    (h : GuardedRun site (fun s a => keepsKeyPosted s a = true) initial as s) (tid : Nat) (docId : DocId) :
    ((∃ gates, s.tasks tid = some (.extraction docId (.routing gates .reviewDuplicate))) ∨
      Landmark.returned tid docId .reviewDuplicate ∈ s.log) →
    Passed (Step site) (fun s a => keepsKeyPosted s a = true) initial as (HeldByPosted · tid docId) s := by
  induction h with
  | nil =>
    rintro (⟨gates, htask⟩ | hlog)
    · cases htask
    · cases hlog
  | @snoc m u as a hrun hg hs ih =>
    rintro (⟨gates, htask⟩ | hlog)
    · rcases extraction_of_step hs htask with hkept | hpc | ⟨input, pc, rfl, hbefore, hgoto⟩
      · exact (ih (Or.inl ⟨gates, hkept⟩)).snoc hg hs
      · cases hpc
      · obtain ⟨assembled, fields, gates', rfl, hk⟩ := Extraction.step_duplicate hgoto
        obtain ⟨d, f, hne, hposted, heq⟩ := posted_of_holdsKey (keyPosted_run hrun) hk
        exact (Passed.here hrun ⟨assembled, fields, gates', d, f, hbefore, hne, hposted, heq⟩).snoc hg hs
    · rcases log_of_step hs with heq | ⟨i, input, task, r, rfl, htask, _, _, heq⟩
      · exact (ih (Or.inr (heq ▸ hlog))).snoc hg hs
      · rw [heq, List.mem_append] at hlog
        rcases hlog with hnew | hold
        · obtain ⟨rfl, pc, rfl, hret⟩ := returned_of_landmark hnew
          have hreturns := Extraction.step_returns hret
          generalize hresult : Extraction.Result.reviewDuplicate = result at hreturns
          cases hreturns with
          | routed _ =>
            subst hresult
            exact (ih (Or.inl ⟨_, htask⟩)).snoc hg hs
          | unknown _ | exhausted _ | held _ => cases hresult
          | @posted _ _ _ won _ => cases won <;> cases hresult
        · exact (ih (Or.inr hold)).snoc hg hs

/-- In a run whose lost races and routes leave keys to posted documents, a key column
that is set belongs to a complete document and is the one of its result, and a run
ends as a duplicate only after it has met a posted document of the same pair. -/
theorem key_only_of_posted {as : List Action}
    (h : GuardedRun site (fun s a => keepsKeyPosted s a = true) initial as s) :
    (∀ d row, s.document d = some row → row.vendor ≠ none ∨ row.invoiceNo ≠ none →
      row.state = .complete ∧ ∃ f, row.extractionResult = some f ∧ row.vendor = f.seller ∧
        row.invoiceNo = f.invoiceNo) ∧
    ∀ tid d, Landmark.returned tid d .reviewDuplicate ∈ s.log →
      Passed (Step site) (fun s a => keepsKeyPosted s a = true) initial as (HeldByPosted · tid d) s := by
  refine ⟨fun d row hrow hset => ?_, fun tid d hlog => duplicate_of_posted h tid d (Or.inr hlog)⟩
  have hsome : (record row).key ≠ (none, none) := fun hblank =>
    hset.elim (fun hv => hv (Prod.mk.inj hblank).1) fun hi => hi (Prod.mk.inj hblank).2
  obtain ⟨hc, f, hf, hkey, _⟩ := keyPosted_run h d (record row) (ofDb_docs hrow) hsome
  exact ⟨hc, f, hf, (Prod.mk.inj hkey).1, (Prod.mk.inj hkey).2⟩

theorem second_scan_meets_posted :
    ∃ s, GuardedRun twoScans (fun s a => keepsKeyPosted s a = true) initial postedOnceEach s ∧
      Landmark.returned 2 "crc32c-b" .reviewDuplicate ∈ s.log ∧
      Passed (Step twoScans) (fun s a => keepsKeyPosted s a = true) initial postedOnceEach
        (HeldByPosted · 2 "crc32c-b") s := by
  obtain ⟨s, hrun, hs⟩ := exists_guardedRun twoScans keepsKeyPosted postedOnceEach
    (fun s => decide (Landmark.returned 2 "crc32c-b" .reviewDuplicate ∈ s.log)) (by decide +kernel)
  have hlog := of_decide_eq_true hs
  exact ⟨s, hrun, hlog, (key_only_of_posted hrun).2 2 "crc32c-b" hlog⟩

/-- Auto-posting is off for the first run, so its result is held for review. The document
is re-driven with auto-posting on: the second run loses to the held result, and leaves its key. -/
def heldThenRedriven : List Action :=
  Schedule.intake ["a.pdf"] ++ Schedule.textLayer 0 ++ Schedule.killSwitch 1 false ++
    Schedule.extract 1 0 (verdictOn (reads "A")) ++ Schedule.turns 1 2 ++ Schedule.killSwitch 1 true ++
    Schedule.forceRedrive 1 "crc32c-a" ++ Schedule.publish 1 ++
    Schedule.extract 1 1 (verdictOn (reads "A")) ++ Schedule.turns 1 2

theorem held_result_keeps_key :
    ¬ ∀ (site : Deployment) (as : List Action) (s : Sys), FreeRun site initial as s →
      ∀ d row, s.document d = some row → row.vendor ≠ none ∨ row.invoiceNo ≠ none →
        row.state = .complete ∧ ∃ f, row.extractionResult = some f ∧ row.vendor = f.seller ∧
          row.invoiceNo = f.invoiceNo := by
  intro hclaim
  obtain ⟨s, hrun, hs⟩ := exists_judgedRun oneInvoice (fun _ => reads "A") heldThenRedriven
    (fun s => (s.document "crc32c-a").any fun (row : Document) =>
      decide (row.vendor ≠ none) && decide (row.state = .extractRunning)) (by decide +kernel)
  obtain ⟨row, hrow, htest⟩ := (Option.any_eq_true ..).mp hs
  simp only [Bool.and_eq_true, decide_eq_true_eq] at htest
  obtain ⟨hc, _⟩ := hclaim oneInvoice heldThenRedriven s hrun "crc32c-a" row hrow (Or.inl htest.1)
  rw [htest.2] at hc
  cases hc

end DocPipeline.Audit

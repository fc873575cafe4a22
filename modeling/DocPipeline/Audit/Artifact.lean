import DocPipeline.Audit.Join
import DocPipeline.Effects.Bucket

/-!
# Is an artifact whole once it exists?

`ensure_assembled` writes what it has gathered, and the completeness gate looks at it
afterwards. The gate stops the run that wrote a partial artifact; the object stays, and
every later run and re-drive takes it for the end of text production. In every run whose
writes would pass the gate beforehand, an artifact holds each page of its document once.
-/
namespace DocPipeline.Audit

set_option autoImplicit false

open Lib Sys Gather PdfWorker

variable {site : Deployment} {s t : Sys} {a : Action} {d : DocId} {n : Nat}

/-- The pages of the artifact are those of a document of `n` pages, each once. -/
def WholePages (pages : List Page) (n : Nat) : Prop := (pages.map Page.pageNo).Perm (List.range n)

/-! ## The gate on pages -/

theorem completeness_pass {l : List Nat} (h : (completeness l n).outcome = .pass) (i : Nat) : i ∈ l ↔ i < n := by
  simp only [completeness] at h
  split at h
  · next hboth =>
    obtain ⟨hmissing, hunexpected⟩ := hboth
    have hdedup : (l.filter (n ≤ ·)).dedup = [] := by
      have hperm := List.perm_insertionSort (· ≤ ·) (l.filter (n ≤ ·)).dedup
      rw [hunexpected] at hperm
      exact hperm.symm.eq_nil
    constructor
    · intro hi
      by_contra hge
      have hmem : i ∈ (l.filter (n ≤ ·)).dedup :=
        List.mem_dedup.mpr (List.mem_filter.mpr ⟨hi, decide_eq_true (Nat.le_of_not_lt hge)⟩)
      rw [hdedup] at hmem
      cases hmem
    · intro hi
      by_contra hnot
      have hmem : i ∈ (List.range n).filter (· ∉ l) :=
        List.mem_filter.mpr ⟨List.mem_range.mpr hi, decide_eq_true hnot⟩
      rw [hmissing] at hmem
      cases hmem
  · cases h

theorem whole_of_gate {pages : List Page} (hgate : (completeness (pages.map Page.pageNo) n).outcome = .pass)
    (hnodup : (pages.map Page.pageNo).Nodup) : WholePages pages n :=
  (List.perm_ext_iff_of_nodup hnodup List.nodup_range).mpr fun i =>
    (completeness_pass hgate i).trans List.mem_range.symm

/-- Sorting the gathered pages neither loses nor repeats one. -/
theorem WholePages.assembled {pages : List Page} (h : WholePages pages n) :
    WholePages (Extraction.assembledFrom site pages).pages n :=
  ((List.perm_insertionSort _ pages).map Page.pageNo).trans h

/-- The artifact of a text layer has the pages of its PDF. -/
theorem whole_embedded (pages : List String) : WholePages (embeddedArtifact pages).pages pages.length := by
  have hpages : (embeddedArtifact pages).pages.map Page.pageNo = List.range pages.length := by
    apply List.ext_getElem
    · simp [embeddedArtifact]
    · intro i _ _
      simp [embeddedArtifact]
  unfold WholePages
  rw [hpages]

/-! ## Rows that runs have read -/

/-- The row an extraction run read at its start, as long as it needs it. -/
def docOf : Extraction.Pc → Option Document
  | .stamping doc => doc
  | .looking doc | .gathering doc _ _ | .readingBack doc | .counting doc _ => some doc
  | _ => none

/-- A run keeps the row it has read, and `selecting` reads the table's. -/
theorem docOf_goes {verdict : Extraction.Verdict} {w w' : World} {pc pc' : Extraction.Pc} {doc : Document}
    (h : Extraction.Goes site d verdict w pc w' pc') (hdoc : docOf pc' = some doc) :
    docOf pc = some doc ∨ w.db.documents.lookup d = some doc := by
  have hpages : ∀ {doc' : Document} {assembled : Artifact}, Extraction.checkPages doc' assembled = .goto pc' →
      doc' = doc := by
    intro doc' assembled hcheck
    rcases Extraction.checkPages_goto hcheck with rfl | ⟨_, rfl⟩
    · exact Option.some.inj hdoc
    · cases hdoc
  cases h with
  | selected => exact Or.inr hdoc
  | stamped | absent | gathered | wrote => exact Or.inl hdoc
  | found _ hcheck | readBack _ hcheck => exact Or.inl (congrArg some (hpages hcheck))
  | opened | missing | counted | rejected | accepted | enabled | disabled | taken => cases hdoc

/-- The row a run has read has the page count of the table's. -/
def Reads (s : Sys) : Prop :=
  ∀ tid d pc doc, s.tasks tid = some (.extraction d pc) → docOf pc = some doc →
    ∃ row, s.document d = some row ∧ row.pageCount = doc.pageCount

theorem reads_step (h : Reads s) (hsound : Sound False site s) (hs : Step site s a t) : Reads t := by
  intro tid d pc doc htask hdoc
  -- a row that was in the table is there still, with its page count
  have hkept : ∀ {row : Document}, s.document d = some row → row.pageCount = doc.pageCount →
      ∃ row', t.document d = some row' ∧ row'.pageCount = doc.pageCount := by
    intro row hrow hpages
    obtain ⟨row', hrow', _, hpages', _⟩ := grows_step hsound hs d row hrow
    exact ⟨row', hrow', hpages'.trans hpages⟩
  rcases task_of_step hs htask with hold | ⟨job, hjob⟩ | ⟨topic, partition, m, _, hmsg⟩ |
    ⟨input, task', r, rfl, htask', hr, hnext, _⟩
  · obtain ⟨row, hrow, hpages⟩ := h tid d pc doc hold hdoc
    exact hkept hrow hpages
  · cases job <;> cases hjob
  · unfold Task.ofMessage at hmsg
    split at hmsg <;> cases hmsg
    cases hdoc
  · cases task' with
    | extraction d' pc₀ =>
      cases hr
      obtain ⟨pc', hgoto, hpc⟩ := Next.goto_of_task hnext
      cases hpc
      rcases docOf_goes (Extraction.step_goes hgoto) hdoc with hold | hrow
      · obtain ⟨row, hrow, hpages⟩ := h tid d pc₀ doc htask' hold
        exact hkept hrow hpages
      · exact hkept hrow rfl
    | triage | killSwitch =>
      cases hr
      cases hnext
    | orphanScan | ocrShard | sweep | forceRedrive | acceptReview =>
      cases hr
      obtain ⟨_, _, hpc⟩ := Next.goto_of_task hnext
      cases hpc
    | textEmbedded | ocrSplit =>
      obtain ⟨_, _, rfl⟩ := Option.map_eq_some_iff.mp hr
      obtain ⟨_, _, hpc⟩ := Next.goto_of_task hnext
      cases hpc

/-! ## Artifacts -/

/-- A run that writes what it has gathered would pass the completeness gate, and has no page twice. -/
def writesWhole (s : Sys) : Action → Bool
  | .run tid _ =>
    match s.tasks tid with
    | some (.extraction _ (.gathering doc idx pages)) =>
      decide (idx < doc.shardsTotal) || doc.pageCount.all fun n =>
        decide ((completeness (pages.map Page.pageNo) n).outcome = .pass) && decide (pages.map Page.pageNo).Nodup
    | _ => true
  | _ => true

/-- Every artifact belongs to a row, and is whole for its page count. -/
def Whole (s : Sys) : Prop :=
  ∀ d artifact, s.world.bucket.assembled d = some artifact → ∃ row, s.document d = some row ∧
    ∀ n, row.pageCount = some n → WholePages artifact.pages n

/-- What a step writes is whole. -/
theorem whole_written {tid : Nat} {input : Input} {task : Task} {artifact : Artifact} (hreads : Reads s)
    (hsound : Sound False site s) (hg : writesWhole s (.run tid input) = true) (htask : s.tasks tid = some task)
    (h : task.Assembles site s.world d artifact) :
    ∃ row, s.document d = some row ∧ ∀ n, row.pageCount = some n → WholePages artifact.pages n := by
  cases h with
  | @embedded _ gcsPath pages hpages =>
    obtain ⟨n, ⟨row, hrow, _, hn⟩, hpdf⟩ := hsound.tasks tid _ htask
    refine ⟨row, hrow, fun n' hn' => ?_⟩
    rw [hn] at hn'
    cases hn'
    have hwhole := whole_embedded pages
    rwa [hpdf.length hpages] at hwhole
  | @gathered _ doc idx pages hge =>
    obtain ⟨row, hrow, hpages⟩ := hreads tid d _ doc htask rfl
    refine ⟨row, hrow, fun n hn => ?_⟩
    simp only [writesWhole, htask, hge, decide_false, Bool.false_or, ← hpages, hn, Option.all_some, Bool.and_eq_true,
      decide_eq_true_eq] at hg
    exact (whole_of_gate hg.1 hg.2).assembled

/-- Only the step of a run writes objects. -/
theorem bucket_of_step (h : Step site s a t) : (∃ tid input, a = .run tid input) ∨ t.world.bucket = s.world.bucket := by
  cases step_kind h with
  | idle => exact Or.inr rfl
  | ran => exact Or.inl ⟨_, _, rfl⟩
  | relayed hstep | sunk hstep =>
    obtain ⟨_, _, rfl⟩ := Option.map_eq_some_iff.mp hstep
    exact Or.inr rfl

theorem whole_step (h : Whole s) (hreads : Reads s) (hsound : Sound False site s) (hg : writesWhole s a = true)
    (hs : Step site s a t) : Whole t := by
  intro d artifact hart
  have hkept : (∃ row, s.document d = some row ∧ ∀ n, row.pageCount = some n → WholePages artifact.pages n) →
      ∃ row, t.document d = some row ∧ ∀ n, row.pageCount = some n → WholePages artifact.pages n := by
    intro ⟨row, hrow, hwhole⟩
    obtain ⟨row', hrow', _, hpages', _⟩ := grows_step hsound hs d row hrow
    exact ⟨row', hrow', fun n hn => hwhole n (hpages' ▸ hn)⟩
  apply hkept
  rcases bucket_of_step hs with ⟨tid, input, rfl⟩ | hsame
  · obtain ⟨task, r, htask, hr, rfl⟩ := runTask_eq hs
    change r.1.bucket.assembled d = some artifact at hart
    rcases Task.step_assembled hr with hsame | ⟨d', artifact', hassembles, hwrite⟩
    · rw [hsame] at hart
      exact h d artifact hart
    · rw [hwrite, Bucket.writeAssembled] at hart
      dsimp only at hart
      split at hart
      · next hd =>
        cases hart
        exact hd ▸ whole_written hreads hsound hg htask hassembles
      · exact h d artifact hart
  · rw [hsame] at hart
    exact h d artifact hart

/-- In a run whose writes would pass the gate beforehand, every artifact has each page of
its document exactly once. -/
theorem artifact_whole {as : List Action}
    (h : GuardedRun site (fun s a => writesWhole s a = true) initial as s) (d : DocId) (row : Document) (n : Nat)
    (artifact : Artifact) (hrow : s.document d = some row) (hn : row.pageCount = some n)
    (hart : s.world.bucket.assembled d = some artifact) :
    (artifact.pages.map Page.pageNo).Perm (List.range n) := by
  have hinv : Sound False site s ∧ Reads s ∧ Whole s := by
    refine h.invariant (P := fun s => Sound False site s ∧ Reads s ∧ Whole s)
      ⟨sound_initial False site, fun _ _ _ _ ht => (nomatch ht), fun _ _ ha => (nomatch ha)⟩ fun s a t hi hg hs => ?_
    exact ⟨sound_step hi.1 (fun hf => hf.elim) hs, reads_step hi.2.1 hi.1 hs, whole_step hi.2.2 hi.2.1 hi.1 hg hs⟩
  obtain ⟨row', hrow', hwhole⟩ := hinv.2.2 d artifact hart
  rw [hrow] at hrow'
  cases hrow'
  exact hwhole n hn

/-- Both pages of the scan fit into one shard. -/
def twoPageShard : Deployment := { oneScan with shardSizePages := 2, shardSizePages_pos := Nat.two_pos }

/-- OCR reads `texts` off the one shard, and an extraction run assembles what it finds. -/
def assembledFromOcr (texts : List String) : List Action :=
  Schedule.intake ["a.pdf"] ++ Schedule.textLayer 0 ++ [.receive 0 .ocrShard 0 0] ++ Schedule.turns 0 1 ++
    [.run 0 { texts := texts }] ++ Schedule.turns 0 1 ++ Schedule.publish 1 ++ [.receive 1 .ocrCompleted 0 0] ++
    Schedule.turns 1 6

/-- The document has two pages, and an artifact that passes `test`. -/
def assembledTwo (test : Artifact → Bool) (s : Sys) : Bool :=
  ((s.document "crc32c-a").any fun row => row.pageCount = some 2) && (s.world.bucket.assembled "crc32c-a").any test

theorem assembledTwo_inv {test : Artifact → Bool} (h : assembledTwo test s = true) :
    ∃ row artifact, s.document "crc32c-a" = some row ∧ row.pageCount = some 2 ∧
      s.world.bucket.assembled "crc32c-a" = some artifact ∧ test artifact = true := by
  simp only [assembledTwo, Bool.and_eq_true, Option.any_eq_true, decide_eq_true_eq] at h
  obtain ⟨⟨row, hrow, hn⟩, artifact, hart, htest⟩ := h
  exact ⟨row, artifact, hrow, hn, hart, htest⟩

theorem two_pages_whole :
    ∃ s artifact, GuardedRun twoPageShard (fun s a => writesWhole s a = true) initial (assembledFromOcr ["INV-1", "x"]) s ∧
      s.world.bucket.assembled "crc32c-a" = some artifact ∧
      (artifact.pages.map Page.pageNo).Perm (List.range 2) := by
  obtain ⟨s, hrun, hs⟩ := exists_guardedRun twoPageShard writesWhole (assembledFromOcr ["INV-1", "x"])
    (assembledTwo fun _ => true) (by decide +kernel)
  obtain ⟨row, artifact, hrow, hn, hart, _⟩ := assembledTwo_inv hs
  exact ⟨s, artifact, hrun, hart, artifact_whole hrun "crc32c-a" row 2 artifact hrow hn hart⟩

/-- The shard recorded success and wrote only its first page. -/
theorem half_artifact_written :
    ¬ ∀ (site : Deployment) (as : List Action) (s : Sys) (d : DocId) (row : Document) (n : Nat) (artifact : Artifact),
      FreeRun site initial as s → s.document d = some row → row.pageCount = some n →
      s.world.bucket.assembled d = some artifact → (artifact.pages.map Page.pageNo).Perm (List.range n) := by
  intro hclaim
  obtain ⟨s, hrun, hs⟩ := exists_freeRun twoPageShard (assembledFromOcr ["INV-1"])
    (assembledTwo fun artifact => decide (artifact.pages.length = 1)) (by decide +kernel)
  obtain ⟨row, artifact, hrow, hn, hart, hlength⟩ := assembledTwo_inv hs
  have hperm := (hclaim twoPageShard _ s "crc32c-a" row 2 artifact hrun hrow hn hart).length_eq
  rw [List.length_map, of_decide_eq_true hlength] at hperm
  cases hperm

end DocPipeline.Audit

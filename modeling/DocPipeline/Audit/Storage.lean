import DocPipeline.Effects.Storage
import DocPipeline.Audit.Wire
import DocPipeline.Audit.Artifact

/-!
# The bucket is its JSON objects

A run next to the object storage: each step makes the uploads of its code, and anyone may
upload an object at any time, off the paths of artifacts and outputs. At every moment what a
reader parses out of an artifact or an output is what the bucket has of it: the producer and
its version, and the number and the text of each page.
-/
namespace DocPipeline.Audit

set_option autoImplicit false

open Json Sys PdfWorker

variable {F : Type} {floats : Floats F} {site : Deployment}

/-- What the model of the bucket does not tell of an upload: the confidences an engine gives,
and the bytes of the pieces of a split. -/
structure Unseen (F : Type) where
  confidence : Nat → Option F := fun _ => none
  subPdf : Nat → Text := fun _ => []

def written (unseen : Unseen F) (pages : List Page) : List (WrittenPage F) :=
  pages.mapIdx fun i page => ⟨page, unseen.confidence i⟩

def writtenArtifact (unseen : Unseen F) (docId : DocId) (artifact : Artifact) : WrittenArtifact F :=
  ⟨docId, artifact.producer, artifact.producerVersion, written unseen artifact.pages⟩

/-- The uploads of one step of a run, in order. -/
def uploads (site : Deployment) (w : World) (input : Input) (unseen : Unseen F) : Task → List (Upload F)
  | .textEmbedded docId gcsPath .uploading =>
    match pagesText site gcsPath, (Ledger.transition docId .textRunning (some [.textPending]) true).run w.db with
    | some pages, .ok _ =>
      if (Pdf.textSanity site.unicode pages).1 then
        [.assembled (writtenArtifact unseen docId (embeddedArtifact pages))]
      else []
    | _, _ => []
  | .ocrSplit docId gcsPath .splitting =>
    match splitCounts site gcsPath with
    | some (total, n) => (List.range total).map fun idx =>
        .subPdf (splitShardPath site docId idx) (splitPages gcsPath (idx * site.shardSizePages)
          (min (idx * site.shardSizePages + site.shardSizePages) n)) (unseen.subPdf idx)
    | none => []
  | .ocrShard payload .recognising =>
    [.output payload.docId ⟨payload.shardIdx, written unseen (OcrShard.pages payload.pageStart input.texts)⟩]
  | .extraction docId (.gathering doc idx pages) =>
    if idx < doc.shardsTotal then []
    else [.assembled (writtenArtifact unseen docId (Extraction.assembledFrom site pages))]
  | _ => []

theorem pages_written (unseen : Unseen F) (pages : List Page) : (written unseen pages).map WrittenPage.page = pages := by
  apply List.ext_getElem
  · simp [written]
  · intro i _ _
    simp [written]

theorem artifact_written (unseen : Unseen F) (docId : DocId) (artifact : Artifact) :
    (writtenArtifact unseen docId artifact).artifact = artifact := by
  unfold WrittenArtifact.artifact writtenArtifact
  rw [pages_written]

/-- A step that assembles nothing, splits nothing and recognises nothing leaves the bucket alone. -/
theorem bucket_of_quiet {w : World} {input : Input} {task : Task} {r : World × Option Task}
    (h : task.step site w input = some r) (hassembles : ∀ d artifact, ¬ task.Assembles site w d artifact)
    (hsplit : ∀ docId gcsPath, task ≠ .ocrSplit docId gcsPath .splitting)
    (hshard : ∀ payload, task ≠ .ocrShard payload .recognising) : r.1.bucket = w.bucket := by
  have hstores := Task.step_stores h
  generalize r.1.bucket = bucket at hstores
  cases hstores with
  | nothing => rfl
  | artifact ha => exact absurd ha (hassembles _ _)
  | shards hs => exact absurd hs (hsplit _ _)
  | output ho => exact absurd ho (hshard _)

theorem apply_embedded (unseen : Unseen F) {w : World} {docId : DocId} {gcsPath : String}
    {r : World × Next EmbeddedPc EmbeddedResult} {input : Input}
    (h : embeddedStep site docId gcsPath w .uploading = some r) :
    (uploads site w input unseen (.textEmbedded docId gcsPath .uploading)).foldl Upload.apply w.bucket = r.1.bucket := by
  obtain ⟨pages, hpages, rfl⟩ := Option.map_eq_some_iff.mp h
  simp only [uploads, hpages]
  cases hrun : (Ledger.transition docId .textRunning (some [.textPending]) true).run w.db with
  | error e => rfl
  | ok moved =>
    simp only
    split
    · rw [List.foldl_cons, List.foldl_nil, Upload.apply, artifact_written]
      rfl
    · rfl

/-- The uploads of a step are what it makes of the bucket. -/
theorem apply_uploads (unseen : Unseen F) {w : World} {input : Input} {task : Task} {r : World × Option Task}
    (h : task.step site w input = some r) :
    (uploads site w input unseen task).foldl Upload.apply w.bucket = r.1.bucket := by
  have hquiet := bucket_of_quiet h
  cases task with
  | textEmbedded docId gcsPath pc =>
    cases pc with
    | uploading =>
      obtain ⟨r', hr, rfl⟩ := Option.map_eq_some_iff.mp h
      exact apply_embedded unseen hr
    | committing => exact (hquiet (by rintro _ _ ⟨⟩) (by rintro _ _ ⟨⟩) (by rintro _ ⟨⟩)).symm
  | ocrSplit docId gcsPath pc =>
    cases pc with
    | splitting =>
      obtain ⟨_, hstep, rfl⟩ := Option.map_eq_some_iff.mp h
      obtain ⟨_, hcut, rfl⟩ := Option.map_eq_some_iff.mp hstep
      obtain ⟨counts, hcounts, rfl⟩ := Option.map_eq_some_iff.mp hcut
      simp only [uploads, hcounts, List.foldl_map, Upload.apply, uploadShards]
    | beginning | committing => exact (hquiet (by rintro _ _ ⟨⟩) (by rintro _ _ ⟨⟩) (by rintro _ ⟨⟩)).symm
  | ocrShard payload pc =>
    cases pc with
    | recognising =>
      cases h
      rw [uploads, List.foldl_cons, List.foldl_nil, Upload.apply, pages_written]
      rfl
    | beginning | recording => exact (hquiet (by rintro _ _ ⟨⟩) (by rintro _ _ ⟨⟩) (by rintro _ ⟨⟩)).symm
  | extraction docId pc =>
    cases pc with
    | gathering doc idx pages =>
      unfold uploads
      simp only
      split
      · next hlt =>
        refine (hquiet ?_ (by rintro _ _ ⟨⟩) (by rintro _ ⟨⟩)).symm
        intro d artifact ha
        cases ha with
        | gathered hge => exact hge hlt
      · next hge =>
        cases h
        rw [List.foldl_cons, List.foldl_nil, Upload.apply, artifact_written, Extraction.step, if_neg hge]
        rfl
    | opening | selecting | stamping | looking | readingBack | routing | counting | extracting | exhausted
    | checkingFlag | holding | posting => exact (hquiet (by rintro _ _ ⟨⟩) (by rintro _ _ ⟨⟩) (by rintro _ ⟨⟩)).symm
  | orphanScan | triage | sweep | forceRedrive | acceptReview | killSwitch =>
    exact (hquiet (by rintro _ _ ⟨⟩) (by rintro _ _ ⟨⟩) (by rintro _ ⟨⟩)).symm

theorem apart_uploads (hbucket : '/' ∉ site.gcsBucket.toList) (w : World) (input : Input) (unseen : Unseen F)
    (task : Task) :
    ∀ upload, upload ∈ uploads site w input unseen task → upload.Apart := by
  intro upload hu
  unfold uploads at hu
  split at hu
  · split at hu
    · split at hu
      · cases List.mem_singleton.mp hu
        trivial
      · cases hu
    · cases hu
  · split at hu
    · obtain ⟨idx, _, rfl⟩ := List.mem_map.mp hu
      intro name hname
      rw [Gcs.pathFor, ArtifactPath.parse_splitShardPath hbucket] at hname
      cases hname
      constructor <;> simp [ArtifactPath.splitShardName]
    · cases hu
  · cases List.mem_singleton.mp hu
    trivial
  · split at hu
    · cases hu
    · cases List.mem_singleton.mp hu
      trivial
  · cases hu

/-! ## Runs beside the storage -/

/-- A step of the pipeline, or an upload by somebody else. -/
inductive StoredAct (F : Type) where
  | step (a : Action) (unseen : Unseen F)
  | upload (path : String) (data : Text)

def actUploads (site : Deployment) (s : Sys) (unseen : Unseen F) : Action → List (Upload F)
  | .run tid input => (s.tasks tid).elim [] (uploads site s.world input unseen)
  | _ => []

/-- A step whose uploads do not raise, or an upload by somebody else. -/
def storedStep (floats : Floats F) (site : Deployment) (p : Sys × Objects) : StoredAct F → Option (Sys × Objects)
  | .step a unseen => do
    let t ← p.1.step site a
    let objects ← (actUploads site p.1 unseen a).foldlM (Upload.run floats site) p.2
    return (t, objects)
  | .upload path data => some (p.1, Gcs.uploadBytes site p.2 path data)

def StoredStep (floats : Floats F) (site : Deployment) (p : Sys × Objects) (act : StoredAct F)
    (q : Sys × Objects) : Prop :=
  storedStep floats site p act = some q

/-- Nobody else uploads where the two writers do. -/
def KeepsOff (_ : Sys × Objects) : StoredAct F → Prop
  | .step .. => True
  | .upload path data => (Upload.other path data : Upload F).Apart

theorem represents_foldlM (hbucket : '/' ∉ site.gcsBucket.toList) {us : List (Upload F)}
    {objects objects' : Objects} {bucket : Bucket} (h : Represents floats site objects bucket)
    (hapart : ∀ upload, upload ∈ us → upload.Apart) (hrun : us.foldlM (Upload.run floats site) objects = some objects') :
    Represents floats site objects' (us.foldl Upload.apply bucket) := by
  induction us generalizing objects bucket with
  | nil =>
    cases hrun
    exact h
  | cons upload us ih =>
    rw [List.foldlM_cons] at hrun
    obtain ⟨between, hfirst, hrest⟩ := Option.bind_eq_some_iff.mp hrun
    exact ih (h.upload hbucket (hapart upload List.mem_cons_self) hfirst)
      (fun u hu => hapart u (List.mem_cons_of_mem _ hu)) hrest

theorem apply_actUploads {s t : Sys} {a : Action} (unseen : Unseen F) (hs : Step site s a t) :
    (actUploads site s unseen a).foldl Upload.apply s.world.bucket = t.world.bucket := by
  cases a with
  | run tid input =>
    obtain ⟨task, r, htask, hr, rfl⟩ := runTask_eq hs
    simp only [actUploads, htask, Option.elim_some]
    exact apply_uploads unseen hr
  | tick | spawn | receive | crash =>
    cases step_kind hs with
    | idle => rfl
  | relay | sink =>
    obtain ⟨_, _, rfl⟩ := Option.map_eq_some_iff.mp hs
    rfl

theorem apart_actUploads (hbucket : '/' ∉ site.gcsBucket.toList) (s : Sys) (unseen : Unseen F) (a : Action) :
    ∀ upload, upload ∈ actUploads site s unseen a → upload.Apart := by
  intro upload hu
  cases a with
  | run tid input =>
    simp only [actUploads] at hu
    cases htask : s.tasks tid with
    | none =>
      rw [htask] at hu
      cases hu
    | some task =>
      rw [htask] at hu
      exact apart_uploads hbucket _ _ _ _ upload hu
  | tick | spawn | receive | crash | relay | sink => cases hu

theorem represents_step (hbucket : '/' ∉ site.gcsBucket.toList) {p q : Sys × Objects} {act : StoredAct F}
    (h : Represents floats site p.2 p.1.world.bucket) (hkeeps : KeepsOff p act) (hs : StoredStep floats site p act q) :
    Represents floats site q.2 q.1.world.bucket := by
  cases act with
  | step a unseen =>
    obtain ⟨t, ht, hrest⟩ := Option.bind_eq_some_iff.mp hs
    obtain ⟨objects, hobjects, hq⟩ := Option.bind_eq_some_iff.mp hrest
    cases hq
    rw [← apply_actUploads unseen ht]
    exact represents_foldlM hbucket h (apart_actUploads hbucket p.1 unseen a) hobjects
  | upload path data =>
    cases hs
    have hapart : (Upload.other path data : Upload F).Apart := hkeeps
    exact h.upload hbucket hapart rfl

/-- Whatever the order of the steps and of the other uploads: the pages and the producer that a
reader parses out of the storage are the bucket's, of every document and shard. -/
theorem objects_answer_as_bucket (hbucket : '/' ∉ site.gcsBucket.toList) {objects : Objects}
    (hnew : Pristine site objects)
    {acts : List (StoredAct F)} {q : Sys × Objects}
    (hrun : Lib.Run (StoredStep floats site) KeepsOff (initial, objects) acts q) :
    (∀ d, readAssembled floats site q.2 d = .ok (q.1.world.bucket.assembled d)) ∧
    ∀ d i, readShardOutput floats site q.2 d i = StorageError.notFound.unless (q.1.world.bucket.shardOutput d i) := by
  have hrep : Represents floats site q.2 q.1.world.bucket :=
    hrun.invariant (P := fun p : Sys × Objects => Represents floats site p.2 p.1.world.bucket)
      (represents_pristine hbucket hnew) fun _ _ _ hp hkeeps hs => represents_step hbucket hp hkeeps hs
  exact ⟨hrep.assembled, hrep.output⟩

/-! OCR reads two pages off the shard, with a confidence, and the artifact is assembled. -/

def sure : Unseen Unit := { confidence := fun _ => some () }

def scanStored : List (StoredAct Unit) :=
  .upload "inbox/a.pdf" [] :: (assembledFromOcr ["INV-1", "x"]).map fun a => .step a sure

theorem artifact_parsed_back :
    ∃ q, Lib.Run (StoredStep nanOnly twoPageShard) KeepsOff (initial, fun _ _ => none) scanStored q ∧
      readAssembled nanOnly twoPageShard q.2 "crc32c-a" =
        .ok (some ⟨"ocr-deterministic", "v1", [⟨0, "INV-1"⟩, ⟨1, "x"⟩]⟩) := by
  have hrun : (Lib.execWhile (storedStep nanOnly twoPageShard)
      (fun _ act => match act with
        | .step .. => true
        | .upload path _ => decide (path = "inbox/a.pdf")) (initial, fun _ _ => none) scanStored).any
      (fun q => decide (q.1.world.bucket.assembled "crc32c-a" =
        some ⟨"ocr-deterministic", "v1", [⟨0, "INV-1"⟩, ⟨1, "x"⟩]⟩)) = true := by decide +kernel
  obtain ⟨q, hq, hartifact⟩ := (Option.any_eq_true ..).mp hrun
  have hstored : Lib.Run (StoredStep nanOnly twoPageShard) KeepsOff (initial, fun _ _ => none) scanStored q := by
    refine (Lib.run_of_execWhile hq).mono fun p act hg => ?_
    cases act with
    | step => trivial
    | upload path data =>
      obtain rfl : path = "inbox/a.pdf" := of_decide_eq_true hg
      constructor <;> decide
  refine ⟨q, hstored, ?_⟩
  rw [(objects_answer_as_bucket (by decide +kernel) (fun _ _ => rfl) hstored).1, of_decide_eq_true hartifact]

end DocPipeline.Audit

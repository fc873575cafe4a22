import DocPipeline.Effects.Pipeline

/-!
# Who writes to the bucket

An assembled artifact is written by `text.embedded`, for the pages of a text layer it
accepts, and by an extraction run that has gathered the outputs of all shards; an output of
a shard by its own worker. Every other step leaves the bucket alone.
-/
namespace DocPipeline

set_option autoImplicit false

open PdfWorker

variable {site : Deployment} {w : World}

/-- A step writes the artifact `artifact` of `d`. -/
inductive Task.Assembles (site : Deployment) (w : World) : Task → DocId → Artifact → Prop
  | embedded {d : DocId} {gcsPath : String} {pages : List String} : pagesText site gcsPath = some pages →
      Assembles site w (.textEmbedded d gcsPath .uploading) d (embeddedArtifact pages)
  | gathered {d : DocId} {doc : Document} {idx : Nat} {pages : List Page} : ¬ idx < doc.shardsTotal →
      Assembles site w (.extraction d (.gathering doc idx pages)) d (Extraction.assembledFrom site pages)

theorem Extraction.step_bucket (d : DocId) (verdict : Extraction.Verdict) (pc : Extraction.Pc) :
    (Extraction.step site d verdict w pc).1.bucket = w.bucket ∨
    ∃ artifact, Task.Assembles site w (.extraction d pc) d artifact ∧
      (Extraction.step site d verdict w pc).1.bucket = w.bucket.writeAssembled d artifact := by
  cases pc with
  | gathering doc idx pages =>
    simp only [step]
    split
    · left
      split <;> rfl
    · next hge => exact Or.inr ⟨_, .gathered hge, rfl⟩
  | selecting => exact Or.inl rfl
  | stamping doc =>
    left
    cases doc with
    | none => rfl
    | some doc => simp only [step, World.transact_bucket]
  | looking doc | readingBack doc =>
    left
    simp only [step]
    split <;> rfl
  | checkingFlag assembled fields gates =>
    left
    simp only [step]
    split <;> rfl
  | opening | routing | counting | extracting | exhausted | holding | posting =>
    left
    simp only [step, World.transact_bucket]

/-- The split's uploads leave the outputs and the artifacts. -/
theorem uploadShards_others (site : Deployment) (docId : DocId) (gcsPath : String) (shardsTotal pageCount : Nat)
    (bucket : Bucket) : (uploadShards site docId gcsPath shardsTotal pageCount bucket).assembled = bucket.assembled ∧
      (uploadShards site docId gcsPath shardsTotal pageCount bucket).shardOutput = bucket.shardOutput := by
  unfold uploadShards
  exact List.foldlRecOn (motive := fun b : Bucket =>
    b.assembled = bucket.assembled ∧ b.shardOutput = bucket.shardOutput) _ _ ⟨rfl, rfl⟩ fun _ h _ _ => h

/-- What a step of a run makes of the bucket. -/
inductive Task.Stores (site : Deployment) (w : World) (task : Task) : Bucket → Prop
  | nothing : Stores site w task w.bucket
  | artifact {d : DocId} {artifact : Artifact} : task.Assembles site w d artifact →
      Stores site w task (w.bucket.writeAssembled d artifact)
  | shards {d : DocId} {gcsPath : String} {shardsTotal pageCount : Nat} : task = .ocrSplit d gcsPath .splitting →
      Stores site w task (uploadShards site d gcsPath shardsTotal pageCount w.bucket)
  | output {payload : ShardPayload} {pages : List Page} : task = .ocrShard payload .recognising →
      Stores site w task (w.bucket.writeShardOutput payload.docId payload.shardIdx pages)

theorem Task.step_stores {input : Input} {task : Task} {r : World × Option Task} (h : task.step site w input = some r) :
    task.Stores site w r.1.bucket := by
  have hsame : ∀ {bucket : Bucket}, bucket = w.bucket → task.Stores site w bucket := fun he => he ▸ .nothing
  cases task with
  | orphanScan pc =>
    cases h
    refine hsame ?_
    cases pc with
    | listing | checkingPending => rfl
    | enqueueing orphans => simp only [OrphanDetector.step, World.transact_bucket]
  | triage gcsPath =>
    cases h
    refine hsame ?_
    simp only [World.transact_bucket]
  | textEmbedded docId gcsPath pc =>
    obtain ⟨r', hr, rfl⟩ := Option.map_eq_some_iff.mp h
    cases pc with
    | uploading =>
      obtain ⟨pages, hpages, rfl⟩ := Option.map_eq_some_iff.mp hr
      dsimp only
      split
      · exact .nothing
      · split
        · exact .artifact (.embedded hpages)
        · exact .nothing
    | committing =>
      obtain ⟨pages, hpages, rfl⟩ := Option.map_eq_some_iff.mp hr
      refine hsame ?_
      simp only [World.transact_bucket]
  | ocrSplit docId gcsPath pc =>
    obtain ⟨r', hr, rfl⟩ := Option.map_eq_some_iff.mp h
    cases pc with
    | beginning =>
      cases hr
      exact hsame (World.transact_bucket ..)
    | splitting =>
      obtain ⟨_, hsplit, rfl⟩ := Option.map_eq_some_iff.mp hr
      obtain ⟨_, _, rfl⟩ := Option.map_eq_some_iff.mp hsplit
      exact .shards rfl
    | committing =>
      obtain ⟨_, _, rfl⟩ := Option.map_eq_some_iff.mp hr
      exact hsame (World.transact_bucket ..)
  | ocrShard payload pc =>
    cases h
    cases pc with
    | recognising => exact .output rfl
    | beginning | recording => exact hsame (World.transact_bucket ..)
  | extraction docId pc =>
    cases h
    rcases Extraction.step_bucket docId input.verdict pc with heq | ⟨artifact, hassembles, heq⟩
    · exact hsame heq
    · exact heq ▸ .artifact hassembles
  | sweep pc =>
    cases h
    refine hsame ?_
    cases pc with
    | claiming => simp only [Sweeper.step, World.transact_bucket]
    | redriving claimed => cases claimed <;> simp only [Sweeper.step, World.transact_bucket]
  | forceRedrive docId reason actor pc =>
    cases h
    refine hsame ?_
    cases pc with
    | selecting =>
      simp only [Operator.redriveStep]
      split
      · rfl
      · split <;> rfl
    | targeting row =>
      simp only [Operator.redriveStep]
      split <;> rfl
    | committing row target => simp only [Operator.redriveStep, World.transact_bucket]
  | acceptReview docId reason actor pc =>
    cases h
    refine hsame ?_
    cases pc with
    | selecting =>
      simp only [Operator.acceptStep]
      split
      · rfl
      · split
        · rfl
        · split <;> rfl
    | committing row => simp only [Operator.acceptStep, World.transact_bucket]
  | killSwitch enabled reason actor =>
    cases h
    refine hsame ?_
    simp only [World.transact_bucket]

/-- The artifacts a step of a run leaves: the ones before, or one of them written anew. -/
theorem Task.step_assembled {input : Input} {task : Task} {r : World × Option Task}
    (h : task.step site w input = some r) :
    r.1.bucket.assembled = w.bucket.assembled ∨
    ∃ d artifact, task.Assembles site w d artifact ∧ r.1.bucket = w.bucket.writeAssembled d artifact := by
  have hstores := Task.step_stores h
  generalize r.1.bucket = bucket at hstores
  cases hstores with
  | nothing | output => exact Or.inl rfl
  | shards => exact Or.inl (uploadShards_others ..).1
  | artifact hassembles => exact Or.inr ⟨_, _, hassembles, rfl⟩

/-- The outputs of shards a step of a run leaves: the ones before, or one of them written anew. -/
theorem Task.step_outputs {input : Input} {task : Task} {r : World × Option Task}
    (h : task.step site w input = some r) :
    r.1.bucket.shardOutput = w.bucket.shardOutput ∨
    ∃ payload, task = .ocrShard payload .recognising ∧ r.1.bucket = w.bucket.writeShardOutput payload.docId
      payload.shardIdx (OcrShard.pages payload.pageStart input.texts) := by
  have hstores := Task.step_stores h
  generalize hbucket : r.1.bucket = bucket at hstores ⊢
  cases hstores with
  | nothing | artifact => exact Or.inl rfl
  | shards => exact Or.inl (uploadShards_others ..).2
  | output htask =>
    subst htask
    cases h
    exact Or.inr ⟨_, rfl, hbucket.symm⟩

end DocPipeline

import DocPipeline.Effects.Bucket
import DocPipeline.Transport.Storage

/-!
# The objects stand for the bucket

A path is parsed into the bucket and the name it was made of, and the names of different
documents and shards differ. What an upload writes is read back from that document and shard
alone, so that the objects answer as the bucket does.
-/
namespace DocPipeline

set_option autoImplicit false

open Json

variable {F : Type} {floats : Floats F} {site : Deployment}

/-! ## Paths -/

/-- The last slash of two equal texts is at the same place. -/
theorem append_slash_inj {xs xs' ys ys' : Text} (hys : '/' ∉ ys) (hys' : '/' ∉ ys')
    (h : xs ++ '/' :: ys = xs' ++ '/' :: ys') : xs = xs' ∧ ys = ys' := by
  rcases List.append_eq_append_iff.mp h with ⟨mid, rfl, hrest⟩ | ⟨mid, rfl, hrest⟩
  · cases mid with
    | nil =>
      rw [List.nil_append] at hrest
      cases hrest
      exact ⟨(List.append_nil _).symm, rfl⟩
    | cons c mid =>
      cases hrest
      exact absurd (List.mem_append_right mid List.mem_cons_self) hys
  · cases mid with
    | nil =>
      rw [List.nil_append] at hrest
      cases hrest
      exact ⟨List.append_nil _, rfl⟩
    | cons c mid =>
      cases hrest
      exact absurd (List.mem_append_right mid List.mem_cons_self) hys'

theorem pad4_toList (n : Nat) : ∃ k, (pad4 n).toList = List.replicate k '0' ++ Nat.toDigits 10 n := by
  refine ⟨4 - (toString n).length, ?_⟩
  unfold pad4
  rw [String.toList_append, String.toList_ofList, Nat.toString_eq_ofList_toDigits, String.toList_ofList]

theorem ofDigitChars_zeros (k : Nat) (ds : List Char) :
    Nat.ofDigitChars 10 (List.replicate k '0' ++ ds) 0 = Nat.ofDigitChars 10 ds 0 := by
  induction k with
  | zero => rfl
  | succ k ih =>
    rw [List.replicate_succ, List.cons_append, Nat.ofDigitChars_cons]
    exact ih

theorem pad4_injective {m n : Nat} (h : pad4 m = pad4 n) : m = n := by
  obtain ⟨j, hm⟩ := pad4_toList m
  obtain ⟨k, hn⟩ := pad4_toList n
  have hvalue := congrArg (fun s : String => Nat.ofDigitChars 10 s.toList 0) h
  simp only [hm, hn, ofDigitChars_zeros, Nat.ofDigitChars_ten_toDigits] at hvalue
  exact hvalue

theorem slash_not_mem_pad4 (n : Nat) : '/' ∉ (pad4 n).toList := by
  obtain ⟨k, hk⟩ := pad4_toList n
  rw [hk, List.mem_append]
  rintro (h | h)
  · exact absurd (List.eq_of_mem_replicate h) (by decide)
  · exact absurd (Money.isDigit_of_mem_toDigits h) (by decide)

namespace ArtifactPath

def assembledName (docId : DocId) : String := "ocr/" ++ docId ++ ".json"

def shardOutputName (docId : DocId) (shardIdx : Nat) : String :=
  "shards_out/" ++ docId ++ "/" ++ pad4 shardIdx ++ ".json"

/-- `path_for(split_shard_path(doc_id, idx))`. -/
def splitShardName (docId : DocId) (shardIdx : Nat) : String := "shards/" ++ docId ++ "/" ++ pad4 shardIdx ++ ".pdf"

theorem assembledName_injective {d d' : DocId} (h : assembledName d = assembledName d') : d = d' := by
  have hlist := congrArg String.toList h
  simp only [assembledName, String.toList_append] at hlist
  exact String.toList_injective (List.append_cancel_left (List.append_cancel_right hlist))

theorem shardOutputName_injective {d d' : DocId} {i i' : Nat} (h : shardOutputName d i = shardOutputName d' i') :
    d = d' ∧ i = i' := by
  have hlist := congrArg String.toList h
  simp only [shardOutputName, String.toList_append] at hlist
  obtain ⟨hdoc, hidx⟩ := append_slash_inj (slash_not_mem_pad4 i) (slash_not_mem_pad4 i')
    (by simpa using List.append_cancel_right hlist)
  exact ⟨String.toList_injective hdoc, pad4_injective (String.toList_injective hidx)⟩

theorem assembledName_ne (d d' : DocId) (i : Nat) : assembledName d ≠ shardOutputName d' i := by
  intro h
  have hhead := congrArg (fun s : String => s.toList.head?) h
  simp [assembledName, shardOutputName] at hhead

/-- A bucket's name has no slash, so that a path is parsed into the two names. -/
theorem parse_path {bucket : String} (hbucket : '/' ∉ bucket.toList) (name : String) :
    Gcs.parseGcsPath ("gs://" ++ bucket ++ "/" ++ name) = .ok (bucket, name) := by
  have hlist : ("gs://" ++ bucket ++ "/" ++ name).toList =
      'g' :: 's' :: ':' :: '/' :: '/' :: (bucket.toList ++ '/' :: name.toList) := by simp
  have hkeep : ∀ c, c ∈ bucket.toList → decide (c ≠ '/') = true := fun c hc =>
    decide_eq_true fun he => hbucket (he ▸ hc)
  unfold Gcs.parseGcsPath
  rw [hlist]
  simp only [List.takeWhile_append_of_pos hkeep, List.dropWhile_append_of_pos hkeep]
  simp

theorem parse_assembledPath (hbucket : '/' ∉ site.gcsBucket.toList) (d : DocId) :
    Gcs.parseGcsPath (assembledPath site d) = .ok (site.gcsBucket, assembledName d) := by
  rw [← parse_path hbucket]
  congr 1
  apply String.toList_injective
  simp [assembledPath, assembledName]

theorem parse_shardOutputPath (hbucket : '/' ∉ site.gcsBucket.toList) (d : DocId) (i : Nat) :
    Gcs.parseGcsPath (shardOutputPath site d i) = .ok (site.gcsBucket, shardOutputName d i) := by
  rw [← parse_path hbucket]
  congr 1
  apply String.toList_injective
  simp [shardOutputPath, shardOutputName]

theorem parse_splitShardPath (hbucket : '/' ∉ site.gcsBucket.toList) (d : DocId) (i : Nat) :
    Gcs.parseGcsPath (splitShardPath site d i) = .ok (site.gcsBucket, splitShardName d i) := by
  rw [← parse_path hbucket]
  congr 1
  apply String.toList_injective
  simp [splitShardPath, splitShardName]

end ArtifactPath

open ArtifactPath

/-! ## Reading -/

theorem readText_textOf {α β : Type} {keys : List String} (r : Record keys F α β) {a : α} {data : Text}
    (h : textOf floats r a = some data) : readText floats r data = .ok (r.value a) := by
  obtain ⟨v, hv, rfl⟩ := Option.map_eq_some_iff.mp h
  unfold readText
  rw [r.read_text Rereads.refl hv trivial]
  rfl

theorem readAssembled_eq (hbucket : '/' ∉ site.gcsBucket.toList) (objects : Objects) (d : DocId) :
    readAssembled floats site objects d = (objects site.gcsBucket (assembledName d)).elim (.ok none)
      fun data => (readText floats WrittenArtifact.record data).map some := by
  unfold readAssembled readObject Gcs.exists? Gcs.downloadBytes
  rw [parse_assembledPath hbucket]
  cases hobject : objects site.gcsBucket (assembledName d) with
  | none => simp [hobject, bind, Except.bind, pure, Except.pure]
  | some data => simp [hobject, bind, Except.bind, pure, Except.pure, StorageError.unless, Functor.map]

theorem readShardOutput_eq (hbucket : '/' ∉ site.gcsBucket.toList) (objects : Objects) (d : DocId) (i : Nat) :
    readShardOutput floats site objects d i =
      (StorageError.notFound.unless (objects site.gcsBucket (shardOutputName d i))).bind
        (readText floats WrittenOutput.record) := by
  unfold readShardOutput readObject Gcs.downloadBytes
  rw [parse_shardOutputPath hbucket]
  rfl

/-! ## Uploads -/

/-- The objects answer as the bucket does. -/
structure Represents (floats : Floats F) (site : Deployment) (objects : Objects) (bucket : Bucket) : Prop where
  assembled : ∀ d, readAssembled floats site objects d = .ok (bucket.assembled d)
  output : ∀ d i, readShardOutput floats site objects d i = StorageError.notFound.unless (bucket.shardOutput d i)

/-- No object under the paths of the two writers. -/
def Pristine (site : Deployment) (objects : Objects) : Prop :=
  ∀ name, "ocr/".toList <+: name.toList ∨ "shards_out/".toList <+: name.toList → objects site.gcsBucket name = none

/-- By one of the two writers, or to another path than theirs. -/
def Upload.Apart : Upload F → Prop
  | .subPdf gcsPath _ _ => ∀ name, Gcs.pathFor gcsPath = .ok name →
    ¬ "ocr/".toList <+: name.toList ∧ ¬ "shards_out/".toList <+: name.toList
  | .other path _ => ¬ "ocr/".toList <+: path.toList ∧ ¬ "shards_out/".toList <+: path.toList
  | .assembled _ | .output _ _ => True

theorem prefix_assembledName (d : DocId) : "ocr/".toList <+: (assembledName d).toList := by
  rw [assembledName, String.toList_append, String.toList_append, List.append_assoc]
  exact List.prefix_append _ _

theorem prefix_shardOutputName (d : DocId) (i : Nat) : "shards_out/".toList <+: (shardOutputName d i).toList := by
  rw [shardOutputName]
  simp only [String.toList_append, List.append_assoc]
  exact List.prefix_append _ _

theorem represents_pristine (hbucket : '/' ∉ site.gcsBucket.toList) {objects : Objects} (h : Pristine site objects) :
    Represents floats site objects {} where
  assembled d := by
    rw [readAssembled_eq hbucket, h _ (Or.inl (prefix_assembledName d))]
    rfl
  output d i := by
    rw [readShardOutput_eq hbucket, h _ (Or.inr (prefix_shardOutputName d i))]
    rfl

theorem uploadBytes_same (objects : Objects) (name : String) (data : Text) :
    Gcs.uploadBytes site objects name data site.gcsBucket name = some data := if_pos ⟨rfl, rfl⟩

theorem uploadBytes_other (objects : Objects) {name name' : String} (data : Text) (h : name' ≠ name) :
    Gcs.uploadBytes site objects name data site.gcsBucket name' = objects site.gcsBucket name' :=
  if_neg fun he => h he.2

/-- The name and the text of an upload, by what is read of the text. -/
inductive Upload.Writes (floats : Floats F) : Upload F → String → Text → Prop
  | assembled {written : WrittenArtifact F} {data : Text} :
      readText floats WrittenArtifact.record data = .ok written.artifact →
      Writes floats (.assembled written) (assembledName written.docId) data
  | output {docId : DocId} {written : WrittenOutput F} {data : Text} :
      readText floats WrittenOutput.record data = .ok (written.pages.map WrittenPage.page) →
      Writes floats (.output docId written) (shardOutputName docId written.shardIdx) data
  | subPdf {gcsPath name : String} {pages : List PageImage} {data : Text} : Gcs.pathFor gcsPath = .ok name →
      Writes floats (.subPdf gcsPath pages data) name data
  | other {path : String} {data : Text} : Writes floats (.other path data) path data

theorem Upload.run_writes (hbucket : '/' ∉ site.gcsBucket.toList) {objects objects' : Objects} {upload : Upload F}
    (h : upload.run floats site objects = some objects') :
    ∃ name data, upload.Writes floats name data ∧ objects' = Gcs.uploadBytes site objects name data := by
  cases upload with
  | other path data =>
    cases h
    exact ⟨path, data, .other, rfl⟩
  | subPdf gcsPath pages data =>
    rw [Upload.run] at h
    cases hname : Gcs.pathFor gcsPath with
    | error e =>
      rw [hname] at h
      cases h
    | ok name =>
      rw [hname] at h
      cases h
      exact ⟨name, data, .subPdf hname, rfl⟩
  | assembled written =>
    rw [Upload.run, Gcs.pathFor, parse_assembledPath hbucket] at h
    obtain ⟨name, hname, h⟩ := Option.bind_eq_some_iff.mp h
    obtain ⟨data, hdata, h⟩ := Option.bind_eq_some_iff.mp h
    cases hname
    cases h
    exact ⟨_, data, .assembled (readText_textOf _ hdata), rfl⟩
  | output docId written =>
    rw [Upload.run, Gcs.pathFor, parse_shardOutputPath hbucket] at h
    obtain ⟨name, hname, h⟩ := Option.bind_eq_some_iff.mp h
    obtain ⟨data, hdata, h⟩ := Option.bind_eq_some_iff.mp h
    cases hname
    cases h
    exact ⟨_, data, .output (readText_textOf _ hdata), rfl⟩

/-- An upload that does not raise leaves the objects standing for what it means. -/
theorem Represents.upload (hbucket : '/' ∉ site.gcsBucket.toList) {objects objects' : Objects} {bucket : Bucket}
    {upload : Upload F} (h : Represents floats site objects bucket) (hapart : upload.Apart)
    (hrun : upload.run floats site objects = some objects') : Represents floats site objects' (upload.apply bucket) := by
  obtain ⟨name, data, hwrites, rfl⟩ := Upload.run_writes hbucket hrun
  have hassembled : ∀ d, assembledName d ≠ name →
      readAssembled floats site (Gcs.uploadBytes site objects name data) d = .ok (bucket.assembled d) := fun d hne => by
    rw [← h.assembled d, readAssembled_eq hbucket, readAssembled_eq hbucket, uploadBytes_other _ _ hne]
  have houtput : ∀ d i, shardOutputName d i ≠ name →
      readShardOutput floats site (Gcs.uploadBytes site objects name data) d i =
      StorageError.notFound.unless (bucket.shardOutput d i) := fun d i hne => by
    rw [← h.output d i, readShardOutput_eq hbucket, readShardOutput_eq hbucket, uploadBytes_other _ _ hne]
  cases hwrites with
  | subPdf hname =>
    refine ⟨fun d => hassembled d ?_, fun d i => houtput d i ?_⟩
    · rintro rfl
      exact (hapart _ hname).1 (prefix_assembledName d)
    · rintro rfl
      exact (hapart _ hname).2 (prefix_shardOutputName d i)
  | other =>
    refine ⟨fun d => hassembled d ?_, fun d i => houtput d i ?_⟩
    · rintro rfl
      exact hapart.1 (prefix_assembledName d)
    · rintro rfl
      exact hapart.2 (prefix_shardOutputName d i)
  | @assembled written _ hread =>
    refine ⟨fun d => ?_, fun d i => houtput d i (assembledName_ne _ _ _).symm⟩
    by_cases hd : d = written.docId
    · subst hd
      rw [readAssembled_eq hbucket, uploadBytes_same]
      simp only [Option.elim_some, hread, Except.map, Upload.apply, Bucket.writeAssembled, if_true]
    · rw [hassembled d fun he => hd (assembledName_injective he)]
      simp only [Upload.apply, Bucket.writeAssembled, if_neg hd]
  | @output docId written _ hread =>
    refine ⟨fun d => hassembled d (assembledName_ne _ _ _), fun d i => ?_⟩
    by_cases hd : d = docId ∧ i = written.shardIdx
    · obtain ⟨rfl, rfl⟩ := hd
      rw [readShardOutput_eq hbucket, uploadBytes_same]
      simp only [StorageError.unless, Except.bind, hread, Upload.apply, Bucket.writeShardOutput, and_self, if_true]
    · rw [houtput d i fun he => hd (shardOutputName_injective he)]
      simp only [Upload.apply, Bucket.writeShardOutput, if_neg hd]

end DocPipeline

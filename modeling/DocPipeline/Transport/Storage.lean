import DocPipeline.Text.Codec
import DocPipeline.Text.Digits
import DocPipeline.Transport.Wire

/-!
# The bucket as objects

The storage holds texts under a bucket's name and an object's name. The canonical artifact
and the outputs of shards are JSON at paths made of the document and the shard, next to the
objects of the inbox and the pieces of a split.
-/
namespace DocPipeline

set_option autoImplicit false

open Json

variable {F : Type}

/-- Texts by bucket and name. -/
abbrev Objects := String → String → Option Text

inductive StorageError where
  | assertion | notFound | malformed
  deriving DecidableEq, Repr

def StorageError.unless {α : Type} (error : StorageError) : Option α → Except StorageError α
  | some a => .ok a
  | none => .error error

namespace Gcs

/-- After `gs://`, up to the first slash and from there on. -/
def parseGcsPath (gcsPath : String) : Except StorageError (String × String) :=
  match gcsPath.toList with
  | 'g' :: 's' :: ':' :: '/' :: '/' :: rest =>
    .ok (String.ofList (rest.takeWhile (· ≠ '/')), String.ofList ((rest.dropWhile (· ≠ '/')).drop 1))
  | _ => .error .assertion

def pathFor (gcsPath : String) : Except StorageError String := (parseGcsPath gcsPath).map Prod.snd

def uploadBytes (site : Deployment) (objects : Objects) (path : String) (data : Text) : Objects :=
  fun bucket name => if bucket = site.gcsBucket ∧ name = path then some data else objects bucket name

def downloadBytes (objects : Objects) (gcsPath : String) : Except StorageError Text := do
  let (bucket, name) ← parseGcsPath gcsPath
  StorageError.notFound.unless (objects bucket name)

def exists? (objects : Objects) (gcsPath : String) : Except StorageError Bool := do
  let (bucket, name) ← parseGcsPath gcsPath
  return (objects bucket name).isSome

end Gcs

namespace ArtifactPath

def assembledPath (site : Deployment) (docId : DocId) : String :=
  "gs://" ++ site.gcsBucket ++ "/ocr/" ++ docId ++ ".json"

def shardOutputPath (site : Deployment) (docId : DocId) (shardIdx : Nat) : String :=
  "gs://" ++ site.gcsBucket ++ "/shards_out/" ++ docId ++ "/" ++ pad4 shardIdx ++ ".json"

end ArtifactPath

/-! ## The objects' JSON -/

/-- A page as a producer writes it; an engine adds its confidence. -/
structure WrittenPage (F : Type) where
  page : Page
  confidence : Option F := none

def WrittenPage.record : Record ["page_no", "text", "confidence"] F (WrittenPage F) Page :=
  (((Record.make fun pageNo text (_ : Unit) => (⟨pageNo, text⟩ : Page)).ap
    (.field "page_no" (fun p => p.page.pageNo) .nat)).ap
    (.field "text" (fun p => p.page.text) .str)).ap
    (Record.unread (.optional "confidence" WrittenPage.confidence .float))

/-- What `write_assembled` is given. -/
structure WrittenArtifact (F : Type) where
  docId : DocId
  producer : String
  producerVersion : String
  pages : List (WrittenPage F)

theorem WrittenArtifact.docId_first : ∀ key, key ∈ ([] : List String) → key ∉ ["doc_id"] :=
  fun _ h => absurd h List.not_mem_nil

def WrittenArtifact.record : Record ["doc_id", "producer", "producer_version", "pages"] F (WrittenArtifact F) Artifact :=
  ((((Record.make fun (_ : Unit) producer producerVersion pages => (⟨producer, producerVersion, pages⟩ : Artifact)).ap
    (Record.unread (.field "doc_id" WrittenArtifact.docId .str)) docId_first).ap
    (.field "producer" WrittenArtifact.producer .str)).ap
    (.field "producer_version" WrittenArtifact.producerVersion .str)).ap
    (.field "pages" WrittenArtifact.pages WrittenPage.record.toCodec.list)

/-- What `write_shard_output` is given. -/
structure WrittenOutput (F : Type) where
  shardIdx : Nat
  pages : List (WrittenPage F)

def WrittenOutput.record : Record ["shard_idx", "pages"] F (WrittenOutput F) (List Page) :=
  ((Record.make fun (_ : Unit) pages => pages).ap
    (Record.unread (.field "shard_idx" WrittenOutput.shardIdx .nat))).ap
    (.field "pages" WrittenOutput.pages WrittenPage.record.toCodec.list)

def WrittenArtifact.artifact (written : WrittenArtifact F) : Artifact :=
  ⟨written.producer, written.producerVersion, written.pages.map WrittenPage.page⟩

@[simp] theorem WrittenPage.record_value : (WrittenPage.record (F := F)).value = WrittenPage.page := rfl

@[simp] theorem WrittenArtifact.record_value : (WrittenArtifact.record (F := F)).value = WrittenArtifact.artifact := rfl

@[simp] theorem WrittenOutput.record_value (written : WrittenOutput F) :
    WrittenOutput.record.value written = written.pages.map WrittenPage.page := rfl

section
variable (floats : Floats F) (site : Deployment)

/-- The text of a dictionary; `json.dumps` raises when there is none. -/
def textOf {α β : Type} {keys : List String} (r : Record keys F α β) (a : α) : Option Text :=
  (r.toCodec.encode a).map (dumps floats)

/-- `json.loads`, as far as its value is looked at. -/
def readText {α β : Type} {keys : List String} (r : Record keys F α β) (data : Text) : Except StorageError β :=
  StorageError.malformed.unless ((loads floats data).toOption.bind r.toCodec.decode)

def readObject {α β : Type} {keys : List String} (r : Record keys F α β) (objects : Objects) (gcsPath : String) :
    Except StorageError β := do
  let data ← Gcs.downloadBytes objects gcsPath
  readText floats r data

def readAssembled (objects : Objects) (docId : DocId) : Except StorageError (Option Artifact) := do
  if ← Gcs.exists? objects (ArtifactPath.assembledPath site docId) then
    some <$> readObject floats WrittenArtifact.record objects (ArtifactPath.assembledPath site docId)
  else return none

def readShardOutput (objects : Objects) (docId : DocId) (shardIdx : Nat) : Except StorageError (List Page) :=
  readObject floats WrittenOutput.record objects (ArtifactPath.shardOutputPath site docId shardIdx)

/-- An upload: by one of the two writers, of a piece of a split, or of an object under another path. -/
inductive Upload (F : Type) where
  | assembled (written : WrittenArtifact F)
  | output (docId : DocId) (written : WrittenOutput F)
  | subPdf (gcsPath : String) (pages : List PageImage) (data : Text)
  | other (path : String) (data : Text)

/-- The objects after an upload; none if it raises. -/
def Upload.run (objects : Objects) : Upload F → Option Objects
  | .assembled written => do
    let path ← (Gcs.pathFor (ArtifactPath.assembledPath site written.docId)).toOption
    return Gcs.uploadBytes site objects path (← textOf floats WrittenArtifact.record written)
  | .output docId written => do
    let path ← (Gcs.pathFor (ArtifactPath.shardOutputPath site docId written.shardIdx)).toOption
    return Gcs.uploadBytes site objects path (← textOf floats WrittenOutput.record written)
  | .subPdf gcsPath _ data => do
    let path ← (Gcs.pathFor gcsPath).toOption
    return Gcs.uploadBytes site objects path data
  | .other path data => some (Gcs.uploadBytes site objects path data)

end

/-- What an upload means for the bucket. -/
def Upload.apply (bucket : Bucket) : Upload F → Bucket
  | .assembled written => bucket.writeAssembled written.docId written.artifact
  | .output docId written => bucket.writeShardOutput docId written.shardIdx (written.pages.map WrittenPage.page)
  | .subPdf gcsPath pages _ => bucket.writeSplitShard gcsPath pages
  | .other _ _ => bucket

end DocPipeline

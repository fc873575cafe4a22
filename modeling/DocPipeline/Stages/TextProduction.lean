import DocPipeline.Core.Artifact

/-!
# Text production: the PDF worker and the OCR shards

`text.embedded` is one transaction that writes the artifact to the bucket before it
commits; `ocr.split` and `ocr.shard` each do their object work between two
transactions. What OCR reads off the images of a shard is an input; `recognise` is what an
engine reads off the object the message names, where the rasteriser renders each page of it.
-/
namespace DocPipeline

set_option autoImplicit false

open Ledger

namespace PdfWorker

inductive EmbeddedResult where
  | fallthroughToOcr (reason : Pdf.SanityReason)
  | tier0Complete
  deriving DecidableEq, Repr

/-- The two UPDATEs of the fall-through, around its dispatch. -/
def fallThrough (site : Deployment) (docId : DocId) (gcsPath : String) (pageCount : Nat) : Tx Unit :=
  match routeTextProduction site (some false) (some pageCount) with
  | .error e => throw e
  | .ok (topic, shardsTotal) => do
    updateDocument docId fun row => { row with hasTextLayer := some false, shardsTotal := shardsTotal }
    enqueue docId topic (buildDispatchPayload topic docId gcsPath (some pageCount))
    let _ ← transition docId .textPending (some [.textRunning]) true

def handleTextEmbedded (site : Deployment) (docId : DocId) (gcsPath : String)
    (pagesText : List String) : Tx EmbeddedResult := do
  let _ ← transition docId .textRunning (some [.textPending]) true
  let sanity := Pdf.textSanity site.unicode pagesText
  if sanity.1 then
    let _ ← transition docId .extractPending (some [.textRunning]) true
    enqueue docId .ocrCompleted (.completed docId)
    return .tier0Complete
  else
    fallThrough site docId gcsPath pagesText.length
    return .fallthroughToOcr sanity.2

def embeddedArtifact (pagesText : List String) : Artifact :=
  ⟨"pypdf-text", "v1", pagesText.mapIdx fun i t => ⟨i, t⟩⟩

inductive EmbeddedPc where
  | uploading
  | committing

/-- The bytes a message's path points to, opened as a PDF. -/
def pagesText (site : Deployment) (gcsPath : String) : Option (List String) :=
  (site.objects gcsPath).bind fun blob => (Pdf.reader blob.data).toOption

/-- The guard of the first UPDATE holds its row lock until the commit, and the bucket
write comes in between: a worker that dies in `committing` leaves the artifact behind. -/
def embeddedStep (site : Deployment) (docId : DocId) (gcsPath : String) (w : World) :
    EmbeddedPc → Option (World × Next EmbeddedPc EmbeddedResult)
  | .uploading =>
    (pagesText site gcsPath).map fun pages =>
      match (transition docId .textRunning (some [.textPending]) true).run w.db with
      | .error e => (w, .raised e)
      | .ok _ =>
        if (Pdf.textSanity site.unicode pages).1 then
          ({ w with bucket := w.bucket.writeAssembled docId (embeddedArtifact pages) }, .goto .committing)
        else (w, .goto .committing)
  | .committing =>
    (pagesText site gcsPath).map fun pages =>
      w.transact (handleTextEmbedded site docId gcsPath pages) .returned .raised

def beginSplit (docId : DocId) : Tx Unit := do
  let _ ← transition docId .textRunning (some [.textPending]) true

/-- `max(1, ceil(page_count / shard_size))`. -/
def shardCount (site : Deployment) (pageCount : Nat) : Nat :=
  max 1 ((pageCount + site.shardSizePages - 1) / site.shardSizePages)

/-- The authoritative shard and page counts that `do_split` enumerates. -/
def splitCounts (site : Deployment) (gcsPath : String) : Option (Nat × Nat) :=
  (site.objects gcsPath).bind fun blob =>
    (Pdf.readPageCount blob.data Pdf.pdfType).toOption.map fun n => (shardCount site n, n)

/-- `split_pages`: the pages of the object from `start` on, `stop` excluded. -/
def splitPages (gcsPath : String) (start stop : Nat) : List PageImage :=
  (List.range' start (stop - start)).map (PageImage.mk gcsPath)

/-- One upload a shard. -/
def uploadShards (site : Deployment) (docId : DocId) (gcsPath : String) (shardsTotal pageCount : Nat)
    (bucket : Bucket) : Bucket :=
  (List.range shardsTotal).foldl (fun bucket idx =>
    bucket.writeSplitShard (splitShardPath site docId idx) (splitPages gcsPath (idx * site.shardSizePages)
      (min (idx * site.shardSizePages + site.shardSizePages) pageCount))) bucket

/-- The bucket after the uploads, and the counts. -/
def doSplit (site : Deployment) (docId : DocId) (gcsPath : String) (bucket : Bucket) : Option (Bucket × Nat × Nat) :=
  (splitCounts site gcsPath).map fun counts =>
    (uploadShards site docId gcsPath counts.1 counts.2 bucket, counts)

def shardPayload (site : Deployment) (docId : DocId) (shardsTotal pageCount idx : Nat) : ShardPayload :=
  { docId := docId
    shardIdx := idx
    shardsTotal := shardsTotal
    pageStart := idx * site.shardSizePages
    pageEnd := min (idx * site.shardSizePages + site.shardSizePages) pageCount
    shardGcsPath := splitShardPath site docId idx }

def commitSplitResult (site : Deployment) (docId : DocId) (shardsTotal pageCount : Nat) : Tx Unit := do
  updateDocument docId fun row => { row with shardsTotal := shardsTotal, pageCount := some pageCount }
  enqueueMany ((List.range shardsTotal).map fun idx =>
    (docId, .ocrShard, .shard (shardPayload site docId shardsTotal pageCount idx)))

inductive SplitPc where
  | beginning
  | splitting
  | committing

/-- The uploads come before the transaction: a worker that dies in `committing` leaves them behind. -/
def splitStep (site : Deployment) (docId : DocId) (gcsPath : String) (w : World) :
    SplitPc → Option (World × Next SplitPc Unit)
  | .beginning => some (w.transact (beginSplit docId) (fun _ => .goto .splitting) .raised)
  | .splitting => (doSplit site docId gcsPath w.bucket).map fun r => ({ w with bucket := r.1 }, .goto .committing)
  | .committing =>
    (splitCounts site gcsPath).map fun counts =>
      w.transact (commitSplitResult site docId counts.1 counts.2) .returned .raised

end PdfWorker

namespace OcrShard

inductive Pc where
  | beginning
  | recognising
  | recording

def beginShard (docId : DocId) : Tx Unit := do
  let _ ← transition docId .textRunning (some [.textPending]) true

/-- The pages of an uploaded object: those of a PDF, or the one image that it is. -/
def objectPages (site : Deployment) (path : String) : Option (List PageImage) :=
  (site.objects path).bind fun blob =>
    match blob.data with
    | .pages texts => some ((List.range texts.length).map (PageImage.mk path))
    | .corrupt _ => some [⟨path, 0⟩]
    | .encrypted => none

/-- The images rasterised from the object of a message, as many at most as its range has pages. -/
def pageImages (site : Deployment) (bucket : Bucket) (payload : ShardPayload) : Option (List PageImage) :=
  (bucket.splitShard payload.shardGcsPath <|> objectPages site payload.shardGcsPath).map
    (List.take (max 1 (payload.pageEnd - payload.pageStart)))

/-- What an engine reads off them; each is handed over with its page number in the document. -/
def recognise (engine : DocId → Nat → PageImage → String) (site : Deployment) (bucket : Bucket)
    (payload : ShardPayload) : Option (List String) :=
  (pageImages site bucket payload).map fun images =>
    images.mapIdx fun i image => engine payload.docId (payload.pageStart + i) image

/-- Local page numbers are offset by the shard's first page. -/
def pages (pageStart : Nat) (texts : List String) : List Page :=
  texts.mapIdx fun i t => ⟨pageStart + i, t⟩

def step (payload : ShardPayload) (texts : List String) (w : World) : Pc → World × Next Pc Bool
  | .beginning => w.transact (beginShard payload.docId) (fun _ => .goto .recognising) .raised
  | .recognising =>
    let output := pages payload.pageStart texts
    ({ w with bucket := w.bucket.writeShardOutput payload.docId payload.shardIdx output },
      .goto .recording)
  | .recording =>
    w.transact (recordShardAndMaybeJoin payload.docId payload.shardIdx (.completed payload.docId))
      .returned .raised

end OcrShard
end DocPipeline

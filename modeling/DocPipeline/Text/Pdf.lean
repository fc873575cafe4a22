import DocPipeline.Core.Schema
import Mathlib.Algebra.Order.Ring.Nat
import Mathlib.Data.List.Infix

/-!
# Uploaded objects and the text-layer checks

An object of the inbox is what the bucket reports of it together with what the PDF
reader makes of its bytes. The reader is third-party code, so its three outcomes are
data here; `pdf_utils` and the triage classifier are functions of that data. Any other
exception of the reader, of the rasteriser or of the OCR engine ends the handler where it is,
as a crash does. Python's character classes and case folding are tables of Unicode and stay
parameters.
-/
namespace DocPipeline

set_option autoImplicit false

/-- `str.isdigit`, `str.isspace` and `str.lower`. -/
structure UnicodeTables where
  isDigit : Char → Bool
  isSpace : Char → Bool
  lower : String → String

/-- What opening the bytes as a PDF gives: the text of each page, if it opens. -/
inductive PdfRead where
  | encrypted
  | corrupt (message : String)
  | pages (texts : List String)
  deriving DecidableEq, Repr

/-- An object under `inbox/`. -/
structure Blob where
  crc32c : String
  size : Nat
  contentType : Option String
  data : PdfRead
  deriving DecidableEq, Repr

def crc32cToDocId (crc32c : String) : DocId := "crc32c-" ++ crc32c

inductive PdfError where
  | encryptedPdf
  | corruptPdf (message : String)
  deriving DecidableEq, Repr

namespace Pdf

def pdfType : String := "application/pdf"

def allowedMimeTypes : List String := [pdfType, "image/jpeg", "image/png", "image/tiff"]

def minTokenDensityPerPage : Nat := 15

def triageMinSampleChars : Nat := 5

/-- `_reader`: the pages, or the exception it raises. -/
def reader : PdfRead → Except PdfError (List String)
  | .encrypted => .error .encryptedPdf
  | .corrupt message => .error (.corruptPdf message)
  | .pages texts => .ok texts

def readPageCount (data : PdfRead) (contentType : String) : Except PdfError Nat :=
  if contentType = pdfType then (reader data).map List.length else .ok 1

def sampleText (data : PdfRead) (contentType : String) : Except PdfError String :=
  if contentType ≠ pdfType then .ok ""
  else (reader data).map fun pages => "\n".intercalate (pages.take 3)

/-- `str.strip`. -/
def strip (unicode : UnicodeTables) (text : List Char) : List Char :=
  ((text.dropWhile unicode.isSpace).reverse.dropWhile unicode.isSpace).reverse

def hasTextLayer (unicode : UnicodeTables) (text : String) : Bool :=
  text ≠ "" && decide (triageMinSampleChars ≤ (strip unicode text.toList).length) &&
    text.toList.any unicode.isDigit

inductive SanityReason where
  | ok | noPages | tokenDensityBelowFloor | noDigitsPresent
  deriving DecidableEq, Repr

/-- The density comparison `total / pages < floor`, cross-multiplied. -/
def textSanity (unicode : UnicodeTables) (pagesText : List String) : Bool × SanityReason :=
  if pagesText = [] then (false, .noPages)
  else if (pagesText.map fun t => (strip unicode t.toList).length).sum <
      minTokenDensityPerPage * pagesText.length then (false, .tokenDensityBelowFloor)
  else if !pagesText.any (fun t => t.toList.any unicode.isDigit) then (false, .noDigitsPresent)
  else (true, .ok)

/-- `needle in text`. -/
def occursIn (needle text : List Char) : Bool := text.tails.any needle.isPrefixOf

theorem occursIn_iff {needle text : List Char} : occursIn needle text = true ↔ needle <:+: text := by
  simp [occursIn, List.infix_iff_prefix_suffix, List.mem_tails, and_comm]

end Pdf

def classifyDocType (unicode : UnicodeTables) (sampleText : String) : DocType :=
  let lowered := (unicode.lower sampleText).toList
  if Pdf.occursIn "credit memo".toList lowered then .creditMemo
  else if Pdf.occursIn "receipt".toList lowered then .receipt
  else .invoice

/-- The constants of `config.py` that the modelled code reads, the objects of the
inbox by their `gs://` path, and the producer's choice of a partition for a key. The code
reads an object by its path, so the runs of a deployment are those in which nobody overwrites
or removes an object of the inbox. -/
structure Deployment where
  shardSizePages : Nat
  shardSizePages_pos : 0 < shardSizePages
  hardPageCeiling : Nat
  stuckThresholdSeconds : Nat
  extractStuckThresholdSeconds : Nat
  maxTextAttempts : Nat
  maxExtractAttempts : Nat
  funnelVersion : Nat
  buildSha : String
  promptVersion : String
  ocrEngine : String
  gcsBucket : String
  unicode : UnicodeTables
  objects : String → Option Blob
  partitioner : Topic → DocId → Nat

end DocPipeline

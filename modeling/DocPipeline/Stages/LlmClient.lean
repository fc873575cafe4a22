import DocPipeline.Lib.Matcher
import DocPipeline.Text.Json

/-!
# The object in a reply

`_extract_json`: the group of a fence, if one matches anywhere in the reply, and in it or
else in the whole reply the text from the first brace to the last one.
-/
namespace DocPipeline.LlmClient

set_option autoImplicit false

open Lib

/-- `\s`. -/
def isSpace (c : Char) : Bool :=
  let n := c.toNat
  (9 ≤ n && n ≤ 13) || (28 ≤ n && n ≤ 32) || n = 0x85 || n = 0xa0 || n = 0x1680 || (0x2000 ≤ n && n ≤ 0x200a) ||
    n = 0x2028 || n = 0x2029 || n = 0x202f || n = 0x205f || n = 0x3000

def fenceMark : Text := ['`', '`', '`']

def jsonTag : Text := ['j', 's', 'o', 'n']

def anyChar (_ : Char) : Bool := true

/-- `` ```(?:json)?\s*(\{.*?\})\s*``` `` with `DOTALL`, and what its group captures. -/
def fence : Matcher Char Text := do
  let _ ← Matcher.lit fenceMark
  let _ ← Matcher.opt (Matcher.lit jsonTag)
  let _ ← Matcher.many isSpace
  let _ ← Matcher.lit ['{']
  let body ← Matcher.few anyChar
  let _ ← Matcher.lit ['}']
  let _ ← Matcher.many isSpace
  let _ ← Matcher.lit fenceMark
  return '{' :: (body ++ ['}'])

/-- `\{.*\}` with `DOTALL`. -/
def braces : Matcher Char Text := do
  let _ ← Matcher.lit ['{']
  let body ← Matcher.many anyChar
  let _ ← Matcher.lit ['}']
  return '{' :: (body ++ ['}'])

/-- `ExtractionError("unparseable", …)`, by what its message is made of, and the `ValueError`
of a number that `int` refuses, which is not caught. -/
inductive Failure where
  | unparseable (cause : Option Json.Error) (excerpt : Text)
  | valueError
  deriving DecidableEq, Repr

variable {F : Type} (floats : Floats F)

def extractJson (raw : Text) : Except Failure (Json F) :=
  let candidate := (Matcher.search fence raw).getD raw
  match Matcher.search braces candidate with
  | none => .error (.unparseable none (raw.take 500))
  | some text =>
    match Json.loads floats text with
    | .ok v => .ok v
    | .error .intTooLong => .error .valueError
    | .error e => .error (.unparseable (some e) (raw.take 500))

end DocPipeline.LlmClient

import Mathlib.Data.Nat.Digits.Defs

/-!
# Python's json

`json.dumps` and `json.loads` with their defaults. A text is a list of Unicode characters;
the strings of a value may hold surrogates besides, which `dumps` escapes like other
characters that are not ASCII. The float type is a parameter: what is used of it is that the
text `repr` gives of a value is read as that value. The interpreter's recursion limit is
left out.
-/
namespace DocPipeline

set_option autoImplicit false

abbrev Text := List Char

/-! ## Numbers -/

/-- The parts of a number's text; no fraction is the empty one. -/
structure Numeral where
  negative : Bool
  whole : List Nat
  fraction : List Nat := []
  exponent : Option (Bool × List Nat) := none

namespace Numeral

/-- `NUMBER_RE` matches the text of such parts. -/
structure Wf (n : Numeral) : Prop where
  whole_digits : ∀ d, d ∈ n.whole → d < 10
  whole_head : n.whole = [0] ∨ ∃ d ds, n.whole = d :: ds ∧ d ≠ 0
  fraction_digits : ∀ d, d ∈ n.fraction → d < 10
  exponent_digits : ∀ negative ds, n.exponent = some (negative, ds) → ds ≠ [] ∧ ∀ d, d ∈ ds → d < 10

def digitsText (ds : List Nat) : Text := ds.map Nat.digitChar

def fractionText : List Nat → Text
  | [] => []
  | d :: ds => '.' :: digitsText (d :: ds)

def exponentText : Option (Bool × List Nat) → Text
  | none => []
  | some (negative, ds) => 'e' :: (if negative then '-' else '+') :: digitsText ds

def text (n : Numeral) : Text :=
  (if n.negative then ['-'] else []) ++ digitsText n.whole ++ fractionText n.fraction ++ exponentText n.exponent

def isInt (n : Numeral) : Bool := n.fraction.isEmpty && n.exponent.isNone

def toInt (n : Numeral) : Int :=
  let magnitude : Int := Nat.ofDigits 10 n.whole.reverse
  if n.negative then -magnitude else magnitude

def ofInt (z : Int) : Numeral where
  negative := z < 0
  whole := if z = 0 then [0] else (Nat.digits 10 z.natAbs).reverse

/-- A run of digits, and what comes after it. -/
def readDigits (t : Text) : List Nat × Text :=
  ((t.takeWhile Char.isDigit).map fun c => c.toNat - '0'.toNat, t.dropWhile Char.isDigit)

def readWhole : Text → Option (List Nat × Text)
  | '0' :: t => some ([0], t)
  | t =>
    match readDigits t with
    | ([], _) => none
    | (d :: ds, rest) => some (d :: ds, rest)

def readFraction : Text → List Nat × Text
  | '.' :: t =>
    match readDigits t with
    | ([], _) => ([], '.' :: t)
    | (d :: ds, rest) => (d :: ds, rest)
  | t => ([], t)

def readSign : Text → Bool × Text
  | '-' :: t => (true, t)
  | '+' :: t => (false, t)
  | t => (false, t)

def readExponent : Text → Option (Bool × List Nat) × Text
  | [] => (none, [])
  | c :: t =>
    if c = 'e' ∨ c = 'E' then
      match readDigits (readSign t).2 with
      | ([], _) => (none, c :: t)
      | (d :: ds, rest) => (some ((readSign t).1, d :: ds), rest)
    else (none, c :: t)

/-- The match of `NUMBER_RE` at the beginning of the text. -/
def readUnsigned (negative : Bool) (t : Text) : Option (Numeral × Text) :=
  (readWhole t).map fun whole =>
    let fraction := readFraction whole.2
    let exponent := readExponent fraction.2
    (⟨negative, whole.1, fraction.1, exponent.1⟩, exponent.2)

def read : Text → Option (Numeral × Text)
  | '-' :: t => readUnsigned true t
  | t => readUnsigned false t

end Numeral

/-- What `json` prints of a float. -/
inductive FloatText where
  | numeral (n : Numeral)
  | nan
  | infinity (negative : Bool)

/-- `float.__repr__` and `float()`. -/
structure Floats (F : Type) where
  repr : F → FloatText
  read : FloatText → F
  read_repr : ∀ x, read (repr x) = x
  repr_wf : ∀ x n, repr x = .numeral n → n.Wf ∧ n.isInt = false

/-- `sys.get_int_max_str_digits()`. -/
def maxStrDigits : Nat := 4300

/-- An int that Python converts to and from a text. -/
structure PyInt where
  val : Int
  short : (Nat.digits 10 val.natAbs).length ≤ maxStrDigits

/-! ## Strings -/

/-- A code point: a character or the surrogate `0xd800 + n`. -/
inductive Point where
  | char (c : Char)
  | surrogate (n : Fin 0x800)
  deriving DecidableEq

abbrev Str := List Point

namespace Point

def isHigh : Point → Bool
  | char _ => false
  | surrogate n => n.val < 0x400

def isLow : Point → Bool
  | char _ => false
  | surrogate n => 0x400 ≤ n.val

/-- `chr(n)`. -/
def chr (n : Nat) : Point :=
  if h : 0xd800 ≤ n ∧ n < 0xe000 then surrogate ⟨n - 0xd800, by omega⟩ else char (Char.ofNat n)

end Point

/-! ## Values -/

inductive Json (F : Type) where
  | null
  | bool (b : Bool)
  | int (n : PyInt)
  | float (x : F)
  | str (s : Str)
  | arr (items : List (Json F))
  | obj (members : List (Str × Json F))

namespace Json

variable {F : Type}

/-! The keys of every dictionary in a value are distinct. -/
mutual
def Distinct : Json F → Prop
  | .arr items => DistinctItems items
  | .obj members => (members.map Prod.fst).Nodup ∧ DistinctMembers members
  | .null | .bool _ | .int _ | .float _ | .str _ => True

def DistinctItems : List (Json F) → Prop
  | [] => True
  | v :: items => v.Distinct ∧ DistinctItems items

def DistinctMembers : List (Str × Json F) → Prop
  | [] => True
  | (_, v) :: members => v.Distinct ∧ DistinctMembers members
end

/-! The keys and the strings in a value. -/
mutual
def strings : Json F → List Str
  | .str s => [s]
  | .arr items => stringsItems items
  | .obj members => stringsMembers members
  | .null | .bool _ | .int _ | .float _ => []

def stringsItems : List (Json F) → List Str
  | [] => []
  | v :: items => v.strings ++ stringsItems items

def stringsMembers : List (Str × Json F) → List Str
  | [] => []
  | (key, v) :: members => key :: (v.strings ++ stringsMembers members)
end

/-- A dictionary: an object with distinct keys, and likewise inside. -/
structure Object (F : Type) where
  members : List (Str × Json F)
  distinct : (Json.obj members).Distinct

/-! ## dumps -/

/-- `'\\u{0:04x}'.format(n)`. -/
def unitText (n : Nat) : Text :=
  ['\\', 'u', Nat.digitChar (n / 4096 % 16), Nat.digitChar (n / 256 % 16), Nat.digitChar (n / 16 % 16),
    Nat.digitChar (n % 16)]

/-- The escapes of `py_encode_basestring_ascii`, first of a character. -/
def escapeChar (c : Char) : Text :=
  if c = '\\' then ['\\', '\\']
  else if c = '"' then ['\\', '"']
  else if c = '\x08' then ['\\', 'b']
  else if c = '\x0c' then ['\\', 'f']
  else if c = '\n' then ['\\', 'n']
  else if c = '\r' then ['\\', 'r']
  else if c = '\t' then ['\\', 't']
  else if 0x20 ≤ c.toNat ∧ c.toNat ≤ 0x7e then [c]
  else if c.toNat < 0x10000 then unitText c.toNat
  else unitText (0xd800 + (c.toNat - 0x10000) / 0x400) ++ unitText (0xdc00 + (c.toNat - 0x10000) % 0x400)

def escape : Point → Text
  | .char c => escapeChar c
  | .surrogate n => unitText (0xd800 + n)

def quote (s : Str) : Text := '"' :: (s.flatMap escape ++ ['"'])

def floatText : FloatText → Text
  | .numeral n => n.text
  | .nan => ['N', 'a', 'N']
  | .infinity negative => (if negative then ['-'] else []) ++ ['I', 'n', 'f', 'i', 'n', 'i', 't', 'y']

section
variable (floats : Floats F)

mutual
def dumps : Json F → Text
  | .null => ['n', 'u', 'l', 'l']
  | .bool true => ['t', 'r', 'u', 'e']
  | .bool false => ['f', 'a', 'l', 's', 'e']
  | .int n => (Numeral.ofInt n.val).text
  | .float x => floatText (floats.repr x)
  | .str s => quote s
  | .arr [] => ['[', ']']
  | .arr (v :: items) => '[' :: (v.dumps ++ dumpsItems items)
  | .obj [] => ['{', '}']
  | .obj ((key, v) :: members) => '{' :: (quote key ++ (':' :: ' ' :: (v.dumps ++ dumpsMembers members)))

/-- What follows an item of a list. -/
def dumpsItems : List (Json F) → Text
  | [] => [']']
  | v :: items => ',' :: ' ' :: (v.dumps ++ dumpsItems items)

/-- What follows a member of a dictionary. -/
def dumpsMembers : List (Str × Json F) → Text
  | [] => ['}']
  | (key, v) :: members => ',' :: ' ' :: (quote key ++ (':' :: ' ' :: (v.dumps ++ dumpsMembers members)))
end

end

/-! ## loads -/

/-- The messages of `JSONDecodeError`, and the `ValueError` with which `int` refuses a long
text. -/
inductive Error where
  | expectingValue | expectingPropertyName | expectingColon | expectingComma | unterminatedString
  | invalidControlCharacter | invalidEscape | invalidUnicodeEscape | extraData | unexpectedBom
  | intTooLong
  deriving DecidableEq, Repr

/-- `WHITESPACE`, `[ \t\n\r]*`. -/
def isBlank (c : Char) : Bool := c = ' ' || c = '\t' || c = '\n' || c = '\r'

def skipBlanks (t : Text) : Text := t.dropWhile isBlank

def hexVal (c : Char) : Option Nat :=
  if '0' ≤ c ∧ c ≤ '9' then some (c.toNat - '0'.toNat)
  else if 'a' ≤ c ∧ c ≤ 'f' then some (c.toNat - 'a'.toNat + 10)
  else if 'A' ≤ c ∧ c ≤ 'F' then some (c.toNat - 'A'.toNat + 10)
  else none

/-- `_decode_uXXXX`. -/
def unit (a b c d : Char) : Option Nat := do
  let a ← hexVal a
  let b ← hexVal b
  let c ← hexVal c
  let d ← hexVal d
  return a * 4096 + b * 256 + c * 16 + d

/-- `BACKSLASH`. -/
def unescape (c : Char) : Option Char :=
  if c = '"' ∨ c = '\\' ∨ c = '/' then some c
  else if c = 'b' then some '\x08'
  else if c = 'f' then some '\x0c'
  else if c = 'n' then some '\n'
  else if c = 'r' then some '\r'
  else if c = 't' then some '\t'
  else none

def isHigh (n : Nat) : Bool := 0xd800 ≤ n && n ≤ 0xdbff

def isLow (n : Nat) : Bool := 0xdc00 ≤ n && n ≤ 0xdfff

/-- A code point, in front of the rest of its string. -/
def onto (p : Point) (r : Except Error (Str × Text)) : Except Error (Str × Text) :=
  r.map fun r => (p :: r.1, r.2)

/-- `py_scanstring`, strict, after the opening quote. -/
def readString : Text → Except Error (Str × Text)
  | [] => .error .unterminatedString
  | '"' :: t => .ok ([], t)
  | '\\' :: 'u' :: a :: b :: c :: d :: t =>
    match unit a b c d with
    | none => .error .invalidUnicodeEscape
    | some n =>
      if isHigh n then
        match t with
        | '\\' :: 'u' :: e :: f :: g :: h :: u =>
          match unit e f g h with
          | none => .error .invalidUnicodeEscape
          | some m =>
            if isLow m then onto (.chr (0x10000 + (n - 0xd800) * 0x400 + (m - 0xdc00))) (readString u)
            else onto (.chr n) (readString ('\\' :: 'u' :: e :: f :: g :: h :: u))
        | t => onto (.chr n) (readString t)
      else onto (.chr n) (readString t)
  | '\\' :: 'u' :: _ => .error .invalidUnicodeEscape
  | '\\' :: c :: t =>
    match unescape c with
    | none => .error .invalidEscape
    | some d => onto (.char d) (readString t)
  | ['\\'] => .error .unterminatedString
  | c :: t => if c.toNat < 0x20 then .error .invalidControlCharacter else onto (.char c) (readString t)

/-- Item assignment: a key that is there keeps its place. -/
def setItem (key : Str) (v : Json F) : List (Str × Json F) → List (Str × Json F)
  | [] => [(key, v)]
  | member :: members =>
    if member.1 = key then (key, v) :: members else member :: setItem key v members

/-- `dict(pairs)`. -/
def dict (pairs : List (Str × Json F)) : List (Str × Json F) :=
  pairs.foldl (fun members pair => setItem pair.1 pair.2 members) []

/-- `int()` and `float()` of a number's text. -/
def ofNumeral (floats : Floats F) (n : Numeral) : Except Error (Json F) :=
  if n.isInt then
    if h : (Nat.digits 10 n.toInt.natAbs).length ≤ maxStrDigits then .ok (.int ⟨n.toInt, h⟩) else .error .intTooLong
  else .ok (.float (floats.read (.numeral n)))

section
variable (floats : Floats F)

/-! The recursive descent of `scan_once`, `JSONArray` and `JSONObject`. `fuel` bounds the
depth of the calls; twice the length of the text is enough. -/
mutual
def readValue : Nat → Text → Except Error (Json F × Text)
  | 0, _ => .error .expectingValue
  | fuel + 1, t =>
    match t with
    | '"' :: t => (readString t).map fun r => (.str r.1, r.2)
    | '{' :: t =>
      match skipBlanks t with
      | '}' :: t => .ok (.obj [], t)
      | t => (readMembers fuel t).map fun r => (.obj (dict r.1), r.2)
    | '[' :: t =>
      match skipBlanks t with
      | ']' :: t => .ok (.arr [], t)
      | t => (readItems fuel t).map fun r => (.arr r.1, r.2)
    | 'n' :: 'u' :: 'l' :: 'l' :: t => .ok (.null, t)
    | 't' :: 'r' :: 'u' :: 'e' :: t => .ok (.bool true, t)
    | 'f' :: 'a' :: 'l' :: 's' :: 'e' :: t => .ok (.bool false, t)
    | 'N' :: 'a' :: 'N' :: t => .ok (.float (floats.read .nan), t)
    | 'I' :: 'n' :: 'f' :: 'i' :: 'n' :: 'i' :: 't' :: 'y' :: t => .ok (.float (floats.read (.infinity false)), t)
    | '-' :: 'I' :: 'n' :: 'f' :: 'i' :: 'n' :: 'i' :: 't' :: 'y' :: t =>
      .ok (.float (floats.read (.infinity true)), t)
    | t =>
      match Numeral.read t with
      | none => .error .expectingValue
      | some (n, t) => (ofNumeral floats n).map fun v => (v, t)

def readItems : Nat → Text → Except Error (List (Json F) × Text)
  | 0, _ => .error .expectingValue
  | fuel + 1, t => do
    let (v, t) ← readValue fuel t
    match skipBlanks t with
    | ']' :: t => .ok ([v], t)
    | ',' :: t => (readItems fuel (skipBlanks t)).map fun r => (v :: r.1, r.2)
    | _ => .error .expectingComma

def readMembers : Nat → Text → Except Error (List (Str × Json F) × Text)
  | 0, _ => .error .expectingPropertyName
  | fuel + 1, t =>
    match t with
    | '"' :: t => do
      let (key, t) ← readString t
      match skipBlanks t with
      | ':' :: t => do
        let (v, t) ← readValue fuel (skipBlanks t)
        match skipBlanks t with
        | '}' :: t => .ok ([(key, v)], t)
        | ',' :: t => (readMembers fuel (skipBlanks t)).map fun r => ((key, v) :: r.1, r.2)
        | _ => .error .expectingComma
      | _ => .error .expectingColon
    | _ => .error .expectingPropertyName
end

def loads (t : Text) : Except Error (Json F) :=
  if t.head? = some '\ufeff' then .error .unexpectedBom
  else do
    let (v, rest) ← readValue floats (2 * t.length + 1) (skipBlanks t)
    if skipBlanks rest = [] then .ok v else .error .extraData

end

end Json
end DocPipeline

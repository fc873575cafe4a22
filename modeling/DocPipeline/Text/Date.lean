import Mathlib.Algebra.Order.Ring.Nat
import Mathlib.Data.List.Basic

/-!
# Dates as Python reads them

`datetime.date.fromisoformat` accepts the calendar form and the week form of ISO 8601,
each with and without hyphens, and counts the length in bytes of UTF-8. A date is its
ordinal: 1 for the first of January of the year 1.
-/
namespace DocPipeline.Date

set_option autoImplicit false

/-- `date.max.toordinal()`. -/
def maxOrdinal : Nat := 3652059

def isLeap (year : Nat) : Bool := year % 4 = 0 && (year % 100 ≠ 0 || year % 400 = 0)

def daysInMonth (year month : Nat) : Nat :=
  if month = 2 then (if isLeap year then 29 else 28)
  else if month ∈ [4, 6, 9, 11] then 30 else 31

def daysBeforeYear (year : Nat) : Nat :=
  (year - 1) * 365 + (year - 1) / 4 - (year - 1) / 100 + (year - 1) / 400

def daysBeforeMonth (year month : Nat) : Nat :=
  ((List.range (month - 1)).map fun m => daysInMonth year (m + 1)).sum

/-- `date(year, month, day)`; none for `ValueError`. -/
def ofYmd (year month day : Nat) : Option Nat :=
  if 1 ≤ year ∧ year ≤ 9999 ∧ 1 ≤ month ∧ month ≤ 12 ∧ 1 ≤ day ∧ day ≤ daysInMonth year month then
    some (daysBeforeYear year + daysBeforeMonth year month + day)
  else none

/-- Monday is 0. -/
def weekday (ordinal : Nat) : Nat := (ordinal + 6) % 7

def isoWeek1Monday (year : Nat) : Nat :=
  let first := daysBeforeYear year + 1
  let monday := first - weekday first
  if 3 < weekday first then monday + 7 else monday

def isoWeeks (year : Nat) : Nat :=
  let first := weekday (daysBeforeYear year + 1)
  if first = 3 ∨ (first = 2 ∧ isLeap year) then 53 else 52

def ofIsoWeek (year week day : Nat) : Option Nat :=
  if 1 ≤ year ∧ year ≤ 9999 ∧ 1 ≤ week ∧ week ≤ isoWeeks year ∧ 1 ≤ day ∧ day ≤ 7 then
    let ordinal := isoWeek1Monday year + (week - 1) * 7 + (day - 1)
    if ordinal ≤ maxOrdinal then some ordinal else none
  else none

/-- Exactly `n` ASCII digits at the front. -/
def parseDigits (n : Nat) (text : List Char) : Option (Nat × List Char) :=
  let digits := text.take n
  if digits.length = n ∧ digits.all (fun c => '0' ≤ c && c ≤ '9') then
    some (digits.foldl (fun acc c => acc * 10 + (c.toNat - 48)) 0, text.drop n)
  else none

/-- The separator before the next component, when the date uses separators. -/
def separator (used : Bool) (text : List Char) : Option (List Char) :=
  if !used then some text
  else match text with
    | '-' :: rest => some rest
    | _ => none

/-- What follows the year. The week form does not look past the day it has read. -/
def parseRest (year : Nat) (used : Bool) : List Char → Option Nat
  | 'W' :: rest => do
    let (week, rest) ← parseDigits 2 rest
    if rest = [] then ofIsoWeek year week 1
    else
      let rest ← separator used rest
      let (day, _) ← parseDigits 1 rest
      ofIsoWeek year week day
  | rest => do
    let (month, rest) ← parseDigits 2 rest
    let rest ← separator used rest
    let (day, rest) ← parseDigits 2 rest
    if rest = [] then ofYmd year month day else none

/-- `date.fromisoformat`; none for `ValueError`. -/
def fromIsoformat (text : String) : Option Nat :=
  if text.utf8ByteSize ∈ [7, 8, 10] then do
    let (year, rest) ← parseDigits 4 text.toList
    match rest with
    | '-' :: rest => parseRest year true rest
    | _ => parseRest year false rest
  else none

/-- `date + timedelta(days)`; none for `OverflowError`. -/
def addDays (ordinal days : Nat) : Option Nat :=
  if ordinal + days ≤ maxOrdinal then some (ordinal + days) else none

example : fromIsoformat "2024-02-29" = some 738945 := by decide +kernel

end DocPipeline.Date

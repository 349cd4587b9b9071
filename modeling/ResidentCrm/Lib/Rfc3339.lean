import ResidentCrm.Lib.Text
import Mathlib.Data.Rat.Defs

/-!
# The instants of RFC 3339 timestamps

`instantOf` reads `2026-09-07T15:31:00.25+05:30` as the seconds since the epoch, with any number of
fractional digits and any offset.
-/

namespace ResidentCrm.Rfc3339

/-- A number in digits, within its bounds. -/
def number (digits : Text) (least greatest : ℕ) : Option ℕ :=
  let n := Nat.ofDigitChars 10 digits 0
  if digits ≠ [] ∧ digits.all Char.isDigit ∧ least ≤ n ∧ n ≤ greatest then some n else none

/-- The number of so many digits at a place of a text. -/
def field (t : Text) (start width least greatest : ℕ) : Option ℕ :=
  number ((t.drop start).take width) least greatest

def isLeap (year : ℕ) : Bool := year % 4 = 0 ∧ (year % 100 ≠ 0 ∨ year % 400 = 0)

def daysOfMonth (year month : ℕ) : ℕ :=
  if month = 2 then if isLeap year then 29 else 28
  else if month ∈ [4, 6, 9, 11] then 30 else 31

/-- The days of the years before this one. -/
def daysBeforeYear (year : ℕ) : ℤ :=
  let past : ℤ := year - 1
  past * 365 + past / 4 - past / 100 + past / 400

/-- The days from the first of January 1970. -/
def days (year month day : ℕ) : ℤ :=
  daysBeforeYear year - daysBeforeYear 1970 +
    ((List.range (month - 1)).map fun m => (daysOfMonth year (m + 1) : ℤ)).sum + (day - 1)

/-- The fraction of a second, and what follows it. -/
def readFraction : Text → Option (ℚ × Text)
  | '.' :: rest =>
    let digits := rest.takeWhile Char.isDigit
    if digits = [] then none
    else some ((Nat.ofDigitChars 10 digits 0 : ℚ) / 10 ^ digits.length, rest.dropWhile Char.isDigit)
  | rest => some (0, rest)

/-- The minutes that a zone is ahead. -/
def readOffset (zone : Text) : Option ℤ :=
  if zone = ['Z'] ∨ zone = ['z'] then some 0
  else if zone.length = 6 ∧ zone[3]? = some ':' then
    (field zone 1 2 0 23).bind fun hours => (field zone 4 2 0 59).bind fun minutes =>
      if zone.head? = some '+' then some (60 * hours + minutes)
      else if zone.head? = some '-' then some (-(60 * hours + minutes))
      else none
  else none

def isShaped (t : Text) : Bool :=
  t[4]? = some '-' ∧ t[7]? = some '-' ∧ (t[10]? = some 'T' ∨ t[10]? = some 't') ∧
    t[13]? = some ':' ∧ t[16]? = some ':'

/-- The instant that a timestamp denotes. -/
def instantOf (t : Text) : Option ℚ :=
  if isShaped t then do
    let year ← field t 0 4 0 9999
    let month ← field t 5 2 1 12
    let day ← field t 8 2 1 (daysOfMonth year month)
    let hour ← field t 11 2 0 23
    let minute ← field t 14 2 0 59
    let second ← field t 17 2 0 60
    let (fraction, zone) ← readFraction (t.drop 19)
    let offset ← readOffset zone
    some ((days year month day * 86400 + hour * 3600 + (minute - offset) * 60 + second : ℤ) +
      fraction)
  else none

example : instantOf "1970-01-02T05:30:00.25+05:30".toList = some (86400 + 1 / 4) := by
  decide +kernel

end ResidentCrm.Rfc3339

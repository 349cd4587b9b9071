import ResidentCrm.Lib.Json

/-!
# The dates of an envelope

`_iso_utc` and `_sid_date` of `models/audit_contract.py`, in the proleptic Gregorian calendar of
`datetime`. Milliseconds are divided as floats, so that what is left of them in microseconds is
rounded twice (`Double.micros`).
-/

namespace ResidentCrm.Messages

/-! ## Numbers -/

/-- `int` of digits, which single underscores may part. -/
def readDigits (s : Text) : Option ℕ :=
  let digits := s.filter (· ≠ '_')
  if ((s.splitOn '_').all fun part => part ≠ [] && part.all Text.isDigit) &&
      digits.length ≤ Text.maxIntDigits then
    some (Text.toNat digits)
  else none

/-- `int(text.strip())` -/
def readInt (text : Text) : Option ℤ :=
  match Text.strip text with
  | '-' :: s => (readDigits s).map fun n => -(n : ℤ)
  | '+' :: s => (readDigits s).map Int.ofNat
  | s => (readDigits s).map Int.ofNat

/-- The nearest whole number to `a / b`, of two the even one. -/
def roundDiv (a b : ℕ) : ℕ :=
  if 2 * (a % b) < b ∨ 2 * (a % b) = b ∧ a / b % 2 = 0 then a / b else a / b + 1

/-- The double `numerator / 2 ^ scale`. -/
structure Double where
  numerator : ℕ
  scale : ℕ

/-- The nearest double to `a / b`, which is 0 or from `2 ^ -64` to `2 ^ 52`: 53 bits of it. -/
def Double.nearest (a b : ℕ) : Double :=
  let scale := 116 - (a * 2 ^ 64 / b).log2
  ⟨roundDiv (a * 2 ^ scale) b, scale⟩

/-- The seconds in microseconds: the fraction is multiplied as a double, then rounded. -/
def Double.micros (seconds : Double) : ℕ :=
  let unit := 2 ^ seconds.scale
  let fraction := seconds.numerator % unit * 1000000
  let lost := 2 ^ (fraction.log2 - 52)
  seconds.numerator / unit * 1000000 + roundDiv (roundDiv fraction lost * lost) unit

def withSign (repr : Text) (n : ℕ) : ℤ := if repr.head? = some '-' then -n else n

/-- `int` of a number, as far as there is a date for it. -/
def wholeOf (n : Number) : Option ℤ :=
  let d := decimalOf n.repr
  let digits := Text.toNat d.digits
  let length := d.digits.length
  if 15 < d.point then none
  else if isFloatText n.repr then
    if d.point < 0 then some 0
    else
      let float := Double.nearest (digits * 10 ^ (d.point.toNat - length))
        (10 ^ (length - d.point.toNat))
      some (withSign n.repr (float.numerator / 2 ^ float.scale))
  else some (withSign n.repr digits)

/-! ## The calendar -/

structure Date where
  year : ℕ
  month : ℕ
  day : ℕ

/-- The date of a day, counted from the first of March of the year 0. -/
def dateOf (day : ℕ) : Date :=
  let era := day / 146097
  let dayOfEra := day % 146097
  let yearOfEra := (dayOfEra - dayOfEra / 1460 + dayOfEra / 36524 - dayOfEra / 146096) / 365
  let dayOfYear := dayOfEra - (365 * yearOfEra + yearOfEra / 4 - yearOfEra / 100)
  let month := (5 * dayOfYear + 2) / 153
  { year := yearOfEra + 400 * era + if month < 10 then 0 else 1
    month := if month < 10 then month + 3 else month - 9
    day := dayOfYear - (153 * month + 2) / 5 + 1 }

def daysInMonth (year month : ℕ) : ℕ :=
  if month = 2 then
    if year % 4 = 0 ∧ (year % 100 ≠ 0 ∨ year % 400 = 0) then 29 else 28
  else if month ∈ [4, 6, 9, 11] then 30 else 31

/-- `%0{width}d` -/
def padded (width n : ℕ) : Text :=
  List.replicate (width - (Text.ofNat n).length) '0' ++ Text.ofNat n

def Date.text (date : Date) : Text :=
  padded 4 date.year ++ '-' :: padded 2 date.month ++ '-' :: padded 2 date.day

def timeText (hour minute second : ℕ) : Text :=
  padded 2 hour ++ ':' :: padded 2 minute ++ ':' :: padded 2 second

/-- `isoformat(timespec="milliseconds")` of a moment in UTC, in microseconds; none where its year is
not from 1 to 9999. -/
def isoformat (micros : ℤ) : Option Text :=
  let day := micros / 86400000000
  let ofDay := (micros % 86400000000).toNat
  let seconds := ofDay / 1000000
  if -719162 ≤ day ∧ day ≤ 2932896 then
    some ((dateOf (day + 719468).toNat).text ++ 'T' ::
      timeText (seconds / 3600) (seconds / 60 % 60) (seconds % 60) ++ '.' ::
      padded 3 (ofDay / 1000 % 1000) ++ ['Z'])
  else none

/-- The epoch milliseconds that a value says. -/
def millisOf : Json → Option ℤ
  | .scalar (.number n) => wholeOf n
  | .scalar (.string s) => readInt s
  | _ => none

/-- `_iso_utc` -/
def isoUtc (value : Json) : Option Text :=
  (millisOf value).bind fun millis =>
    if millis.natAbs < 10 ^ 15 then
      let micros := (Double.nearest millis.natAbs 1000).micros
      isoformat (if millis < 0 then -micros else micros)
    else none

example : isoUtc (.text "1700000000123".toList) = some "2023-11-14T22:13:20.123Z".toList := by
  decide

/-! ## The date in a sid -/

def isMonth (a b : Char) : Bool :=
  a = '0' && b ∈ "123456789".toList || a = '1' && b ∈ "012".toList

/-- A day may be written with a blank for its zero. -/
def isDay (a b : Char) : Bool :=
  a ∈ "0 ".toList && b ∈ "123456789".toList || a ∈ "12".toList && Text.isDigit b ||
    a = '3' && b ∈ "01".toList

def isHour (a b : Char) : Bool :=
  a ∈ "01".toList && Text.isDigit b || a = '2' && b ∈ "0123".toList

def isSixtieth (a b : Char) : Bool := a ∈ "012345".toList && Text.isDigit b

/-- `_sid_date` of a text: its last 14 characters as `%Y%m%d%H%M%S`. -/
def sidDate (text : Text) : Option Text :=
  match text.drop (text.length - 14) with
  | [y₁, y₂, y₃, y₄, m₁, m₂, d₁, d₂, h₁, h₂, n₁, n₂, s₁, s₂] =>
    let date : Date :=
      ⟨Text.toNat [y₁, y₂, y₃, y₄], Text.toNat [m₁, m₂], Text.toNat [d₁, d₂]⟩
    if [y₁, y₂, y₃, y₄].all Text.isDigit && isMonth m₁ m₂ && isDay d₁ d₂ && isHour h₁ h₂ &&
        isSixtieth n₁ n₂ && isSixtieth s₁ s₂ && 1 ≤ date.year &&
        date.day ≤ daysInMonth date.year date.month then
      some (date.text ++ ' ' ::
        timeText (Text.toNat [h₁, h₂]) (Text.toNat [n₁, n₂]) (Text.toNat [s₁, s₂]))
    else none
  | _ => none

example : sidDate "SID-20240229235959".toList = some "2024-02-29 23:59:59".toList := by decide

end ResidentCrm.Messages

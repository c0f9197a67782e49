/-!
# Instants

An instant counts seconds and nanoseconds from the start of 1970 in universal time. In the last
second of a minute the nanoseconds may run on for a leap second, which is written as second 60.
-/
namespace ScreenAtlas

/-- A point in time. -/
structure Instant where
  seconds : Int
  nanos : Nat
  deriving DecidableEq

/-- A day of the calendar. -/
structure Day where
  year : Int
  month : Nat
  day : Nat
  deriving DecidableEq

namespace Day

/-- The days of 400 years. -/
def perEra : Int := 146097

/-- The day with a given number, counted from the first of January 1970. Eras of 400 years and years
are counted from the first of March, so that a leap day is the last day of its year. -/
def ofNumber (n : Int) : Day :=
  let shifted := n + 719468
  let era := shifted / perEra
  let inEra := (shifted % perEra).toNat
  let yearInEra := (inEra - inEra / 1460 + inEra / 36524 - inEra / 146096) / 365
  let inYear := inEra - (365 * yearInEra + yearInEra / 4 - yearInEra / 100)
  let monthFromMarch := (5 * inYear + 2) / 153
  let day := inYear - (153 * monthFromMarch + 2) / 5 + 1
  let month := if monthFromMarch < 10 then monthFromMarch + 3 else monthFromMarch - 9
  let year := (yearInEra : Int) + era * 400 + if month ≤ 2 then 1 else 0
  ⟨year, month, day⟩

end Day

namespace Instant

/-- The start of 1970. -/
def epoch : Instant := ⟨0, 0⟩

/-- The nanoseconds of a second. -/
def nanosPerSecond : Nat := 1000000000

/-- The seconds of a day. -/
def secondsPerDay : Int := 86400

/-- The day of an instant. -/
def day (t : Instant) : Day :=
  .ofNumber (t.seconds / secondsPerDay)

/-- The first and the last year that are written. -/
def years : Int × Int :=
  (-262143, 262142)

/-- The instant with the given count, if its year is written and its nanoseconds fit its second. -/
def ofCount? (seconds : Int) (nanos : Nat) : Option Instant :=
  let t : Instant := ⟨seconds, nanos⟩
  let fits := nanos < nanosPerSecond ∨ (nanos < 2 * nanosPerSecond ∧ seconds % 60 = 59)
  if fits ∧ years.1 ≤ t.day.year ∧ t.day.year ≤ years.2 then some t else none

/-- A number with zeros in front up to a width. -/
def padded (width n : Nat) : List Char :=
  let digits := Nat.toDigits 10 n
  List.replicate (width - digits.length) '0' ++ digits

/-- A year has four digits, and a sign outside the years 0 to 9999. -/
def writeYear (year : Int) : List Char :=
  if 0 ≤ year ∧ year ≤ 9999 then padded 4 year.toNat
  else (if year < 0 then '-' else '+') :: padded 4 year.natAbs

/-- The nanoseconds within the second that is written. -/
def subsecond (t : Instant) : Nat :=
  t.nanos % nanosPerSecond

/-- The second that is written: 60 for a leap second. -/
def second (t : Instant) : Nat :=
  (t.seconds % 60).toNat + t.nanos / nanosPerSecond

/-- The text of an instant around the text of its fraction of a second. -/
def write (t : Instant) (fraction : List Char) : String :=
  let d := t.day
  let minutes := (t.seconds % secondsPerDay / 60).toNat
  String.ofList (writeYear d.year ++ '-' :: padded 2 d.month ++ '-' :: padded 2 d.day ++
    'T' :: padded 2 (minutes / 60) ++ ':' :: padded 2 (minutes % 60) ++
    ':' :: padded 2 t.second ++ fraction ++ ['Z'])

/-- The text with milliseconds, the rest cut off. -/
def toMillis (t : Instant) : String :=
  t.write ('.' :: padded 3 (t.subsecond / 1000000))

/-- The text with the fewest of none, three, six or nine fraction digits that are exact. -/
def toExact (t : Instant) : String :=
  let n := t.subsecond
  t.write <|
    if n = 0 then []
    else if n % 1000000 = 0 then '.' :: padded 3 (n / 1000000)
    else if n % 1000 = 0 then '.' :: padded 6 (n / 1000)
    else '.' :: padded 9 n

end Instant

end ScreenAtlas

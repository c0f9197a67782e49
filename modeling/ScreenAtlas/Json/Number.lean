import ScreenAtlas.Json.Reader
/-!
# Reading JSON: numbers

A number is cut from the text as signs and digits, and then valued. A whole number that fits 64
bits is kept exactly. Any other is a floating-point number, computed from the digits that fit 64
bits and a power of ten.
-/
namespace ScreenAtlas.Json

/-- The digits of a number as they stand in the text. -/
structure Numeral where
  negative : Bool
  whole : List Char
  /-- The digits after the point, none when there is no point. -/
  fraction : List Char
  /-- The sign and the digits of the exponent. -/
  exponent : Option (Bool × List Char)

/-- Some digits, and the rest; `short` is the fault where the text ends instead. -/
def readDigits (short : Fault) (s : List Char) : Except Fault (List Char × List Char) :=
  match s with
  | [] => .error short
  | c :: _ =>
    if c.isDigit then .ok (s.takeWhile Char.isDigit, s.dropWhile Char.isDigit)
    else .error .invalidNumber

/-- The digits before the point: a zero stands alone. -/
def readWhole (short : Fault) (s : List Char) : Except Fault (List Char × List Char) := do
  let (digits, rest) ← readDigits short s
  match digits with
  | '0' :: _ :: _ => .error .invalidNumber
  | _ => .ok (digits, rest)

/-- The digits after a point, if there is one. -/
def readFraction (short : Fault) (s : List Char) : Except Fault (List Char × List Char) :=
  match s with
  | '.' :: rest => readDigits short rest
  | _ => .ok ([], s)

/-- The sign and digits of an exponent, if there is one. -/
def readExponent (short : Fault) (s : List Char) :
    Except Fault (Option (Bool × List Char) × List Char) :=
  match s with
  | [] => .ok (none, [])
  | c :: rest =>
    if c = 'e' ∨ c = 'E' then do
      let (negative, rest) := match rest with
        | '-' :: rest => (true, rest)
        | '+' :: rest => (false, rest)
        | _ => (false, rest)
      let (digits, rest) ← readDigits short rest
      .ok (some (negative, digits), rest)
    else .ok (none, s)

/-- The numeral at the start of a text; `short` is the fault where the text ends within it. -/
def readNumeral (short : Fault) (s : List Char) : Except Fault (Numeral × List Char) := do
  let (negative, s) := match s with
    | '-' :: s => (true, s)
    | _ => (false, s)
  let (whole, s) ← readWhole short s
  let (fraction, s) ← readFraction short s
  let (exponent, s) ← readExponent short s
  .ok (⟨negative, whole, fraction, exponent⟩, s)

/-- A valued number. -/
inductive Number
  | natural (n : Nat)
  /-- The negative of a positive number. -/
  | negative (n : Nat)
  | float (x : Float)

/-- The value of a list of decimal digits. -/
def digitsValue (digits : List Char) : Nat :=
  digits.foldl (fun n d => 10 * n + (d.toNat - 48)) 0

/-- The first natural number that does not fit 64 bits. -/
def wordLimit : Nat := 18446744073709551616

/-- A number extended by digits for as long as it fits 64 bits, and the digits left over. -/
def extend : Nat → List Char → Nat × List Char
  | n, [] => (n, [])
  | n, d :: digits =>
    if 10 * n + (d.toNat - 48) < wordLimit then extend (10 * n + (d.toNat - 48)) digits
    else (n, d :: digits)

/-- The greatest power of ten that is taken in one step. -/
def greatestPower : Nat := 308

/-- A power of ten as a floating-point number. -/
def powerOfTen (n : Nat) : Float :=
  Float.ofScientific 1 false n

/-- A significand times a power of ten, rounded after each step. -/
def scale (significand : Nat) (exponent : Int) : Except Fault Float :=
  let x := significand.toUInt64.toFloat
  if 0 ≤ exponent then
    if exponent ≤ greatestPower then
      let y := x * powerOfTen exponent.toNat
      if y.isInf then .error .numberOutOfRange else .ok y
    else if significand = 0 then .ok x else .error .numberOutOfRange
  else
    let down := exponent.natAbs
    if down ≤ greatestPower then .ok (x / powerOfTen down)
    else if down ≤ 2 * greatestPower then
      .ok (x / powerOfTen greatestPower / powerOfTen (down - greatestPower))
    else .ok 0

/-- The greatest exponent that is computed with; a greater one decides by its sign. -/
def greatestExponent : Nat := 2147483647

/-- The absolute value of a numeral as a floating-point number. -/
def Numeral.magnitude (n : Numeral) : Except Fault Float :=
  let (significand, wholeRest) := extend 0 n.whole
  let (significand, fractionRest) := extend significand n.fraction
  let shift : Int := wholeRest.length - ((n.fraction.length : Int) - fractionRest.length)
  match n.exponent with
  | none => scale significand shift
  | some (negative, digits) =>
    let n := digitsValue digits
    if n ≤ greatestExponent then scale significand (if negative then shift - n else shift + n)
    else if significand ≠ 0 ∧ negative = false then .error .numberOutOfRange
    else .ok 0

/-- The value of a numeral. Minus zero and whole numbers beyond 64 bits are floating-point. -/
def Numeral.value (n : Numeral) : Except Fault Number :=
  let whole := digitsValue n.whole
  if n.fraction = [] ∧ n.exponent = none ∧ n.negative = false ∧ whole < wordLimit then
    .ok (.natural whole)
  else if n.fraction = [] ∧ n.exponent = none ∧ n.negative = true ∧ 0 < whole ∧
      whole ≤ wordLimit / 2 then
    .ok (.negative whole)
  else do
    let x ← n.magnitude
    .ok (.float (if n.negative then -x else x))

/-- The number at the start of a text. -/
def readNumber : Reader Number := fun s => do
  let (n, rest) ← readNumeral .endInValue s
  .ok (← n.value, rest)

/-- The words for a number that was found where another kind was expected. -/
def Number.found : Number → Found
  | natural n => .integer n
  | negative n => .integer (-n)
  | float x => .float x

end ScreenAtlas.Json

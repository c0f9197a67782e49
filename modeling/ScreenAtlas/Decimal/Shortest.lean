/-!
# The shortest decimal of a floating-point number

A finite positive floating-point number is m · 2^q. The numbers that round to it form an interval,
whose ends belong to it when m is even. Its shortest decimal has the fewest digits among the
decimals in that interval, and of those with that many digits it is the nearest; of two that are
equally near it is the even one.
-/
namespace ScreenAtlas.Decimal

/-- A positive number as a mantissa times a power of two. -/
structure Binary where
  mantissa : Nat
  exponent : Int

/-- The least mantissa of a number that is not subnormal. -/
def leastMantissa : Nat := Nat.pow 2 52

/-- The absolute value of a finite floating-point number. -/
def Binary.ofFloat (x : Float) : Binary :=
  let bits := x.toBits.toNat
  let exponent := bits / leastMantissa % Nat.pow 2 11
  let fraction := bits % leastMantissa
  if exponent = 0 then ⟨fraction, -1074⟩
  else ⟨leastMantissa + fraction, Int.ofNat exponent - 1075⟩

/-- A decimal, as a number of units of a power of ten. -/
structure Scaled where
  digits : Nat
  exponent : Int

/-- A fraction compared with a decimal. -/
def compareScaled (num den : Nat) (d : Scaled) : Ordering :=
  compare (num * Nat.pow 10 (-d.exponent).toNat) (d.digits * Nat.pow 10 d.exponent.toNat * den)

/-- The numbers that round to one floating-point number, as numerators over one denominator. -/
structure Interval where
  low : Nat
  value : Nat
  high : Nat
  den : Nat
  closed : Bool

/-- The interval of m · 2^q. The step below the least mantissa of a binade is half as wide. -/
def Binary.interval (b : Binary) : Interval :=
  let scale := Nat.pow 2 (b.exponent - 2).toNat
  let below := if b.mantissa = leastMantissa ∧ b.exponent ≠ -1074 then 1 else 2
  { low := (4 * b.mantissa - below) * scale
    value := 4 * b.mantissa * scale
    high := (4 * b.mantissa + 2) * scale
    den := Nat.pow 2 (2 - b.exponent).toNat
    closed := b.mantissa % 2 = 0 }

/-- A decimal lies in the interval. -/
def Interval.has (i : Interval) (d : Scaled) : Bool :=
  if i.closed then compareScaled i.low i.den d != .gt && compareScaled i.high i.den d != .lt
  else compareScaled i.low i.den d == .lt && compareScaled i.high i.den d == .gt

/-- The exponent of the leading decimal digit of a positive fraction. -/
def leadingExponent (num den : Nat) : Int :=
  if den ≤ num then (Nat.toDigits 10 (num / den)).length - 1
  else
    let j := (List.range 400).find? fun j => decide (den ≤ num * Nat.pow 10 (j + 1))
    .negSucc (j.getD 0)

/-- The better of the two neighbours of the value on the grid with the given unit, if one of them
lies in the interval. -/
def Interval.onGrid (i : Interval) (exponent : Int) : Option Scaled :=
  let num := i.value * Nat.pow 10 (-exponent).toNat
  let den := i.den * Nat.pow 10 exponent.toNat
  let lower : Scaled := ⟨num / den, exponent⟩
  let upper : Scaled := ⟨num / den + 1, exponent⟩
  let rest := num % den
  let lowerIsBetter := decide (2 * rest < den) || (2 * rest == den && num / den % 2 == 0)
  match i.has lower, i.has upper with
  | true, true => some (if lowerIsBetter then lower else upper)
  | true, false => some lower
  | false, true => some upper
  | false, false => none

/-- The shortest decimal of a positive number; seventeen digits always suffice. -/
def Binary.shortest (b : Binary) : Scaled :=
  let i := b.interval
  let leading := leadingExponent i.value i.den
  ((List.range 17).findSome? fun (n : Nat) => i.onGrid (leading - n)).getD ⟨0, 0⟩

end ScreenAtlas.Decimal

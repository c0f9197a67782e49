import ScreenAtlas.Decimal.Shortest
/-!
# The written form of a floating-point number

The digits of the shortest decimal are written positionally where the leading digit stands between
the fifth place after the point and the sixteenth before it; a whole number then keeps `.0`. Other
numbers have one digit before the point and a signed exponent.
-/
namespace ScreenAtlas.Decimal

/-- The least and the greatest exponent of the leading digit in positional notation. -/
def positionalExponents : Int × Int :=
  (-5, 15)

/-- The digits of a decimal without the zeros at their end. -/
def significant (d : Scaled) : List Char :=
  ((Nat.toDigits 10 d.digits).reverse.dropWhile (· == '0')).reverse

/-- The exponent of the leading digit of a decimal. -/
def leading (d : Scaled) : Int :=
  d.exponent + (Nat.toDigits 10 d.digits).length - 1

/-- Digits with the point after the leading digit and the given number of further places. -/
def positional (digits : List Char) (leading : Int) : List Char :=
  if leading < 0 then "0.".toList ++ List.replicate (-leading - 1).toNat '0' ++ digits
  else
    let whole := leading.toNat + 1
    if digits.length ≤ whole then
      digits ++ List.replicate (whole - digits.length) '0' ++ ".0".toList
    else digits.take whole ++ '.' :: digits.drop whole

/-- Digits with the point after the leading digit, and a signed exponent. -/
def scientific (digits : List Char) (leading : Int) : List Char :=
  let sign := if leading < 0 then '-' else '+'
  let mantissa := match digits with
    | d :: e :: rest => d :: '.' :: e :: rest
    | ds => ds
  mantissa ++ 'e' :: sign :: Nat.toDigits 10 leading.natAbs

/-- The written form of a finite floating-point number. -/
def render (x : Float) : String :=
  let sign := if x.toBits.toNat / Nat.pow 2 63 = 1 then ['-'] else []
  let b := Binary.ofFloat x
  if b.mantissa = 0 then String.ofList (sign ++ "0.0".toList)
  else
    let d := b.shortest
    let places := leading d
    let form := if positionalExponents.1 ≤ places ∧ places ≤ positionalExponents.2
      then positional else scientific
    String.ofList (sign ++ form (significant d) places)

end ScreenAtlas.Decimal

import Endpoints.Decimal.Shortest

/-!
# Decimal notation

How the shortest digits of a number are laid out: positionally, or with an exponent. A layout
is a record of decisions, so that different documents can write numbers in different ways.
-/

namespace Endpoints.Decimal

structure Layout where
  /-- The leading digits that are written positionally, by exponent; `none` stands for all. -/
  positional : Option (Int × Int)
  /-- Whether a whole number is written with a zero behind the point. -/
  pointZero : Bool
  tie : Tie
  /-- The text for what is no number. -/
  notANumber : String
  infinity : String
  negativeInfinity : String

/-- The digits of a decimal without the zeros at its end, and the exponent of the first of
them. -/
def leading (d : Scaled) : List Char × Int :=
  let digits := Nat.toDigits 10 d.digits
  ((digits.reverse.dropWhile (· == '0')).reverse, d.exponent + digits.length - 1)

namespace Layout

/-- Digits written positionally; the first digit stands for units of `10 ^ exponent`. -/
def plain (l : Layout) (digits : List Char) (exponent : Int) : List Char :=
  let count : Int := digits.length
  if exponent < 0 then
    '0' :: '.' :: (List.replicate (-exponent - 1).toNat '0' ++ digits)
  else if exponent + 1 < count then
    digits.take (exponent + 1).toNat ++ '.' :: digits.drop (exponent + 1).toNat
  else
    digits ++ List.replicate (exponent + 1 - count).toNat '0' ++
      (if l.pointZero then ['.', '0'] else [])

def scientific (digits : List Char) (exponent : Int) : List Char :=
  let fraction := if digits.length ≤ 1 then [] else '.' :: digits.drop 1
  let sign := if exponent < 0 then '-' else '+'
  digits.take 1 ++ fraction ++ 'e' :: sign :: Nat.toDigits 10 exponent.natAbs

def digitsText (l : Layout) (d : Scaled) : List Char :=
  let (digits, exponent) := leading d
  let isPlain := match l.positional with
    | none => true
    | some (low, high) => decide (low ≤ exponent ∧ exponent ≤ high)
  if isPlain then l.plain digits exponent else scientific digits exponent

/-- A number in writing. A negative zero keeps its sign. -/
def write (l : Layout) (x : Float) : String :=
  if x.isNaN then l.notANumber
  else if x.isInf then (if 0 < x then l.infinity else l.negativeInfinity)
  else
    let bits := x.toBits
    let magnitude := Binary.ofBits bits
    let sign := if bits >>> 63 = 1 then ['-'] else []
    let body :=
      if magnitude.mantissa = 0 then (if l.pointZero then ['0', '.', '0'] else ['0'])
      else l.digitsText (magnitude.shortest l.tie)
    String.ofList (sign ++ body)

end Layout

end Endpoints.Decimal

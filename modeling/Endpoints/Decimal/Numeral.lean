import Endpoints.Text.Digit

/-!
# Decimal numerals

A numeral is a run of digits, perhaps with a point, and perhaps with an exponent. At least one
digit stands beside the point. It is read as the nearest binary number.
-/

namespace Endpoints.Decimal

def isDigit (c : Char) : Bool :=
  '0' ≤ c && c ≤ '9'

def digitsValue (value : Nat) : List Char → Nat
  | [] => value
  | c :: rest => digitsValue (value * 10 + (c.toNat - '0'.toNat)) rest

def exponent? : List Char → Option Int
  | [] => some 0
  | c :: rest =>
      if c ≠ 'e' ∧ c ≠ 'E' then none
      else
        match rest with
        | '+' :: digits => (Text.naturalIn? 10 digits).map Int.ofNat
        | '-' :: digits => (Text.naturalIn? 10 digits).map fun n => -(n : Int)
        | digits => (Text.naturalIn? 10 digits).map Int.ofNat

/-- The binary number nearest to `digits * 10 ^ exponent`. Beyond the range of binary numbers
the answer does not depend on the digits, so the powers stay small. -/
def nearest (digits : Nat) (exponent : Int) : Float :=
  let size : Int := (Nat.toDigits 10 digits).length
  if digits = 0 ∨ size + exponent < -400 then 0
  else if 400 < size + exponent then 1 / 0
  else if exponent < 0 then Float.ofScientific digits true (-exponent).toNat
  else Float.ofScientific digits false exponent.toNat

def numeral? (cs : List Char) : Option Float :=
  let whole := cs.takeWhile isDigit
  let afterWhole := cs.dropWhile isDigit
  let fraction := match afterWhole with
    | '.' :: rest => rest.takeWhile isDigit
    | _ => []
  let afterFraction := match afterWhole with
    | '.' :: rest => rest.dropWhile isDigit
    | rest => rest
  if whole.isEmpty ∧ fraction.isEmpty then none
  else
    (exponent? afterFraction).map fun exponent =>
      nearest (digitsValue 0 (whole ++ fraction)) (exponent - fraction.length)

end Endpoints.Decimal

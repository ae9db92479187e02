/-!
# Shortest decimals

A finite binary number stands for all reals that round to it. Among the decimals in that
interval the shortest ones have the fewest digits, and of those the nearest is chosen. The
search runs over the decimal grids from one digit to seventeen and looks on each at the two
neighbours of the number, in exact arithmetic on naturals.
-/

namespace Endpoints.Decimal

/-- The binary number `mantissa * 2 ^ exponent`, not negative. -/
structure Binary where
  mantissa : Nat
  exponent : Int
  /-- The number below is half as far away as the number above. -/
  narrowBelow : Bool
  deriving DecidableEq, Repr

def Binary.ofBits (bits : UInt64) : Binary :=
  let biased := ((bits >>> 52) &&& 0x7FF).toNat
  let fraction := (bits &&& 0xFFFFFFFFFFFFF).toNat
  if biased = 0 then ⟨fraction, -1074, false⟩
  else ⟨Nat.pow 2 52 + fraction, (biased : Int) - 1075, fraction = 0 ∧ 1 < biased⟩

/-- The decimal `digits * 10 ^ exponent`. -/
structure Scaled where
  digits : Nat
  exponent : Int
  deriving DecidableEq, Repr

inductive Tie where
  | up
  | even
  deriving DecidableEq, Repr

def compareScaled (a : Nat) (i : Int) (b : Nat) (j : Int) : Ordering :=
  compare (a * Nat.pow 10 i.toNat * Nat.pow 2 (-j).toNat)
    (b * Nat.pow 2 j.toNat * Nat.pow 10 (-i).toNat)

namespace Binary

/-- Whether a decimal lies among the reals that round to a number. The ends of the interval
belong to it when the mantissa is even. -/
def covers (x : Binary) (d : Scaled) : Bool :=
  let low := if x.narrowBelow then 4 * x.mantissa - 1 else 4 * x.mantissa - 2
  let atLow := compareScaled d.digits d.exponent low (x.exponent - 2)
  let atHigh := compareScaled d.digits d.exponent (4 * x.mantissa + 2) (x.exponent - 2)
  let closed := x.mantissa % 2 == 0
  (atLow == .gt || (closed && atLow == .eq)) && (atHigh == .lt || (closed && atHigh == .eq))

def floorAt (x : Binary) (scale : Int) : Nat :=
  (x.mantissa * Nat.pow 2 x.exponent.toNat * Nat.pow 10 (-scale).toNat) /
    (Nat.pow 2 (-x.exponent).toNat * Nat.pow 10 scale.toNat)

/-- Go up from `k` to the first power of ten above a number, for at most `fuel` steps. -/
def scaleFrom (x : Binary) : Nat → Int → Int
  | 0, k => k
  | fuel + 1, k =>
      if compareScaled 1 k x.mantissa x.exponent == .gt then k else scaleFrom x fuel (k + 1)

/-- The least `k` with the number below `10 ^ k`. The start is below it by at most three, for
three tenths fall short of the logarithm of two by less than one part in three hundred. -/
def scale (x : Binary) : Int :=
  let magnitude := (x.mantissa.log2 : Int) + x.exponent
  scaleFrom x 8 (magnitude * 30103 / 100000 - 2)

def nearer (x : Binary) (tie : Tie) (below above : Scaled) : Scaled :=
  match compareScaled (below.digits + above.digits) below.exponent x.mantissa (x.exponent + 1) with
  | .gt => below
  | .lt => above
  | .eq =>
      match tie with
      | .up => above
      | .even => if below.digits % 2 = 0 then below else above

def onGrid? (x : Binary) (tie : Tie) (gridScale : Int) : Option Scaled :=
  let below : Scaled := ⟨x.floorAt gridScale, gridScale⟩
  let above : Scaled := ⟨x.floorAt gridScale + 1, gridScale⟩
  match x.covers below, x.covers above with
  | true, true => some (x.nearer tie below above)
  | true, false => some below
  | false, true => some above
  | false, false => none

def exact (x : Binary) : Scaled :=
  if 0 ≤ x.exponent then ⟨x.mantissa * Nat.pow 2 x.exponent.toNat, 0⟩
  else ⟨x.mantissa * Nat.pow 5 (-x.exponent).toNat, x.exponent⟩

/-- The nearest of the shortest decimals that stand for a positive number. -/
def shortest (x : Binary) (tie : Tie) : Scaled :=
  let top := x.scale
  ((List.range 17).findSome? fun (n : Nat) => x.onGrid? tie (top - ((n : Int) + 1))).getD x.exact

end Binary

end Endpoints.Decimal

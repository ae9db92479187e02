/-!
# Digits

The digits of numbers in bases of at most sixteen. Letters of either case are read, and the
number that is written decides which case is used.
-/

namespace Endpoints.Text

def digitIn? (base : Nat) (c : Char) : Option Nat :=
  let value? :=
    if '0' ≤ c ∧ c ≤ '9' then some (c.toNat - '0'.toNat)
    else if 'a' ≤ c ∧ c ≤ 'f' then some (c.toNat - 'a'.toNat + 10)
    else if 'A' ≤ c ∧ c ≤ 'F' then some (c.toNat - 'A'.toNat + 10)
    else none
  value?.filter (· < base)

/-- The number written in the digits of a base, after the number already read. -/
def valueIn? (base value : Nat) : List Char → Option Nat
  | [] => some value
  | c :: rest => (digitIn? base c).bind fun d => valueIn? base (value * base + d) rest

/-- The number written in some digits of a base, of which there must be one. -/
def naturalIn? (base : Nat) (cs : List Char) : Option Nat :=
  if cs.isEmpty then none else valueIn? base 0 cs

/-- A digit of base sixteen; `ten` is the letter for ten. -/
def hexDigit (ten : Char) (n : Nat) : Char :=
  if n < 10 then Char.ofNat ('0'.toNat + n) else Char.ofNat (ten.toNat + (n - 10))

def hexDigits (ten : Char) : Nat → Nat → List Char
  | 0, _ => []
  | count + 1, n => hexDigits ten count (n / 16) ++ [hexDigit ten (n % 16)]

end Endpoints.Text

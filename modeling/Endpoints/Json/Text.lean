import Endpoints.Text.Digit

/-!
# JSON strings

How texts are quoted and escaped in JSON, and how strings are read. A string may write a
character as one or two units of sixteen bits; a unit that belongs to no pair makes the string
unusable, though it may still be passed over.
-/

namespace Endpoints.Json

/-- A character as it stands in a string. Only the quote, the backslash and the control
characters are escaped. -/
def escapeChar (c : Char) : List Char :=
  if c = '"' then ['\\', '"']
  else if c = '\\' then ['\\', '\\']
  else if c = '\n' then ['\\', 'n']
  else if c = '\r' then ['\\', 'r']
  else if c = '\t' then ['\\', 't']
  else if c = '\x08' then ['\\', 'b']
  else if c = '\x0c' then ['\\', 'f']
  else if c.toNat < 0x20 then
    '\\' :: 'u' :: Text.hexDigits 'a' 4 c.toNat
  else [c]

def quote (s : String) : String :=
  "\"" ++ String.ofList (s.toList.flatMap escapeChar) ++ "\""

def escaped? : Char → Option Char
  | '"' => some '"'
  | '\\' => some '\\'
  | '/' => some '/'
  | 'b' => some '\x08'
  | 'f' => some '\x0c'
  | 'n' => some '\n'
  | 'r' => some '\r'
  | 't' => some '\t'
  | _ => none

/-- Read a string behind its first quote, as the numbers of its characters and units. Returns
what is left of the text. -/
def readUnits : List Char → Option (List Nat × List Char)
  | [] => none
  | '"' :: rest => some ([], rest)
  | '\\' :: 'u' :: a :: b :: c :: d :: rest =>
      match Text.valueIn? 16 0 [a, b, c, d] with
      | some unit => (readUnits rest).map fun (units, rest) => (unit :: units, rest)
      | none => none
  | '\\' :: x :: rest =>
      match escaped? x with
      | some y => (readUnits rest).map fun (units, rest) => (y.toNat :: units, rest)
      | none => none
  | x :: rest =>
      if x.toNat < 0x20 ∨ x = '\\' then none
      else (readUnits rest).map fun (units, rest) => (x.toNat :: units, rest)

/-- The characters that units stand for, or `none` if a unit of a pair stands alone. -/
def joinUnits : List Nat → Option (List Char)
  | [] => some []
  | high :: low :: rest =>
      if 0xD800 ≤ high ∧ high < 0xDC00 then
        if 0xDC00 ≤ low ∧ low < 0xE000 then
          (joinUnits rest).map fun cs =>
            Char.ofNat (0x10000 + (high - 0xD800) * 0x400 + (low - 0xDC00)) :: cs
        else none
      else if 0xDC00 ≤ high ∧ high < 0xE000 then none
      else (joinUnits (low :: rest)).map fun cs => Char.ofNat high :: cs
  | [unit] => if 0xD800 ≤ unit ∧ unit < 0xE000 then none else some [Char.ofNat unit]

end Endpoints.Json

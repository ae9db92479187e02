import Endpoints.Content
import Endpoints.Decimal.Numeral
import Endpoints.Json.Text

/-!
# Reading JSON

The content of a JSON text. Readers return what is left of the text; the depth of calls is
bounded by the length of the text.
-/

namespace Endpoints.Json

def isSpace (c : Char) : Bool :=
  c == ' ' || c == '\n' || c == '\t' || c == '\r'

def skipSpace (cs : List Char) : List Char :=
  cs.dropWhile isSpace

/-- Read a string behind its first quote. A string that no reader can use is unreadable. -/
def readString (cs : List Char) : Option (Content × List Char) :=
  (readUnits cs).map fun (units, rest) =>
    match joinUnits units with
    | some cs => (.text (String.ofList cs), rest)
    | none => (.unreadable, rest)

/-- Whether the whole part of a number starts with a zero only where it is a zero. -/
def isWholePart : List Char → Bool
  | [] => false
  | '0' :: rest => rest.isEmpty
  | _ => true

def readMagnitude (negative : Bool) (cs : List Char) : Option (Content × List Char) :=
  let whole := cs.takeWhile Decimal.isDigit
  let afterWhole := cs.dropWhile Decimal.isDigit
  if !isWholePart whole then none
  else
    let fraction? := match afterWhole with
      | '.' :: rest =>
          let digits := rest.takeWhile Decimal.isDigit
          if digits.isEmpty then none
          else some ('.' :: digits, rest.dropWhile Decimal.isDigit)
      | rest => some ([], rest)
    match fraction? with
    | none => none
    | some (fraction, afterFraction) =>
        let exponent? := match afterFraction with
          | e :: rest =>
              if e = 'e' ∨ e = 'E' then
                let sign := rest.takeWhile fun c => c == '+' || c == '-'
                let afterSign := rest.drop sign.length
                let digits := afterSign.takeWhile Decimal.isDigit
                if 1 < sign.length ∨ digits.isEmpty then none
                else some (e :: (sign ++ digits), afterSign.dropWhile Decimal.isDigit)
              else some ([], afterFraction)
          | [] => some ([], [])
        match exponent? with
        | none => none
        | some (exponent, rest) =>
            if fraction.isEmpty ∧ exponent.isEmpty then
              let n := Decimal.digitsValue 0 whole
              some (.int (if negative then -(n : Int) else n), rest)
            else
              (Decimal.numeral? (whole ++ fraction ++ exponent)).map fun x =>
                (.float (if negative then -x else x), rest)

mutual

def readValue : Nat → List Char → Option (Content × List Char)
  | 0, _ => none
  | fuel + 1, cs =>
      match skipSpace cs with
      | 'n' :: 'u' :: 'l' :: 'l' :: rest => some (.null, rest)
      | 't' :: 'r' :: 'u' :: 'e' :: rest => some (.bool true, rest)
      | 'f' :: 'a' :: 'l' :: 's' :: 'e' :: rest => some (.bool false, rest)
      | '"' :: rest => readString rest
      | '-' :: rest => readMagnitude true rest
      | '[' :: rest =>
          match skipSpace rest with
          | ']' :: rest => some (.list [], rest)
          | rest => (readItems fuel rest).map fun (items, rest) => (.list items, rest)
      | '{' :: rest =>
          match skipSpace rest with
          | '}' :: rest => some (.map [], rest)
          | rest => (readEntries fuel rest).map fun (entries, rest) => (.map entries, rest)
      | rest => readMagnitude false rest

def readItems : Nat → List Char → Option (List Content × List Char)
  | 0, _ => none
  | fuel + 1, cs =>
      match readValue fuel cs with
      | none => none
      | some (item, rest) =>
          match skipSpace rest with
          | ']' :: rest => some ([item], rest)
          | ',' :: rest =>
              (readItems fuel rest).map fun (items, rest) => (item :: items, rest)
          | _ => none

def readEntries : Nat → List Char → Option (List (Content × Content) × List Char)
  | 0, _ => none
  | fuel + 1, cs =>
      match skipSpace cs with
      | '"' :: rest =>
          match readString rest with
          | none => none
          | some (key, rest) =>
              match skipSpace rest with
              | ':' :: rest =>
                  match readValue fuel rest with
                  | none => none
                  | some (value, rest) =>
                      match skipSpace rest with
                      | '}' :: rest => some ([(key, value)], rest)
                      | ',' :: rest =>
                          (readEntries fuel rest).map fun (entries, rest) =>
                            ((key, value) :: entries, rest)
                      | _ => none
              | _ => none
      | _ => none

end

def read? (text : String) : Option Content :=
  let cs := text.toList
  match readValue (cs.length + 1) cs with
  | some (content, rest) => if (skipSpace rest).isEmpty then some content else none
  | none => none

end Endpoints.Json

import Endpoints.Content
import Endpoints.Decimal.Notation
import Endpoints.Json.Text

/-!
# Writing JSON

Content as JSON, either without any space or with one entry on a line and an indentation of two.
Only texts can be keys.
-/

namespace Endpoints.Json

/-- Numbers show that they are not whole numbers, and have an exponent when they are large or
small. -/
def layout : Decimal.Layout where
  positional := some (-5, 15)
  pointZero := true
  tie := .even
  notANumber := "null"
  infinity := "null"
  negativeInfinity := "null"

def floatText (x : Float) : String :=
  layout.write x

def keyText : Content → String
  | .text s => quote s
  | _ => quote ""

mutual

def compact : Content → String
  | .null => "null"
  | .bool true => "true"
  | .bool false => "false"
  | .int n => toString n
  | .minusZero => "0"
  | .float x => floatText x
  | .text s => quote s
  | .list items => "[" ++ String.intercalate "," (compactItems items) ++ "]"
  | .map entries => "\x7b" ++ String.intercalate "," (compactEntries entries) ++ "\x7d"
  | .tagged _ value => compact value
  | .unreadable => "null"

def compactItems : List Content → List String
  | [] => []
  | item :: rest => compact item :: compactItems rest

def compactEntries : List (Content × Content) → List String
  | [] => []
  | (key, value) :: rest => (keyText key ++ ":" ++ compact value) :: compactEntries rest

end

def newLine (depth : Nat) : String :=
  "\n" ++ String.ofList (List.replicate (2 * depth) ' ')

/-- Parts between brackets, each on a line of its own; without parts the brackets touch. -/
def bracket (depth : Nat) (opening closing : String) (parts : List String) : String :=
  if parts.isEmpty then opening ++ closing
  else
    opening ++ String.intercalate "," (parts.map (newLine (depth + 1) ++ ·)) ++
      newLine depth ++ closing

mutual

def indented (depth : Nat) : Content → String
  | .list items => bracket depth "[" "]" (indentedItems (depth + 1) items)
  | .map entries => bracket depth "\x7b" "\x7d" (indentedEntries (depth + 1) entries)
  | .tagged _ value => indented depth value
  | c => compact c

def indentedItems (depth : Nat) : List Content → List String
  | [] => []
  | item :: rest => indented depth item :: indentedItems depth rest

def indentedEntries (depth : Nat) : List (Content × Content) → List String
  | [] => []
  | (key, value) :: rest =>
      (keyText key ++ ": " ++ indented depth value) :: indentedEntries depth rest

end

def pretty (c : Content) : String :=
  indented 0 c

end Endpoints.Json

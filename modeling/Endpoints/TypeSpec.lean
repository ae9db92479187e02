import Endpoints.Log

/-!
# Types of parameters

A type is stated by one word, a *type token*: a name from a small table, a regular expression
between slashes, or any other name, which stands for itself and deserves a warning. The token
determines the type name of the specification, its format and its pattern.
-/

namespace Endpoints

structure TypeSpec where
  name : String
  format : Option String := none
  pattern : Option String := none
  deriving DecidableEq, Repr

namespace TypeSpec

def text : TypeSpec := { name := "string" }

def named? : String → Option TypeSpec
  | "int" => some { name := "integer" }
  | "float" => some { name := "number", format := some "float" }
  | "bool" | "boolean" => some { name := "boolean" }
  | "string" | "email" => some text
  | "array" => some { name := "array" }
  | _ => none

/-- The body of a token that is a regular expression: all but its opening slash and its last
character, whatever that is. -/
def pattern? (token : String) : Option String :=
  match token.toList with
  | '/' :: body => some (String.ofList body.dropLast)
  | _ => none

def ofToken (token : String) : TypeSpec :=
  match named? token, pattern? token with
  | some spec, _ => spec
  | none, some pattern => { name := "string", pattern := some pattern }
  | none, none => { name := token }

/-- The warning about a token that is neither in the table nor a regular expression. -/
def notices (token : String) : Log :=
  match named? token, pattern? token with
  | none, none => Log.warn ("Unknown type [" ++ token ++ "]")
  | _, _ => []

end TypeSpec

end Endpoints

import Endpoints.Parameter
import Endpoints.Text.Blank

/-!
# Parameters declared in one line

A route table declares a parameter by a line of words: an optional type token, the name after
a dollar sign, an optional mark `[optional]` or `optional`, and the description. The words are
found first, so blanks never matter beyond keeping words apart.
-/

namespace Endpoints

inductive DeclarationFault where
  /-- There is no word where the name should stand. -/
  | missingName
  /-- The word that should be the name has no dollar sign. -/
  | missingSigil
  /-- Nothing follows the dollar sign. -/
  | emptyName
  deriving DecidableEq, Repr

def DeclarationFault.message : DeclarationFault → String
  | .missingName => "missing $name token"
  | .missingSigil => "parameter name must start with '$'"
  | .emptyName => "empty parameter name"

namespace Parameter

def hasSigil (word : String) : Bool :=
  word.toList.head? = some '$'

/-- The type token of a line, if its first word is one, and the words after it. -/
def splitType : List String → Option String × List String
  | [] => (none, [])
  | word :: rest => if hasSigil word then (none, word :: rest) else (some word, rest)

def splitName : List String → Except DeclarationFault (String × List String)
  | [] => .error .missingName
  | word :: rest =>
      match word.toList with
      | ['$'] => .error .emptyName
      | '$' :: name => .ok (String.ofList name, rest)
      | _ => .error .missingSigil

/-- Whether the words after the name start with a mark that makes the parameter optional, and
the words after the mark. -/
def splitOptional : List String → Bool × List String
  | [] => (false, [])
  | word :: rest =>
      if word = "[optional]" ∨ word = "optional" then (true, rest) else (false, word :: rest)

def ofWords (ws : List String) (location : Location) : Except DeclarationFault Parameter :=
  let (token, afterType) := splitType ws
  match splitName afterType with
  | .error fault => .error fault
  | .ok (name, afterName) =>
      let (isOptional, description) := splitOptional afterName
      .ok { make name location ((token.map TypeSpec.ofToken).getD TypeSpec.text) with
            required := !isOptional
            description := if description.isEmpty then none
              else some (String.intercalate " " description) }

def ofDeclaration (line : String) (location : Location) : Except DeclarationFault Parameter :=
  ofWords (Text.words line) location

/-- The warnings that a line causes, whether it declares a parameter or not. -/
def declarationNotices (line : String) : Log :=
  match (splitType (Text.words line)).1 with
  | some token => TypeSpec.notices token
  | none => []

end Parameter

end Endpoints

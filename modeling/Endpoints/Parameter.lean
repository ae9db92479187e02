import Endpoints.TypeSpec

/-!
# Parameters

A parameter of an operation has a name, a type and a location. A location may be left open
until the operation is finished; such a parameter can remember the location that was suggested
when it was read.
-/

namespace Endpoints

inductive Location where
  | path
  | query
  | body
  | header
  /-- Not known yet. -/
  | guess
  deriving DecidableEq, Repr

namespace Location

def name : Location → String
  | .path => "path"
  | .query => "query"
  | .body => "body"
  | .header => "header"
  | .guess => "guess"

def all : List Location := [.path, .query, .body, .header, .guess]

def ofName? (s : String) : Option Location :=
  all.find? fun l => l.name = s

end Location

structure Parameter where
  name : String
  location : Location
  required : Bool := false
  typeName : String
  format : Option String := none
  pattern : Option String := none
  description : Option String := none
  /-- The name of the schema field that the parameter renames. -/
  aliasOf : Option String := none
  /-- The location suggested for a parameter whose location is open. -/
  hint : Option Location := none
  deriving DecidableEq, Repr

namespace Parameter

def make (name : String) (location : Location) (type : TypeSpec) : Parameter where
  name := name
  location := location
  typeName := type.name
  format := type.format
  pattern := type.pattern

def inPath (name : String) (type : TypeSpec) : Parameter :=
  { make name .path type with required := true }

/-- A parameter of open location that remembers a suggestion. -/
def guessed (name : String) (type : TypeSpec) (hint : Location) : Parameter :=
  { make name .guess type with hint := some hint }

/-- Settle an open location: the suggestion is used up, and without one the fallback holds.
A parameter whose location is known stays as it is. -/
def settle (fallback : Location) (p : Parameter) : Parameter :=
  if p.location = .guess then
    { p with location := p.hint.getD fallback, hint := none }
  else p

end Parameter

end Endpoints

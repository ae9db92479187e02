import Endpoints.HttpMethod
import Endpoints.Text.AsciiCase
import Endpoints.Text.Blank

/-!
# Routes

A route is written as a method followed by segments, all kept apart by slashes. A slash right
after `<` or right before `>` belongs to the type of a placeholder and separates nothing. A
segment may hold a placeholder `<type>name`, which turns the whole segment into a variable part
of the path.
-/

namespace Endpoints

namespace Route

def consToken (c : Char) : List (List Char) → List (List Char)
  | [] => [[c]]
  | token :: rest => (c :: token) :: rest

/-- Split at the slashes that separate, given the character before the list. -/
def tokensAfter (before : Option Char) : List Char → List (List Char)
  | [] => [[]]
  | c :: rest =>
      if c = '/' ∧ before ≠ some '<' ∧ rest.head? ≠ some '>' then
        [] :: tokensAfter (some c) rest
      else consToken c (tokensAfter (some c) rest)

def tokens (route : String) : List String :=
  (tokensAfter none route.toList).map String.ofList

def isNameChar (c : Char) : Bool :=
  ('a' ≤ c && c ≤ 'z') || ('A' ≤ c && c ≤ 'Z') || ('0' ≤ c && c ≤ '9') || c == '_'

/-- Read the type and the name of a placeholder behind its `<`, given whether the type has
started. The type is not empty and ends at the first `>` that a name follows. -/
def closePlaceholder : Bool → List Char → Option (List Char × List Char)
  | _, [] => none
  | started, c :: rest =>
      if c = '>' ∧ started ∧ rest.takeWhile isNameChar ≠ [] then
        some ([], rest.takeWhile isNameChar)
      else (closePlaceholder true rest).map fun (type, name) => (c :: type, name)

def findPlaceholder : List Char → Option (List Char × List Char)
  | [] => none
  | c :: rest =>
      if c = '<' then
        match closePlaceholder false rest with
        | some found => some found
        | none => findPlaceholder rest
      else findPlaceholder rest

end Route

structure Placeholder where
  type : String
  name : String
  deriving DecidableEq, Repr

namespace Placeholder

def ofSegment? (segment : String) : Option Placeholder :=
  (Route.findPlaceholder segment.toList).map fun (type, name) =>
    { type := String.ofList type, name := String.ofList name }

def segment (p : Placeholder) : String :=
  "\x7b" ++ p.name ++ "\x7d"

def parameter (p : Placeholder) : Parameter :=
  Parameter.inPath p.name (TypeSpec.ofToken p.type)

end Placeholder

structure Route where
  method : HttpMethod
  segments : List String
  deriving DecidableEq, Repr

namespace Route

/-- The method that the first token of a route states, in any letter case and between
blanks. -/
def method? (token : String) : Option HttpMethod :=
  HttpMethod.ofName? (Text.lower (Text.trim token))

def ofText? (text : String) : Option Route :=
  match tokens text with
  | [] => none
  | token :: segments => (method? token).map fun method => { method, segments }

def placeholders (r : Route) : List Placeholder :=
  r.segments.filterMap Placeholder.ofSegment?

/-- A segment as it stands in the path: a placeholder takes the place of the whole segment. -/
def pathSegment (segment : String) : String :=
  match Placeholder.ofSegment? segment with
  | some p => p.segment
  | none => segment

def path (r : Route) : String :=
  "/" ++ String.intercalate "/" (r.segments.map pathSegment)

end Route

end Endpoints

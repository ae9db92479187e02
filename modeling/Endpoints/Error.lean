import Endpoints.FileTree
import Endpoints.Parameter.Declaration

/-!
# Errors

Everything that can stop a run, as causes. The wording is in one function for each kind of
cause, so that the rest of the library never builds a message.
-/

namespace Endpoints

inductive SourceKind where
  | schema
  | fragment
  deriving DecidableEq, Repr

def SourceKind.name : SourceKind → String
  | .schema => "validation schema"
  | .fragment => "include fragment"

inductive SourceFault where
  /-- Its text is no document of the expected form. -/
  | unreadable
  /-- A schema has a field whose name is empty. -/
  | unnamedField
  /-- A schema renames a field to nothing. -/
  | emptyAlias (field : String)
  /-- A fragment lists a parameter whose name is empty. -/
  | unnamedEntry
  deriving DecidableEq, Repr

/-- The wording of a fault. What makes a document unreadable is not told in detail. -/
def SourceFault.message : SourceFault → String
  | .unreadable => "(yaml)"
  | .unnamedField => "field with an empty name"
  | .emptyAlias field => "empty alias for field " ++ field
  | .unnamedEntry => "parameter entry with an empty name"

inductive Error where
  | file (cause : FileError)
  /-- A source that a route refers to does not exist; `path` is the first place looked at. -/
  | unresolved (kind : SourceKind) (name path : String)
  | invalidSource (path : String) (fault : SourceFault)
  /-- A line in a route table declares no parameter. -/
  | malformed (line : String) (fault : DeclarationFault)
  /-- A text names no target. -/
  | invalidAction (text : String)
  deriving DecidableEq, Repr

def Error.message : Error → String
  | .file cause => "IO error: " ++ cause.message
  | .unresolved kind name path =>
      "Could not resolve " ++ kind.name ++ " " ++ name ++ ", looked in " ++ path
  | .invalidSource path fault => "Invalid source " ++ path ++ ": " ++ fault.message
  | .malformed line fault => "Malformed annotation [" ++ line ++ "]: " ++ fault.message
  | .invalidAction text => "Invalid action: expected Class.function, got [" ++ text ++ "]"

end Endpoints

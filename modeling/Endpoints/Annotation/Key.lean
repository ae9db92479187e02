import Endpoints.Text.AsciiCase

/-!
# Keys of annotations

The keys that a resolver knows, in any letter case. Some fill a field of the operation, some
add to one of its lists, and some bring in parameters.
-/

namespace Endpoints

inductive ListField where
  | tags
  | consumes
  | produces
  | schemes
  deriving DecidableEq, Repr

namespace ListField

def name : ListField → String
  | .tags => "tags"
  | .consumes => "consumes"
  | .produces => "produces"
  | .schemes => "schemes"

def all : List ListField := [.tags, .consumes, .produces, .schemes]

def ofName? (s : String) : Option ListField :=
  all.find? fun f => f.name = s

end ListField

inductive AnnotationKey where
  | summary
  | description
  | operationId
  | deprecated
  | list (field : ListField)
  | parameter
  /-- The name of a schema whose fields become parameters. -/
  | schema
  /-- The name of a fragment whose parameters are taken over. -/
  | fragment
  deriving DecidableEq, Repr

def AnnotationKey.ofText? (text : String) : Option AnnotationKey :=
  match Text.lower text with
  | "summary" => some .summary
  | "description" => some .description
  | "operationid" => some .operationId
  | "deprecated" => some .deprecated
  | "tags" => some (.list .tags)
  | "consumes" => some (.list .consumes)
  | "produces" => some (.list .produces)
  | "schemes" => some (.list .schemes)
  | "parameter" => some .parameter
  | "params" | "validate" => some .schema
  | "include" => some .fragment
  | _ => none

end Endpoints

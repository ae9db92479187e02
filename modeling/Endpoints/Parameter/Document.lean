import Endpoints.Content.Plain
import Endpoints.Parameter
import Endpoints.Yaml.Located

/-!
# Parameters in documents

A parameter is a record of which only the name must be there. Documents show what is set and
leave out what is not; a suggested location is never shown.
-/

namespace Endpoints

def fieldOr {m : Type → Type} [Pure m] {α β : Type} (fields : List (String × α))
    (name : String) (missing : β) (read : α → m β) : m β :=
  match fields.lookup name with
  | none => pure missing
  | some value => read value

def field {m : Type → Type} [Alternative m] {α β : Type} (fields : List (String × α))
    (name : String) (read : α → m β) : m β :=
  match fields.lookup name with
  | none => failure
  | some value => read value

def entryIfSet (name : String) : Option String → List (String × Content)
  | none => []
  | some value => [(name, .text value)]

@[simp] theorem arePlain_entryIfSet (name : String) (value : Option String) :
    Content.ArePlain (entryIfSet name value) := by
  cases value <;> simp [entryIfSet]

namespace Parameter

def fieldNames : List String :=
  ["name", "in", "required", "type", "format", "pattern", "description", "alias"]

def content (p : Parameter) : Content :=
  .record <|
    [("name", .text p.name), ("in", .text p.location.name), ("required", .bool p.required),
      ("type", .text p.typeName)] ++
    entryIfSet "format" p.format ++ entryIfSet "pattern" p.pattern ++
    entryIfSet "description" p.description ++ entryIfSet "alias" p.aliasOf

theorem isPlain_content (p : Parameter) : p.content.IsPlain :=
  Content.isPlain_record (by simp)

def locationNames : List String := Location.all.map Location.name

/-- Read a parameter whose texts must be texts. -/
def ofContent? (c : Content) : Option Parameter := do
  let fields ← c.fields? fieldNames
  let name ← field fields "name" Content.text?
  let location ← fieldOr fields "in" .guess fun c =>
    (c.choice? locationNames).bind Location.ofName?
  let required ← fieldOr fields "required" false Content.bool?
  let typeName ← fieldOr fields "type" "string" Content.text?
  let format ← fieldOr fields "format" none Content.optionalText?
  let pattern ← fieldOr fields "pattern" none Content.optionalText?
  let description ← fieldOr fields "description" none Content.optionalText?
  let aliasOf ← fieldOr fields "alias" none Content.optionalText?
  return { name, location, required, typeName, format, pattern, description, aliasOf }

def readLocation (x : Yaml.Located) : Yaml.Budgeted Location := do
  Location.ofName? (← x.choice locationNames)

/-- Read a parameter that takes any scalar for a text. -/
def read (x : Yaml.Located) : Yaml.Budgeted Parameter := do
  let fields ← x.fields fieldNames
  let name ← field fields "name" Yaml.Located.text
  let location ← fieldOr fields "in" .guess readLocation
  let required ← fieldOr fields "required" false Yaml.Located.bool
  let typeName ← fieldOr fields "type" "string" Yaml.Located.text
  let format ← fieldOr fields "format" none Yaml.Located.optionalText
  let pattern ← fieldOr fields "pattern" none Yaml.Located.optionalText
  let description ← fieldOr fields "description" none Yaml.Located.optionalText
  let aliasOf ← fieldOr fields "alias" none Yaml.Located.optionalText
  return { name, location, required, typeName, format, pattern, description, aliasOf }

end Parameter

end Endpoints

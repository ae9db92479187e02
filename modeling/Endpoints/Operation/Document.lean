import Endpoints.Operation
import Endpoints.Parameter.Document

/-!
# Models in documents

An operation is a record that shows what is set, and a model is a map from paths to maps from
methods to operations. Reading a repeated path or method keeps its first place and its last
value.
-/

namespace Endpoints

def entryIfAny (name : String) (values : OrderedSet String) : List (String × Content) :=
  if values.toList.isEmpty then [] else [(name, .texts values.toList)]

@[simp] theorem arePlain_entryIfAny (name : String) (values : OrderedSet String) :
    Content.ArePlain (entryIfAny name values) := by
  unfold entryIfAny
  split <;> simp

def HttpMethod.names : List String := HttpMethod.all.map HttpMethod.name

namespace Operation

def fieldNames : List String :=
  ["method", "path", "class", "function", "summary", "description", "operationId", "deprecated",
    "tags", "consumes", "produces", "schemes", "parameters"]

/-- The number of fields that a list must give: those up to the first one with a default. -/
def leastListed : Nat := 7

def content (o : Operation) : Content :=
  .record <|
    [("method", .text o.method.name), ("path", .text o.path)] ++
    entryIfSet "class" o.className ++ entryIfSet "function" o.function ++
    entryIfSet "summary" o.summary ++ entryIfSet "description" o.description ++
    entryIfSet "operationId" o.operationId ++
    [("deprecated", .bool o.deprecated)] ++
    entryIfAny "tags" o.tags ++ entryIfAny "consumes" o.consumes ++
    entryIfAny "produces" o.produces ++ entryIfAny "schemes" o.schemes ++
    [("parameters", .list (o.parameters.map Parameter.content))]

theorem isPlain_content (o : Operation) : o.content.IsPlain :=
  Content.isPlain_record (by simp [Content.isPlain_list_map Parameter.isPlain_content])

def isLongEnough : Content → Bool
  | .list items => leastListed ≤ items.length
  | _ => true

def readSet? (c : Content) : Option (OrderedSet String) :=
  c.texts?.map Overlay.ofList

def ofContent? (c : Content) : Option Operation := do
  let fields ← if isLongEnough c then c.fields? fieldNames else none
  let method ← field fields "method" fun c =>
    (c.choice? HttpMethod.names).bind HttpMethod.ofName?
  let path ← field fields "path" Content.text?
  let className ← fieldOr fields "class" none Content.optionalText?
  let function ← fieldOr fields "function" none Content.optionalText?
  let summary ← fieldOr fields "summary" none Content.optionalText?
  let description ← fieldOr fields "description" none Content.optionalText?
  let operationId ← fieldOr fields "operationId" none Content.optionalText?
  let deprecated ← fieldOr fields "deprecated" false Content.bool?
  let tags ← fieldOr fields "tags" Overlay.empty readSet?
  let consumes ← fieldOr fields "consumes" Overlay.empty readSet?
  let produces ← fieldOr fields "produces" Overlay.empty readSet?
  let schemes ← fieldOr fields "schemes" Overlay.empty readSet?
  let parameters ← fieldOr fields "parameters" [] fun c =>
    c.list?.bind fun items => items.mapM Parameter.ofContent?
  return { method, path, className, function, summary, description, operationId, deprecated,
           tags, consumes, produces, schemes, parameters }

end Operation

namespace Model

def methodsContent (methods : Table HttpMethod Operation) : Content :=
  .record (methods.toList.map fun (method, o) => (method.name, o.content))

def content (m : Model) : Content :=
  .record (m.toList.map fun (path, methods) => (path, methodsContent methods))

theorem isPlain_content (m : Model) : m.content.IsPlain :=
  Content.isPlain_record_map (fun entry =>
    Content.isPlain_record_map (fun entry => entry.2.isPlain_content) entry.2.toList) m.toList

def readTable? {κ α : Type} [DecidableEq κ] (key? : Content → Option κ)
    (value? : Content → Option α) : Content → Option (Table κ α)
  | .map entries =>
      (entries.mapM fun (k, v) => do
        let key ← key? k
        let value ← value? v
        return (key, value)).map Overlay.ofList
  | _ => none

def readMethods? : Content → Option (Table HttpMethod Operation) :=
  readTable? (fun key => key.text?.bind HttpMethod.ofName?) Operation.ofContent?

def ofContent? : Content → Option Model :=
  readTable? Content.text? readMethods?

end Model

end Endpoints

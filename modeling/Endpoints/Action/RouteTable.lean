import Endpoints.Action
import Endpoints.Error
import Endpoints.Parameter.Document

/-!
# Route tables

A route table is a document that lists actions: the target as one text, the routes and the
attached values. The text of a target and of a route may be any scalar; a value is read by what
it stands for.
-/

namespace Endpoints

def AnnotationValue.isInRange (n : Int) : Bool :=
  Int64.minValue.toInt ≤ n && n ≤ Int64.maxValue.toInt

/-- Read a value. A whole number out of range becomes the nearest binary number. -/
def AnnotationValue.ofContent? : Content → Option AnnotationValue
  | .bool b => some (.bool b)
  | .int n =>
      if isInRange n then some (.int (Int64.ofInt n))
      else some (.float (UInt64.ofNat n.toNat).toFloat)
  | .minusZero => some (.int 0)
  | .float x => some (.float x)
  | .text s => some (.text s)
  | _ => none

def AnnotationValue.content : AnnotationValue → Content
  | .bool b => .bool b
  | .int n => .int n.toInt
  | .float x => .float x
  | .text s => .text s

namespace Action

def fieldNames : List String := ["action", "routes", "annotations"]

/-- The number of collections around a value in a route table: the table, the action, the map of
keys and the list of values. -/
def valueDepth : Nat := 4

def readValue (x : Yaml.Located) : Yaml.Budgeted AnnotationValue := do
  AnnotationValue.ofContent? (← x.content valueDepth)

def readAnnotations : Yaml.Located → Yaml.Budgeted (Table String (List AnnotationValue)) :=
  Yaml.Located.table (Yaml.Located.list readValue)

def readTarget (x : Yaml.Located) : Yaml.Budgeted Target := do
  Target.ofText? (← x.text)

def read (x : Yaml.Located) : Yaml.Budgeted Action := do
  let fields ← x.fields fieldNames
  let target ← field fields "action" readTarget
  let routes ← fieldOr fields "routes" [] (Yaml.Located.list Yaml.Located.text)
  let annotations ← fieldOr fields "annotations" Overlay.empty readAnnotations
  return { target, routes, annotations }

def content (a : Action) : Content :=
  .record
    [("action", .text a.target.text), ("routes", .texts a.routes),
      ("annotations", .record (a.annotations.toList.map fun (key, values) =>
        (key, .list (values.map AnnotationValue.content))))]

end Action

namespace RouteTable

def read : Yaml.Located → Yaml.Budgeted (List Action) :=
  Yaml.Located.list Action.read

def content (actions : List Action) : Content :=
  .list (actions.map Action.content)

def readSource {α : Type} (files : FileTree) (path : String)
    (read : Yaml.Located → Yaml.Budgeted α) : Except Error α :=
  match files.readText path with
  | .error cause => .error (.file cause)
  | .ok text =>
      match (Yaml.Document.ofText? text).bind fun d => d.read? read with
      | none => .error (.invalidSource path .unreadable)
      | some source => .ok source

def load (files : FileTree) (path : String) : Except Error (List Action) :=
  readSource files path read

end RouteTable

end Endpoints

import Endpoints.Action.RouteTable
import Endpoints.Content.Equality

/-!
# Schemas

A schema lists the fields that a request may carry, with their types, and the names under which
some of them are known outside. Its fields become parameters of open location.
-/

namespace Endpoints

structure FieldDefinition where
  typeToken : Option String := none
  /-- What the field says about being required. -/
  required : Option Content := none
  deriving DecidableEq

/-- Whether a field is required. Any content may say something about it, and only `true` counts. -/
def FieldDefinition.isRequired (d : FieldDefinition) : Bool :=
  (d.required.map Content.isTrue).getD false

/-- What a schema renames a field to: a name, or a list whose first name counts. -/
inductive AliasTarget where
  | name (s : String)
  | names (list : List String)
  deriving DecidableEq, Repr

/-- The name that takes the place of a field's own; an empty list gives none. -/
def AliasTarget.replacement? : AliasTarget → Option String
  | .name s => some s
  | .names list => list.head?

structure Schema where
  fields : Table String FieldDefinition := Overlay.empty
  aliases : Table String AliasTarget := Overlay.empty
  deriving DecidableEq

namespace Schema

/-- The number of collections around what a field says about being required: the schema, the
map of fields and the field. -/
def fieldDepth : Nat := 3

def aliasDepth : Nat := 2

/-- Whether a node takes the place of a field that is not there. -/
def isUnset? (x : Yaml.Located) : Option Bool :=
  match x.node with
  | .scalar s => s.isUnset?
  | _ => some false

def readRequired (x : Yaml.Located) : Yaml.Budgeted (Option Content) := do
  let x ← x.follow
  if ← isUnset? x then return none
  else
    let c ← x.content fieldDepth
    if c.isKeepable then return some c else failure

def readField (x : Yaml.Located) : Yaml.Budgeted FieldDefinition := do
  let fields ← x.fields ["type", "required"]
  let typeToken ← fieldOr fields "type" none Yaml.Located.optionalText
  let required ← fieldOr fields "required" none readRequired
  return { typeToken, required }

def aliasOfContent? : Content → Option AliasTarget
  | .text s => some (.name s)
  | c => c.texts?.map .names

def readAlias (x : Yaml.Located) : Yaml.Budgeted AliasTarget := do
  aliasOfContent? (← x.content aliasDepth)

def read (x : Yaml.Located) : Yaml.Budgeted Schema := do
  let parts ← x.fields ["fields", "aliases"]
  let fields ← fieldOr parts "fields" Overlay.empty (Yaml.Located.table readField)
  let aliases ← fieldOr parts "aliases" Overlay.empty (Yaml.Located.table readAlias)
  return { fields, aliases }

/-- The fault of a schema that would give a parameter without a name: a field without one, or an
alias that is empty, whether its field is declared or not. -/
def fault? (s : Schema) : Option SourceFault :=
  if "" ∈ s.fields.keys then some .unnamedField
  else
    (s.aliases.toList.find? fun (_, target) => target.replacement? = some "").map
      fun (field, _) => .emptyAlias field

def FieldDefinition.token (d : FieldDefinition) : String :=
  d.typeToken.getD "string"

def parameter (s : Schema) (hint : Location) (field : String) (d : FieldDefinition) :
    Parameter :=
  let p := { Parameter.guessed field (TypeSpec.ofToken (FieldDefinition.token d)) hint with
             required := d.isRequired }
  match (s.aliases.get? field).bind AliasTarget.replacement? with
  | some name => { p with name := name, aliasOf := some field }
  | none => p

def parameters (s : Schema) (hint : Location) : List Parameter :=
  s.fields.toList.map fun (field, d) => s.parameter hint field d

def notices (s : Schema) : Log :=
  s.fields.values.flatMap fun d => TypeSpec.notices (FieldDefinition.token d)

end Schema

end Endpoints

import Endpoints.Overlay
import Endpoints.Yaml.Node

/-!
# Reading nodes in a given form

A position that asks for a text takes any scalar by its text. A position that asks for a
collection takes an empty plain scalar for an empty one. A position that asks for no form reads
the content of a node, for which nesting is limited. References are followed where a node is
read, and nowhere else; a document limits how many are followed while it is read as a whole.
-/

namespace Endpoints.Yaml

/-- The number of collections inside each other that can be read where no form is asked for. -/
def depthLimit : Nat := 128

/-- A reading that may follow references: from the number of those that may be followed to what
is read and the number that is left. -/
abbrev Budgeted (α : Type) := StateT Nat Option α

structure Located where
  document : Document
  node : Node

def Document.anchored? (d : Document) (n : Nat) : Option Node :=
  d.anchors[n]?

def Document.read? {α : Type} (d : Document) (read : Located → Budgeted α) : Option α :=
  (read ⟨d, d.root⟩ d.budget).map Prod.fst

def tagContent (tag : Option String) (value : Content) : Content :=
  match tag with
  | none => value
  | some name => .tagged name value

namespace Node

/-- Follow a reference, if the node is one. What an anchor stands for is never a reference
itself. -/
def follow (anchored : Nat → Option Node) : Node → Budgeted Node
  | .reference n => fun budget =>
      match budget with
      | 0 => none
      | budget + 1 => (anchored n).map fun node => (node, budget)
  | node => pure node

def contentWithin (anchored : Nat → Option Node) : Nat → Node → Budgeted Content
  | 0, node => do
      match ← node.follow anchored with
      | .scalar s => pure s.content
      | _ => failure
  | depth + 1, node => do
      match ← node.follow anchored with
      | .scalar s => pure s.content
      | .sequence tag items =>
          let contents ← items.mapM (contentWithin anchored depth)
          pure (tagContent tag (.list contents))
      | .mapping tag entries =>
          let contents ← entries.mapM fun (key, value) => do
            let keyContent ← contentWithin anchored depth key
            let valueContent ← contentWithin anchored depth value
            pure (keyContent, valueContent)
          pure (tagContent tag (.map contents))
      | .reference _ => failure

end Node

namespace Located

def follow (x : Located) : Budgeted Located := do
  return { x with node := ← x.node.follow x.document.anchored? }

def scalar (x : Located) : Budgeted Scalar := do
  match (← x.follow).node with
  | .scalar s => pure s
  | _ => failure

def text (x : Located) : Budgeted String := do
  return (← x.scalar).text

def optionalText (x : Located) : Budgeted (Option String) := do
  let s ← x.scalar
  let unset ← s.isUnset?
  return if unset then none else some s.text

def bool (x : Located) : Budgeted Bool := do
  (← x.scalar).bool?

/-- Read the name of a choice among declared ones: the text of a scalar, or the tag of the
document's own on a plain scalar that is otherwise null. -/
def choice (names : List String) (x : Located) : Budgeted String := do
  let s ← x.scalar
  match s.tag? with
  | none => if s.text ∈ names then pure s.text else failure
  | some tag => if s.isPlainNull ∧ tag ∈ names then pure tag else failure

def items (x : Located) : Budgeted (List Located) := do
  let x ← x.follow
  match x.node with
  | .sequence _ items => pure (items.map fun node => { x with node })
  | .scalar s => if s.isEmptyCollection then pure [] else failure
  | _ => failure

def list {α : Type} (item : Located → Budgeted α) (x : Located) : Budgeted (List α) := do
  (← x.items).mapM item

def entries (x : Located) : Budgeted (List (Located × Located)) := do
  let x ← x.follow
  match x.node with
  | .mapping _ entries =>
      pure (entries.map fun (key, value) => ({ x with node := key }, { x with node := value }))
  | .scalar s => if s.isEmptyCollection then pure [] else failure
  | _ => failure

/-- Read the fields of a record with declared names, from the entries of a mapping. Unknown names
are passed over with whatever stands there, and a known name may stand only once. -/
def fieldsOfEntries (names : List String) :
    List (Located × Located) → Budgeted (List (String × Located))
  | [] => pure []
  | (key, value) :: rest => do
      let name ← key.text
      let fields ← fieldsOfEntries names rest
      if name ∉ names then pure fields
      else if fields.any (·.1 = name) then failure
      else pure ((name, value) :: fields)

def fields (names : List String) (x : Located) : Budgeted (List (String × Located)) := do
  fieldsOfEntries names (← x.entries)

/-- Read the entries of a mapping whose keys are texts. A repeated key keeps its first place and
its last value. -/
def table {α : Type} (value : Located → Budgeted α) (x : Located) :
    Budgeted (Table String α) := do
  let pairs ← (← x.entries).mapM fun (entry : Located × Located) => do
    let key ← entry.1.text
    return (key, ← value entry.2)
  return Overlay.ofList pairs

/-- Read the content of a node that has `above` collections around it. -/
def content (above : Nat) (x : Located) : Budgeted Content :=
  x.node.contentWithin x.document.anchored? (depthLimit - above)

end Located

end Endpoints.Yaml

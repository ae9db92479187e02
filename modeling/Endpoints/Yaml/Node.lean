import Endpoints.Yaml.Scalar
import Endpoints.Yaml.Tree

/-!
# Nodes of YAML documents

A document as it is understood: scalars with what they stand for, and references resolved to
numbered anchors. The number of an anchor is the number of names that came before it, so a name
that is used again can share its number with a later one; the later node then stands for both.
-/

namespace Endpoints.Yaml

inductive Node where
  | reference (anchor : Nat)
  | scalar (s : Scalar)
  | sequence (tag : Option String) (items : List Node)
  | mapping (tag : Option String) (entries : List (Node × Node))

structure AnchorNames where
  /-- The names with their numbers; the first pair with a name counts. -/
  numbers : List (String × Nat) := []
  /-- The number of different names. -/
  count : Nat := 0

namespace AnchorNames

def number? (names : AnchorNames) (name : String) : Option Nat :=
  names.numbers.lookup name

/-- The names after an anchor, and its number. A name used again stands for the new anchor. -/
def add (names : AnchorNames) : Option String → AnchorNames × Option Nat
  | none => (names, none)
  | some name =>
      let isNew := (names.number? name).isNone
      ({ numbers := (name, names.count) :: names.numbers
         count := if isNew then names.count + 1 else names.count }, some names.count)

end AnchorNames

abbrev Anchored := List (Nat × Node)

def withAnchor (number : Option Nat) (node : Node) (inside : Anchored) : Anchored :=
  match number with
  | none => inside
  | some n => (n, node) :: inside

/-- What a tree is understood as: the names after it, the node, and the anchored nodes in it. -/
abbrev Understood (α : Type) := Option (AnchorNames × α × Anchored)

namespace Node

mutual

def ofTree? (names : AnchorNames) : Tree → Understood Node
  | .reference name =>
      (names.number? name).map fun n => (names, .reference n, [])
  | .scalar p style text =>
      let (names, number) := names.add p.anchor
      let node := Node.scalar (Scalar.ofTree p.tag style text)
      some (names, node, withAnchor number node [])
  | .sequence p items =>
      let (names, number) := names.add p.anchor
      match ofTrees? names items with
      | none => none
      | some (names, nodes, inside) =>
          let node := Node.sequence (p.tag.bind Tag.ownName?) nodes
          some (names, node, withAnchor number node inside)
  | .mapping p entries =>
      let (names, number) := names.add p.anchor
      match ofEntries? names entries with
      | none => none
      | some (names, nodes, inside) =>
          let node := Node.mapping (p.tag.bind Tag.ownName?) nodes
          some (names, node, withAnchor number node inside)

def ofTrees? (names : AnchorNames) : List Tree → Understood (List Node)
  | [] => some (names, [], [])
  | tree :: rest =>
      match ofTree? names tree with
      | none => none
      | some (names, node, inside) =>
          match ofTrees? names rest with
          | none => none
          | some (names, nodes, more) => some (names, node :: nodes, inside ++ more)

def ofEntries? (names : AnchorNames) : List (Tree × Tree) → Understood (List (Node × Node))
  | [] => some (names, [], [])
  | (key, value) :: rest =>
      match ofTree? names key with
      | none => none
      | some (names, keyNode, inKey) =>
          match ofTree? names value with
          | none => none
          | some (names, valueNode, inValue) =>
              match ofEntries? names rest with
              | none => none
              | some (names, nodes, more) =>
                  some (names, (keyNode, valueNode) :: nodes, inKey ++ inValue ++ more)

end

end Node

/-- The nodes by their numbers, given anchored nodes; of two with one number the later one counts.
A number is never greater than the number of nodes before it. -/
def placeAnchors (anchored : Anchored) : Array Node :=
  anchored.foldl (fun nodes (n, node) =>
    if n < nodes.size then nodes.setIfInBounds n node else nodes.push node) #[]

structure Document where
  root : Node
  anchors : Array Node := #[]
  /-- How many references may be followed while the document is read. -/
  budget : Nat := 0

namespace Document

/-- The document of a text. A hundred references may be followed for each step of the text. -/
def ofText? (text : String) : Option Document := do
  let tree ← Tree.ofText? text
  let (_, root, anchored) ← Node.ofTree? {} tree
  return { root, anchors := placeAnchors anchored, budget := 100 * tree.steps }

end Document

end Endpoints.Yaml

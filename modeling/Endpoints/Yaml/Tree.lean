import Endpoints.Yaml.Token.Scanner

/-!
# Trees of YAML documents

A document as it is written: collections and scalars with their anchors and tags, and
references to anchors. The functions below read a tree from tokens; each returns the tokens that
are left. Every reader takes a bound on its depth of calls, which the whole number of tokens
provides.
-/

namespace Endpoints.Yaml

structure Properties where
  anchor : Option String := none
  tag : Option Tag := none
  deriving DecidableEq, Repr

inductive Tree where
  | reference (name : String)
  | scalar (properties : Properties) (style : ScalarStyle) (text : String)
  | sequence (properties : Properties) (items : List Tree)
  | mapping (properties : Properties) (entries : List (Tree × Tree))

namespace Tree

def nothing : Tree := .scalar {} .plain ""

end Tree

mutual

/-- The number of steps in which a node is walked: one for a leaf, and two for a collection
besides those of what is in it. -/
def Tree.steps : Tree → Nat
  | .reference _ => 1
  | .scalar _ _ _ => 1
  | .sequence _ items => 2 + Tree.stepsOfList items
  | .mapping _ entries => 2 + Tree.stepsOfEntries entries

def Tree.stepsOfList : List Tree → Nat
  | [] => 0
  | tree :: rest => tree.steps + Tree.stepsOfList rest

def Tree.stepsOfEntries : List (Tree × Tree) → Nat
  | [] => 0
  | (key, value) :: rest => key.steps + value.steps + Tree.stepsOfEntries rest

end

abbrev Reading (α : Type) := Option (α × List Token)

namespace Tree

def readProperties (hs : Handles) : List Token → Reading Properties
  | .anchor a :: .tag h s :: rest =>
      (hs.expand? h s).map fun t => ({ anchor := some a, tag := some t }, rest)
  | .anchor a :: rest => some ({ anchor := some a }, rest)
  | .tag h s :: .anchor a :: rest =>
      (hs.expand? h s).map fun t => ({ anchor := some a, tag := some t }, rest)
  | .tag h s :: rest => (hs.expand? h s).map fun t => ({ tag := some t }, rest)
  | ts => some ({}, ts)

def startsMappingNode : List Token → Bool
  | .key :: _ | .value :: _ | .blockEnd :: _ => false
  | _ => true

def startsItem : List Token → Bool
  | .blockEntry :: _ | .blockEnd :: _ => false
  | _ => true

def startsIndentlessItem : List Token → Bool
  | .blockEntry :: _ | .key :: _ | .value :: _ | .blockEnd :: _ => false
  | _ => true

mutual

/-- Read a node. `block` allows block collections, and `indentless` a sequence at the column of
the mapping around it. -/
def readNode (hs : Handles) (block indentless : Bool) : Nat → List Token → Reading Tree
  | 0, _ => none
  | _ + 1, .reference name :: rest => some (.reference name, rest)
  | fuel + 1, ts =>
      match readProperties hs ts with
      | none => none
      | some (p, ts) =>
          match ts with
          | .blockEntry :: _ =>
              if indentless then
                (readIndentlessItems hs fuel ts).map fun (items, rest) =>
                  (.sequence p items, rest)
              else if p = {} then none
              else some (.scalar p .plain "", ts)
          | .scalar style text :: rest => some (.scalar p style text, rest)
          | .flowSequenceStart :: rest =>
              (readFlowItems hs true fuel rest).map fun (items, rest) => (.sequence p items, rest)
          | .flowMappingStart :: rest =>
              (readFlowEntries hs true fuel rest).map fun (entries, rest) =>
                (.mapping p entries, rest)
          | .blockSequenceStart :: rest =>
              if block then
                (readBlockItems hs fuel rest).map fun (items, rest) => (.sequence p items, rest)
              else if p = {} then none
              else some (.scalar p .plain "", ts)
          | .blockMappingStart :: rest =>
              if block then
                (readBlockEntries hs fuel rest).map fun (entries, rest) =>
                  (.mapping p entries, rest)
              else if p = {} then none
              else some (.scalar p .plain "", ts)
          | _ => if p = {} then none else some (.scalar p .plain "", ts)

def readBlockItems (hs : Handles) : Nat → List Token → Reading (List Tree)
  | 0, _ => none
  | fuel + 1, ts =>
      match ts with
      | .blockEnd :: rest => some ([], rest)
      | .blockEntry :: rest =>
          if startsItem rest then
            match readNode hs true false fuel rest with
            | none => none
            | some (item, rest) =>
                (readBlockItems hs fuel rest).map fun (items, rest) => (item :: items, rest)
          else (readBlockItems hs fuel rest).map fun (items, rest) => (nothing :: items, rest)
      | _ => none

def readIndentlessItems (hs : Handles) : Nat → List Token → Reading (List Tree)
  | 0, _ => none
  | fuel + 1, ts =>
      match ts with
      | .blockEntry :: rest =>
          if startsIndentlessItem rest then
            match readNode hs true false fuel rest with
            | none => none
            | some (item, rest) =>
                (readIndentlessItems hs fuel rest).map fun (items, rest) => (item :: items, rest)
          else
            (readIndentlessItems hs fuel rest).map fun (items, rest) => (nothing :: items, rest)
      | _ => some ([], ts)

def readBlockEntries (hs : Handles) : Nat → List Token → Reading (List (Tree × Tree))
  | 0, _ => none
  | fuel + 1, ts =>
      match ts with
      | .blockEnd :: rest => some ([], rest)
      | .key :: rest =>
          let key := if startsMappingNode rest then readNode hs true true fuel rest
            else some (nothing, rest)
          match key with
          | none => none
          | some (key, rest) =>
              let value := match rest with
                | .value :: rest =>
                    if startsMappingNode rest then readNode hs true true fuel rest
                    else some (nothing, rest)
                | _ => some (nothing, rest)
              match value with
              | none => none
              | some (value, rest) =>
                  (readBlockEntries hs fuel rest).map fun (entries, rest) =>
                    ((key, value) :: entries, rest)
      | _ => none

/-- Read the items of a flow sequence and its end. A key opens a mapping of one entry. -/
def readFlowItems (hs : Handles) (first : Bool) : Nat → List Token → Reading (List Tree)
  | 0, _ => none
  | fuel + 1, ts =>
      let item := match ts, first with
        | .flowSequenceEnd :: _, _ => some ts
        | .flowEntry :: rest, false => some rest
        | _, false => none
        | _, true => some ts
      match item with
      | none => none
      | some (.flowSequenceEnd :: rest) => some ([], rest)
      | some (.key :: rest) =>
          match readPair hs fuel rest with
          | none => none
          | some (pair, rest) =>
              (readFlowItems hs false fuel rest).map fun (items, rest) =>
                (.mapping {} [pair] :: items, rest)
      | some ts =>
          match readNode hs false false fuel ts with
          | none => none
          | some (item, rest) =>
              (readFlowItems hs false fuel rest).map fun (items, rest) => (item :: items, rest)

/-- Read the one entry of a mapping in a flow sequence, behind the token of its key. Where no
key is written, the token that stands there is passed over. -/
def readPair (hs : Handles) : Nat → List Token → Reading (Tree × Tree)
  | 0, _ => none
  | fuel + 1, ts =>
      let key := match ts with
        | .value :: rest | .flowEntry :: rest | .flowSequenceEnd :: rest => some (nothing, rest)
        | _ => readNode hs false false fuel ts
      match key with
      | none => none
      | some (key, ts) =>
          match ts with
          | .value :: rest =>
              match rest with
              | .flowEntry :: _ | .flowSequenceEnd :: _ => some ((key, nothing), rest)
              | _ => (readNode hs false false fuel rest).map fun (value, rest) =>
                  ((key, value), rest)
          | _ => some ((key, nothing), ts)

def readFlowEntries (hs : Handles) (first : Bool) : Nat → List Token →
    Reading (List (Tree × Tree))
  | 0, _ => none
  | fuel + 1, ts =>
      let entry := match ts, first with
        | .flowMappingEnd :: _, _ => some ts
        | .flowEntry :: rest, false => some rest
        | _, false => none
        | _, true => some ts
      match entry with
      | none => none
      | some (.flowMappingEnd :: rest) => some ([], rest)
      | some (.key :: rest) =>
          let key := match rest with
            | .value :: _ | .flowEntry :: _ | .flowMappingEnd :: _ => some (nothing, rest)
            | _ => readNode hs false false fuel rest
          match key with
          | none => none
          | some (key, rest) =>
              let value := match rest with
                | .value :: rest =>
                    match rest with
                    | .flowEntry :: _ | .flowMappingEnd :: _ => some (nothing, rest)
                    | _ => readNode hs false false fuel rest
                | _ => some (nothing, rest)
              match value with
              | none => none
              | some (value, rest) =>
                  (readFlowEntries hs false fuel rest).map fun (entries, rest) =>
                    ((key, value) :: entries, rest)
      | some ts =>
          match readNode hs false false fuel ts with
          | none => none
          | some (key, rest) =>
              (readFlowEntries hs false fuel rest).map fun (entries, rest) =>
                ((key, nothing) :: entries, rest)

end

/-- Read the directives of a document: one version at most, and each handle at most once. -/
def readDirectives : Bool → Handles → List Token → Reading Handles
  | seen, hs, .versionDirective major minor :: rest =>
      if seen ∨ major ≠ 1 ∨ (minor ≠ 1 ∧ minor ≠ 2) then none
      else readDirectives true hs rest
  | seen, hs, .tagDirective handle start :: rest =>
      if hs.any (·.1 = handle) then none
      else readDirectives seen (hs ++ [(handle, start)]) rest
  | _, hs, ts => some (hs, ts)

def endsDocument : List Token → Bool
  | [] => true
  | .versionDirective .. :: _ | .tagDirective .. :: _ | .documentStart :: _
  | .documentEnd :: _ => true
  | _ => false

def readDocument (ts : List Token) : Reading Tree :=
  let fuel := 2 * ts.length + 4
  match ts with
  | .versionDirective .. :: _ | .tagDirective .. :: _ | .documentStart :: _ =>
      match readDirectives false [] ts with
      | some (hs, .documentStart :: rest) =>
          if endsDocument rest then some (nothing, rest)
          else readNode (hs ++ Handles.standard) true false fuel rest
      | _ => none
  | _ => readNode Handles.standard true false fuel ts

/-- The tree of a text's only document. A text without a document is an empty one; marks of
the end may follow it, and nothing else. -/
def ofTokens? : List Token → Option Tree
  | [] => some nothing
  | ts =>
      match readDocument ts with
      | none => none
      | some (tree, rest) => if rest.all (· = .documentEnd) then some tree else none

def ofText? (text : String) : Option Tree :=
  (Token.ofText? text).bind ofTokens?

end Tree

end Endpoints.Yaml

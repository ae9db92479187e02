import Endpoints.Action.RouteTable

/-!
# Fragments

A fragment lists parameters that several operations share. An entry is a parameter or refers to
a schema, whose fields then stand in its place.
-/

namespace Endpoints

inductive FragmentEntry where
  | schema (name : String)
  | parameter (p : Parameter)
  deriving DecidableEq, Repr

structure Fragment where
  entries : List FragmentEntry := []
  deriving DecidableEq, Repr

namespace FragmentEntry

def schemaKey : String := "x-include-schema"

def schemaName? : Content → Option String
  | .map entries =>
      (Content.fieldsOfEntries? [schemaKey] entries).bind fun fields =>
        field fields schemaKey Content.text?
  | _ => none

/-- Read an entry: a reference to a schema if it is one, else a parameter. -/
def ofContent? (c : Content) : Option FragmentEntry :=
  match schemaName? c with
  | some name => some (.schema name)
  | none => (Parameter.ofContent? c).map .parameter

end FragmentEntry

namespace Fragment

/-- The number of collections around an entry: the fragment and its list. -/
def entryDepth : Nat := 2

def readEntry (x : Yaml.Located) : Yaml.Budgeted FragmentEntry := do
  let c ← x.content entryDepth
  if c.isFormless then FragmentEntry.ofContent? c else failure

def read (x : Yaml.Located) : Yaml.Budgeted Fragment := do
  let parts ← x.fields ["parameters"]
  let entries ← fieldOr parts "parameters" [] (Yaml.Located.list readEntry)
  return { entries }

end Fragment

end Endpoints

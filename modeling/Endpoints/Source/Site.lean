import Endpoints.Operation.Draft
import Endpoints.Source.Fragment
import Endpoints.Source.Schema

/-!
# Named sources

Schemas and fragments are found by name in two directories. A schema is read once: what was read
at the first success holds for all later uses, while failures are not remembered. Fragments are
read at every use.

A lookup depends on the schemas read so far, adds lines to a log, and may fail; the schemas and
the log stay, whether it fails or not.
-/

namespace Endpoints

structure Site where
  files : FileTree := FileTree.empty
  schemaDirectory : String := "schemas"
  includesDirectory : String := "includes"

abbrev SchemaCache := Table String Schema

structure Outcome (α : Type) where
  result : Except Error α
  cache : SchemaCache
  log : Log

def Lookup (α : Type) : Type := SchemaCache → Outcome α

namespace Lookup

protected def pure {α : Type} (a : α) : Lookup α :=
  fun cache => ⟨.ok a, cache, []⟩

protected def bind {α β : Type} (x : Lookup α) (f : α → Lookup β) : Lookup β :=
  fun cache =>
    match x cache with
    | ⟨.error e, cache, log⟩ => ⟨.error e, cache, log⟩
    | ⟨.ok a, cache, log⟩ =>
        let next := f a cache
        ⟨next.result, next.cache, log ++ next.log⟩

instance : Monad Lookup where
  pure := Lookup.pure
  bind := Lookup.bind

def note (lines : Log) : Lookup Unit :=
  fun cache => ⟨.ok (), cache, lines⟩

def ofExcept {α : Type} (r : Except Error α) : Lookup α :=
  fun cache => ⟨r, cache, []⟩

@[simp] theorem pure_apply {α : Type} (a : α) (cache : SchemaCache) :
    (pure a : Lookup α) cache = ⟨.ok a, cache, []⟩ := rfl

theorem bind_apply {α β : Type} (x : Lookup α) (f : α → Lookup β) (cache : SchemaCache) :
    (x >>= f) cache =
      match x cache with
      | ⟨.error e, cache, log⟩ => ⟨.error e, cache, log⟩
      | ⟨.ok a, cache, log⟩ => ⟨(f a cache).result, (f a cache).cache, log ++ (f a cache).log⟩ :=
  rfl

@[simp] theorem note_apply (lines : Log) (cache : SchemaCache) :
    note lines cache = ⟨.ok (), cache, lines⟩ := rfl

@[simp] theorem ofExcept_apply {α : Type} (r : Except Error α) (cache : SchemaCache) :
    ofExcept r cache = ⟨r, cache, []⟩ := rfl

end Lookup

def schemaEndings : List String := ["yml", "yaml", "json"]

def fragmentEndings : List String := ["yml", "yaml"]

def candidate (directory name ending : String) : String :=
  Path.join directory (name ++ "." ++ ending)

namespace Site

/-- Find the file of a named source: the first ending under which there is a file counts. When
there is none, the error tells where the first one would be. -/
def locate (site : Site) (kind : SourceKind) (directory : String) (endings : List String)
    (name : String) : Except Error String :=
  match (endings.map (candidate directory name)).find? site.files.isFile with
  | some path => .ok path
  | none => .error (.unresolved kind name (candidate directory name (endings.headD "")))

def readSchema (site : Site) (name : String) : Except Error Schema := do
  let path ← site.locate .schema site.schemaDirectory schemaEndings name
  let schema ← RouteTable.readSource site.files path Schema.read
  match schema.fault? with
  | some fault => throw (.invalidSource path fault)
  | none => return schema

/-- The schema of a name: as it was read before, or read now and kept. -/
def schema (site : Site) (name : String) : Lookup Schema :=
  fun cache =>
    match cache.get? name with
    | some known => ⟨.ok known, cache, []⟩
    | none =>
        match site.readSchema name with
        | .error e => ⟨.error e, cache, []⟩
        | .ok read => ⟨.ok read, cache.set name read, []⟩

def schemaParameters (site : Site) (hint : Location) (name : String) :
    Lookup (List Parameter) := do
  let schema ← site.schema name
  Lookup.note schema.notices
  return schema.parameters hint

/-- Read a fragment from its file; the path is kept for faults in its entries. -/
def readFragment (site : Site) (name : String) : Except Error (String × Fragment) := do
  let path ← site.locate .fragment site.includesDirectory fragmentEndings name
  let fragment ← RouteTable.readSource site.files path Fragment.read
  return (path, fragment)

/-- A parameter of a fragment as it is taken over: one of open location gets a suggestion. -/
def withHint (hint : Location) (p : Parameter) : Parameter :=
  if p.location = .guess then { p with hint := some hint } else p

def entryParameters (site : Site) (hint : Location) (path : String) :
    FragmentEntry → Lookup (List Parameter)
  | .schema name => site.schemaParameters hint name
  | .parameter p =>
      if p.name = "" then Lookup.ofExcept (.error (.invalidSource path .unnamedEntry))
      else pure [withHint hint p]

def addEntries (site : Site) (hint : Location) (path : String) :
    Draft → List FragmentEntry → Lookup Draft
  | draft, [] => pure draft
  | draft, entry :: rest => do
      let ps ← site.entryParameters hint path entry
      addEntries site hint path (draft.addParameters ps) rest

def fragment (site : Site) (hint : Location) (name : String) : Lookup Draft := do
  let (path, fragment) ← Lookup.ofExcept (site.readFragment name)
  site.addEntries hint path Draft.blank fragment.entries

end Site

end Endpoints

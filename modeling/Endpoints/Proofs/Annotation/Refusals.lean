import Endpoints.Proofs.Annotation.Definitions

/-!
# Annotations that cannot take effect

A value fails when the line that it holds declares no parameter, when a schema or a fragment that it
names cannot be read, or when an entry of the fragment gives no parameter. So failing depends on the
value and on the files alone, and on nothing that was applied or read before.
-/

namespace Endpoints

section Failures

variable {α β : Type}

def failure? : Except Error α → Option Error
  | .ok _ => none
  | .error e => some e

@[simp] theorem failure?_ok (a : α) : failure? (.ok a) = none := rfl

@[simp] theorem failure?_error (e : Error) : failure? (.error e : Except Error α) = some e := rfl

theorem failure?_eq_some_iff {r : Except Error α} {e : Error} :
    failure? r = some e ↔ r = .error e := by
  cases r <;> simp

@[simp] theorem failure?_map (r : Except Error α) (f : α → β) :
    failure? (r.map f) = failure? r := by
  cases r <;> rfl

theorem failure?_gather (f : α → Except Error (List β)) (as : List α) :
    failure? (gather f as) = as.findSome? fun a => failure? (f a) := by
  induction as with
  | nil => rfl
  | cons a rest ih =>
    rw [gather, List.findSome?_cons]
    cases f a with
    | error e => rfl
    | ok bs => simpa using ih

end Failures

namespace Site

def entryRefusal? (site : Site) (path : String) : FragmentEntry → Option Error
  | .schema name => failure? (site.readSchema name)
  | .parameter p => if p.name = "" then some (.invalidSource path .unnamedEntry) else none

def fragmentRefusal? (site : Site) : Except Error (String × Fragment) → Option Error
  | .error e => some e
  | .ok (path, fragment) => fragment.entries.findSome? (site.entryRefusal? path)

def lineRefusal? (line : String) : Option Error :=
  match Parameter.splitName (Parameter.splitType (Text.words line)).2 with
  | .error fault => some (.malformed line fault)
  | .ok _ => none

/-- Why a key with a value cannot take effect: a line that is no declaration, or a source that
cannot be read. -/
def refusal? (site : Site) (key : String) (value : AnnotationValue) : Option Error :=
  match AnnotationKey.ofText? key with
  | some .parameter => lineRefusal? value.display
  | some .schema => failure? (site.readSchema value.display)
  | some .fragment => site.fragmentRefusal? (site.readFragment value.display)
  | _ => none

theorem failure?_lineDefinitions (hint : Location) (line : String) :
    failure? (lineDefinitions hint line) = lineRefusal? line := by
  unfold lineDefinitions lineRefusal? Parameter.ofDeclaration Parameter.ofWords
  cases hn : Parameter.splitName (Parameter.splitType (Text.words line)).2 with
  | error fault =>
    simp only [hn]
    rfl
  | ok found =>
    simp only [hn]
    rfl

theorem failure?_schemaDefinitions (site : Site) (hint : Location) (name : String) :
    failure? (site.schemaDefinitions hint name) = failure? (site.readSchema name) := by
  rw [schemaDefinitions, failure?_map]

theorem failure?_entryDefinitions (site : Site) (hint : Location) (path : String)
    (entry : FragmentEntry) :
    failure? (site.entryDefinitions hint path entry) = site.entryRefusal? path entry := by
  cases entry with
  | schema name => exact site.failure?_schemaDefinitions hint name
  | parameter p =>
    rw [entryDefinitions, entryRefusal?]
    split <;> rfl

theorem failure?_fragmentDefinitions (site : Site) (hint : Location) (name : String) :
    failure? (site.fragmentDefinitions hint name) =
      site.fragmentRefusal? (site.readFragment name) := by
  unfold fragmentDefinitions
  cases site.readFragment name with
  | error e => rfl
  | ok found =>
    obtain ⟨path, fragment⟩ := found
    have hentries := failure?_gather (site.entryDefinitions hint path) fragment.entries
    simp only [failure?_entryDefinitions] at hentries
    exact hentries

theorem failure?_definitions (site : Site) (hint : Location) (key : String)
    (value : AnnotationValue) :
    failure? (site.definitions hint key value) = site.refusal? key value := by
  cases hk : AnnotationKey.ofText? key with
  | none => simp only [definitions, refusal?, hk, failure?_ok]
  | some known =>
    simp only [definitions, refusal?, hk]
    cases known with
    | parameter => exact failure?_lineDefinitions hint _
    | schema => exact site.failure?_schemaDefinitions hint _
    | fragment => exact site.failure?_fragmentDefinitions hint _
    | _ => rfl

variable {site : Site} {cache : SchemaCache}

/-- Neither the draft nor the hint nor what was read before decides whether a value fails. -/
theorem failure?_apply (hc : site.Agrees cache) (hint : Location) (draft : Draft) (key : String)
    (value : AnnotationValue) :
    failure? (site.apply hint draft key value cache).result = site.refusal? key value := by
  rw [(site.settles_apply hint draft key value).result_eq hc, failure?_map, failure?_definitions]

theorem failure?_applyAll (hc : site.Agrees cache) (hint : Location) (draft : Draft)
    (pairs : List (String × AnnotationValue)) :
    failure? (site.applyAll hint draft pairs cache).result =
      pairs.findSome? fun pair => site.refusal? pair.1 pair.2 := by
  rw [(site.settles_applyAll hint draft pairs).result_eq hc, failure?_map, allDefinitions,
    failure?_gather]
  simp only [failure?_definitions]

end Site

end Endpoints

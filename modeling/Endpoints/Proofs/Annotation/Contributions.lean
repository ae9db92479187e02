import Endpoints.Proofs.Annotation.Definitions
import Endpoints.Proofs.Annotation.Values
import Endpoints.Proofs.Text.Letters

/-!
# Who contributes definitions

Of the known keys four contribute definitions: one for a line, two for a schema and one for a
fragment. The definitions of a sequence of pairs are those of each pair, one after the other.
-/

namespace Endpoints

namespace AnnotationKey

def spellings : AnnotationKey → List String
  | .summary => ["summary"]
  | .description => ["description"]
  | .operationId => ["operationid"]
  | .deprecated => ["deprecated"]
  | .list field => [field.name]
  | .parameter => ["parameter"]
  | .schema => ["params", "validate"]
  | .fragment => ["include"]

theorem ofText?_eq_some_iff (text : String) (key : AnnotationKey) :
    ofText? text = some key ↔ Text.lower text ∈ key.spellings := by
  constructor
  · intro h
    unfold ofText? at h
    split at h <;> cases h <;> simp_all [spellings, ListField.name]
  · intro h
    cases key with
    | list field => cases field <;> simp_all [spellings, ListField.name, ofText?]
    | schema =>
      rcases List.mem_pair.1 h with h | h <;> simp [ofText?, h]
    | _ => simp_all [spellings, ofText?]

def names (name text : String) : Bool := decide (Text.SameButCase text.toList name.toList)

theorem names_iff (name text : String) :
    names name text = true ↔ Text.lower text = Text.lower name := by
  rw [names, decide_eq_true_iff, Text.lower_eq_lower_iff]

theorem ofText?_eq_some_iff_names {key : AnnotationKey} {name : String}
    (h : key.spellings = [Text.lower name]) (text : String) :
    ofText? text = some key ↔ names name text = true := by
  rw [ofText?_eq_some_iff, h, List.mem_singleton, names_iff]

theorem ofText?_eq_parameter_iff {text : String} :
    ofText? text = some .parameter ↔ names "parameter" text = true :=
  ofText?_eq_some_iff_names rfl text

theorem ofText?_eq_fragment_iff {text : String} :
    ofText? text = some .fragment ↔ names "include" text = true :=
  ofText?_eq_some_iff_names rfl text

theorem ofText?_eq_schema_iff {text : String} :
    ofText? text = some .schema ↔ names "params" text = true ∨ names "validate" text = true := by
  rw [ofText?_eq_some_iff, names_iff, names_iff]
  exact List.mem_pair

def knownNames : List String :=
  ["summary", "description", "operationId", "deprecated", "tags", "consumes", "produces", "schemes",
    "parameter", "params", "validate", "include"]

/-- Whether a text names a known key. -/
def isKnown (text : String) : Bool := knownNames.any fun name => names name text

theorem isKnown_eq_isSome (text : String) : isKnown text = (ofText? text).isSome := by
  have hlower : knownNames.map Text.lower = ["summary", "description", "operationid", "deprecated",
      "tags", "consumes", "produces", "schemes", "parameter", "params", "validate", "include"] := by
    decide
  have hknown : isKnown text = true ↔ Text.lower text ∈ knownNames.map Text.lower := by
    rw [isKnown, List.any_eq_true, List.mem_map]
    exact exists_congr fun name => and_congr_right fun _ => (names_iff name text).trans eq_comm
  rw [Bool.eq_iff_iff, hknown, hlower, Option.isSome_iff_exists]
  constructor
  · intro h
    simp only [List.mem_cons, List.not_mem_nil, or_false] at h
    rcases h with h | h | h | h | h | h | h | h | h | h | h | h <;> simp [ofText?, h]
  · rintro ⟨key, hkey⟩
    rw [ofText?_eq_some_iff] at hkey
    cases key with
    | list field => cases field <;> simp_all [spellings, ListField.name]
    | schema => rcases List.mem_pair.1 hkey with h | h <;> simp [h]
    | _ => simp_all [spellings]

end AnnotationKey

theorem gather_eq_ok_iff {α β : Type} {f : α → Except Error (List β)} {as : List α} {bs : List β} :
    gather f as = .ok bs ↔
      ∃ blocks, List.Forall₂ (fun a block => f a = .ok block) as blocks ∧ blocks.flatten = bs := by
  induction as generalizing bs with
  | nil =>
    constructor
    · rintro ⟨⟩
      exact ⟨[], .nil, rfl⟩
    · rintro ⟨_, ⟨⟩, rfl⟩
      rfl
  | cons a rest ih =>
    rw [gather]
    cases hf : f a with
    | error e =>
      refine iff_of_false (by simp) ?_
      rintro ⟨_, hblocks, -⟩
      cases hblocks with
      | cons hfirst _ =>
        rw [hf] at hfirst
        cases hfirst
    | ok block =>
      constructor
      · intro h
        obtain ⟨others, hrest, rfl⟩ := ok_of_map_ok h
        obtain ⟨blocks, hblocks, rfl⟩ := ih.1 hrest
        exact ⟨block :: blocks, .cons hf hblocks, rfl⟩
      · rintro ⟨_, hblocks, rfl⟩
        cases hblocks with
        | cons hfirst hrest =>
          rw [hf] at hfirst
          cases hfirst
          simp only [ih.2 ⟨_, hrest, rfl⟩]
          rfl

namespace Site

/-- The definitions that an entry of a fragment contributes. -/
inductive EntryContributes (site : Site) (hint : Location) :
    FragmentEntry → List Definition → Prop where
  | schema {name schema} (reads : site.readSchema name = .ok schema) :
      EntryContributes site hint (.schema name) ((schema.parameters hint).map .field)
  | parameter {p} (named : p.name ≠ "") : EntryContributes site hint (.parameter p) [.entry p]

/-- The definitions that a key with a value contributes. -/
inductive Contributes (site : Site) (hint : Location) :
    String × AnnotationValue → List Definition → Prop where
  | line {key value line p} (names : AnnotationKey.names "parameter" key = true)
      (shows : value.Shows line) (reads : Parameter.ofDeclaration line hint = .ok p) :
      Contributes site hint (key, value) [.declared p]
  | schema {key value name schema}
      (names : AnnotationKey.names "params" key = true ∨ AnnotationKey.names "validate" key = true)
      (shows : value.Shows name) (reads : site.readSchema name = .ok schema) :
      Contributes site hint (key, value) ((schema.parameters hint).map .field)
  | fragment {key value name path fragment blocks}
      (names : AnnotationKey.names "include" key = true) (shows : value.Shows name)
      (reads : site.readFragment name = .ok (path, fragment))
      (entries : List.Forall₂ (EntryContributes site hint) fragment.entries blocks) :
      Contributes site hint (key, value) blocks.flatten
  | nothing {key value} (names : ∀ name ∈ ["parameter", "params", "validate", "include"],
      AnnotationKey.names name key = false) : Contributes site hint (key, value) []

variable {site : Site} {hint : Location}

theorem entryContributes_iff {path : String} {entry : FragmentEntry} {ds : List Definition} :
    site.EntryContributes hint entry ds ↔ site.entryDefinitions hint path entry = .ok ds := by
  constructor
  · rintro (⟨hreads⟩ | ⟨hnamed⟩)
    · rw [entryDefinitions, schemaDefinitions, hreads]
      rfl
    · rw [entryDefinitions, if_neg hnamed]
  · intro h
    cases entry with
    | schema name =>
      obtain ⟨schema, hreads, rfl⟩ := ok_of_map_ok h
      exact .schema hreads
    | parameter p =>
      rw [entryDefinitions] at h
      split at h
      · cases h
      · rename_i hnamed
        cases h
        exact .parameter hnamed

theorem fragmentDefinitions_eq_ok_iff {name : String} {ds : List Definition} :
    site.fragmentDefinitions hint name = .ok ds ↔
      ∃ path fragment blocks, site.readFragment name = .ok (path, fragment) ∧
        List.Forall₂ (site.EntryContributes hint) fragment.entries blocks ∧
        blocks.flatten = ds := by
  constructor
  · intro h
    obtain ⟨⟨path, fragment⟩, hreads, hgather⟩ := ok_of_bind_ok h
    obtain ⟨blocks, hblocks, hds⟩ := gather_eq_ok_iff.1 hgather
    exact ⟨path, fragment, blocks, hreads, hblocks.imp fun _ _ => entryContributes_iff.2, hds⟩
  · rintro ⟨path, fragment, blocks, hreads, hblocks, hds⟩
    rw [fragmentDefinitions, hreads]
    exact gather_eq_ok_iff.2 ⟨blocks, hblocks.imp fun _ _ => entryContributes_iff.1, hds⟩

theorem forall_names_eq_false_iff {key : String} :
    (∀ name ∈ ["parameter", "params", "validate", "include"],
      AnnotationKey.names name key = false) ↔
      ∀ known ∈ [AnnotationKey.parameter, .schema, .fragment],
        AnnotationKey.ofText? key ≠ some known := by
  simp [AnnotationKey.ofText?_eq_parameter_iff, AnnotationKey.ofText?_eq_schema_iff,
    AnnotationKey.ofText?_eq_fragment_iff, and_assoc]

theorem definitions_of_contributes {key : String} {value : AnnotationValue} {ds : List Definition}
    (h : site.Contributes hint (key, value) ds) : site.definitions hint key value = .ok ds := by
  cases h with
  | line names shows reads =>
    have hkey := AnnotationKey.ofText?_eq_parameter_iff.2 names
    simp only [definitions, hkey, AnnotationValue.shows_iff.1 shows, lineDefinitions, reads]
  | schema names shows reads =>
    have hkey := AnnotationKey.ofText?_eq_schema_iff.2 names
    simp only [definitions, hkey, AnnotationValue.shows_iff.1 shows, schemaDefinitions, reads]
    rfl
  | fragment names shows reads entries =>
    have hkey := AnnotationKey.ofText?_eq_fragment_iff.2 names
    simp only [definitions, hkey, AnnotationValue.shows_iff.1 shows]
    exact fragmentDefinitions_eq_ok_iff.2 ⟨_, _, _, reads, entries, rfl⟩
  | nothing names =>
    have hother := forall_names_eq_false_iff.1 names
    rw [definitions]
    split
    · exact absurd ‹_› (hother .parameter (by simp))
    · exact absurd ‹_› (hother .schema (by simp))
    · exact absurd ‹_› (hother .fragment (by simp))
    · rfl

theorem contributes_of_definitions {key : String} {value : AnnotationValue} {ds : List Definition}
    (h : site.definitions hint key value = .ok ds) : site.Contributes hint (key, value) ds := by
  have hshows := AnnotationValue.shows_iff.2 (Eq.refl value.display)
  unfold definitions at h
  split at h
  · rename_i hkey
    unfold lineDefinitions at h
    split at h
    · rename_i p hreads
      cases h
      exact .line (AnnotationKey.ofText?_eq_parameter_iff.1 hkey) hshows hreads
    · cases h
  · rename_i hkey
    obtain ⟨schema, hreads, rfl⟩ := ok_of_map_ok h
    exact .schema (AnnotationKey.ofText?_eq_schema_iff.1 hkey) hshows hreads
  · rename_i hkey
    obtain ⟨path, fragment, blocks, hreads, hentries, rfl⟩ := fragmentDefinitions_eq_ok_iff.1 h
    exact .fragment (AnnotationKey.ofText?_eq_fragment_iff.1 hkey) hshows hreads hentries
  · rename_i hparameter hschema hfragment
    cases h
    exact .nothing (forall_names_eq_false_iff.2 (by simpa using ⟨hparameter, hschema, hfragment⟩))

theorem contributes_iff {key : String} {value : AnnotationValue} {ds : List Definition} :
    site.Contributes hint (key, value) ds ↔ site.definitions hint key value = .ok ds :=
  ⟨definitions_of_contributes, contributes_of_definitions⟩

/-- The definitions of a sequence of pairs are what its pairs contribute. -/
theorem allDefinitions_eq_ok_iff {pairs : List (String × AnnotationValue)}
    {ds : List Definition} : site.allDefinitions hint pairs = .ok ds ↔
      ∃ blocks, List.Forall₂ (site.Contributes hint) pairs blocks ∧ blocks.flatten = ds := by
  simp only [allDefinitions, gather_eq_ok_iff, ← contributes_iff]

end Site

end Endpoints

import Endpoints.Proofs.Annotation.Definitions
import Endpoints.Proofs.Parameter.Declarations
import Endpoints.Proofs.Source.Fragments

/-!
# Where definitions place their parameters

Only an entry of a fragment can state a location. Every other definition, and an entry that leaves
the location open, goes where the hint says. Either way nothing of the hint is left once the
parameter is settled.
-/

namespace Endpoints

namespace Definition

def name : Definition → String
  | .declared p | .field p | .entry p => p.name

/-- The location that a definition states, if it states one that is not open. -/
def stated? : Definition → Option Location
  | .declared _ | .field _ => none
  | .entry p => if p.location = .guess then none else some p.location

/-- A definition whose parameter is settled at the stated location or at the hint, and for good. -/
def IsPlaced (hint : Location) (d : Definition) : Prop :=
  ((d.parameter hint).settle hint).location = d.stated?.getD hint ∧
    ((d.parameter hint).settle hint).hint = none

theorem name_parameter (hint : Location) (d : Definition) : (d.parameter hint).name = d.name := by
  cases d with
  | declared p => rfl
  | field p => rfl
  | entry p =>
    simp only [parameter, Site.withHint, name]
    split <;> rfl

theorem ne_guess_of_stated? {d : Definition} {l : Location} (h : d.stated? = some l) :
    l ≠ .guess := by
  cases d with
  | declared p => cases h
  | field p => cases h
  | entry p =>
    simp only [stated?] at h
    split at h
    · cases h
    · rename_i hp
      cases h
      exact hp

end Definition

namespace Parameter

theorem name_settle (fallback : Location) (p : Parameter) : (p.settle fallback).name = p.name := by
  rw [settle]
  split <;> rfl

/-- A parameter that is at the hint, or open with the hint as a suggestion, settles there. -/
theorem settle_of_hinted {hint : Location} {p : Parameter}
    (h : p.location = hint ∧ p.hint = none ∨ p.location = .guess ∧ p.hint = some hint) :
    (p.settle hint).location = hint ∧ (p.settle hint).hint = none := by
  unfold settle
  rcases h with ⟨hl, hn⟩ | ⟨hl, hn⟩
  · split
    · simp [hn]
    · exact ⟨hl, hn⟩
  · simp [hl, hn]

theorem location_of_ofDeclaration {line : String} {hint : Location} {p : Parameter}
    (h : ofDeclaration line hint = .ok p) : p.location = hint ∧ p.hint = none := by
  obtain ⟨d, -, -, rfl⟩ := ofWords_eq_ok_iff.1 h
  exact ⟨rfl, rfl⟩

end Parameter

theorem Schema.location_parameter (s : Schema) (hint : Location) (field : String)
    (d : FieldDefinition) :
    (s.parameter hint field d).location = .guess ∧ (s.parameter hint field d).hint = some hint := by
  simp only [parameter]
  cases (s.aliases.get? field).bind AliasTarget.replacement? <;> exact ⟨rfl, rfl⟩

theorem Schema.isPlaced_field {s : Schema} {hint : Location} {p : Parameter}
    (h : p ∈ s.parameters hint) : (Definition.field p).IsPlaced hint := by
  obtain ⟨⟨field, d⟩, _, rfl⟩ := List.mem_map.1 h
  exact Parameter.settle_of_hinted (.inr (s.location_parameter hint field d))

/-- An entry of a fragment goes where it says, or else to the hint. -/
theorem Parameter.isPlaced_entry (hint : Location) {p : Parameter} (h : p.hint = none) :
    (Definition.entry p).IsPlaced hint := by
  simp only [Definition.IsPlaced, Definition.stated?, Definition.parameter, Site.withHint]
  by_cases hp : p.location = .guess
  · simp only [hp, if_true]
    exact settle_of_hinted (.inr ⟨rfl, rfl⟩)
  · simp only [hp, if_false, settle]
    exact ⟨rfl, h⟩

namespace Site

variable {site : Site} {hint : Location} {ds : List Definition}

section Sources

variable {P : Definition → Prop}

theorem forall_of_lineDefinitions
    (hline : ∀ line p, Parameter.ofDeclaration line hint = .ok p → P (.declared p))
    {line : String} (h : lineDefinitions hint line = .ok ds) : ∀ d ∈ ds, P d := by
  rw [lineDefinitions] at h
  cases hp : Parameter.ofDeclaration line hint with
  | error fault =>
    rw [hp] at h
    cases h
  | ok p =>
    rw [hp] at h
    cases h
    exact List.forall_mem_singleton.2 (hline line p hp)

section Schemas

variable (hfield : ∀ name schema, site.readSchema name = .ok schema →
  ∀ p ∈ schema.parameters hint, P (.field p))

include hfield

theorem forall_of_schemaDefinitions {name : String}
    (h : site.schemaDefinitions hint name = .ok ds) : ∀ d ∈ ds, P d := by
  obtain ⟨schema, hschema, rfl⟩ := ok_of_map_ok h
  intro d hd
  obtain ⟨p, hp, rfl⟩ := List.mem_map.1 hd
  exact hfield name schema hschema p hp

variable (hentry : ∀ p : Parameter, p.hint = none → p.name ≠ "" → P (.entry p))

include hentry

theorem forall_of_entryDefinitions {path : String} {entry : FragmentEntry}
    (hplain : entry.IsPlain) (h : site.entryDefinitions hint path entry = .ok ds) :
    ∀ d ∈ ds, P d := by
  cases entry with
  | schema name => exact forall_of_schemaDefinitions hfield h
  | parameter p =>
    simp only [entryDefinitions] at h
    split at h
    · cases h
    · rename_i hname
      cases h
      exact List.forall_mem_singleton.2 (hentry p hplain hname)

theorem forall_of_fragmentDefinitions {name : String}
    (h : site.fragmentDefinitions hint name = .ok ds) : ∀ d ∈ ds, P d := by
  obtain ⟨found, hr, hgather⟩ := ok_of_bind_ok h
  have hplain := isPlain_of_readFragment hr
  refine forall_of_gather (fun entry he ds hd => ?_) hgather
  exact forall_of_entryDefinitions hfield hentry (hplain entry he) hd

/-- What holds of a definition from any source holds of all that annotations bring in. -/
theorem forall_of_allDefinitions
    (hline : ∀ line p, Parameter.ofDeclaration line hint = .ok p → P (.declared p))
    {pairs : List (String × AnnotationValue)} (h : site.allDefinitions hint pairs = .ok ds) :
    ∀ d ∈ ds, P d := by
  refine forall_of_gather (fun pair _ ds hd => ?_) h
  simp only [definitions] at hd
  split at hd
  · exact forall_of_lineDefinitions hline hd
  · exact forall_of_schemaDefinitions hfield hd
  · exact forall_of_fragmentDefinitions hfield hentry hd
  · cases hd
    simp

end Schemas

end Sources

/-- Whatever brings a definition in, its parameter is settled. -/
theorem isPlaced_of_allDefinitions {pairs : List (String × AnnotationValue)}
    (h : site.allDefinitions hint pairs = .ok ds) : ∀ d ∈ ds, d.IsPlaced hint := by
  refine forall_of_allDefinitions (fun _ schema _ p hp => schema.isPlaced_field hp)
    (fun p hp _ => p.isPlaced_entry hint hp) (fun line p hp => ?_) h
  exact Parameter.settle_of_hinted (.inl (Parameter.location_of_ofDeclaration hp))

end Site

end Endpoints

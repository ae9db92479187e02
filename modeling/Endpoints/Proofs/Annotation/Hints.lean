import Endpoints.Proofs.Annotation.Provenance
import Endpoints.Proofs.Lookup.Parallel

/-!
# What a hint decides

Applying the same annotations under two hints gives drafts whose parameters correspond one to one.
Two parameters that correspond are equal, or each is at its hint, or each is open and suggests its
hint. Files, caches, logs and errors are the same, and once they are settled the parameters differ
at most in being at the one hint and at the other.
-/

namespace Endpoints

namespace Parameter

inductive Corresponds (h₁ h₂ : Location) : Parameter → Parameter → Prop where
  | stated {p} (hp : p.location ≠ .guess) : Corresponds h₁ h₂ p p
  | declared {p} (hp : p.location = h₁) : Corresponds h₁ h₂ p { p with location := h₂ }
  | guessed {p} (hp : p.location = .guess) (hh : p.hint = some h₁) :
      Corresponds h₁ h₂ p { p with hint := some h₂ }

structure DiffersAt (l₁ l₂ : Location) (p q : Parameter) : Prop where
  rest_eq : q = { p with location := q.location }
  location : p.location ≠ q.location → p.location = l₁ ∧ q.location = l₂

variable {h₁ h₂ : Location} {p q : Parameter}

theorem Corresponds.name_eq (h : Corresponds h₁ h₂ p q) : p.name = q.name := by
  cases h <;> rfl

theorem Corresponds.settle (hne₁ : h₁ ≠ .guess) (hne₂ : h₂ ≠ .guess)
    (h : Corresponds h₁ h₂ p q) : DiffersAt h₁ h₂ (p.settle h₁) (q.settle h₂) := by
  cases h with
  | stated hp =>
    simp only [Parameter.settle, hp, if_false]
    exact ⟨rfl, fun hne => absurd rfl hne⟩
  | declared hp =>
    simp only [Parameter.settle, hp, hne₁, hne₂, if_false]
    exact ⟨rfl, fun _ => ⟨hp, rfl⟩⟩
  | guessed hp hh =>
    simp only [Parameter.settle, hp, hh, if_true, Option.getD_some]
    exact ⟨rfl, fun _ => ⟨rfl, rfl⟩⟩

theorem DiffersAt.eq_of_same {l₁ l₂ : Location} (h : DiffersAt l₁ l₂ p q) (hl : l₁ = l₂) :
    q = p := by
  have hsame : p.location = q.location := by
    by_contra hne
    obtain ⟨hp, hq⟩ := h.location hne
    exact hne (hp.trans (hl.trans hq.symm))
  rw [h.rest_eq, ← hsame]

/-- The location that is asked for plays no part in reading a line. -/
theorem ofDeclaration_location (line : String) (l l' : Location) :
    ofDeclaration line l' = (ofDeclaration line l).map fun p => { p with location := l' } := by
  cases hn : splitName (splitType (Text.words line)).2 with
  | error fault =>
    simp only [ofDeclaration, ofWords, hn]
    rfl
  | ok found =>
    simp only [ofDeclaration, ofWords, hn]
    rfl

end Parameter

inductive Draft.Corresponds (h₁ h₂ : Location) (m₁ m₂ : Option HttpMethod) :
    Draft → Draft → Prop where
  | mk {d : Draft} (ps : ParameterOverlay) (hm : d.method = m₁)
      (h : List.Forall₂ (Parameter.Corresponds h₁ h₂) d.parameters.toList ps.toList) :
      Corresponds h₁ h₂ m₁ m₂ d { d with method := m₂, parameters := ps }

inductive Change.Corresponds (h₁ h₂ : Location) : Change → Change → Prop where
  | same {c : Change} (hc : ∀ ps, c ≠ .parameters ps) : Corresponds h₁ h₂ c c
  | parameters {ps qs : List Parameter}
      (h : List.Forall₂ (Parameter.Corresponds h₁ h₂) ps qs) :
      Corresponds h₁ h₂ (.parameters ps) (.parameters qs)

namespace Draft

variable {h₁ h₂ : Location} {m₁ m₂ : Option HttpMethod} {d e : Draft}

theorem Corresponds.addParameters (h : Corresponds h₁ h₂ m₁ m₂ d e) {ps qs : List Parameter}
    (hps : List.Forall₂ (Parameter.Corresponds h₁ h₂) ps qs) :
    Corresponds h₁ h₂ m₁ m₂ (d.addParameters ps) (e.addParameters qs) := by
  cases h with
  | mk parameters hm hd =>
    have hname : ∀ p q, Parameter.Corresponds h₁ h₂ p q → p.name = q.name := fun _ _ h => h.name_eq
    exact .mk (d := d.addParameters ps) (parameters.putAll qs) hm
      (Overlay.forall₂_putAll hname hd hps)

theorem Corresponds.change (h : Corresponds h₁ h₂ m₁ m₂ d e) {c c' : Change}
    (hc : c.Corresponds h₁ h₂ c') : Corresponds h₁ h₂ m₁ m₂ (d.change c) (e.change c') := by
  cases hc with
  | parameters hps => exact h.addParameters hps
  | same hne =>
    cases h with
    | mk ps hm hd =>
      cases c with
      | parameters ps => exact absurd rfl (hne ps)
      | extend field values =>
        cases field with
        | tags => exact .mk (d := d.extend .tags values) ps hm hd
        | consumes => exact .mk (d := d.extend .consumes values) ps hm hd
        | produces => exact .mk (d := d.extend .produces values) ps hm hd
        | schemes => exact .mk (d := d.extend .schemes values) ps hm hd
      | nothing => exact .mk ps hm hd
      | summary text => exact .mk (d := { d with summary := some text }) ps hm hd
      | description text => exact .mk (d := { d with description := some text }) ps hm hd
      | operationId text => exact .mk (d := { d with operationId := some text }) ps hm hd
      | deprecated flag => exact .mk (d := { d with deprecated := flag }) ps hm hd

end Draft

namespace Schema

theorem corresponds_parameter (s : Schema) (h₁ h₂ : Location) (field : String)
    (d : FieldDefinition) :
    Parameter.Corresponds h₁ h₂ (s.parameter h₁ field d) (s.parameter h₂ field d) := by
  obtain ⟨hlocation, hhint⟩ := s.location_parameter h₁ field d
  have hsame : s.parameter h₂ field d = { s.parameter h₁ field d with hint := some h₂ } := by
    unfold parameter
    cases (s.aliases.get? field).bind AliasTarget.replacement? <;> rfl
  rw [hsame]
  exact .guessed hlocation hhint

theorem forall₂_parameters (s : Schema) (h₁ h₂ : Location) :
    List.Forall₂ (Parameter.Corresponds h₁ h₂) (s.parameters h₁) (s.parameters h₂) := by
  rw [parameters, parameters, List.forall₂_map_left_iff, List.forall₂_map_right_iff,
    List.forall₂_same]
  exact fun _ _ => s.corresponds_parameter h₁ h₂ _ _

end Schema

namespace Site

open Lookup

variable {h₁ h₂ : Location} {m₁ m₂ : Option HttpMethod} {d e : Draft}

theorem corresponds_withHint (h₁ h₂ : Location) (p : Parameter) :
    Parameter.Corresponds h₁ h₂ (withHint h₁ p) (withHint h₂ p) := by
  unfold withHint
  split
  · rename_i hp
    exact .guessed (p := { p with hint := some h₁ }) hp rfl
  · rename_i hp
    exact .stated hp

theorem parallel_schemaParameters (site : Site) (h₁ h₂ : Location) (name : String) :
    Parallel (List.Forall₂ (Parameter.Corresponds h₁ h₂)) (site.schemaParameters h₁ name)
      (site.schemaParameters h₂ name) :=
  parallel_bind_self _ fun schema => parallel_bind_self _ fun _ =>
    parallel_pure (schema.forall₂_parameters h₁ h₂)

theorem parallel_entryParameters (site : Site) (h₁ h₂ : Location) (path : String)
    (entry : FragmentEntry) :
    Parallel (List.Forall₂ (Parameter.Corresponds h₁ h₂)) (site.entryParameters h₁ path entry)
      (site.entryParameters h₂ path entry) := by
  cases entry with
  | schema name => exact site.parallel_schemaParameters h₁ h₂ name
  | parameter p =>
    by_cases hp : p.name = ""
    · simp only [entryParameters, hp, if_true]
      exact parallel_error _ _
    · simp only [entryParameters, hp, if_false]
      exact parallel_pure (.cons (corresponds_withHint h₁ h₂ p) .nil)

theorem parallel_addEntries (site : Site) (path : String) (h : d.Corresponds h₁ h₂ m₁ m₂ e)
    (entries : List FragmentEntry) :
    Parallel (Draft.Corresponds h₁ h₂ m₁ m₂) (site.addEntries h₁ path d entries)
      (site.addEntries h₂ path e entries) := by
  induction entries generalizing d e with
  | nil => exact parallel_pure h
  | cons entry rest ih =>
    exact (site.parallel_entryParameters h₁ h₂ path entry).bind fun _ _ hps =>
      ih (h.addParameters hps)

theorem parallel_fragment (site : Site) (h₁ h₂ : Location) (name : String) :
    Parallel (Draft.Corresponds h₁ h₂ none none) (site.fragment h₁ name)
      (site.fragment h₂ name) := by
  have hblank : Draft.Corresponds h₁ h₂ none none Draft.blank Draft.blank :=
    .mk Overlay.empty rfl .nil
  exact parallel_bind_self _ fun found =>
    site.parallel_addEntries found.1 hblank found.2.entries

theorem parallel_declaredParameter (h₁ h₂ : Location) (line : String) :
    Parallel (Parameter.Corresponds h₁ h₂) (declaredParameter h₁ line)
      (declaredParameter h₂ line) := by
  refine parallel_bind_self _ fun _ => ?_
  rw [Parameter.ofDeclaration_location line h₁ h₂]
  cases hp : Parameter.ofDeclaration line h₁ with
  | error fault => exact parallel_error _ _
  | ok p => exact parallel_pure (.declared (Parameter.location_of_ofDeclaration hp).1)

/-- The key and the value alone decide which change it is, and the hint only where open parameters
go. -/
theorem parallel_change (site : Site) (h₁ h₂ : Location) (key : String)
    (value : AnnotationValue) :
    Parallel (Change.Corresponds h₁ h₂) (site.change h₁ key value) (site.change h₂ key value) := by
  unfold change
  cases AnnotationKey.ofText? key with
  | none => exact parallel_pure (.same nofun)
  | some known =>
    cases known with
    | parameter =>
      exact (parallel_declaredParameter h₁ h₂ value.display).map fun _ _ hp =>
        .parameters (.cons hp .nil)
    | schema =>
      exact (site.parallel_schemaParameters h₁ h₂ value.display).map fun _ _ => .parameters
    | fragment =>
      refine (site.parallel_fragment h₁ h₂ value.display).map fun d e hde => ?_
      cases hde with
      | mk ps hm h => exact .parameters h
    | _ => exact parallel_pure (.same nofun)

theorem parallel_apply (site : Site) (h : d.Corresponds h₁ h₂ m₁ m₂ e) (key : String)
    (value : AnnotationValue) :
    Parallel (Draft.Corresponds h₁ h₂ m₁ m₂) (site.apply h₁ d key value)
      (site.apply h₂ e key value) :=
  (site.parallel_change h₁ h₂ key value).map fun _ _ => h.change

theorem parallel_applyAll (site : Site) (h : d.Corresponds h₁ h₂ m₁ m₂ e)
    (pairs : List (String × AnnotationValue)) :
    Parallel (Draft.Corresponds h₁ h₂ m₁ m₂) (site.applyAll h₁ d pairs)
      (site.applyAll h₂ e pairs) := by
  induction pairs generalizing d e with
  | nil => exact parallel_pure h
  | cons pair rest ih => exact (site.parallel_apply h pair.1 pair.2).bind fun _ _ => ih

end Site

end Endpoints

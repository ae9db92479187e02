import Endpoints.Annotation.Effect
import Endpoints.Proofs.Lookup.Settling

/-!
# The definitions that annotations bring in

An annotation may define parameters: one that its value declares, those of the fields of a schema,
or those of the entries of a fragment. The definitions are read off the files, in order and with
repetitions. Applying annotations is shown to be laying their definitions over the draft and
setting its other fields, over every cache that agrees with the files.
-/

namespace Endpoints

/-- A parameter, with the kind of source that defines it. -/
inductive Definition where
  /-- It is declared in one line. -/
  | declared (p : Parameter)
  /-- It stands for a field of a schema. -/
  | field (p : Parameter)
  /-- It is an entry of a fragment, as it stands there. -/
  | entry (p : Parameter)

/-- The parameter that a definition lays over a draft. -/
def Definition.parameter (hint : Location) : Definition → Parameter
  | .declared p => p
  | .field p => p
  | .entry p => Site.withHint hint p

/-- The results of a function on a list, one after the other, or its first failure. -/
def gather {α β : Type} (f : α → Except Error (List β)) : List α → Except Error (List β)
  | [] => .ok []
  | a :: rest =>
      match f a with
      | .error e => .error e
      | .ok bs => (gather f rest).map (bs ++ ·)

theorem forall_of_gather {α β : Type} {f : α → Except Error (List β)} {P : β → Prop}
    {as : List α} (h : ∀ a ∈ as, ∀ bs, f a = .ok bs → ∀ b ∈ bs, P b) {bs : List β}
    (hg : gather f as = .ok bs) : ∀ b ∈ bs, P b := by
  induction as generalizing bs with
  | nil =>
    cases hg
    simp
  | cons a rest ih =>
    rw [List.forall_mem_cons] at h
    simp only [gather] at hg
    cases hf : f a with
    | error e =>
      rw [hf] at hg
      cases hg
    | ok first =>
      rw [hf] at hg
      obtain ⟨others, hr, rfl⟩ := ok_of_map_ok hg
      intro b hb
      rcases List.mem_append.1 hb with hb | hb
      · exact h.1 first hf b hb
      · exact ih h.2 hr b hb

namespace Site

open Lookup

def schemaDefinitions (site : Site) (hint : Location) (name : String) :
    Except Error (List Definition) :=
  (site.readSchema name).map fun schema => (schema.parameters hint).map .field

def entryDefinitions (site : Site) (hint : Location) (path : String) :
    FragmentEntry → Except Error (List Definition)
  | .schema name => site.schemaDefinitions hint name
  | .parameter p => if p.name = "" then .error (.invalidSource path .unnamedEntry)
      else .ok [.entry p]

def fragmentDefinitions (site : Site) (hint : Location) (name : String) :
    Except Error (List Definition) := do
  let (path, fragment) ← site.readFragment name
  gather (site.entryDefinitions hint path) fragment.entries

def lineDefinitions (hint : Location) (line : String) : Except Error (List Definition) :=
  match Parameter.ofDeclaration line hint with
  | .ok p => .ok [.declared p]
  | .error fault => .error (.malformed line fault)

def definitions (site : Site) (hint : Location) (key : String) (value : AnnotationValue) :
    Except Error (List Definition) :=
  match AnnotationKey.ofText? key with
  | some .parameter => lineDefinitions hint value.display
  | some .schema => site.schemaDefinitions hint value.display
  | some .fragment => site.fragmentDefinitions hint value.display
  | _ => .ok []

def allDefinitions (site : Site) (hint : Location) (pairs : List (String × AnnotationValue)) :
    Except Error (List Definition) :=
  gather (fun (key, value) => site.definitions hint key value) pairs

end Site

def AnnotationKey.plainChange (value : AnnotationValue) : AnnotationKey → Change
  | .summary => .summary value.display
  | .description => .description value.display
  | .operationId => .operationId value.display
  | .deprecated => .deprecated value.isTruthy
  | .list field => .extend field value.listed
  | .parameter | .schema | .fragment => .nothing

def AnnotationValue.plainChange (value : AnnotationValue) (text : String) : Change :=
  match AnnotationKey.ofText? text with
  | some key => key.plainChange value
  | none => .nothing

namespace Draft

def changePlain (d : Draft) (pairs : List (String × AnnotationValue)) : Draft :=
  pairs.foldl (fun d pair => d.change (pair.2.plainChange pair.1)) d

theorem changePlain_cons (d : Draft) (pair : String × AnnotationValue)
    (rest : List (String × AnnotationValue)) :
    d.changePlain (pair :: rest) = (d.change (pair.2.plainChange pair.1)).changePlain rest := rfl

def define (hint : Location) (d : Draft) (ds : List Definition) : Draft :=
  d.addParameters (ds.map (Definition.parameter hint))

theorem define_append (hint : Location) (d : Draft) (ds es : List Definition) :
    d.define hint (ds ++ es) = (d.define hint ds).define hint es := by
  simp [define, addParameters, Overlay.putAll_append]

theorem change_plainChange_define (hint : Location) (d : Draft) (ds : List Definition)
    (key : String) (value : AnnotationValue) :
    (d.define hint ds).change (value.plainChange key) =
      (d.change (value.plainChange key)).define hint ds := by
  unfold AnnotationValue.plainChange
  cases AnnotationKey.ofText? key with
  | none => rfl
  | some known =>
    cases known with
    | list field => cases field <;> rfl
    | _ => rfl

theorem changePlain_define (hint : Location) (d : Draft) (ds : List Definition)
    (pairs : List (String × AnnotationValue)) :
    (d.define hint ds).changePlain pairs = (d.changePlain pairs).define hint ds := by
  induction pairs generalizing d with
  | nil => rfl
  | cons pair rest ih =>
    rw [changePlain_cons, changePlain_cons, change_plainChange_define, ih]

end Draft

theorem map_parameter_field (hint : Location) (ps : List Parameter) :
    (ps.map Definition.field).map (Definition.parameter hint) = ps := by
  simp [Definition.parameter, Function.comp_def]

namespace Site

open Lookup

theorem map_parameter_schemaDefinitions (site : Site) (hint : Location) (name : String) :
    (site.schemaDefinitions hint name).map (List.map (Definition.parameter hint)) =
      (site.readSchema name).map fun schema => schema.parameters hint := by
  simp only [schemaDefinitions, map_map_result, map_parameter_field]

theorem settles_entryParameters (site : Site) (hint : Location) (path : String)
    (entry : FragmentEntry) :
    Settles site (site.entryParameters hint path entry)
      ((site.entryDefinitions hint path entry).map
        (List.map (Definition.parameter hint))) := by
  cases entry with
  | schema name =>
    rw [entryDefinitions, map_parameter_schemaDefinitions]
    exact site.settles_schemaParameters hint name
  | parameter p =>
    by_cases hp : p.name = ""
    · simp only [entryParameters, entryDefinitions, hp, if_true]
      exact settles_ofExcept site _
    · simp only [entryParameters, entryDefinitions, hp, if_false]
      exact settles_pure site _

theorem settles_addEntries (site : Site) (hint : Location) (path : String) (draft : Draft)
    (entries : List FragmentEntry) :
    Settles site (site.addEntries hint path draft entries)
      ((gather (site.entryDefinitions hint path) entries).map (draft.define hint)) := by
  induction entries generalizing draft with
  | nil => exact settles_pure site draft
  | cons entry rest ih =>
    have h := site.settles_entryParameters hint path entry
    simp only [gather]
    cases he : site.entryDefinitions hint path entry with
    | error e =>
      rw [he] at h
      exact h.bind_error
    | ok ds =>
      rw [he] at h
      have hrest : Settles site (site.addEntries hint path draft (entry :: rest)) _ :=
        h.bind_ok (ih (draft.define hint ds))
      cases hg : gather (site.entryDefinitions hint path) rest with
      | error e => simpa [hg, Except.map] using hrest
      | ok es => simpa [hg, Except.map, Draft.define_append] using hrest

theorem settles_fragment (site : Site) (hint : Location) (name : String) :
    Settles site (site.fragment hint name)
      ((site.fragmentDefinitions hint name).map (Draft.blank.define hint)) := by
  unfold fragmentDefinitions
  cases hr : site.readFragment name with
  | error e =>
    have h : Settles site (ofExcept (site.readFragment name)) (.error e) := by
      rw [hr]
      exact settles_ofExcept site _
    exact h.bind_error
  | ok found =>
    have h : Settles site (ofExcept (site.readFragment name)) (.ok found) := by
      rw [hr]
      exact settles_ofExcept site _
    exact h.bind_ok (site.settles_addEntries hint found.1 Draft.blank found.2.entries)

theorem settles_declaredParameter (site : Site) (hint : Location) (line : String) :
    Settles site (declaredParameter hint line >>= fun p => pure (Change.parameters [p]))
      ((lineDefinitions hint line).map
        fun ds => .parameters (ds.map (Definition.parameter hint))) := by
  have hnote := settles_note site (Parameter.declarationNotices line)
  unfold declaredParameter lineDefinitions
  cases hp : Parameter.ofDeclaration line hint with
  | error fault => exact (hnote.bind_ok (settles_ofExcept site _)).bind_error
  | ok p => exact (hnote.bind_ok (settles_pure site p)).bind_ok (settles_pure site _)

theorem addParameters_blank_define (hint : Location) (draft : Draft) (ds : List Definition) :
    draft.addParameters (Draft.blank.define hint ds).parameters.toList = draft.define hint ds := by
  have h := Overlay.putAll_toList_ofList draft.parameters (ds.map (Definition.parameter hint))
  exact congrArg (fun ps => { draft with parameters := ps }) h

/-- Applying a key with a value makes its plain change and lays its definitions over the draft. It
fails exactly when reading the definitions does. -/
theorem settles_apply (site : Site) (hint : Location) (draft : Draft) (key : String)
    (value : AnnotationValue) :
    Settles site (site.apply hint draft key value)
      ((site.definitions hint key value).map
        fun ds => (draft.change (value.plainChange key)).define hint ds) := by
  cases hk : AnnotationKey.ofText? key with
  | none =>
    simp only [apply, change, definitions, AnnotationValue.plainChange, hk]
    exact settles_pure site draft
  | some known =>
    simp only [apply, change, definitions, AnnotationValue.plainChange, hk]
    cases known with
    | summary => exact settles_pure site _
    | description => exact settles_pure site _
    | operationId => exact settles_pure site _
    | deprecated => exact settles_pure site _
    | list field => exact settles_pure site _
    | parameter =>
      have h := (site.settles_declaredParameter hint value.display).map (g := draft.change)
      rw [map_map_result] at h
      exact h
    | schema =>
      have h := ((site.settles_schemaParameters hint value.display).map
        (g := Change.parameters)).map (g := draft.change)
      rw [← map_parameter_schemaDefinitions, map_map_result, map_map_result] at h
      exact h
    | fragment =>
      have h := ((site.settles_fragment hint value.display).map
        (g := fun d => Change.parameters d.parameters.toList)).map (g := draft.change)
      simp only [map_map_result, Draft.change, addParameters_blank_define] at h
      exact h

theorem settles_applyAll (site : Site) (hint : Location) (draft : Draft)
    (pairs : List (String × AnnotationValue)) :
    Settles site (site.applyAll hint draft pairs)
      ((site.allDefinitions hint pairs).map
        fun ds => (draft.changePlain pairs).define hint ds) := by
  induction pairs generalizing draft with
  | nil => exact settles_pure site draft
  | cons pair rest ih =>
    obtain ⟨key, value⟩ := pair
    have h := site.settles_apply hint draft key value
    unfold allDefinitions at ih ⊢
    simp only [gather]
    cases hd : site.definitions hint key value with
    | error e =>
      rw [hd] at h
      exact h.bind_error
    | ok ds =>
      rw [hd] at h
      have hrest : Settles site (site.applyAll hint draft ((key, value) :: rest)) _ :=
        h.bind_ok (ih ((draft.change (value.plainChange key)).define hint ds))
      cases hg : gather (fun (key, value) => site.definitions hint key value) rest with
      | error e => simpa [hg, Except.map] using hrest
      | ok es =>
        rw [hg, Except.map, Draft.changePlain_define, ← Draft.define_append] at hrest
        exact hrest

end Site

end Endpoints

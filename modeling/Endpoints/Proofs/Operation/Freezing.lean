import Endpoints.Proofs.Annotation.Edits
import Endpoints.Proofs.Resolution.Placeholders

/-!
# Drafts from their beginning to their end

A draft begins empty, or with a method, a class and a function, and then changes in steps.
Whatever the steps are, its parameters are the ones that were assigned, laid over each other, and a
table that stores their names a second time has the same parameters under the same names. Finishing
places them and changes nothing else.
-/

namespace Endpoints

section Keyed

variable {α κ : Type} [DecidableEq κ] (key : α → κ)

/-- Set the keys of items in a table, one after the other. Each key stands beside its item, which
has it a second time. -/
def Table.setAll (t : Table κ α) (items : List α) : Table κ α :=
  items.foldl (fun t x => t.set (key x) x) t

theorem overlayPut_map_pair (x : α) (items : List α) :
    overlayPut Prod.fst (key x, x) (items.map fun y => (key y, y)) =
      (overlayPut key x items).map fun y => (key y, y) := by
  induction items with
  | nil => rfl
  | cons y rest ih =>
    rw [List.map_cons, overlayPut, overlayPut, ih]
    split <;> rfl

/-- The keys of a table stay those of its items while items are set under their own keys. -/
theorem Table.toList_setAll {t : Table κ α} {o : Overlay key}
    (h : t.toList = o.toList.map fun x => (key x, x)) (items : List α) :
    (t.setAll key items).toList = (o.putAll items).toList.map fun x => (key x, x) := by
  induction items generalizing t o with
  | nil => exact h
  | cons x rest ih =>
    have hset : (t.set (key x) x).toList = (o.put x).toList.map fun y => (key y, y) := by
      rw [Table.set, Overlay.toList_put, h, overlayPut_map_pair]
      rfl
    exact ih hset

/-- Looking a key up in the table is looking for an item that has it. -/
theorem Table.get?_eq_find? {t : Table κ α} {o : Overlay key}
    (h : t.toList = o.toList.map fun x => (key x, x)) (k : κ) : t.get? k = o.find? k := by
  rw [Table.get?, Overlay.find?, Overlay.find?, h, List.find?_map, Option.map_map]
  exact congrFun Option.map_id _

end Keyed

/-- A parameter takes the place that is left open: its hint, or else a fallback. A parameter that
has a place stays as it is. -/
structure Parameter.IsSettled (fallback : Location) (p q : Parameter) : Prop where
  rest_eq : q = { p with location := q.location, hint := q.hint }
  stated : p.location ≠ .guess → q = p
  hinted : ∀ l, p.location = .guess → p.hint = some l → q.location = l
  unhinted : p.location = .guess → p.hint = none → q.location = fallback
  used_up : p.location = .guess → q.hint = none

theorem Parameter.isSettled_settle (fallback : Location) (p : Parameter) :
    p.IsSettled fallback (p.settle fallback) := by
  unfold settle
  by_cases hp : p.location = .guess
  · rw [if_pos hp]
    refine ⟨rfl, fun hne => absurd hp hne, ?_, ?_, fun _ => rfl⟩
    · intro l _ hl
      simp [hl]
    · intro _ hn
      simp [hn]
  · rw [if_neg hp]
    exact ⟨rfl, fun _ => rfl, fun _ h => absurd h hp, fun h => absurd h hp, fun h => absurd h hp⟩

/-- The ways in which a draft begins. -/
inductive Draft.Origin where
  | served (method : HttpMethod) (className function : String)
  | blank

def Draft.Origin.draft : Origin → Draft
  | .served method className function => Draft.start method className function
  | .blank => Draft.blank

/-- The ways in which a draft changes. An annotation may come from any site, with any schemas read
before, and it may fail half way. -/
inductive Draft.Step where
  | add (p : Parameter)
  | merge (ps : List Parameter)
  | extend (field : ListField) (values : List String)
  | annotate (site : Site) (cache : SchemaCache) (hint : Location) (key : String)
      (value : AnnotationValue)

namespace Draft.Step

def run (d : Draft) : Step → Draft
  | .add p => d.addParameter p
  | .merge ps => d.addParameters ps
  | .extend field values => d.extend field values
  | .annotate site cache hint key value => (site.edit hint key value d cache).draft

def assigned : Step → List Parameter
  | .add p => [p]
  | .merge ps => ps
  | .extend _ _ => []
  | .annotate site cache hint key value =>
      match (site.change hint key value cache).result with
      | .ok (.parameters ps) => ps
      | _ => []

end Draft.Step

namespace Draft

theorem parameters_extend (d : Draft) (field : ListField) (values : List String) :
    (d.extend field values).parameters = d.parameters := by
  cases field <;> rfl

def served (d : Draft) : Option HttpMethod × Option String × Option String :=
  (d.method, d.className, d.function)

theorem served_extend (d : Draft) (field : ListField) (values : List String) :
    (d.extend field values).served = d.served := by
  cases field <;> rfl

theorem served_of_change (d : Draft) (c : Change) : (d.change c).served = d.served := by
  cases c with
  | extend field values => exact d.served_extend field values
  | _ => rfl

/-- An annotation that fails leaves the draft, and one that does not makes its change. -/
theorem draft_edit (d : Draft) (site : Site) (cache : SchemaCache) (hint : Location)
    (key : String) (value : AnnotationValue) :
    (site.edit hint key value d cache).draft =
      match (site.change hint key value cache).result with
      | .ok c => d.change c
      | .error _ => d := by
  rw [Site.edit_eq, Edit.lookup_modify_apply]
  cases (site.change hint key value cache).result <;> rfl

end Draft

namespace Draft.Step

/-- One step lays over the parameters those that it assigns. -/
theorem parameters_run (d : Draft) (step : Step) :
    (step.run d).parameters = d.parameters.putAll step.assigned := by
  cases step with
  | add p => rfl
  | merge ps => rfl
  | extend field values => exact d.parameters_extend field values
  | annotate site cache hint key value =>
    rw [run, draft_edit, assigned]
    cases (site.change hint key value cache).result with
    | error e => rfl
    | ok c =>
      cases c with
      | extend field values => exact d.parameters_extend field values
      | _ => rfl

theorem served_run (d : Draft) (step : Step) : (step.run d).served = d.served := by
  cases step with
  | add p => rfl
  | merge ps => rfl
  | extend field values => exact d.served_extend field values
  | annotate site cache hint key value =>
    rw [run, draft_edit]
    cases (site.change hint key value cache).result with
    | error e => rfl
    | ok c => exact d.served_of_change c

theorem parameters_foldl_run (d : Draft) (steps : List Step) :
    (steps.foldl run d).parameters = d.parameters.putAll (steps.flatMap assigned) := by
  induction steps generalizing d with
  | nil => rfl
  | cons step rest ih =>
    rw [List.foldl_cons, ih, parameters_run, List.flatMap_cons, Overlay.putAll_append]

theorem served_foldl_run (d : Draft) (steps : List Step) :
    (steps.foldl run d).served = d.served := by
  induction steps generalizing d with
  | nil => rfl
  | cons step rest ih => rw [List.foldl_cons, ih, served_run]

end Draft.Step

namespace Draft

/-- The parameters of a draft are those that were assigned, each name with the last one, in the
order in which the names were first assigned; and each is found under its own name, also where the
names are stored as the keys of a table. -/
structure Holds (assigned : List Parameter) (d : Draft) : Prop where
  names_eq : d.parameters.toList.map Parameter.name = (assigned.map Parameter.name).eraseDups
  names_nodup : (d.parameters.toList.map Parameter.name).Nodup
  found : ∀ p ∈ d.parameters.toList, d.parameter? p.name = some p
  last_assigned : ∀ n, d.parameter? n = lastOf? Parameter.name n assigned
  stored_eq : (Table.setAll Parameter.name Overlay.empty assigned).toList =
    d.parameters.toList.map fun p => (p.name, p)
  get?_stored : ∀ n,
    (Table.setAll Parameter.name Overlay.empty assigned).get? n = d.parameter? n

theorem holds_of_eq_ofList {d : Draft} {assigned : List Parameter}
    (h : d.parameters = Overlay.ofList assigned) : d.Holds assigned := by
  have hstored : (Table.setAll Parameter.name Overlay.empty assigned).toList =
      d.parameters.toList.map fun p => (p.name, p) := by
    rw [h]
    exact Table.toList_setAll Parameter.name rfl assigned
  constructor
  · rw [h]
    exact Overlay.keys_putAll Overlay.empty assigned
  · exact d.parameters.nodup
  · exact fun p hp => Overlay.find?_of_mem hp
  · intro n
    rw [parameter?, h]
    exact Overlay.find?_ofList assigned n
  · exact hstored
  · exact Table.get?_eq_find? Parameter.name hstored

/-- An operation is a draft with nothing changed but the places of its parameters. -/
structure IsFrozenAt (d : Draft) (path : String) (o : Operation) : Prop where
  rest_eq : o =
    { method := d.method.getD .get
      path := path
      className := d.className
      function := d.function
      summary := d.summary
      description := d.description
      operationId := d.operationId
      deprecated := d.deprecated
      tags := d.tags
      consumes := d.consumes
      produces := d.produces
      schemes := d.schemes
      parameters := o.parameters }
  names_eq : o.parameters.map Parameter.name = d.parameters.toList.map Parameter.name
  placed : List.Forall₂ (Parameter.IsSettled o.method.defaultLocation) d.parameters.toList
    o.parameters
  found : ∀ n, Option.Rel (Parameter.IsSettled o.method.defaultLocation) (d.parameter? n)
    (o.parameter? n)

theorem isFrozenAt_finish (d : Draft) (path : String) : d.IsFrozenAt path (d.finish path) := by
  refine ⟨rfl, d.names_finish path, ?_, ?_⟩
  · rw [parameters_finish, List.forall₂_map_right_iff, List.forall₂_same]
    exact fun p _ => p.isSettled_settle _
  · intro n
    rw [d.parameter?_finish path n, parameter?]
    cases d.parameters.find? n with
    | none => exact .none
    | some p => exact .some (p.isSettled_settle _)

/-- Whatever steps a draft has taken since it began, it holds the parameters that were assigned,
and it still is for the same method, class and function. Finishing it gives an operation with
parameters of the same names in the same order, each at its place. -/
theorem finish_isFaithful (origin : Origin) (steps : List Step) (path : String) :
    let d := steps.foldl Step.run origin.draft
    d.Holds (steps.flatMap Step.assigned) ∧ d.served = origin.draft.served ∧
      d.IsFrozenAt path (d.finish path) := by
  intro d
  have hempty : origin.draft.parameters = Overlay.empty := by
    cases origin <;> rfl
  have hparameters : d.parameters = Overlay.ofList (steps.flatMap Step.assigned) := by
    rw [Step.parameters_foldl_run, hempty]
    rfl
  exact ⟨holds_of_eq_ofList hparameters, Step.served_foldl_run origin.draft steps,
    d.isFrozenAt_finish path⟩

/-- A name that comes again keeps its place. Of two open parameters one has a hint, and the other
goes into the body of the request. -/
example :
    let name := Parameter.guessed "name" TypeSpec.text .query
    let bio := Parameter.make "bio" .guess TypeSpec.text
    let steps : List Step := [.merge [name, bio], .add { name with required := true }]
    let d := steps.foldl Step.run (Origin.served .put "Users" "update").draft
    (d.finish "/users").parameters =
      [{ name with location := .query, required := true, hint := none },
        { bio with location := .body }] := by
  decide

end Draft

end Endpoints

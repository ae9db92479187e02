import Endpoints.Proofs.Resolution.Placeholders
import Endpoints.Proofs.Route.Normalization

/-!
# The operations of a model are well-formed

No source gives a parameter without a name: neither a line, nor a schema, whose fields and aliases
are checked when it is read, nor a fragment, nor a placeholder. The names of a draft are distinct
whatever is laid over it, and finishing it keeps them. So an operation has the path and the method
under which it stands, and a parameter for each of its names.
-/

namespace Endpoints

/-- An operation that may stand under a path and a method. -/
structure Operation.IsWellFormed (o : Operation) (path : String) (method : HttpMethod) : Prop where
  path_eq : o.path = path
  method_eq : o.method = method
  rooted : ∃ rest, path = "/" ++ rest
  distinct : (o.parameters.map Parameter.name).Nodup
  named : ∀ p ∈ o.parameters, p.name ≠ ""

namespace Parameter

theorem name_ne_of_ofDeclaration {line : String} {hint : Location} {p : Parameter}
    (h : ofDeclaration line hint = .ok p) : p.name ≠ "" := by
  obtain ⟨d, hd, -, rfl⟩ := ofWords_eq_ok_iff.1 h
  exact hd.name_ne

end Parameter

namespace Schema

theorem name_parameter (s : Schema) (hint : Location) (field : String) (d : FieldDefinition) :
    (s.parameter hint field d).name =
      ((s.aliases.get? field).bind AliasTarget.replacement?).getD field := by
  simp only [parameter]
  cases (s.aliases.get? field).bind AliasTarget.replacement? <;> rfl

theorem fault?_eq_none_iff (s : Schema) :
    s.fault? = none ↔ "" ∉ s.fields.keys ∧ ∀ e ∈ s.aliases.toList, e.2.replacement? ≠ some "" := by
  unfold fault?
  split
  · simp_all
  · simp_all

/-- A schema without a fault gives no parameter without a name, however it renames its fields. -/
theorem name_ne_of_mem_parameters {s : Schema} (h : s.fault? = none) {hint : Location}
    {p : Parameter} (hp : p ∈ s.parameters hint) : p.name ≠ "" := by
  obtain ⟨hfields, haliases⟩ := s.fault?_eq_none_iff.1 h
  obtain ⟨⟨field, d⟩, hfield, rfl⟩ := List.mem_map.1 hp
  rw [name_parameter]
  cases hr : (s.aliases.get? field).bind AliasTarget.replacement? with
  | none =>
    rintro rfl
    exact hfields (List.mem_map_of_mem hfield)
  | some name =>
    obtain ⟨target, htarget, hname⟩ := Option.bind_eq_some_iff.1 hr
    rintro rfl
    exact haliases (field, target) (Table.mem_of_get? htarget) hname

/-- Two fields change their names, a third takes one of them, and an empty list renames nothing. -/
example : (Schema.parameters
    { fields := Overlay.ofList [("a", {}), ("b", {}), ("c", {}), ("d", {})]
      aliases := Overlay.ofList
        [("a", .name "b"), ("b", .name "a"), ("c", .names ["a", ""]), ("d", .names [])] }
    .query).map Parameter.name = ["b", "a", "a", "d"] := by
  decide

end Schema

theorem Placeholder.name_ne_of_ofSegment? {segment : String} {p : Placeholder}
    (h : Placeholder.ofSegment? segment = some p) : p.name ≠ "" := by
  intro hname
  have hne := (Route.isName_of_ofSegment? h).1
  rw [hname] at hne
  exact hne rfl

namespace Site

open Lookup

variable {site : Site}

theorem fault?_of_readSchema {name : String} {schema : Schema}
    (h : site.readSchema name = .ok schema) : schema.fault? = none := by
  obtain ⟨path, _, hread⟩ := ok_of_bind_ok h
  obtain ⟨found, _, hchecked⟩ := ok_of_bind_ok hread
  split at hchecked
  · cases hchecked
  · cases hchecked
    assumption

theorem name_ne_of_allDefinitions {hint : Location} {ds : List Definition}
    {pairs : List (String × AnnotationValue)} (h : site.allDefinitions hint pairs = .ok ds) :
    ∀ d ∈ ds, d.name ≠ "" := by
  refine forall_of_allDefinitions (fun name schema hschema p hp => ?_) (fun p _ hp => hp)
    (fun line p hp => Parameter.name_ne_of_ofDeclaration hp) h
  exact Schema.name_ne_of_mem_parameters (fault?_of_readSchema hschema) hp

theorem isWellFormed_of_operation {cache : SchemaCache} (hc : site.Agrees cache)
    {action : Action} {route : Route} {o : Operation}
    (h : (site.operation action route cache).result = .ok o) :
    o.IsWellFormed route.path route.method := by
  obtain ⟨ds, draft, hds, hmethod, rfl, hparameters⟩ := finished_of_operation hc h
  refine ⟨rfl, hmethod, ⟨_, rfl⟩, ?_, ?_⟩
  · rw [Draft.names_finish]
    exact draft.parameters.nodup
  · intro q hq
    obtain ⟨p, hp, rfl⟩ := List.mem_map.1 hq
    rw [Parameter.name_settle]
    rcases hparameters p hp with ⟨placeholder, hplaceholder, rfl⟩ | ⟨_, d, hlast, rfl⟩
    · obtain ⟨segment, _, hsegment⟩ := List.mem_filterMap.1 hplaceholder
      exact Placeholder.name_ne_of_ofSegment? hsegment
    · rw [Definition.name_parameter]
      exact name_ne_of_allDefinitions hds d (lastOf?_some_spec _ hlast).1

/-- In the model of a run, every operation has the path and the method under which it stands, a
path starts with a slash, and the parameters of an operation have distinct names, none of them
empty. -/
theorem resolve_isWellFormed {cache : SchemaCache} (hc : site.Reached cache)
    {actions : List Action} {model : Model} (h : (site.resolve actions cache).result = .ok model)
    {path : String} {method : HttpMethod} {o : Operation}
    (ho : model.operation? path method = some o) : o.IsWellFormed path method := by
  obtain ⟨action, route, rfl, rfl, hoperation⟩ := operation_of_resolve hc.agrees h ho
  exact isWellFormed_of_operation site.agrees_empty hoperation

theorem resolve_isWellFormed_covered :
    ∃ model o, (oneSchema.resolve [updateAction.withOnly
        "PUT/users/<int>id/<string>age/<float>id/<int>page"] Overlay.empty).result = .ok model ∧
      model.operation? coveringRoute.path .put = some o ∧
      o.IsWellFormed coveringRoute.path .put := by
  have hrun : (((oneSchema.resolve [updateAction.withOnly
      "PUT/users/<int>id/<string>age/<float>id/<int>page"] Overlay.empty).result.toOption.bind
        fun model => model.operation? coveringRoute.path .put).isSome) = true := by
    decide +kernel
  obtain ⟨model, o, h, ho⟩ := exists_operation_of_isSome hrun
  exact ⟨model, o, h, ho, resolve_isWellFormed .fresh h ho⟩

end Site

end Endpoints

import Endpoints.Proofs.Resolution.Drafts
import Endpoints.Proofs.Resolution.Placement

/-!
# Placeholders lie over everything else

Beside the same action on a route without placeholders, a route with placeholders has one required
parameter in the path for each of their names, in the place of a parameter of this name or at the
end. The other parameters and all other fields stay as they are.
-/

namespace Endpoints

/-- An operation is another one with the parameters of placeholders laid over it. -/
structure Operation.IsCoveredBy (base : Operation) (ps : List Placeholder) (o : Operation) :
    Prop where
  rest_eq : o = { base with path := o.path, parameters := o.parameters }
  once : ∀ n ∈ ps.map Placeholder.name, (o.parameters.map Parameter.name).count n = 1
  last_wins : ∀ n p, lastOf? Placeholder.name n ps = some p →
    o.parameter? n = some (Parameter.inPath n (TypeSpec.ofToken p.type))
  in_path : ∀ q ∈ o.parameters, q.name ∈ ps.map Placeholder.name →
    q.location = .path ∧ q.required = true ∧ q.description = none ∧ q.aliasOf = none
  names_eq : o.parameters.map Parameter.name = base.parameters.map Parameter.name ++
    (ps.map Placeholder.name).eraseDups.filter fun n => n ∉ base.parameters.map Parameter.name
  others_eq : (o.parameters.filter fun q => q.name ∉ ps.map Placeholder.name) =
    base.parameters.filter fun q => q.name ∉ ps.map Placeholder.name

namespace Draft

variable (d : Draft) (path : String)

theorem names_finish :
    (d.finish path).parameters.map Parameter.name = d.parameters.toList.map Parameter.name := by
  rw [parameters_finish, List.map_map]
  exact List.map_congr_left fun p _ => p.name_settle _

theorem parameter?_finish (n : String) :
    (d.finish path).parameter? n =
      (d.parameters.find? n).map (Parameter.settle d.finalMethod.defaultLocation) := by
  rw [Operation.parameter?, parameters_finish, List.find?_map, Overlay.find?]
  simp only [Function.comp_def, Parameter.name_settle]

theorem filter_finish (P : String → Bool) :
    ((d.finish path).parameters.filter fun q => P q.name) =
      (d.parameters.toList.filter fun q => P q.name).map
        (Parameter.settle d.finalMethod.defaultLocation) := by
  rw [parameters_finish, List.filter_map]
  simp only [Function.comp_def, Parameter.name_settle]

theorem parameter?_of_mem_finish {q : Parameter} (h : q ∈ (d.finish path).parameters) :
    (d.finish path).parameter? q.name = some q := by
  obtain ⟨p, hp, rfl⟩ := List.mem_map.1 h
  rw [parameter?_finish, Parameter.name_settle, Overlay.find?_of_mem hp]
  rfl

end Draft

theorem map_name_parameter (ps : List Placeholder) :
    (ps.map Placeholder.parameter).map Parameter.name = ps.map Placeholder.name := by
  rw [List.map_map]
  rfl

section Covering

variable (d : Draft) (ps : List Placeholder) (path : String)

theorem Draft.parameter?_cover {n : String} {p : Placeholder}
    (h : lastOf? Placeholder.name n ps = some p) :
    ((d.addParameters (ps.map Placeholder.parameter)).finish path).parameter? n =
      some p.parameter := by
  have hfound : (d.addParameters (ps.map Placeholder.parameter)).parameters.find? n =
      some p.parameter := by
    have hlast : lastOf? (fun p => p.parameter.name) n ps = some p := h
    rw [addParameters, Overlay.find?_putAll, lastOf?_map, hlast]
    rfl
  rw [Draft.parameter?_finish, hfound]
  exact congrArg some (p.settle_parameter _)

theorem Draft.names_cover (path' : String) :
    ((d.addParameters (ps.map Placeholder.parameter)).finish path).parameters.map Parameter.name =
      (d.finish path').parameters.map Parameter.name ++ (ps.map Placeholder.name).eraseDups.filter
        fun n => n ∉ (d.finish path').parameters.map Parameter.name := by
  rw [names_finish, names_finish, addParameters, Overlay.keys_putAll_eq_append,
    map_name_parameter]

theorem Draft.others_cover (path' : String) :
    (((d.addParameters (ps.map Placeholder.parameter)).finish path).parameters.filter
        fun q => q.name ∉ ps.map Placeholder.name) =
      (d.finish path').parameters.filter fun q => q.name ∉ ps.map Placeholder.name := by
  let isOther (n : String) : Bool := decide (n ∉ ps.map Placeholder.name)
  have hout : ∀ x ∈ ps.map Placeholder.parameter, isOther x.name = false := by
    intro x hx
    obtain ⟨p, hp, rfl⟩ := List.mem_map.1 hx
    simpa [isOther] using ⟨p, hp, rfl⟩
  have hkeep := Overlay.filter_putAll (P := isOther) d.parameters hout
  have hcover := filter_finish (d.addParameters (ps.map Placeholder.parameter)) path isOther
  have hbase := d.filter_finish path' isOther
  exact hcover.trans ((congrArg _ hkeep).trans hbase.symm)

/-- Finishing a draft after the parameters of placeholders are laid over it, beside finishing it
without them. -/
theorem Draft.isCoveredBy_finish (path' : String) :
    (d.finish path').IsCoveredBy ps
      ((d.addParameters (ps.map Placeholder.parameter)).finish path) := by
  let cover := (d.addParameters (ps.map Placeholder.parameter)).finish path
  have hnodup : (cover.parameters.map Parameter.name).Nodup := by
    rw [names_finish]
    exact Overlay.nodup _
  have hcover : ∀ n ∈ ps.map Placeholder.name,
      ∃ p : Placeholder, p.name = n ∧ cover.parameter? n = some p.parameter := by
    intro n hn
    cases hlast : lastOf? Placeholder.name n ps with
    | none => exact absurd hn ((lastOf?_none_iff _ _ _).1 hlast)
    | some p => exact ⟨p, (lastOf?_some_spec _ hlast).2, d.parameter?_cover ps path hlast⟩
  refine ⟨rfl, ?once, ?last_wins, ?in_path, d.names_cover ps path path',
    d.others_cover ps path path'⟩
  case once =>
    intro n hn
    obtain ⟨p, rfl, hp⟩ := hcover n hn
    have hmem := List.mem_map_of_mem (f := Parameter.name) (List.mem_of_find?_eq_some hp)
    exact List.count_eq_one_of_mem hnodup hmem
  case last_wins =>
    intro n p hlast
    obtain rfl := (lastOf?_some_spec _ hlast).2
    exact d.parameter?_cover ps path hlast
  case in_path =>
    intro q hq hn
    obtain ⟨p, hp, hfound⟩ := hcover q.name hn
    rw [parameter?_of_mem_finish _ path hq] at hfound
    cases hfound
    exact ⟨rfl, rfl, rfl, rfl⟩

end Covering

namespace Site

/-- When a route gives an operation, the same action gives one on every route of the same method
none of whose segments holds a placeholder, and the placeholders of the segments lie over it. -/
theorem resolve_isCoveredBy_placeholders {site : Site} {cache cache' : SchemaCache}
    (hc : site.Reached cache) (hc' : site.Reached cache') {action : Action} {text plain : String}
    {route base : Route} (hr : route.IsStatedBy text) (hb : base.IsStatedBy plain)
    (hm : base.method = route.method)
    (hp : ∀ segment ∈ base.segments, ¬ Route.HoldsPlaceholder segment.toList) {model : Model}
    (h : (site.resolve [action.withOnly text] cache).result = .ok model) :
    ∃ ps o a, Route.ArePlaceholders route.segments ps ∧ model = Model.single route.path o ∧
      (site.resolve [action.withOnly plain] cache').result = .ok (Model.single base.path a) ∧
      a.IsCoveredBy ps o := by
  rw [Route.isStatedBy_iff] at hr hb
  rw [← Route.placeholders_eq_nil_iff] at hp
  rw [(resolve_withOnly hr site action cache).1, result_operation, map_map_result] at h
  obtain ⟨draft, hdraft, rfl⟩ := ok_of_map_ok h
  refine ⟨_, _, draft.finish base.path, Route.arePlaceholders_iff.2 rfl, rfl, ?_,
    draft.isCoveredBy_finish _ _ _⟩
  rw [result_resolve_of_no_placeholders hb hp, hm,
    result_drafted hc'.agrees hc.agrees action route.method, hdraft]
  rfl

def coveringRoute : Route where
  method := .put
  segments := ["users", "<int>id", "<string>age", "<float>id", "<int>page"]

theorem resolve_isCoveredBy_placeholders_update :
    coveringRoute.IsStatedBy "PUT/users/<int>id/<string>age/<float>id/<int>page" ∧
      Route.IsStatedBy ⟨.put, ["plain"]⟩ " put /plain" ∧
      ¬ Route.HoldsPlaceholder "plain".toList ∧
      ∃ model, (oneSchema.resolve [updateAction.withOnly
          "PUT/users/<int>id/<string>age/<float>id/<int>page"] Overlay.empty).result = .ok model ∧
        ∃ ps o a, Route.ArePlaceholders coveringRoute.segments ps ∧
          model = Model.single coveringRoute.path o ∧
          (oneSchema.resolve [updateAction.withOnly " put /plain"]
            (oneSchema.resolve [updateAction] Overlay.empty).cache).result =
              .ok (Model.single (Route.path ⟨.put, ["plain"]⟩) a) ∧
          a.IsCoveredBy ps o := by
  have hr : coveringRoute.IsStatedBy "PUT/users/<int>id/<string>age/<float>id/<int>page" :=
    Route.isStatedBy_iff.2 (by decide +kernel)
  have hb : Route.IsStatedBy ⟨.put, ["plain"]⟩ " put /plain" :=
    Route.isStatedBy_iff.2 (by decide +kernel)
  have hp : ∀ segment ∈ ["plain"], ¬ Route.HoldsPlaceholder segment.toList :=
    Route.placeholders_eq_nil_iff (r := ⟨.put, ["plain"]⟩).1 (by decide +kernel)
  obtain ⟨model, h⟩ := ok_of_isOk
    (r := (oneSchema.resolve [updateAction.withOnly
      "PUT/users/<int>id/<string>age/<float>id/<int>page"] Overlay.empty).result)
    (by decide +kernel)
  exact ⟨hr, hb, hp _ (by simp), model, h,
    resolve_isCoveredBy_placeholders .fresh (.resolve .fresh [updateAction]) hr hb rfl hp h⟩

end Site

end Endpoints

import Endpoints.Proofs.Annotation.Provenance
import Endpoints.Proofs.Annotation.Sequences
import Endpoints.Proofs.Resolution.SingleRuns
import Endpoints.Proofs.Route.Parts

/-!
# Where the parameters of a model are

An operation comes from the last action and route that register its path and method. A name of a
placeholder of this route is in the path. Any other name is where its last definition states, and
in the default location of the method when this definition states none.
-/

namespace Endpoints

/-- The pairs of an action and one of its routes whose method is known, with the routes read. -/
def Site.registering (actions : List Action) : List (Action × Route) :=
  (Site.routed actions).filterMap fun (action, text) => (Route.ofText? text).map (action, ·)

/-- The action and the route that register a path and a method, the last ones if there are more. -/
def Site.registrar? (actions : List Action) (path : String) (method : HttpMethod) :
    Option (Action × Route) :=
  lastOf? (fun pair => (pair.2.path, pair.2.method)) (path, method) (registering actions)

/-- Where the parameters of a method go that state no location. -/
inductive HttpMethod.Places : HttpMethod → Location → Prop where
  | get : Places .get .query
  | head : Places .head .query
  | options : Places .options .query
  | delete : Places .delete .query
  | post : Places .post .body
  | put : Places .put .body
  | patch : Places .patch .body

theorem HttpMethod.places_defaultLocation (m : HttpMethod) : m.Places m.defaultLocation := by
  cases m <;> constructor

/-- A parameter of an operation is where it should be, given the placeholders of the route, the
place for what states no location, and the definitions that annotations contribute. -/
structure Parameter.IsPlaced (q : Parameter) (ps : List Placeholder) (place : Location)
    (ds : List Definition) : Prop where
  location_ne : q.location ≠ .guess
  hint_eq : q.hint = none
  of_placeholder : q.name ∈ ps.map Placeholder.name → q.location = .path
  of_definition : q.name ∉ ps.map Placeholder.name →
    ∃ d, lastOf? Definition.name q.name ds = some d ∧
      (∀ l, d.stated? = some l → q.location = l) ∧ (d.stated? = none → q.location = place)

theorem HttpMethod.defaultLocation_ne (m : HttpMethod) : m.defaultLocation ≠ .guess := by
  cases m <;> decide

theorem Placeholder.settle_parameter (p : Placeholder) (fallback : Location) :
    p.parameter.settle fallback = p.parameter := rfl

/-- A parameter is that of a placeholder, or else that of the last definition of its name. -/
def Parameter.ComesFrom (p : Parameter) (ps : List Placeholder) (place : Location)
    (ds : List Definition) : Prop :=
  (∃ placeholder ∈ ps, placeholder.parameter = p) ∨
    p.name ∉ ps.map Placeholder.name ∧
      ∃ d, lastOf? Definition.name p.name ds = some d ∧ d.parameter place = p

theorem Draft.comesFrom_of_mem {d : Draft} (hd : d.parameters = Overlay.empty) {hint : Location}
    {ds : List Definition} {ps : List Placeholder} {p : Parameter}
    (h : p ∈ ((d.define hint ds).addParameters
      (ps.map Placeholder.parameter)).parameters.toList) :
    p.ComesFrom ps hint ds := by
  have hf := Overlay.find?_of_mem h
  simp only [addParameters, define, hd, Overlay.find?_putAll, lastOf?_map] at hf
  cases hl : lastOf? (fun placeholder => placeholder.parameter.name) p.name ps with
  | some placeholder =>
    have hmem := (lastOf?_some_spec _ hl).1
    rw [hl] at hf
    exact .inl ⟨placeholder, hmem, by simpa using hf⟩
  | none =>
    have hname := (lastOf?_none_iff _ _ _).1 hl
    rw [hl] at hf
    simp only [Definition.name_parameter] at hf
    cases he : lastOf? Definition.name p.name ds with
    | none =>
      rw [he] at hf
      cases hf
    | some e =>
      rw [he] at hf
      exact .inr ⟨hname, e, he, by simpa using hf⟩

/-- Settling such a parameter leaves it where it should be. -/
theorem Parameter.isPlaced_settle {ps : List Placeholder} {place : Location}
    {ds : List Definition} {p : Parameter} (hplace : place ≠ .guess)
    (hds : ∀ d ∈ ds, d.IsPlaced place) (h : p.ComesFrom ps place ds) :
    (p.settle place).IsPlaced ps place ds := by
  rcases h with ⟨placeholder, hmem, rfl⟩ | ⟨hname, d, hlast, rfl⟩
  · rw [placeholder.settle_parameter]
    have hin : placeholder.parameter.name ∈ ps.map Placeholder.name :=
      List.mem_map.2 ⟨placeholder, hmem, rfl⟩
    exact ⟨Location.noConfusion, rfl, fun _ => rfl, fun hout => absurd hin hout⟩
  · obtain ⟨hlocation, hhint⟩ := hds d (lastOf?_some_spec _ hlast).1
    have hkept := name_settle place (d.parameter place)
    refine ⟨?_, hhint, ?_, ?_⟩
    · rw [hlocation]
      cases hs : d.stated? with
      | none => exact hplace
      | some l => exact Definition.ne_guess_of_stated? hs
    · intro hin
      rw [hkept] at hin
      exact absurd hin hname
    · intro _
      rw [hkept]
      refine ⟨d, hlast, ?_, ?_⟩
      · intro l hs
        rw [hlocation, hs]
        rfl
      · intro hs
        rw [hlocation, hs]
        rfl

namespace Site

open Lookup

theorem finished_of_operation {site : Site} {cache : SchemaCache} (hc : site.Agrees cache)
    {action : Action} {route : Route} {o : Operation}
    (h : (site.operation action route cache).result = .ok o) :
    ∃ (ds : List Definition) (draft : Draft),
      site.allDefinitions route.method.defaultLocation action.attached = .ok ds ∧
      draft.finalMethod = route.method ∧ draft.finish route.path = o ∧
      ∀ p ∈ draft.parameters.toList,
        p.ComesFrom route.placeholders route.method.defaultLocation ds := by
  let start := Draft.start route.method action.target.shortClass action.target.function
  obtain ⟨drafted, hdrafted, hrest⟩ := bind_ok h
  have hsettled := (site.settles_applyAll route.method.defaultLocation start
    action.attached).result_eq hc
  obtain ⟨ds, hds, rfl⟩ := ok_of_map_ok (hsettled.symm.trans hdrafted)
  cases hrest
  have hkept := (Draft.isAnnotated_define_changePlain start hds).method_eq
  have hmethod : (((start.changePlain action.attached).define
      route.method.defaultLocation ds).addParameters
      (route.placeholders.map Placeholder.parameter)).finalMethod = route.method := by
    rw [Draft.finalMethod]
    exact congrArg (fun m => m.getD .get) hkept
  have hparameters : (start.changePlain action.attached).parameters = Overlay.empty :=
    start.parameters_changePlain action.attached
  exact ⟨ds, _, hds, hmethod, rfl, fun p hp => Draft.comesFrom_of_mem hparameters hp⟩

theorem isPlaced_of_operation {site : Site} {cache : SchemaCache} (hc : site.Agrees cache)
    {action : Action} {route : Route} {o : Operation}
    (h : (site.operation action route cache).result = .ok o) :
    o.method = route.method ∧ ∃ ds,
      site.allDefinitions route.method.defaultLocation action.attached = .ok ds ∧
        ∀ q ∈ o.parameters,
          q.IsPlaced route.placeholders route.method.defaultLocation ds := by
  obtain ⟨ds, draft, hds, hmethod, rfl, hparameters⟩ := finished_of_operation hc h
  refine ⟨hmethod, ds, hds, ?_⟩
  intro q hq
  simp only [Draft.finish, hmethod] at hq
  obtain ⟨p, hp, rfl⟩ := List.mem_map.1 hq
  exact Parameter.isPlaced_settle route.method.defaultLocation_ne
    (isPlaced_of_allDefinitions hds) (hparameters p hp)

theorem method_eq_of_holds {site : Site} {e : Registration} (h : e.Holds site) :
    e.operation.method = e.route.method :=
  (isPlaced_of_operation site.agrees_empty h.2).1

theorem mem_routes_of_mem_supported {actions : List Action} {action : Action} {text : String}
    (h : (action, text) ∈ supported actions) : text ∈ action.routes := by
  obtain ⟨action', _, hmem⟩ := List.mem_flatMap.1 (List.mem_filter.1 h).1
  obtain ⟨text', htext, hpair⟩ := List.mem_map.1 hmem
  cases hpair
  exact htext

theorem map_route_eq_registering {site : Site} {actions : List Action}
    {entries : List Registration}
    (hpairs : entries.map (fun e => (e.action, e.text)) = supported actions)
    (hholds : ∀ e ∈ entries, e.Holds site) :
    entries.map (fun e => (e.action, e.route)) = registering actions := by
  have hsupported : registering actions =
      (supported actions).filterMap fun (action, text) => (Route.ofText? text).map (action, ·) := by
    rw [registering, supported, List.filterMap_filter]
    apply List.filterMap_congr
    intro pair _
    rw [Route.isSupported_eq_isSome]
    cases hr : Route.ofText? pair.2 <;> simp [hr]
  rw [hsupported, ← hpairs, List.filterMap_map, ← List.filterMap_eq_map]
  apply List.filterMap_congr
  intro e he
  simp [(hholds e he).1]

theorem operation?_registerAll_eq {site : Site} {entries : List Registration}
    (hholds : ∀ e ∈ entries, e.Holds site) (path : String) (method : HttpMethod) :
    (Model.registerAll (fun e => e.route.path) Registration.operation Overlay.empty
      entries).operation? path method =
      (lastOf? (fun e : Registration => (e.route.path, e.route.method)) (path, method)
        entries).map Registration.operation := by
  have hone : entries.filterMap (fun e =>
      (Model.single e.route.path e.operation).operation? path method) =
      (entries.filter fun e => (e.route.path, e.route.method) = (path, method)).map
        Registration.operation := by
    rw [← List.filterMap_eq_map, List.filterMap_filter]
    apply List.filterMap_congr
    intro e he
    simp [Model.operation?_single, method_eq_of_holds (hholds e he)]
  rw [Model.operation?_registerAll, hone, List.getLast?_map, Model.operation?_empty,
    Option.or_none, lastOf?]

theorem operation?_registerAll_eq_some {site : Site} {entries : List Registration}
    (hholds : ∀ e ∈ entries, e.Holds site) {path : String} {method : HttpMethod} {o : Operation}
    (ho : (Model.registerAll (fun e => e.route.path) Registration.operation Overlay.empty
      entries).operation? path method = some o) :
    ∃ e, lastOf? (fun e : Registration => (e.route.path, e.route.method)) (path, method) entries =
      some e ∧ e.operation = o := by
  rw [operation?_registerAll_eq hholds] at ho
  exact Option.map_eq_some_iff.1 ho

theorem operation_of_resolve {site : Site} {cache : SchemaCache} (hc : site.Agrees cache)
    {actions : List Action} {model : Model} (h : (site.resolve actions cache).result = .ok model)
    {path : String} {method : HttpMethod} {o : Operation}
    (ho : model.operation? path method = some o) :
    ∃ action route, route.path = path ∧ route.method = method ∧
      (site.operation action route Overlay.empty).result = .ok o := by
  obtain ⟨entries, _, hholds, rfl, _⟩ := resolve_ok hc h
  obtain ⟨e, hlast, rfl⟩ := operation?_registerAll_eq_some hholds ho
  obtain ⟨hmem, hkey⟩ := lastOf?_some_spec _ hlast
  obtain ⟨hpath, hmethod⟩ := Prod.mk.inj hkey
  exact ⟨e.action, e.route, hpath, hmethod, (hholds e hmem).2⟩

/-- The action and the route that register a path and a method give the operation there. -/
theorem operation?_of_registrar? {site : Site} {cache : SchemaCache} (hc : site.Agrees cache)
    {actions : List Action} {model : Model} (h : (site.resolve actions cache).result = .ok model)
    {path : String} {method : HttpMethod} {action : Action} {route : Route}
    (hr : registrar? actions path method = some (action, route)) :
    ∃ o, model.operation? path method = some o ∧
      (site.operation action route Overlay.empty).result = .ok o := by
  obtain ⟨entries, hpairs, hholds, rfl, _⟩ := resolve_ok hc h
  rw [registrar?, ← map_route_eq_registering hpairs hholds, lastOf?_map] at hr
  obtain ⟨e, hlast, hpair⟩ := Option.map_eq_some_iff.1 hr
  cases hpair
  refine ⟨e.operation, ?_, (hholds e (lastOf?_some_spec _ hlast).1).2⟩
  rw [operation?_registerAll_eq hholds, hlast]
  rfl

/-- In the model of a run, every operation has the method under which it is found, and each of
its parameters is in the path, where its last definition states, or where the method puts it. -/
theorem resolve_isPlaced {site : Site} {cache : SchemaCache} (hc : site.Reached cache)
    {actions : List Action} {model : Model} (h : (site.resolve actions cache).result = .ok model)
    {path : String} {method : HttpMethod} {o : Operation}
    (ho : model.operation? path method = some o) :
    o.method = method ∧
      ∃ action text route ps place ds,
        registrar? actions path method = some (action, route) ∧
        text ∈ action.routes ∧ route.IsStatedBy text ∧
        Route.ArePlaceholders route.segments ps ∧ method.Places place ∧
        List.Forall₂ (site.Contributes place) action.attached ds ∧
        ∀ q ∈ o.parameters, q.IsPlaced ps place ds.flatten := by
  obtain ⟨entries, hpairs, hholds, rfl, _⟩ := resolve_ok hc.agrees h
  obtain ⟨e, hlast, rfl⟩ := operation?_registerAll_eq_some hholds ho
  obtain ⟨hmem, hkey⟩ := lastOf?_some_spec _ hlast
  cases hkey
  obtain ⟨hroute, hoperation⟩ := hholds e hmem
  obtain ⟨hmethod, ds, hds, hplaced⟩ := isPlaced_of_operation site.agrees_empty hoperation
  obtain ⟨blocks, hblocks, rfl⟩ := allDefinitions_eq_ok_iff.1 hds
  have htext : e.text ∈ e.action.routes :=
    mem_routes_of_mem_supported (hpairs ▸ List.mem_map_of_mem hmem)
  refine ⟨hmethod, e.action, e.text, e.route, _, _, blocks, ?_, htext,
    Route.isStatedBy_iff.2 hroute, Route.arePlaceholders_iff.2 rfl,
    e.route.method.places_defaultLocation, hblocks, hplaced⟩
  rw [registrar?, ← map_route_eq_registering hpairs hholds, lastOf?_map, hlast]
  rfl

theorem exists_operation_of_isSome {result : Except Error Model} {path : String}
    {method : HttpMethod}
    (h : (result.toOption.bind fun model => model.operation? path method).isSome = true) :
    ∃ model o, result = .ok model ∧ model.operation? path method = some o := by
  obtain ⟨o, ho⟩ := Option.isSome_iff_exists.1 h
  obtain ⟨model, hmodel, ho⟩ := Option.bind_eq_some_iff.1 ho
  exact ⟨model, o, ok_of_toOption hmodel, ho⟩

def updateAction : Action where
  target := ⟨"Controllers\\UsersController", "update"⟩
  routes := ["GET/users/<int>id", "PUT/users/<int>id"]
  annotations := Overlay.ofList
    [("params", [.text "user"]), ("parameter", [.text "int $id", .text "$note [optional]"])]

theorem resolve_isPlaced_update :
    ∃ model o, (oneSchema.resolve [updateAction] Overlay.empty).result = .ok model ∧
      model.operation? "/users/\x7bid\x7d" .put = some o ∧ o.method = .put ∧
      ∃ action text route ps place ds,
        registrar? [updateAction] "/users/\x7bid\x7d" .put = some (action, route) ∧
        text ∈ action.routes ∧ route.IsStatedBy text ∧
        Route.ArePlaceholders route.segments ps ∧ HttpMethod.put.Places place ∧
        List.Forall₂ (oneSchema.Contributes place) action.attached ds ∧
        ∀ q ∈ o.parameters, q.IsPlaced ps place ds.flatten := by
  have hrun : (((oneSchema.resolve [updateAction] Overlay.empty).result.toOption.bind
      fun model => model.operation? "/users/\x7bid\x7d" .put).isSome) = true := by
    decide +kernel
  obtain ⟨model, o, h, ho⟩ := exists_operation_of_isSome hrun
  exact ⟨model, o, h, ho, resolve_isPlaced .fresh h ho⟩

end Site

end Endpoints

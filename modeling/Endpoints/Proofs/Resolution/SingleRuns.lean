import Endpoints.Proofs.Operation.Models
import Endpoints.Proofs.Resolution.Registrations

/-!
# A run is the overlay of the runs of its routes

Each route of an action whose method is known can be resolved alone, by a new resolver and with
the same target and annotations. The model of a run over many actions is what these single runs
leave when they are laid over each other in order, and its warnings are theirs in order.
-/

namespace Endpoints

@[simp] theorem Log.warnings_nil : Log.warnings [] = [] := rfl

theorem Log.warnings_append (a b : Log) : Log.warnings (a ++ b) = a.warnings ++ b.warnings := by
  simp [Log.warnings]

@[simp] theorem Log.warnings_info (text : String) : (Log.info text).warnings = [] := rfl

theorem Log.warnings_flatMap {α : Type} (f : α → Log) (xs : List α) :
    Log.warnings (xs.flatMap f) = xs.flatMap fun x => (f x).warnings := by
  induction xs with
  | nil => rfl
  | cons x rest ih => rw [List.flatMap_cons, List.flatMap_cons, Log.warnings_append, ih]

/-- An action with only one of its routes. -/
def Action.withOnly (a : Action) (text : String) : Action := { a with routes := [text] }

namespace Site

open Lookup

def alone (site : Site) (pair : Action × String) : Outcome Model :=
  site.resolve [pair.1.withOnly pair.2] Overlay.empty

/-- A run that succeeds lays its registrations over the empty model, and its warnings are theirs. -/
theorem resolve_ok {site : Site} {cache : SchemaCache} (hc : site.Agrees cache)
    {actions : List Action} {model : Model} (h : (site.resolve actions cache).result = .ok model) :
    ∃ entries : List Registration,
      entries.map (fun e => (e.action, e.text)) = supported actions ∧
      (∀ e ∈ entries, e.Holds site) ∧
      model = Model.registerAll (fun e => e.route.path) Registration.operation Overlay.empty
        entries ∧
      (site.resolve actions cache).log.warnings =
        entries.flatMap fun e => (e.log site).warnings := by
  obtain ⟨found, hfound, hrest⟩ := bind_ok h
  obtain ⟨entries, hpairs, hholds, hmodel, hlog⟩ := addRoutes_ok hc hfound
  cases hrest
  refine ⟨entries, hpairs, hholds, hmodel, ?_⟩
  rw [resolve, bind_of_ok hfound, hlog, Log.warnings_append, Log.warnings_flatMap]
  exact List.append_nil _

theorem result_resolve (site : Site) (actions : List Action) (cache : SchemaCache) :
    (site.resolve actions cache).result =
      (site.addRoutes Overlay.empty (routed actions) cache).result := by
  cases h : (site.addRoutes Overlay.empty (routed actions) cache).result with
  | error e => rw [resolve, bind_of_error h]
  | ok model =>
    rw [resolve, bind_of_ok h]
    rfl

theorem warnings_resolve (site : Site) (actions : List Action) (cache : SchemaCache) :
    (site.resolve actions cache).log.warnings =
      (site.addRoutes Overlay.empty (routed actions) cache).log.warnings := by
  cases h : (site.addRoutes Overlay.empty (routed actions) cache).result with
  | error e => rw [resolve, bind_of_error h]
  | ok model =>
    rw [resolve, bind_of_ok h, Log.warnings_append]
    exact List.append_nil _

theorem addRoutes_routed_withOnly (site : Site) (action : Action) (text : String) :
    site.addRoutes Overlay.empty (routed [action.withOnly text]) =
      site.addRoute (action.withOnly text) Overlay.empty text >>= fun next => pure next := rfl

/-- The run of one route whose method is known gives the model of its operation. -/
theorem resolve_withOnly {text : String} {route : Route} (h : Route.ofText? text = some route)
    (site : Site) (action : Action) (cache : SchemaCache) :
    (site.resolve [action.withOnly text] cache).result =
        (site.operation action route cache).result.map (Model.single route.path) ∧
      (site.resolve [action.withOnly text] cache).log.warnings =
        (site.operation action route cache).log.warnings := by
  have hadd : site.addRoute (action.withOnly text) Overlay.empty text =
      site.operation action route >>= fun o => pure (Model.single route.path o) := by
    simp only [addRoute, h]
    rfl
  rw [result_resolve, warnings_resolve, addRoutes_routed_withOnly, hadd, result_map, log_map,
    result_map, log_map, map_map_result]
  exact ⟨rfl, rfl⟩

theorem resolve_withOnly_of_none {text : String} (h : Route.ofText? text = none) (site : Site)
    (action : Action) (cache : SchemaCache) :
    (site.resolve [action.withOnly text] cache).result = .ok Overlay.empty ∧
      (site.resolve [action.withOnly text] cache).log.warnings = [] := by
  have hadd : site.addRoute (action.withOnly text) Overlay.empty text = pure Overlay.empty := by
    simp only [addRoute, h]
  rw [result_resolve, warnings_resolve, addRoutes_routed_withOnly, hadd]
  exact ⟨rfl, rfl⟩

theorem alone_of_holds {site : Site} {e : Registration} (he : e.Holds site) :
    (site.alone (e.action, e.text)).result = .ok (Model.single e.route.path e.operation) ∧
      (site.alone (e.action, e.text)).log.warnings = (e.log site).warnings := by
  obtain ⟨hr, ho⟩ := he
  obtain ⟨hresult, hwarnings⟩ := resolve_withOnly hr site e.action Overlay.empty
  rw [ho] at hresult
  exact ⟨hresult, hwarnings⟩

/-- The model of a run is the ordered overlay of the models that its routes give alone, and its
warnings are theirs in order. Nothing that earlier lookups have left plays a part. -/
theorem resolve_isOverlayOf_alone {site : Site} {cache : SchemaCache} (hc : site.Reached cache)
    {actions : List Action} {model : Model} (h : (site.resolve actions cache).result = .ok model) :
    ∃ singles : List Model,
      (supported actions).map (fun pair => (site.alone pair).result) = singles.map .ok ∧
      model.IsOverlayOf singles ∧
      (site.resolve actions cache).log.warnings =
        (supported actions).flatMap fun pair => (site.alone pair).log.warnings := by
  obtain ⟨entries, hpairs, hholds, hmodel, hlog⟩ := resolve_ok hc.agrees h
  refine ⟨entries.map fun e => Model.single e.route.path e.operation, ?_, ?_, ?_⟩
  · rw [← hpairs, List.map_map, List.map_map]
    exact List.map_congr_left fun e he => (alone_of_holds (hholds e he)).1
  · rw [hmodel]
    exact Model.isOverlayOf_registerAll _ _ entries
  · rw [hlog, ← hpairs, List.flatMap_map]
    exact List.flatMap_congr fun e he => (alone_of_holds (hholds e he)).2.symm

def schemaAction (function : String) (routes : List String) : Action where
  target := ⟨"Controllers\\UsersController", function⟩
  routes := routes
  annotations := Overlay.ofList [("params", [.text "user"]), ("tags", [.text "a, b"])]

def overlapping : List Action :=
  [schemaAction "list" ["GET/users", "ANY/users"],
    schemaAction "index" [" get /users", "POST/users/<int>id"]]

theorem resolve_isOverlayOf_alone_overlapping :
    ∃ model, (oneSchema.resolve overlapping
        (oneSchema.resolve overlapping Overlay.empty).cache).result = .ok model ∧
      ∃ singles : List Model,
        (supported overlapping).map (fun pair => (oneSchema.alone pair).result) =
          singles.map .ok ∧
        model.IsOverlayOf singles ∧
        (oneSchema.resolve overlapping
          (oneSchema.resolve overlapping Overlay.empty).cache).log.warnings =
          (supported overlapping).flatMap fun pair => (oneSchema.alone pair).log.warnings := by
  obtain ⟨model, h⟩ := ok_of_isOk
    (r := (oneSchema.resolve overlapping
      (oneSchema.resolve overlapping Overlay.empty).cache).result)
    (by decide +kernel)
  exact ⟨model, h, resolve_isOverlayOf_alone (.resolve .fresh overlapping) h⟩

end Site

end Endpoints

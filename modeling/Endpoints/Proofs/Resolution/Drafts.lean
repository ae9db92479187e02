import Endpoints.Proofs.Resolution.SingleRuns

/-!
# The drafts behind operations

The operation of a route is the draft that the annotations of its action make for its method, with
the parameters of its placeholders laid over it, finished at its path.
-/

namespace Endpoints

namespace Draft

/-- Finishing a draft settles its parameters one by one. -/
theorem parameters_finish (d : Draft) (path : String) :
    (d.finish path).parameters =
      d.parameters.toList.map (Parameter.settle d.finalMethod.defaultLocation) := rfl

end Draft

namespace Site

open Lookup

/-- The draft that the annotations of an action make for a method. -/
def drafted (site : Site) (action : Action) (method : HttpMethod) : Lookup Draft :=
  site.applyAll method.defaultLocation
    (Draft.start method action.target.shortClass action.target.function) action.attached

theorem operation_eq_drafted (site : Site) (action : Action) (route : Route) :
    site.operation action route = (do
      let draft ← site.drafted action route.method
      note (route.placeholders.flatMap fun p => TypeSpec.notices p.type)
      return (draft.addParameters (route.placeholders.map Placeholder.parameter)).finish
        route.path) := rfl

theorem result_operation (site : Site) (action : Action) (route : Route) (cache : SchemaCache) :
    (site.operation action route cache).result =
      (site.drafted action route.method cache).result.map fun draft =>
        (draft.addParameters (route.placeholders.map Placeholder.parameter)).finish route.path := by
  cases h : (site.drafted action route.method cache).result with
  | error e =>
    rw [operation_eq_drafted, bind_of_error h]
    rfl
  | ok draft =>
    rw [operation_eq_drafted, bind_of_ok h]
    rfl

/-- The draft does not depend on what was read before. -/
theorem result_drafted {site : Site} {cache cache' : SchemaCache} (hc : site.Agrees cache)
    (hc' : site.Agrees cache') (action : Action) (method : HttpMethod) :
    (site.drafted action method cache).result = (site.drafted action method cache').result := by
  have h := site.settles_applyAll method.defaultLocation
    (Draft.start method action.target.shortClass action.target.function) action.attached
  exact (h.result_eq hc).trans (h.result_eq hc').symm

theorem result_resolve_of_no_placeholders {text : String} {route : Route}
    (h : Route.ofText? text = some route) (hp : route.placeholders = []) (site : Site)
    (action : Action) (cache : SchemaCache) :
    (site.resolve [action.withOnly text] cache).result =
      (site.drafted action route.method cache).result.map fun draft =>
        Model.single route.path (draft.finish route.path) := by
  rw [(resolve_withOnly h site action cache).1, result_operation, hp, map_map_result]
  rfl

end Site

end Endpoints

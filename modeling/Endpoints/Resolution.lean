import Endpoints.Annotation.Effect
import Endpoints.Route

/-!
# From route tables to models

Each route of an action becomes an operation: the values attached to the action are applied in
order, and then the placeholders of the route are laid over everything else. Routes whose
method is not known are passed over before anything is applied.
-/

namespace Endpoints

namespace Site

def operation (site : Site) (action : Action) (route : Route) : Lookup Operation := do
  let start := Draft.start route.method action.target.shortClass action.target.function
  let draft ← site.applyAll route.method.defaultLocation start action.attached
  Lookup.note (route.placeholders.flatMap fun p => TypeSpec.notices p.type)
  return (draft.addParameters (route.placeholders.map Placeholder.parameter)).finish route.path

def addRoute (site : Site) (action : Action) (model : Model) (text : String) : Lookup Model :=
  match Route.ofText? text with
  | none => pure model
  | some route => do
      let o ← site.operation action route
      return model.register route.path o

def addRoutes (site : Site) : Model → List (Action × String) → Lookup Model
  | model, [] => pure model
  | model, (action, text) :: rest => do
      let next ← site.addRoute action model text
      addRoutes site next rest

def routed (actions : List Action) : List (Action × String) :=
  actions.flatMap fun action => action.routes.map fun text => (action, text)

def resolve (site : Site) (actions : List Action) : Lookup Model := do
  let model ← site.addRoutes Overlay.empty (routed actions)
  Lookup.note (Log.info ("Resolved " ++ toString model.toList.length ++ " paths from " ++
    toString actions.length ++ " actions"))
  return model

end Site

end Endpoints

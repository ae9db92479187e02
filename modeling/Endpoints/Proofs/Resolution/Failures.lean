import Endpoints.Proofs.Annotation.Refusals
import Endpoints.Proofs.Resolution.Drafts

/-!
# When a run fails

A run fails when an action that it serves carries a value that cannot take effect. The first such
value of the first such action gives the error, which is the one that the value gives alone. An
action none of whose routes has a known method is passed over with its annotations.
-/

namespace Endpoints

/-- Whether some route of an action has a known method. -/
def Action.isServed (a : Action) : Bool := a.routes.any Route.isSupported

theorem findSome?_ite {α β : Type} (p : α → Bool) (o : Option β) (as : List α) :
    (as.findSome? fun a => if p a then o else none) = if as.any p then o else none := by
  induction as with
  | nil => rfl
  | cons a rest ih =>
    rw [List.findSome?_cons, List.any_cons]
    cases hp : p a with
    | false => simpa using ih
    | true => cases o <;> simp

namespace Site

open Lookup

/-- A new resolver cannot apply a value to some draft with some hint. -/
def FailsAlone (site : Site) (pair : String × AnnotationValue) (e : Error) : Prop :=
  ∃ hint draft, (site.apply hint draft pair.1 pair.2 Overlay.empty).result = .error e

/-- An error is that of the first value that fails alone, among the values of the first served
action that has such a value. -/
def IsFirstFailure (site : Site) (actions : List Action) (e : Error) : Prop :=
  ∃ before action after earlier pair later,
    actions = before ++ action :: after ∧ action.isServed = true ∧
    action.attached = earlier ++ pair :: later ∧ site.FailsAlone pair e ∧
    (∀ other ∈ before, other.isServed = true →
      ∀ pair ∈ other.attached, ∀ e, ¬site.FailsAlone pair e) ∧
    ∀ pair ∈ earlier, ∀ e, ¬site.FailsAlone pair e

def actionRefusal? (site : Site) (action : Action) : Option Error :=
  action.attached.findSome? fun pair => site.refusal? pair.1 pair.2

theorem failsAlone_iff {site : Site} {pair : String × AnnotationValue} {e : Error} :
    site.FailsAlone pair e ↔ site.refusal? pair.1 pair.2 = some e := by
  constructor
  · rintro ⟨hint, draft, h⟩
    rw [← failure?_apply site.agrees_empty hint draft, h, failure?_error]
  · intro h
    refine ⟨.query, Draft.blank, failure?_eq_some_iff.1 ?_⟩
    rw [failure?_apply site.agrees_empty, h]

theorem refusal?_eq_none_iff {site : Site} {pair : String × AnnotationValue} :
    site.refusal? pair.1 pair.2 = none ↔ ∀ e, ¬site.FailsAlone pair e := by
  simp only [failsAlone_iff, Option.eq_none_iff_forall_ne_some, ne_eq]

variable {site : Site} {cache : SchemaCache}

theorem failure?_addRoute (hc : site.Agrees cache) (action : Action) (model : Model)
    (text : String) :
    failure? (site.addRoute action model text cache).result =
      if Route.isSupported text then site.actionRefusal? action else none := by
  rw [addRoute, Route.isSupported_eq_isSome]
  cases Route.ofText? text with
  | none => rfl
  | some route =>
    have hmap := result_map (site.operation action route)
      (fun o => model.register route.path o) cache
    refine (congrArg failure? hmap).trans ?_
    rw [failure?_map, result_operation, failure?_map]
    exact failure?_applyAll hc _ _ action.attached

theorem failure?_addRoutes (hc : site.Agrees cache) (model : Model)
    (pairs : List (Action × String)) :
    failure? (site.addRoutes model pairs cache).result = pairs.findSome? fun pair =>
      if Route.isSupported pair.2 then site.actionRefusal? pair.1 else none := by
  induction pairs generalizing model cache with
  | nil => rfl
  | cons pair rest ih =>
    obtain ⟨action, text⟩ := pair
    rw [List.findSome?_cons, ← failure?_addRoute hc action model text, addRoutes]
    cases hadd : (site.addRoute action model text cache).result with
    | error e =>
      rw [bind_of_error hadd]
      rfl
    | ok next =>
      have hc' := (site.settles_addRoute action model text).agrees hc
      rw [bind_of_ok hadd]
      exact ih hc' next

theorem failure?_resolve (hc : site.Agrees cache) (actions : List Action) :
    failure? (site.resolve actions cache).result = actions.findSome? fun action =>
      if action.isServed then site.actionRefusal? action else none := by
  rw [result_resolve, failure?_addRoutes hc]
  induction actions with
  | nil => rfl
  | cons action rest ih =>
    have hsplit : routed (action :: rest) =
        action.routes.map (fun text => (action, text)) ++ routed rest := rfl
    have hroutes : (action.routes.findSome? fun text =>
        if Route.isSupported text then site.actionRefusal? action else none) =
        if action.isServed then site.actionRefusal? action else none :=
      findSome?_ite Route.isSupported _ action.routes
    rw [hsplit, List.findSome?_append, List.findSome?_map, List.findSome?_cons, ih]
    simp only [Function.comp_def, hroutes]
    cases action.isServed with
    | false => rfl
    | true => cases site.actionRefusal? action <;> rfl

theorem isFirstFailure_of_failure? {actions : List Action} {e : Error}
    (h : (actions.findSome? fun action =>
      if action.isServed then site.actionRefusal? action else none) = some e) :
    site.IsFirstFailure actions e := by
  obtain ⟨before, action, after, rfl, haction, hbefore⟩ := List.findSome?_eq_some_iff.1 h
  have hserved : action.isServed = true := by
    by_contra hn
    simp [hn] at haction
  rw [if_pos hserved] at haction
  obtain ⟨earlier, pair, later, hattached, hpair, hearlier⟩ :=
    List.findSome?_eq_some_iff.1 haction
  refine ⟨before, action, after, earlier, pair, later, rfl, hserved, hattached,
    failsAlone_iff.2 hpair, ?_, fun pair hp => refusal?_eq_none_iff.1 (hearlier pair hp)⟩
  intro other hother hs pair hp
  have hnone := hbefore other hother
  rw [if_pos hs] at hnone
  exact refusal?_eq_none_iff.1 (List.findSome?_eq_none_iff.1 hnone pair hp)

theorem exists_error_iff (hc : site.Agrees cache) {actions : List Action} :
    (∃ e, (site.resolve actions cache).result = .error e) ↔
      ∃ action ∈ actions, action.isServed = true ∧
        ∃ pair ∈ action.attached, ∃ e, site.FailsAlone pair e := by
  simp only [← failure?_eq_some_iff, failure?_resolve hc, ← Option.isSome_iff_exists,
    List.findSome?_isSome_iff, failsAlone_iff]
  refine exists_congr fun action => and_congr_right fun _ => ?_
  cases action.isServed with
  | false => simp
  | true => simp [actionRefusal?, List.findSome?_isSome_iff]

theorem addRoutes_filter_supported (site : Site) (model : Model)
    (pairs : List (Action × String)) :
    site.addRoutes model (pairs.filter fun pair => Route.isSupported pair.2) =
      site.addRoutes model pairs := by
  induction pairs generalizing model with
  | nil => rfl
  | cons pair rest ih =>
    obtain ⟨action, text⟩ := pair
    cases hs : Route.isSupported text with
    | false =>
      simp only [List.filter_cons, hs, addRoutes, site.addRoute_of_unsupported action model hs]
      exact ih model
    | true =>
      simp only [List.filter_cons, hs, if_true, addRoutes]
      exact congrArg _ (funext ih)

theorem supported_filter_isServed (actions : List Action) :
    supported (actions.filter Action.isServed) = supported actions := by
  induction actions with
  | nil => rfl
  | cons action rest ih =>
    have hsplit : supported (action :: rest) =
        (action.routes.map fun text => (action, text)).filter
          (fun pair => Route.isSupported pair.2) ++ supported rest := by
      simp [supported, routed]
    cases hs : action.isServed with
    | false =>
      have hnone : (action.routes.map fun text => (action, text)).filter
          (fun pair => Route.isSupported pair.2) = [] := by
        simpa [Action.isServed] using hs
      rw [hsplit, hnone, List.filter_cons_of_neg (by simp [hs]), ih]
      rfl
    | true =>
      rw [hsplit, ← ih, List.filter_cons_of_pos hs]
      simp [supported, routed]

/-- Actions none of whose routes has a known method change neither the result nor the warnings. -/
theorem resolve_filter_isServed (site : Site) (actions : List Action) (cache : SchemaCache) :
    (site.resolve (actions.filter Action.isServed) cache).result =
        (site.resolve actions cache).result ∧
      (site.resolve (actions.filter Action.isServed) cache).log.warnings =
        (site.resolve actions cache).log.warnings := by
  have hsame : site.addRoutes Overlay.empty (routed (actions.filter Action.isServed)) =
      site.addRoutes Overlay.empty (routed actions) := by
    rw [← addRoutes_filter_supported, ← addRoutes_filter_supported site _ (routed actions)]
    exact congrArg _ (supported_filter_isServed actions)
  rw [result_resolve, result_resolve, warnings_resolve, warnings_resolve, hsame]
  exact ⟨rfl, rfl⟩

def afterRuns (site : Site) (cache : SchemaCache) (runs : List (List Action)) : SchemaCache :=
  runs.foldl (fun cache actions => (site.resolve actions cache).cache) cache

theorem agrees_afterRuns (hc : site.Agrees cache) (runs : List (List Action)) :
    site.Agrees (site.afterRuns cache runs) := by
  induction runs generalizing cache with
  | nil => exact hc
  | cons actions rest ih => exact ih ((site.settles_resolve actions).agrees hc)

/-- A run fails exactly when an action that it serves has a value that fails alone, and with the
error of the first one. A value fails alone for a reason in itself and in the files, whatever the
draft and the hint are; actions that are not served make no difference; and after the run, which may
have failed, all later runs over the same files answer like those of a new resolver. -/
theorem resolve_fails_at_first_failure {site : Site} {cache : SchemaCache}
    (hc : site.Reached cache) (actions : List Action) :
    ((∃ e, (site.resolve actions cache).result = .error e) ↔
      ∃ action ∈ actions, action.isServed = true ∧
        ∃ pair ∈ action.attached, ∃ e, site.FailsAlone pair e) ∧
    (∀ e, (site.resolve actions cache).result = .error e → site.IsFirstFailure actions e) ∧
    (∀ hint draft key value,
      failure? (site.apply hint draft key value Overlay.empty).result = site.refusal? key value) ∧
    (site.resolve (actions.filter Action.isServed) cache).result =
      (site.resolve actions cache).result ∧
    ∀ runs later,
      let kept := site.afterRuns (site.resolve actions cache).cache runs
      (site.resolve later kept).result = (site.resolve later Overlay.empty).result ∧
        (site.resolve later kept).log = (site.resolve later Overlay.empty).log := by
  refine ⟨exists_error_iff hc.agrees, ?_, failure?_apply site.agrees_empty,
    (site.resolve_filter_isServed actions cache).1, ?_⟩
  · intro e h
    apply isFirstFailure_of_failure?
    rw [← failure?_resolve hc.agrees, h, failure?_error]
  · intro runs later kept
    have hkept := agrees_afterRuns ((site.settles_resolve actions).agrees hc.agrees) runs
    have hlater := site.settles_resolve later
    exact ⟨hlater.result_eq hkept, hlater.log_eq hkept⟩

def failing : List Action :=
  [{ target := ⟨"Pages", "old"⟩
     routes := ["ANY/pages"]
     annotations := Overlay.ofList [("include", [.text "missing"])] },
    schemaAction "list" ["GET/users"],
    { target := ⟨"Pages", "show"⟩
      routes := ["ANY/pages", "GET/pages/<int>id"]
      annotations := Overlay.ofList
        [("params", [.text "user"]), ("parameter", [.text "int $page", .text "int id"]),
          ("validate", [.text "missing"])] },
    { target := ⟨"Pages", "edit"⟩
      routes := ["PUT/pages"]
      annotations := Overlay.ofList [("params", [.text "other"])] }]

theorem resolve_fails_at_first_failure_mixed :
    let cache := (oneSchema.resolve failing Overlay.empty).cache
    (∃ action ∈ failing, action.isServed = true ∧
      ∃ pair ∈ action.attached, ∃ e, oneSchema.FailsAlone pair e) ∧
    (oneSchema.resolve failing cache).result = .error (.malformed "int id" .missingSigil) ∧
    oneSchema.IsFirstFailure failing (.malformed "int id" .missingSigil) := by
  intro cache
  have hc : oneSchema.Reached cache := .resolve .fresh failing
  obtain ⟨hiff, hfirst, -⟩ := resolve_fails_at_first_failure hc failing
  have hrun : failure? (oneSchema.resolve failing cache).result =
      some (.malformed "int id" .missingSigil) := by
    decide +kernel
  have herror := failure?_eq_some_iff.1 hrun
  exact ⟨hiff.1 ⟨_, herror⟩, herror, hfirst _ herror⟩

end Site

end Endpoints

import Endpoints.Resolution
import Endpoints.Proofs.Annotation.Definitions

/-!
# What a run registers

A run over a list of actions that succeeds registers one operation for each route whose method is
known, in order. The operation is the one that the route gets over the empty cache, whatever
earlier runs over the same files have left, so a run is determined by its registrations.
-/

namespace Endpoints

/-- Whether the method that the first token of a route states is a known one. -/
def Route.isSupported (text : String) : Bool :=
  ((Route.tokens text).head?.bind Route.method?).isSome

theorem Route.isSupported_eq_isSome (text : String) :
    Route.isSupported text = (Route.ofText? text).isSome := by
  unfold Route.isSupported Route.ofText?
  cases Route.tokens text <;> simp

def Site.supported (actions : List Action) : List (Action × String) :=
  (Site.routed actions).filter fun pair => Route.isSupported pair.2

namespace Site

open Lookup

theorem settles_operation (site : Site) (action : Action) (route : Route) :
    Settles site (site.operation action route)
      (site.operation action route Overlay.empty).result :=
  (site.settles_applyAll _ _ action.attached).bind fun _ =>
    (settles_note site _).map.fresh

theorem settles_addRoute (site : Site) (action : Action) (model : Model) (text : String) :
    Settles site (site.addRoute action model text)
      (site.addRoute action model text Overlay.empty).result := by
  unfold addRoute
  cases Route.ofText? text with
  | none => exact settles_pure site model
  | some route => exact (site.settles_operation action route).map.fresh

theorem settles_addRoutes (site : Site) (model : Model) (pairs : List (Action × String)) :
    Settles site (site.addRoutes model pairs)
      (site.addRoutes model pairs Overlay.empty).result := by
  induction pairs generalizing model with
  | nil => exact settles_pure site model
  | cons pair rest ih => exact (site.settles_addRoute pair.1 model pair.2).bind ih

theorem settles_resolve (site : Site) (actions : List Action) :
    Settles site (site.resolve actions) (site.resolve actions Overlay.empty).result :=
  (site.settles_addRoutes _ _).bind fun _ =>
    (settles_note site _).map.fresh

def oneSchema : Site where
  files := FileTree.empty.plant "schemas/user.yml" "fields: {age: {type: uuid}}".toUTF8

/-- The caches that a resolver can hold after any lookups over the same files, successful or not:
single applications of values and whole runs. -/
inductive Reached (site : Site) : SchemaCache → Prop where
  | fresh : Reached site Overlay.empty
  | apply {cache} (h : Reached site cache) (hint : Location) (draft : Draft) (key : String)
      (value : AnnotationValue) : Reached site (site.apply hint draft key value cache).cache
  | resolve {cache} (h : Reached site cache) (actions : List Action) :
      Reached site (site.resolve actions cache).cache

/-- Whatever a resolver holds is what it would read again. -/
theorem Reached.agrees {site : Site} {cache : SchemaCache} (h : site.Reached cache) :
    site.Agrees cache := by
  induction h with
  | fresh => exact site.agrees_empty
  | apply _ hint draft key value ih => exact (site.settles_apply hint draft key value).agrees ih
  | resolve _ actions ih => exact (site.settles_resolve actions).agrees ih

end Site

/-- An operation with the action and the route that it is registered for. -/
structure Registration where
  action : Action
  text : String
  route : Route
  operation : Operation

namespace Registration

/-- The text states the route, and the route gets the operation over the empty cache. -/
def Holds (site : Site) (e : Registration) : Prop :=
  Route.ofText? e.text = some e.route ∧
    (site.operation e.action e.route Overlay.empty).result = .ok e.operation

def log (site : Site) (e : Registration) : Log :=
  (site.operation e.action e.route Overlay.empty).log

def register (model : Model) (e : Registration) : Model :=
  model.register e.route.path e.operation

end Registration

namespace Site

open Lookup

variable {site : Site} {cache : SchemaCache}

theorem addRoute_of_unsupported (site : Site) (action : Action) (model : Model) {text : String}
    (h : Route.isSupported text = false) : site.addRoute action model text = pure model := by
  rw [Route.isSupported_eq_isSome] at h
  have hn : Route.ofText? text = none := by simpa using h
  simp only [addRoute, hn]

theorem addRoute_ok (hc : site.Agrees cache) {action : Action} {model next : Model}
    {text : String} (hs : Route.isSupported text = true)
    (h : (site.addRoute action model text cache).result = .ok next) :
    ∃ e : Registration, e.action = action ∧ e.text = text ∧ e.Holds site ∧
      next = e.register model ∧
      (site.addRoute action model text cache).log = e.log site := by
  rw [Route.isSupported_eq_isSome] at hs
  obtain ⟨route, hr⟩ := Option.isSome_iff_exists.1 hs
  simp only [addRoute, hr] at h ⊢
  obtain ⟨o, ho, hn⟩ := bind_ok h
  have hfresh := (site.settles_operation action route).result_eq hc
  have hlog := (site.settles_operation action route).log_eq hc
  refine ⟨⟨action, text, route, o⟩, rfl, rfl, ⟨hr, hfresh ▸ ho⟩, ?_, ?_⟩
  · cases hn
    rfl
  · rw [bind_of_ok ho, hlog]
    exact List.append_nil _

/-- Adding routes registers one operation for each of them whose method is known. -/
theorem addRoutes_ok (hc : site.Agrees cache) {start model : Model}
    {pairs : List (Action × String)}
    (h : (site.addRoutes start pairs cache).result = .ok model) :
    ∃ entries : List Registration,
      entries.map (fun e => (e.action, e.text)) =
        pairs.filter (fun pair => Route.isSupported pair.2) ∧
      (∀ e ∈ entries, e.Holds site) ∧
      model = entries.foldl Registration.register start ∧
      (site.addRoutes start pairs cache).log = entries.flatMap (Registration.log site) := by
  induction pairs generalizing start cache with
  | nil =>
    cases h
    exact ⟨[], rfl, by simp, rfl, rfl⟩
  | cons pair rest ih =>
    obtain ⟨action, text⟩ := pair
    obtain ⟨next, hnext, hrest⟩ := bind_ok h
    have hc' := (site.settles_addRoute action start text).agrees hc
    obtain ⟨entries, hpairs, hholds, hmodel, hlog⟩ := ih hc' hrest
    have hall : (site.addRoutes start ((action, text) :: rest) cache).log =
        (site.addRoute action start text cache).log ++ entries.flatMap (Registration.log site) := by
      rw [addRoutes, bind_of_ok hnext, hlog]
    cases hs : Route.isSupported text with
    | false =>
      have hpure := site.addRoute_of_unsupported action start hs
      rw [hpure] at hnext hall
      cases hnext
      exact ⟨entries, by simpa [hs] using hpairs, hholds, hmodel, hall⟩
    | true =>
      obtain ⟨e, rfl, rfl, he, rfl, helog⟩ := addRoute_ok hc hs hnext
      refine ⟨e :: entries, by simpa [hs] using hpairs, ?_, hmodel, ?_⟩
      · intro other ho
        rcases List.mem_cons.1 ho with rfl | ho
        · exact he
        · exact hholds other ho
      · rw [hall, helog, List.flatMap_cons]

end Site

end Endpoints

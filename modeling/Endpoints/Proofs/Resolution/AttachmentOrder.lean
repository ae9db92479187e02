import Endpoints.Proofs.Resolution.Drafts
import Endpoints.Proofs.Resolution.Placement
import Mathlib.Data.List.Induction

/-!
# The order in which attached values take effect

An action keeps the values of each key together, where the key first came. So values take effect
in the order in which they were attached, except that a value moves up behind the earlier values
of its key. Keys are compared as they are written: two spellings of one name are two keys.
-/

namespace Endpoints

namespace Action

/-- A new action to which values are attached, one after the other. -/
def built (target : Target) (routes : List String) (calls : List (String × AnnotationValue)) :
    Action :=
  calls.foldl (fun action call => action.annotate call.1 call.2) { target, routes }

/-- Calls with those of each key together, where the key first came. -/
def regrouped (calls : List (String × AnnotationValue)) : List (String × AnnotationValue) :=
  (calls.map Prod.fst).eraseDups.flatMap fun key => calls.filter fun call => call.1 = key

/-- Between two calls of one key there are only calls of this key. -/
def KeysTogether (calls : List (String × AnnotationValue)) : Prop :=
  ∀ first between last, [first, between, last].Sublist calls → first.1 = last.1 →
    between.1 = first.1

section Built

variable (target : Target) (routes : List String) (calls : List (String × AnnotationValue))

theorem built_append (call : String × AnnotationValue) :
    built target routes (calls ++ [call]) =
      (built target routes calls).annotate call.1 call.2 := by
  rw [built, List.foldl_append]
  rfl

theorem annotate_target (a : Action) (key : String) (value : AnnotationValue) :
    (a.annotate key value).target = a.target := rfl

theorem target_built : (built target routes calls).target = target := by
  induction calls using List.reverseRecOn with
  | nil => rfl
  | append_singleton calls call ih => rw [built_append, annotate_target, ih]

theorem keys_built :
    (built target routes calls).annotations.keys = (calls.map Prod.fst).eraseDups := by
  induction calls using List.reverseRecOn with
  | nil => rfl
  | append_singleton calls call ih =>
    rw [built_append, annotate, Table.keys_set, ih, eraseDups_append_left, List.map_append]
    rfl

theorem get?_built (key : String) :
    ((built target routes calls).annotations.get? key).getD [] =
      (calls.filter fun call => call.1 = key).map Prod.snd := by
  induction calls using List.reverseRecOn with
  | nil => rfl
  | append_singleton calls call ih =>
    rw [built_append, annotate, Table.get?_set, List.filter_append, List.map_append, ← ih]
    by_cases h : call.1 = key
    · simp [h]
    · simp [h]

/-- The values attached to a new action take effect regrouped. -/
theorem attached_built : (built target routes calls).attached = regrouped calls := by
  rw [attached, Table.toList_eq_map_keys _ [], keys_built, List.flatMap_map, regrouped]
  apply List.flatMap_congr
  intro key _
  simp only [get?_built, List.map_map]
  conv_rhs => rw [← List.map_id (calls.filter fun call => call.1 = key)]
  apply List.map_congr_left
  intro call hcall
  obtain rfl : call.1 = key := by simpa using (List.mem_filter.1 hcall).2
  rfl

end Built

theorem regrouped_cons (call : String × AnnotationValue) (rest : List (String × AnnotationValue)) :
    regrouped (call :: rest) =
      call :: ((rest.filter fun other => other.1 = call.1) ++
        regrouped (rest.filter fun other => !(other.1 == call.1))) := by
  have hothers : ∀ key ∈ ((rest.map Prod.fst).filter fun key => !(key == call.1)).eraseDups,
      ((call :: rest).filter fun other => other.1 = key) =
        (rest.filter fun other => !(other.1 == call.1)).filter fun other => other.1 = key := by
    intro key hkey
    rw [List.mem_eraseDups, List.mem_filter] at hkey
    have hne : key ≠ call.1 := by simpa using hkey.2
    rw [List.filter_cons_of_neg (by simpa using hne.symm), List.filter_filter]
    apply List.filter_congr
    intro other _
    by_cases h : other.1 = key
    · simp [h, hne]
    · simp [h]
  rw [regrouped, List.map_cons, List.eraseDups_cons, List.flatMap_cons,
    List.filter_cons_of_pos (by simp), List.flatMap_congr hothers, regrouped, List.filter_map]
  rfl

theorem KeysTogether.of_sublist {calls fewer : List (String × AnnotationValue)}
    (h : KeysTogether calls) (hsub : fewer.Sublist calls) : KeysTogether fewer :=
  fun first between last hthree => h first between last (hthree.trans hsub)

theorem KeysTogether.filter_append_filter {call : String × AnnotationValue}
    {rest : List (String × AnnotationValue)} (h : KeysTogether (call :: rest)) :
    (rest.filter fun other => other.1 = call.1) ++
      (rest.filter fun other => !(other.1 == call.1)) = rest := by
  induction rest with
  | nil => rfl
  | cons next more ih =>
    have hmore := ih (h.of_sublist ((List.sublist_cons_self next more).cons_cons call))
    by_cases hkey : next.1 = call.1
    · simpa [hkey] using hmore
    · -- The key of the first call does not come again.
      have hlater : ∀ other ∈ more, ¬ other.1 = call.1 := by
        intro other hother heq
        have hthree : [call, next, other].Sublist (call :: next :: more) :=
          ((List.singleton_sublist.2 hother).cons_cons next).cons_cons call
        exact hkey (h call next other hthree heq.symm)
      have hnone : (more.filter fun other => other.1 = call.1) = [] := by
        simpa using hlater
      rw [hnone, List.nil_append] at hmore
      simp [hkey, hnone, hmore]

/-- Calls whose keys stand together are regrouped already. -/
theorem KeysTogether.regrouped_eq {calls : List (String × AnnotationValue)}
    (h : KeysTogether calls) : regrouped calls = calls := by
  match calls with
  | [] => rfl
  | call :: rest =>
    have hrest : KeysTogether (rest.filter fun other => !(other.1 == call.1)) :=
      h.of_sublist (List.filter_sublist.cons call)
    rw [regrouped_cons, hrest.regrouped_eq, h.filter_append_filter]
termination_by calls.length
decreasing_by exact Nat.lt_succ_of_le (List.length_filter_le _ _)

end Action

namespace Site

open Lookup

/-- The operation of a target and a route when values take effect one after the other. -/
def applied (site : Site) (cache : SchemaCache) (target : Target) (route : Route)
    (calls : List (String × AnnotationValue)) : Except Error Operation :=
  (site.applyAll route.method.defaultLocation
      (Draft.start route.method target.shortClass target.function) calls cache).result.map
    fun draft =>
      (draft.addParameters (route.placeholders.map Placeholder.parameter)).finish route.path

theorem result_operation_eq_applied (site : Site) (action : Action) (route : Route)
    (cache : SchemaCache) :
    (site.operation action route cache).result =
      site.applied cache action.target route action.attached :=
  site.result_operation action route cache

theorem applied_congr {site : Site} {cache cache' : SchemaCache} (hc : site.Agrees cache)
    (hc' : site.Agrees cache') (target : Target) (route : Route)
    (calls : List (String × AnnotationValue)) :
    site.applied cache target route calls = site.applied cache' target route calls := by
  have h := site.settles_applyAll route.method.defaultLocation
    (Draft.start route.method target.shortClass target.function) calls
  rw [applied, applied, h.result_eq hc, h.result_eq hc']

/-- Of the values that take effect for a field the last one wins, and so does the last definition
of a parameter. -/
theorem isAnnotated_of_applied {site : Site} {cache : SchemaCache} (hc : site.Agrees cache)
    {target : Target} {route : Route} {calls : List (String × AnnotationValue)} {o : Operation}
    (h : site.applied cache target route calls = .ok o) :
    ∃ draft, (Draft.start route.method target.shortClass target.function).IsAnnotated site
        route.method.defaultLocation calls draft ∧
      (draft.addParameters (route.placeholders.map Placeholder.parameter)).finish
        route.path = o := by
  obtain ⟨draft, hdraft, ho⟩ := ok_of_map_ok h
  have hsettled := (site.settles_applyAll route.method.defaultLocation
    (Draft.start route.method target.shortClass target.function) calls).result_eq hc
  obtain ⟨ds, hds, rfl⟩ := ok_of_map_ok (hsettled.symm.trans hdraft)
  exact ⟨_, Draft.isAnnotated_define_changePlain _ hds, ho⟩

/-- The values that are attached to an action take effect in the order of the calls, except that
the calls of one key take effect together, where the key first came; the last value in this order
wins. When the calls of each key stand together, this is the order of the calls. -/
theorem resolve_applies_regrouped {site : Site} {cache : SchemaCache} (hc : site.Reached cache)
    {actions : List Action} {model : Model} (h : (site.resolve actions cache).result = .ok model)
    {path : String} {method : HttpMethod} {target : Target} {routes : List String}
    {calls : List (String × AnnotationValue)} {route : Route}
    (hr : registrar? actions path method = some (.built target routes calls, route)) :
    ∃ o draft, model.operation? path method = some o ∧
      site.applied cache target route (Action.regrouped calls) = .ok o ∧
      (Action.KeysTogether calls → site.applied cache target route calls = .ok o) ∧
      (Draft.start route.method target.shortClass target.function).IsAnnotated site
        route.method.defaultLocation (Action.regrouped calls) draft ∧
      (draft.addParameters (route.placeholders.map Placeholder.parameter)).finish
        route.path = o := by
  obtain ⟨o, ho, hoperation⟩ := operation?_of_registrar? hc.agrees h hr
  rw [result_operation_eq_applied, Action.target_built, Action.attached_built,
    applied_congr site.agrees_empty hc.agrees] at hoperation
  obtain ⟨draft, hannotated, hfinish⟩ := isAnnotated_of_applied hc.agrees hoperation
  refine ⟨o, draft, ho, hoperation, fun htogether => ?_, hannotated, hfinish⟩
  rw [← htogether.regrouped_eq]
  exact hoperation

theorem registrar?_single {action : Action} {text : String} {route : Route}
    (hroutes : action.routes = [text]) (h : Route.ofText? text = some route) :
    registrar? [action] route.path route.method = some (action, route) := by
  simp [registrar?, registering, routed, hroutes, h, lastOf?]

def listTarget : Target := ⟨"Controllers\\UsersController", "list"⟩

def listRoute : Route := ⟨.get, ["users"]⟩

def together : List (String × AnnotationValue) :=
  [("summary", .text "One"), ("summary", .text "Two"), ("Summary", .text "Three")]

theorem resolve_applies_regrouped_together :
    ∃ model o draft, (Site.resolve {} [.built listTarget ["GET/users"] together]
        Overlay.empty).result = .ok model ∧
      registrar? [.built listTarget ["GET/users"] together] listRoute.path .get =
        some (.built listTarget ["GET/users"] together, listRoute) ∧
      model.operation? listRoute.path .get = some o ∧
      Site.applied {} Overlay.empty listTarget listRoute (Action.regrouped together) = .ok o ∧
      Site.applied {} Overlay.empty listTarget listRoute together = .ok o ∧
      (Draft.start .get listTarget.shortClass listTarget.function).IsAnnotated {} .query
        (Action.regrouped together) draft ∧
      draft.finish listRoute.path = o := by
  have hr : Route.ofText? "GET/users" = some listRoute := by decide +kernel
  have hregistrar := registrar?_single
    (rfl : (Action.built listTarget ["GET/users"] together).routes = ["GET/users"]) hr
  have htogether : Action.KeysTogether together := by
    intro first between last hsub hkey
    cases hsub.eq_of_length rfl
    exact absurd hkey (by decide)
  obtain ⟨model, h⟩ := ok_of_isOk
    (r := (Site.resolve {} [.built listTarget ["GET/users"] together] Overlay.empty).result)
    (by decide +kernel)
  obtain ⟨o, draft, ho, hregrouped, hcalls, hannotated, hfinish⟩ :=
    resolve_applies_regrouped .fresh h hregistrar
  exact ⟨model, o, draft, h, hregistrar, ho, hregrouped, hcalls htogether, hannotated, hfinish⟩

def interleaved : List (String × AnnotationValue) :=
  [("summary", .text "One"), ("Summary", .text "Two"), ("summary", .text "Three")]

/-- The last call of a field does not always win: it moves up to the first call of its key. -/
theorem resolve_not_applied_interleaved :
    ∃ model o, (Site.resolve {} [.built listTarget ["GET/users"] interleaved]
        Overlay.empty).result = .ok model ∧
      registrar? [.built listTarget ["GET/users"] interleaved] listRoute.path .get =
        some (.built listTarget ["GET/users"] interleaved, listRoute) ∧
      model.operation? listRoute.path .get = some o ∧ o.summary = some "Two" ∧
      Site.applied {} Overlay.empty listTarget listRoute interleaved ≠ .ok o := by
  have hr : Route.ofText? "GET/users" = some listRoute := by decide +kernel
  have hregistrar := registrar?_single
    (rfl : (Action.built listTarget ["GET/users"] interleaved).routes = ["GET/users"]) hr
  have hrun : ((Site.resolve {} [.built listTarget ["GET/users"] interleaved]
      Overlay.empty).result.toOption.bind fun model =>
        model.operation? listRoute.path .get).map Operation.summary = some (some "Two") := by
    decide +kernel
  have hcalls : (Site.applied {} Overlay.empty listTarget listRoute interleaved).toOption.map
      Operation.summary = some (some "Three") := by
    decide +kernel
  obtain ⟨o, ho, hsummary⟩ := Option.map_eq_some_iff.1 hrun
  obtain ⟨model, hmodel, ho⟩ := Option.bind_eq_some_iff.1 ho
  refine ⟨model, o, ok_of_toOption hmodel, hregistrar, ho, hsummary, ?_⟩
  intro heq
  rw [heq] at hcalls
  have hthree : some o.summary = some (some "Three") := hcalls
  rw [hsummary] at hthree
  exact absurd hthree (by decide)

end Site

end Endpoints

import Endpoints.Proofs.Annotation.Hints
import Endpoints.Proofs.Resolution.Placement
import Endpoints.Proofs.Resolution.Drafts
import Endpoints.Proofs.Route.Tokens

/-!
# What the method of a route decides

Two routes that differ in their methods alone run in parallel: they fail alike, log the same
warnings, and register the same path. Their operations differ in the method, and in the locations of
the parameters that go to the default location of the method.
-/

namespace Endpoints

/-- Two operations agree up to their methods and the default locations of these. -/
structure Operation.DiffersByMethod (m₁ m₂ : HttpMethod) (o₁ o₂ : Operation) : Prop where
  method_eq : o₁.method = m₁
  rest_eq : o₂ = { o₁ with method := m₂, parameters := o₂.parameters }
  parameters : List.Forall₂
    (Parameter.DiffersAt m₁.defaultLocation m₂.defaultLocation) o₁.parameters o₂.parameters
  same_default : m₁.defaultLocation = m₂.defaultLocation → o₂ = { o₁ with method := m₂ }

def Model.DiffersByMethod (m₁ m₂ : HttpMethod) (a b : Model) : Prop :=
  ∃ path o₁ o₂, a = Model.single path o₁ ∧ b = Model.single path o₂ ∧
    Operation.DiffersByMethod m₁ m₂ o₁ o₂

theorem Parameter.eq_of_forall₂_differsAt {l₁ l₂ : Location} (hl : l₁ = l₂)
    {ps qs : List Parameter} (h : List.Forall₂ (DiffersAt l₁ l₂) ps qs) : qs = ps := by
  induction h with
  | nil => rfl
  | cons hpq _ ih => rw [hpq.eq_of_same hl, ih]

theorem Draft.Corresponds.finish {m₁ m₂ : HttpMethod} {d e : Draft}
    (h : d.Corresponds m₁.defaultLocation m₂.defaultLocation (some m₁) (some m₂) e)
    (path : String) : Operation.DiffersByMethod m₁ m₂ (d.finish path) (e.finish path) := by
  cases h with
  | mk ps hm hps =>
    have hfinal : d.finalMethod = m₁ := by
      rw [finalMethod, hm]
      rfl
    let e : Draft := { d with method := some m₂, parameters := ps }
    have hrest : e.finish path =
        { d.finish path with method := m₂, parameters := (e.finish path).parameters } := rfl
    have hparameters : List.Forall₂
        (Parameter.DiffersAt m₁.defaultLocation m₂.defaultLocation)
        (d.finish path).parameters (e.finish path).parameters := by
      rw [parameters_finish, parameters_finish, hfinal, List.forall₂_map_left_iff,
        List.forall₂_map_right_iff]
      exact hps.imp fun _ _ =>
        Parameter.Corresponds.settle m₁.defaultLocation_ne m₂.defaultLocation_ne
    refine ⟨hfinal, hrest, hparameters, fun hsame => ?_⟩
    exact hrest.trans (by rw [Parameter.eq_of_forall₂_differsAt hsame hparameters])

namespace Site

open Lookup

theorem parallel_drafted (site : Site) (action : Action) (m₁ m₂ : HttpMethod) :
    Parallel (Draft.Corresponds m₁.defaultLocation m₂.defaultLocation (some m₁) (some m₂))
      (site.drafted action m₁) (site.drafted action m₂) := by
  let start (m : HttpMethod) := Draft.start m action.target.shortClass action.target.function
  have hstart : Draft.Corresponds m₁.defaultLocation m₂.defaultLocation (some m₁) (some m₂)
      (start m₁) (start m₂) := .mk Overlay.empty rfl .nil
  exact site.parallel_applyAll hstart action.attached

theorem parallel_operation (site : Site) (action : Action) (m₁ m₂ : HttpMethod)
    (segments : List String) :
    Parallel (Operation.DiffersByMethod m₁ m₂) (site.operation action ⟨m₁, segments⟩)
      (site.operation action ⟨m₂, segments⟩) := by
  rw [operation_eq_drafted, operation_eq_drafted]
  refine (site.parallel_drafted action m₁ m₂).bind fun d e hde => ?_
  refine parallel_bind_self _ fun _ => parallel_pure ?_
  refine (hde.addParameters (List.forall₂_same.2 fun p hp => ?_)).finish _
  obtain ⟨placeholder, -, rfl⟩ := List.mem_map.1 hp
  exact .stated Location.noConfusion

/-- Two routes that differ in their methods alone give one error, or models of one path whose
operations differ as their methods do. What was read before plays no part. -/
theorem alike_resolve {site : Site} {c₁ c₂ : SchemaCache} (hc₁ : site.Agrees c₁)
    (hc₂ : site.Agrees c₂) (action : Action) {text₁ text₂ : String} {m₁ m₂ : HttpMethod}
    {segments : List String} (h₁ : Route.ofText? text₁ = some ⟨m₁, segments⟩)
    (h₂ : Route.ofText? text₂ = some ⟨m₂, segments⟩) :
    Alike (Model.DiffersByMethod m₁ m₂) (site.resolve [action.withOnly text₁] c₁).result
        (site.resolve [action.withOnly text₂] c₂).result ∧
      (site.resolve [action.withOnly text₁] c₁).log.warnings =
        (site.resolve [action.withOnly text₂] c₂).log.warnings := by
  obtain ⟨hresult₁, hlog₁⟩ := resolve_withOnly h₁ site action c₁
  obtain ⟨hresult₂, hlog₂⟩ := resolve_withOnly h₂ site action c₂
  obtain ⟨halike, -, hlog⟩ := site.parallel_operation action m₁ m₂ segments Overlay.empty
  have hs₁ := site.settles_operation action ⟨m₁, segments⟩
  have hs₂ := site.settles_operation action ⟨m₂, segments⟩
  rw [hresult₁, hresult₂, hlog₁, hlog₂, hs₁.result_eq hc₁, hs₂.result_eq hc₂, hs₁.log_eq hc₁,
    hs₂.log_eq hc₂, hlog]
  exact ⟨halike.map fun o₁ o₂ ho => ⟨_, o₁, o₂, rfl, rfl, ho⟩, rfl⟩

/-- Two methods before the same rest of a route. When the rest starts with `>`, it takes the slash
into the token of the method, and both routes are passed over. Otherwise both runs fail with one
error, or both register one path with operations that differ as their methods do. The warnings are
the same in any case. -/
theorem resolve_differs_by_method {site : Site} {c₁ c₂ : SchemaCache} (hc₁ : site.Reached c₁)
    (hc₂ : site.Reached c₂) (action : Action) {token₁ token₂ : String} {m₁ m₂ : HttpMethod}
    (h₁ : Route.method? token₁ = some m₁) (h₂ : Route.method? token₂ = some m₂) (rest : String) :
    let run₁ := site.resolve [action.withOnly (token₁ ++ "/" ++ rest)] c₁
    let run₂ := site.resolve [action.withOnly (token₂ ++ "/" ++ rest)] c₂
    (if rest.toList.head? = some '>' then
        run₁.result = .ok Overlay.empty ∧ run₂.result = .ok Overlay.empty
      else Alike (Model.DiffersByMethod m₁ m₂) run₁.result run₂.result) ∧
      run₁.log.warnings = run₂.log.warnings := by
  intro run₁ run₂
  have hr₁ := Route.ofText?_append h₁ rest
  have hr₂ := Route.ofText?_append h₂ rest
  by_cases hrest : rest.toList.head? = some '>'
  · rw [if_pos hrest] at hr₁ hr₂ ⊢
    obtain ⟨hresult₁, hlog₁⟩ := resolve_withOnly_of_none hr₁ site action c₁
    obtain ⟨hresult₂, hlog₂⟩ := resolve_withOnly_of_none hr₂ site action c₂
    exact ⟨⟨hresult₁, hresult₂⟩, hlog₁.trans hlog₂.symm⟩
  · rw [if_neg hrest] at hr₁ hr₂ ⊢
    exact alike_resolve hc₁.agrees hc₂.agrees action hr₁ hr₂

/-- Methods with different defaults, for parameters that are declared, open and in the path. -/
theorem resolve_differs_by_method_update :
    let run₁ := oneSchema.resolve [updateAction.withOnly ("GET" ++ "/" ++ "users/<int>id")]
      Overlay.empty
    let run₂ := oneSchema.resolve [updateAction.withOnly (" put " ++ "/" ++ "users/<int>id")]
      (oneSchema.resolve [updateAction] Overlay.empty).cache
    Route.method? "GET" = some .get ∧ Route.method? " put " = some .put ∧
      ∃ a b, run₁.result = .ok a ∧ run₂.result = .ok b ∧ Model.DiffersByMethod .get .put a b ∧
        run₁.log.warnings = run₂.log.warnings := by
  intro run₁ run₂
  have h₁ : Route.method? "GET" = some .get := by decide +kernel
  have h₂ : Route.method? " put " = some .put := by decide +kernel
  have hc₂ : oneSchema.Reached (oneSchema.resolve [updateAction] Overlay.empty).cache :=
    .resolve .fresh [updateAction]
  obtain ⟨halike, hlog⟩ :=
    resolve_differs_by_method .fresh hc₂ updateAction h₁ h₂ "users/<int>id"
  rw [if_neg (by decide)] at halike
  obtain ⟨a, ha⟩ := ok_of_isOk (r := run₁.result) (by decide +kernel)
  obtain ⟨b, hb, hab⟩ := halike.exists_ok ha
  exact ⟨h₁, h₂, a, b, ha, hb, hab, hlog⟩

end Site

end Endpoints

import Endpoints.Proofs.Lookup.Ensuring
import Endpoints.Proofs.Resolution.WellFormed
import Endpoints.Proofs.Schema.Snapshots

/-!
# Parameters that need nothing more

Every source gives parameters with names, and the only suggestion that one of them can carry is the
hint that the source was asked with. A route asks with the default location of its method, so the
parameters of a finished operation are settled: also when the files change between the runs, and a
schema stems from a file that is not there any more.
-/

namespace Endpoints

/-- A parameter that needs nothing more: it has a name, and its location is settled. -/
structure Parameter.IsFinal (p : Parameter) : Prop where
  name_ne : p.name ≠ ""
  location_ne : p.location ≠ .guess
  hint_eq : p.hint = none

/-- A parameter of a source that was asked with a hint: it has a name, and while its location is
open it may remember the hint. -/
structure Parameter.IsSound (p : Parameter) (hint : Location) : Prop where
  name_ne : p.name ≠ ""
  hint_eq : p.hint = none ∨ p.location = .guess ∧ p.hint = some hint

structure Operation.IsFinal (o : Operation) : Prop where
  parameters : ∀ p ∈ o.parameters, p.IsFinal
  distinct : (o.parameters.map Parameter.name).Nodup

def Draft.IsSound (d : Draft) (hint : Location) : Prop :=
  ∀ p ∈ d.parameters.toList, p.IsSound hint

def Change.IsSound (hint : Location) : Change → Prop
  | .parameters ps => ∀ p ∈ ps, p.IsSound hint
  | _ => True

def Model.IsFinal (m : Model) : Prop :=
  ∀ path method o, m.operation? path method = some o → o.IsFinal

variable {hint : Location}

theorem Parameter.IsFinal.settle_eq {p : Parameter} (h : p.IsFinal) (fallback : Location) :
    p.settle fallback = p := if_neg h.location_ne

theorem Parameter.IsSound.isFinal_settle {p : Parameter} (h : p.IsSound hint)
    {fallback : Location} (hh : hint ≠ .guess) (hf : fallback ≠ .guess) :
    (p.settle fallback).IsFinal := by
  refine ⟨by rw [name_settle]; exact h.name_ne, ?_, ?_⟩
  · unfold settle
    split
    · rcases h.hint_eq with hnone | ⟨_, hsome⟩
      · simpa [hnone] using hf
      · simpa [hsome] using hh
    · assumption
  · unfold settle
    split
    · rfl
    · rename_i hsettled
      exact h.hint_eq.resolve_right fun hopen => hsettled hopen.1

theorem Parameter.isSound_withHint {p : Parameter} (hname : p.name ≠ "") (hp : p.hint = none)
    (hint : Location) : (Site.withHint hint p).IsSound hint := by
  unfold Site.withHint
  split
  · rename_i hopen
    exact ⟨hname, .inr ⟨hopen, rfl⟩⟩
  · exact ⟨hname, .inl hp⟩

namespace Draft

theorem isSound_blank (hint : Location) : blank.IsSound hint := by
  intro p hp
  cases hp

theorem IsSound.addParameters {d : Draft} {ps : List Parameter} (hd : d.IsSound hint)
    (h : ∀ p ∈ ps, p.IsSound hint) : (d.addParameters ps).IsSound hint := by
  intro p hp
  rcases Overlay.mem_of_mem_putAll hp with hold | hnew
  · exact hd p hold
  · exact h p hnew

theorem IsSound.change {d : Draft} {c : Change} (hd : d.IsSound hint) (hc : c.IsSound hint) :
    (d.change c).IsSound hint := by
  cases c with
  | parameters ps => exact hd.addParameters hc
  | extend field values => cases field <;> exact hd
  | nothing | summary | description | operationId | deprecated => exact hd

/-- Finishing a draft of final parameters keeps them, under every method. -/
theorem parameters_finish_of_isFinal {d : Draft} (h : ∀ p ∈ d.parameters.toList, p.IsFinal)
    (path : String) : (d.finish path).parameters = d.parameters.toList := by
  conv_rhs => rw [← List.map_id d.parameters.toList]
  exact List.map_congr_left fun p hp => (h p hp).settle_eq _

theorem IsSound.isFinal_finish {d : Draft} (hd : d.IsSound hint) (hh : hint ≠ .guess)
    (path : String) : (d.finish path).IsFinal := by
  constructor
  · intro q hq
    obtain ⟨p, hp, rfl⟩ := List.mem_map.1 hq
    exact (hd p hp).isFinal_settle hh d.finalMethod.defaultLocation_ne
  · rw [names_finish]
    exact d.parameters.nodup

end Draft

namespace Model

theorem isFinal_empty : IsFinal Overlay.empty := by
  intro path method o h
  cases h

theorem IsFinal.register {m : Model} {o : Operation} (hm : m.IsFinal) (ho : o.IsFinal)
    (path : String) : (m.register path o).IsFinal := by
  intro path' method found h
  rw [operation?_register] at h
  split at h
  · cases h
    exact ho
  · exact hm path' method found h

end Model

namespace Site

open Lookup

variable (site : Site)

theorem ensures_schema (name : String) :
    Ensures (site.schema name) fun schema => schema.fault? = none := by
  intro cache hc
  unfold schema
  cases hk : cache.get? name with
  | some known =>
    refine ⟨hc, fun schema h => ?_⟩
    cases h
    exact hc name known hk
  | none =>
    cases hr : site.readSchema name with
    | error e =>
      refine ⟨hc, fun _ h => ?_⟩
      cases h
    | ok read =>
      have hread := fault?_of_readSchema hr
      refine ⟨hc.set hread, fun schema h => ?_⟩
      cases h
      exact hread

theorem ensures_schemaParameters (hint : Location) (name : String) :
    Ensures (site.schemaParameters hint name) fun ps => ∀ p ∈ ps, p.IsSound hint := by
  refine (site.ensures_schema name).bind fun schema hschema => ?_
  refine (ensures_note schema.notices).bind fun _ _ => ensures_pure fun p hp => ?_
  obtain ⟨⟨field, d⟩, _, rfl⟩ := List.mem_map.1 hp
  exact ⟨Schema.name_ne_of_mem_parameters hschema hp,
    .inr (schema.location_parameter hint field d)⟩

theorem ensures_entryParameters {entry : FragmentEntry} (h : entry.IsPlain) (hint : Location)
    (path : String) :
    Ensures (site.entryParameters hint path entry) fun ps => ∀ p ∈ ps, p.IsSound hint := by
  cases entry with
  | schema name => exact site.ensures_schemaParameters hint name
  | parameter p =>
    rw [entryParameters]
    split
    · exact ensures_error _ _
    · rename_i hname
      exact ensures_pure (List.forall_mem_singleton.2 (Parameter.isSound_withHint hname h hint))

theorem ensures_addEntries {entries : List FragmentEntry} (h : ∀ entry ∈ entries, entry.IsPlain)
    (hint : Location) (path : String) (draft : Draft) :
    Ensures (site.addEntries hint path draft entries) fun next =>
      draft.IsSound hint → next.IsSound hint := by
  induction entries generalizing draft with
  | nil => exact ensures_pure id
  | cons entry rest ih =>
    obtain ⟨hentry, hrest⟩ := List.forall_mem_cons.1 h
    refine (site.ensures_entryParameters hentry hint path).bind fun ps hps => ?_
    exact (ih hrest (draft.addParameters ps)).mono fun next hnext hdraft =>
      hnext (hdraft.addParameters hps)

theorem ensures_fragment (hint : Location) (name : String) :
    Ensures (site.fragment hint name) fun draft => draft.IsSound hint := by
  have hread : Ensures (ofExcept (site.readFragment name)) fun found =>
      ∀ entry ∈ found.2.entries, entry.IsPlain :=
    ensures_ofExcept fun found h => isPlain_of_readFragment h
  refine hread.bind fun found hfound => ?_
  exact (site.ensures_addEntries hfound hint found.1 Draft.blank).mono fun draft hdraft =>
    hdraft (Draft.isSound_blank hint)

theorem ensures_declaredParameter (hint : Location) (line : String) :
    Ensures (declaredParameter hint line) fun p => p.IsSound hint := by
  refine (ensures_note _).bind fun _ _ => ?_
  cases hp : Parameter.ofDeclaration line hint with
  | error fault => exact ensures_error _ _
  | ok p =>
    have hhint := (Parameter.location_of_ofDeclaration hp).2
    exact ensures_pure ⟨Parameter.name_ne_of_ofDeclaration hp, .inl hhint⟩

theorem ensures_changeOfKey (hint : Location) (value : AnnotationValue) (known : AnnotationKey) :
    Ensures (site.changeOfKey hint value known) fun c => c.IsSound hint := by
  cases known with
  | parameter =>
    refine (ensures_declaredParameter hint value.display).bind fun p hp => ?_
    exact ensures_pure (List.forall_mem_singleton.2 hp)
  | schema =>
    exact (site.ensures_schemaParameters hint value.display).bind fun ps hps => ensures_pure hps
  | fragment =>
    exact (site.ensures_fragment hint value.display).bind fun draft hdraft => ensures_pure hdraft
  | summary | description | operationId | deprecated | list => exact ensures_pure trivial

/-- An annotation keeps a draft sound under the hint that it is applied with. -/
theorem ensures_apply (hint : Location) (draft : Draft) (key : String) (value : AnnotationValue) :
    Ensures (site.apply hint draft key value) fun next =>
      draft.IsSound hint → next.IsSound hint := by
  have hchange : Ensures (site.change hint key value) fun c => c.IsSound hint := by
    unfold change
    cases AnnotationKey.ofText? key with
    | none => exact ensures_pure trivial
    | some known => exact site.ensures_changeOfKey hint value known
  exact hchange.bind fun c hc => ensures_pure fun hdraft => hdraft.change hc

theorem ensures_applyAll (hint : Location) (draft : Draft)
    (pairs : List (String × AnnotationValue)) :
    Ensures (site.applyAll hint draft pairs) fun next =>
      draft.IsSound hint → next.IsSound hint := by
  induction pairs generalizing draft with
  | nil => exact ensures_pure id
  | cons pair rest ih =>
    refine (site.ensures_apply hint draft pair.1 pair.2).bind fun next hnext => ?_
    exact (ih next).mono fun last hlast hdraft => hlast (hnext hdraft)

/-- The placeholders that are laid over a sound draft have names too, so all of them are final. -/
theorem ensures_operation (action : Action) (route : Route) :
    Ensures (site.operation action route) fun o => o.IsFinal := by
  refine (site.ensures_applyAll _ _ action.attached).bind fun draft hdraft => ?_
  refine (ensures_note _).bind fun _ _ => ensures_pure ?_
  have hplaceholders : ∀ p ∈ route.placeholders.map Placeholder.parameter,
      p.IsSound route.method.defaultLocation := by
    intro p hp
    obtain ⟨placeholder, hplaceholder, rfl⟩ := List.mem_map.1 hp
    obtain ⟨segment, _, hsegment⟩ := List.mem_filterMap.1 hplaceholder
    exact ⟨Placeholder.name_ne_of_ofSegment? hsegment, .inl rfl⟩
  have hstarted := hdraft (Draft.isSound_blank route.method.defaultLocation)
  exact (hstarted.addParameters hplaceholders).isFinal_finish route.method.defaultLocation_ne
    route.path

theorem ensures_addRoute (action : Action) {model : Model} (hm : model.IsFinal) (text : String) :
    Ensures (site.addRoute action model text) Model.IsFinal := by
  unfold addRoute
  cases Route.ofText? text with
  | none => exact ensures_pure hm
  | some route =>
    exact (site.ensures_operation action route).bind fun o ho =>
      ensures_pure (hm.register ho route.path)

theorem ensures_addRoutes {model : Model} (hm : model.IsFinal) (pairs : List (Action × String)) :
    Ensures (site.addRoutes model pairs) Model.IsFinal := by
  induction pairs generalizing model with
  | nil => exact ensures_pure hm
  | cons pair rest ih =>
    exact (site.ensures_addRoute pair.1 hm pair.2).bind fun next hnext => ih hnext

theorem ensures_resolve (actions : List Action) :
    Ensures (site.resolve actions) Model.IsFinal := by
  refine (site.ensures_addRoutes Model.isFinal_empty (routed actions)).bind fun model hm => ?_
  exact (ensures_note _).bind fun _ _ => ensures_pure hm

end Site

namespace Resolver

/-- The states of a resolver: a new one, and what is left of it after lookups, after changes of the
files and after whole runs. -/
inductive Reached : Resolver → Prop where
  | fresh (site : Site) : Reached { site }
  | next {r : Resolver} (h : Reached r) (step : Step) : Reached (r.next step)
  | resolve {r : Resolver} (h : Reached r) (actions : List Action) :
      Reached { r with cache := (r.site.resolve actions r.cache).cache }

theorem Reached.isFaultless {r : Resolver} (h : r.Reached) : r.cache.IsFaultless := by
  induction h with
  | fresh site => exact SchemaCache.isFaultless_empty
  | @next r _ step ih =>
    cases step with
    | edit change => exact ih
    | schema hint name => exact (r.site.ensures_schemaParameters hint name r.cache ih).1
    | apply hint draft key value => exact (r.site.ensures_apply hint draft key value r.cache ih).1
    | fragment hint name => exact (r.site.ensures_fragment hint name r.cache ih).1
  | @resolve r _ actions ih => exact (r.site.ensures_resolve actions r.cache ih).1

/-- Whatever a resolver has read before, its models are final. -/
theorem Reached.isFinal_of_resolve {r : Resolver} (hr : r.Reached) {actions : List Action}
    {model : Model} (h : (r.site.resolve actions r.cache).result = .ok model) : model.IsFinal :=
  (r.site.ensures_resolve actions r.cache hr.isFaultless).2 model h

end Resolver

end Endpoints

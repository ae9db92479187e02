import Endpoints.Content.Equality
import Endpoints.Proofs.Resolution.FinalParameters
import Endpoints.Proofs.Source.PlainData

/-!
# Resolved parameters as a fragment

The parameters of an operation have names, which are distinct, and settled locations. So a fragment
that lists what a document shows of them brings in just these parameters, whatever location is
suggested, and finishing a draft that carries them changes none of them.
-/

namespace Endpoints

namespace Site

variable {site : Site}

/-- Final parameters in a fragment are laid over a draft as they are. -/
theorem addEntries_of_isFinal {ps : List Parameter} (h : ∀ p ∈ ps, p.IsFinal) (hint : Location)
    (path : String) (draft : Draft) (cache : SchemaCache) :
    site.addEntries hint path draft (ps.map .parameter) cache =
      ⟨.ok (draft.addParameters ps), cache, []⟩ := by
  induction ps generalizing draft with
  | nil => rfl
  | cons p rest ih =>
    obtain ⟨hp, hrest⟩ := List.forall_mem_cons.1 h
    have hentry : site.entryParameters hint path (.parameter p) cache = ⟨.ok [p], cache, []⟩ := by
      rw [entryParameters, if_neg hp.name_ne, withHint, if_neg hp.location_ne]
      rfl
    rw [List.map_cons, addEntries, Lookup.bind_of_ok (congrArg Outcome.result hentry), hentry,
      ih hrest]
    rfl

/-- A fragment that lists what a document shows of final parameters is read as these. -/
theorem readFragment_of_contents {ps : List Parameter} (h : ∀ p ∈ ps, p.IsFinal)
    {name file : String}
    (hfile : site.locate .fragment site.includesDirectory fragmentEndings name = .ok file)
    (hshown : RouteTable.readSource site.files file Fragment.contents =
      .ok (ps.map Parameter.content)) :
    site.readFragment name = .ok (file, ⟨ps.map .parameter⟩) := by
  have hdecoded : (ps.map Parameter.content).mapM FragmentEntry.ofData? =
      some (ps.map .parameter) := by
    refine mapM_map_eq_some_map fun p hp => ?_
    rw [FragmentEntry.ofData?_content, ← (h p hp).hint_eq]
  have hread : RouteTable.readSource site.files file Fragment.read = .ok ⟨ps.map .parameter⟩ :=
    RouteTable.readSource_of_readSource
      (fun x before after hx => ⟨after, Fragment.read_of_contents hdecoded hx⟩) hshown
  rw [readFragment, hfile]
  change (RouteTable.readSource site.files file Fragment.read >>= _) = _
  rw [hread]
  rfl

theorem fragment_of_isFinal {ps : List Parameter} (h : ∀ p ∈ ps, p.IsFinal)
    {name file : String}
    (hfile : site.locate .fragment site.includesDirectory fragmentEndings name = .ok file)
    (hshown : RouteTable.readSource site.files file Fragment.contents =
      .ok (ps.map Parameter.content)) (hint : Location) (cache : SchemaCache) :
    site.fragment hint name cache = ⟨.ok (Draft.blank.addParameters ps), cache, []⟩ := by
  have hfound : (Lookup.ofExcept (site.readFragment name) cache).result =
      .ok (file, ⟨ps.map .parameter⟩) := readFragment_of_contents h hfile hshown
  rw [fragment, Lookup.bind_of_ok hfound]
  simp only [Lookup.ofExcept_apply, addEntries_of_isFinal h, List.append_nil]

/-- The parameters of a resolved operation can be used again as a fragment, whatever the resolver
has read before. When the list of a fragment holds what a document shows of them, then the fragment
is found for every hint and over every cache, and it carries exactly these parameters in their
order, without suggestions; they stay as they are when they are finished under any method. -/
theorem fragment_of_resolved {r : Resolver} (hr : r.Reached) {actions : List Action}
    {model : Model} (h : (r.site.resolve actions r.cache).result = .ok model) {path : String}
    {method : HttpMethod} {o : Operation} (ho : model.operation? path method = some o)
    {name file : String}
    (hfile : site.locate .fragment site.includesDirectory fragmentEndings name = .ok file)
    (hshown : RouteTable.readSource site.files file Fragment.contents =
      .ok (o.parameters.map Parameter.content))
    (hint : Location) (cache : SchemaCache) :
    ∃ ps : ParameterOverlay,
      site.fragment hint name cache = ⟨.ok { Draft.blank with parameters := ps }, cache, []⟩ ∧
        ps.toList = o.parameters ∧ (∀ p ∈ ps.toList, p.hint = none) ∧
        ∀ (other : Option HttpMethod) (place : String),
          ({ Draft.blank with method := other, parameters := ps }.finish place).parameters =
            o.parameters := by
  obtain ⟨hfinal, hdistinct⟩ := hr.isFinal_of_resolve h path method o ho
  let ps : ParameterOverlay := ⟨o.parameters, hdistinct⟩
  have hlaid : Draft.blank.addParameters o.parameters = { Draft.blank with parameters := ps } :=
    congrArg (fun ps => { Draft.blank with parameters := ps }) (Overlay.ofList_toList ps)
  refine ⟨ps, ?_, rfl, fun p hp => (hfinal p hp).hint_eq, fun other place => ?_⟩
  · rw [← hlaid]
    exact fragment_of_isFinal hfinal hfile hshown hint cache
  · exact Draft.parameters_finish_of_isFinal hfinal place

def remembering : Resolver :=
  (Resolver.next { site := oneSchema } (.schema .query "user")).next
    (.edit fun files => files.removeFile "schemas/user.yml")

def sharing (o : Operation) : Site where
  files := FileTree.empty.plant "includes/shared.yml"
    ("of: PUT\nparameters: " ++ Json.compact (.list (o.parameters.map Parameter.content))).toUTF8

theorem fragment_of_resolved_update :
    ∃ model o, (remembering.site.resolve [updateAction] remembering.cache).result = .ok model ∧
      model.operation? "/users/\x7bid\x7d" .put = some o ∧ o.parameters ≠ [] ∧
      ∃ ps : ParameterOverlay,
        (sharing o).fragment .header "shared" Overlay.empty =
            ⟨.ok { Draft.blank with parameters := ps }, Overlay.empty, []⟩ ∧
          ps.toList = o.parameters ∧ (∀ p ∈ ps.toList, p.hint = none) ∧
          ∀ (other : Option HttpMethod) (place : String),
            ({ Draft.blank with method := other, parameters := ps }.finish place).parameters =
              o.parameters := by
  have hreached : remembering.Reached := .next (.next (.fresh oneSchema) _) _
  have hrun : (((remembering.site.resolve [updateAction] remembering.cache).result.toOption.bind
      fun model => model.operation? "/users/\x7bid\x7d" .put).any fun o =>
        o.parameters ≠ [] ∧
          (sharing o).locate .fragment "includes" fragmentEndings "shared" =
            .ok "includes/shared.yml" ∧
          RouteTable.readSource (sharing o).files "includes/shared.yml" Fragment.contents =
            .ok (o.parameters.map Parameter.content)) = true := by
    decide +kernel
  obtain ⟨o, ho, hchecked⟩ := (Option.any_eq_true _ _).1 hrun
  obtain ⟨model, hmodel, ho⟩ := Option.bind_eq_some_iff.1 ho
  obtain ⟨hsome, hfile, hshown⟩ := of_decide_eq_true hchecked
  have h := ok_of_toOption hmodel
  exact ⟨model, o, h, ho, hsome,
    fragment_of_resolved hreached h ho hfile hshown .header Overlay.empty⟩

end Site

end Endpoints

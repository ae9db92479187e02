import Endpoints.Proofs.Annotation.Contributions
import Endpoints.Proofs.Resolution.Registrations

/-!
# What a sequence of annotations does

A field with one value takes the last value whose key names it, a list takes all values that are
new, and the parameters are laid over each other by name. Each field is followed on its own: what
one pair does to it, and from that what a whole sequence does.
-/

namespace Endpoints

/-- The values whose key names a field, in order. -/
def valuesOf (name : String) (pairs : List (String × AnnotationValue)) : List AnnotationValue :=
  (pairs.filter fun pair => AnnotationKey.names name pair.1).map Prod.snd

theorem valuesOf_cons (name : String) (pair : String × AnnotationValue)
    (rest : List (String × AnnotationValue)) :
    valuesOf name (pair :: rest) =
      if AnnotationKey.names name pair.1 then pair.2 :: valuesOf name rest
      else valuesOf name rest := by
  rw [valuesOf, valuesOf, List.filter_cons]
  split <;> rfl

namespace Draft

section Fields

variable {β : Type} (f : Draft → β) {k : AnnotationKey} {name : String}

theorem change_plainChange {g : Draft → AnnotationValue → β} (hn : k.spellings = [Text.lower name])
    (hf : ∀ d (known : AnnotationKey) value, f (d.change (known.plainChange value)) =
      if known = k then g d value else f d)
    (d : Draft) (pair : String × AnnotationValue) :
    f (d.change (pair.2.plainChange pair.1)) =
      if AnnotationKey.names name pair.1 then g d pair.2 else f d := by
  simp only [← AnnotationKey.ofText?_eq_some_iff_names hn]
  unfold AnnotationValue.plainChange
  cases AnnotationKey.ofText? pair.1 with
  | none => simp [change]
  | some known => simpa using hf d known pair.2

/-- A field that one key overwrites holds the last of its values. -/
theorem changePlain_overwrite {g : AnnotationValue → β} (hn : k.spellings = [Text.lower name])
    (hf : ∀ d (known : AnnotationKey) value, f (d.change (known.plainChange value)) =
      if known = k then g value else f d)
    (d : Draft) (pairs : List (String × AnnotationValue)) :
    f (d.changePlain pairs) = ((valuesOf name pairs).getLast?.map g).getD (f d) := by
  induction pairs generalizing d with
  | nil => rfl
  | cons pair rest ih =>
    rw [changePlain_cons, ih, change_plainChange f hn hf, valuesOf_cons]
    split
    · rw [List.getLast?_cons]
      cases (valuesOf name rest).getLast? <;> rfl
    · rfl

/-- A list that one key extends holds the values that were new, in order. -/
theorem changePlain_extend {f : Draft → OrderedSet String} (hn : k.spellings = [Text.lower name])
    (hf : ∀ d (known : AnnotationKey) value, f (d.change (known.plainChange value)) =
      if known = k then (f d).putAll value.listed else f d)
    (d : Draft) (pairs : List (String × AnnotationValue)) :
    f (d.changePlain pairs) =
      (f d).putAll ((valuesOf name pairs).flatMap AnnotationValue.listed) := by
  induction pairs generalizing d with
  | nil => rfl
  | cons pair rest ih =>
    rw [changePlain_cons, ih, change_plainChange f hn hf, valuesOf_cons]
    split
    · rw [List.flatMap_cons, Overlay.putAll_append]
    · rfl

theorem changePlain_keep
    (hf : ∀ d (known : AnnotationKey) value, f (d.change (known.plainChange value)) = f d)
    (d : Draft) (pairs : List (String × AnnotationValue)) : f (d.changePlain pairs) = f d := by
  induction pairs generalizing d with
  | nil => rfl
  | cons pair rest ih =>
    rw [changePlain_cons, ih]
    unfold AnnotationValue.plainChange
    cases AnnotationKey.ofText? pair.1 with
    | none => rfl
    | some known => exact hf d known pair.2

end Fields

section Change

variable (d : Draft) (known : AnnotationKey) (value : AnnotationValue)

theorem summary_change : (d.change (known.plainChange value)).summary =
    if known = .summary then some value.display else d.summary := by
  cases known with
  | list field => cases field <;> rfl
  | _ => rfl

theorem description_change : (d.change (known.plainChange value)).description =
    if known = .description then some value.display else d.description := by
  cases known with
  | list field => cases field <;> rfl
  | _ => rfl

theorem operationId_change : (d.change (known.plainChange value)).operationId =
    if known = .operationId then some value.display else d.operationId := by
  cases known with
  | list field => cases field <;> rfl
  | _ => rfl

theorem deprecated_change : (d.change (known.plainChange value)).deprecated =
    if known = .deprecated then value.isTruthy else d.deprecated := by
  cases known with
  | list field => cases field <;> rfl
  | _ => rfl

theorem list_extend (field other : ListField) (values : List String) :
    (d.extend other values).list field =
      if other = field then (d.list field).putAll values else d.list field := by
  cases field <;> cases other <;> rfl

theorem list_change (field : ListField) : (d.change (known.plainChange value)).list field =
    if known = .list field then (d.list field).putAll value.listed else d.list field := by
  cases known with
  | list other => simp [AnnotationKey.plainChange, change, list_extend]
  | _ => cases field <;> rfl

theorem served_change : ((d.change (known.plainChange value)).method,
    (d.change (known.plainChange value)).className,
    (d.change (known.plainChange value)).function) = (d.method, d.className, d.function) := by
  cases known with
  | list field => cases field <;> rfl
  | _ => rfl

theorem parameters_change : (d.change (known.plainChange value)).parameters = d.parameters := by
  cases known with
  | list field => cases field <;> rfl
  | _ => rfl

end Change

theorem parameters_changePlain (d : Draft) (pairs : List (String × AnnotationValue)) :
    (d.changePlain pairs).parameters = d.parameters :=
  changePlain_keep Draft.parameters parameters_change d pairs

/-- A field that each of some values overwrites: it is left to the last of them. -/
inductive HoldsLast {β : Type} (IsLeft : AnnotationValue → β → Prop) (start : β) :
    List AnnotationValue → β → Prop where
  | kept : HoldsLast IsLeft start [] start
  | last {values value final} (left : IsLeft value final) :
      HoldsLast IsLeft start (values ++ [value]) final

theorem holdsLast_getLast? {β : Type} {IsLeft : AnnotationValue → β → Prop}
    {g : AnnotationValue → β} (h : ∀ value, IsLeft value (g value)) (start : β)
    (values : List AnnotationValue) :
    HoldsLast IsLeft start values ((values.getLast?.map g).getD start) := by
  rcases List.eq_nil_or_concat' values with rfl | ⟨front, value, rfl⟩
  · exact .kept
  · rw [List.getLast?_concat]
    exact .last (h value)

/-- A text field that holds what the last of some values shows. -/
def HoldsText : Option String → List AnnotationValue → Option String → Prop :=
  HoldsLast fun value field => ∃ text ∈ field, value.Shows text

/-- A switch that is on when the last of some values turns it on. -/
def HoldsSwitch : Bool → List AnnotationValue → Bool → Prop :=
  HoldsLast fun value flag => flag = true ↔ value.TurnsOn

/-- A list to which all names that some values list are added, without repetition. -/
def HoldsNames (start : OrderedSet String) (values : List AnnotationValue)
    (final : OrderedSet String) : Prop :=
  ∃ names, List.Forall₂ AnnotationValue.Lists values names ∧
    final.toList = (start.toList ++ names.flatten).eraseDups

/-- What a sequence of pairs of a key and a value makes of a draft. -/
structure IsAnnotated (start : Draft) (site : Site) (hint : Location)
    (pairs : List (String × AnnotationValue)) (final : Draft) : Prop where
  summary : HoldsText start.summary (valuesOf "summary" pairs) final.summary
  description : HoldsText start.description (valuesOf "description" pairs) final.description
  operationId : HoldsText start.operationId (valuesOf "operationId" pairs) final.operationId
  deprecated : HoldsSwitch start.deprecated (valuesOf "deprecated" pairs) final.deprecated
  tags : HoldsNames start.tags (valuesOf "tags" pairs) final.tags
  consumes : HoldsNames start.consumes (valuesOf "consumes" pairs) final.consumes
  produces : HoldsNames start.produces (valuesOf "produces" pairs) final.produces
  schemes : HoldsNames start.schemes (valuesOf "schemes" pairs) final.schemes
  parameters : ∃ ds, List.Forall₂ (site.Contributes hint) pairs ds ∧
    final.parameters.toList = layered Parameter.name
      (start.parameters.toList ++ ds.flatten.map (Definition.parameter hint))
  method_eq : final.method = start.method
  className_eq : final.className = start.className
  function_eq : final.function = start.function

section Annotated

variable (d : Draft) {pairs : List (String × AnnotationValue)}

theorem holdsText_changePlain {f : Draft → Option String} {k : AnnotationKey} {name : String}
    (hn : k.spellings = [Text.lower name])
    (hf : ∀ d (known : AnnotationKey) value, f (d.change (known.plainChange value)) =
      if known = k then some value.display else f d) :
    HoldsText (f d) (valuesOf name pairs) (f (d.changePlain pairs)) := by
  rw [changePlain_overwrite f hn hf]
  exact holdsLast_getLast? (fun _ => ⟨_, rfl, AnnotationValue.shows_iff.2 rfl⟩) _ _

theorem holdsSwitch_changePlain :
    HoldsSwitch d.deprecated (valuesOf "deprecated" pairs) (d.changePlain pairs).deprecated := by
  have hn : AnnotationKey.deprecated.spellings = [Text.lower "deprecated"] := rfl
  rw [changePlain_overwrite Draft.deprecated hn deprecated_change]
  exact holdsLast_getLast? (g := AnnotationValue.isTruthy)
    (fun _ => AnnotationValue.turnsOn_iff.symm) _ _

theorem holdsNames_changePlain (field : ListField) :
    HoldsNames (d.list field) (valuesOf field.name pairs) ((d.changePlain pairs).list field) := by
  have hn : (AnnotationKey.list field).spellings = [Text.lower field.name] := by
    cases field <;> rfl
  have hlist := changePlain_extend (f := fun d => d.list field) hn
    (fun d known value => list_change d known value field) d pairs
  refine ⟨(valuesOf field.name pairs).map AnnotationValue.listed, ?_, ?_⟩
  · rw [List.forall₂_map_right_iff, List.forall₂_same]
    exact fun _ _ => AnnotationValue.lists_iff.2 rfl
  · rw [hlist, OrderedSet.toList_putAll, List.flatMap_def]

theorem isAnnotated_define_changePlain {site : Site} {hint : Location} {ds : List Definition}
    (h : site.allDefinitions hint pairs = .ok ds) :
    d.IsAnnotated site hint pairs ((d.changePlain pairs).define hint ds) := by
  have hserved := changePlain_keep (fun d => (d.method, d.className, d.function))
    served_change d pairs
  simp only [Prod.mk.injEq] at hserved
  obtain ⟨hmethod, hclass, hfunction⟩ := hserved
  exact {
    summary := holdsText_changePlain d rfl summary_change
    description := holdsText_changePlain d rfl description_change
    operationId := holdsText_changePlain d rfl operationId_change
    deprecated := holdsSwitch_changePlain d
    tags := holdsNames_changePlain d .tags
    consumes := holdsNames_changePlain d .consumes
    produces := holdsNames_changePlain d .produces
    schemes := holdsNames_changePlain d .schemes
    parameters := by
      obtain ⟨blocks, hblocks, rfl⟩ := Site.allDefinitions_eq_ok_iff.1 h
      refine ⟨blocks, hblocks, ?_⟩
      rw [define, addParameters, Overlay.toList_putAll, d.parameters_changePlain]
    method_eq := hmethod
    className_eq := hclass
    function_eq := hfunction }

end Annotated

end Draft

namespace Site

open Lookup

/-- A key that is not known changes nothing, so leaving such pairs out makes no difference. -/
theorem applyAll_filter_known (site : Site) (hint : Location) (draft : Draft)
    (pairs : List (String × AnnotationValue)) :
    site.applyAll hint draft (pairs.filter fun pair => AnnotationKey.isKnown pair.1) =
      site.applyAll hint draft pairs := by
  simp only [AnnotationKey.isKnown_eq_isSome]
  induction pairs generalizing draft with
  | nil => rfl
  | cons pair rest ih =>
    obtain ⟨key, value⟩ := pair
    cases hk : AnnotationKey.ofText? key with
    | none =>
      have hnothing : site.apply hint draft key value = pure draft := by
        simp only [apply, change, hk]
        rfl
      simp only [List.filter_cons, hk, applyAll, hnothing]
      exact ih draft
    | some known =>
      simp only [List.filter_cons, hk, Option.isSome_some, if_true, applyAll]
      exact congrArg _ (funext ih)

/-- A sequence of annotations that all take effect sets each field with one value to the last
value whose key names it, adds the listed names to each list, lays the parameters that the values
bring in over those of the draft, and changes nothing else, whatever the resolver has read. -/
theorem applyAll_isAnnotated {site : Site} {cache : SchemaCache} (hc : site.Reached cache)
    {hint : Location} {start final : Draft} {pairs : List (String × AnnotationValue)}
    (h : (site.applyAll hint start pairs cache).result = .ok final) :
    start.IsAnnotated site hint pairs final ∧
      site.applyAll hint start (pairs.filter fun pair => AnnotationKey.isKnown pair.1) =
        site.applyAll hint start pairs := by
  refine ⟨?_, site.applyAll_filter_known hint start pairs⟩
  have hsettled := (site.settles_applyAll hint start pairs).result_eq hc.agrees
  obtain ⟨ds, hds, rfl⟩ := ok_of_map_ok (hsettled.symm.trans h)
  exact Draft.isAnnotated_define_changePlain start hds

def mixed : List (String × AnnotationValue) :=
  [("summary", .text "One user"), ("tags", .text "a, b"), ("parameter", .text "int $age"),
    ("Summary", .text "All users"), ("params", .text "user"), ("TAGS", .text "b,, c "),
    ("deprecated", .bool true), ("colour", .text "red")]

theorem applyAll_isAnnotated_mixed :
    let draft := Draft.start .get "UsersController" "list"
    let cache := (oneSchema.apply .query draft "params" (.text "user") Overlay.empty).cache
    ∃ final, (oneSchema.applyAll .query draft mixed cache).result = .ok final ∧
      draft.IsAnnotated oneSchema .query mixed final ∧
      oneSchema.applyAll .query draft (mixed.filter fun pair => AnnotationKey.isKnown pair.1) =
        oneSchema.applyAll .query draft mixed := by
  intro draft cache
  obtain ⟨final, h⟩ := ok_of_isOk (r := (oneSchema.applyAll .query draft mixed cache).result)
    (by decide +kernel)
  exact ⟨final, h, applyAll_isAnnotated (.apply .fresh .query draft "params" (.text "user")) h⟩

end Site

end Endpoints

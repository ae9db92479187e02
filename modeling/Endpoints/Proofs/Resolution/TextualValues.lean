import Endpoints.Proofs.Annotation.Sequences

/-!
# Values act through their texts

A value may be replaced by the text through which it acts. No change looks at its kind, except
that a switch asks for `true` or the number one; their texts turn the switch on as well, and no
other truth value or whole number has one of these texts. Only a binary number does not turn a
switch on where its text would.
-/

namespace Endpoints

namespace AnnotationValue

def textual (value : AnnotationValue) : AnnotationValue := .text value.display

theorem eq_ofDigitChars_of_repr {n : Nat} {s : String} (h : n.repr = s) :
    n = Nat.ofDigitChars 10 s.toList 0 := by
  rw [← h, Nat.repr_eq_ofList_toDigits, String.toList_ofList, Nat.ofDigitChars_ten_toDigits]

/-- Only the number one is written as a text that turns a switch on. -/
theorem toString_eq_iff (n : Int) : (toString n = "1" ∨ toString n = "true") ↔ n = 1 := by
  constructor
  · intro h
    rw [Int.toString_eq_repr, Int.repr_eq_if] at h
    split at h
    · rcases h with h | h
      · have hone : n.toNat = 1 := eq_ofDigitChars_of_repr h
        omega
      · -- The number for which these letters would stand is written in another way.
        rw [eq_ofDigitChars_of_repr h] at h
        exact absurd h (by decide)
    · -- The sign is neither a digit nor a letter.
      rcases h with h | h <;>
      · have hchars := congrArg String.toList h
        simp at hchars
  · rintro rfl
    exact .inl rfl

theorem isTruthy_textual {value : AnnotationValue} (h : ∀ x, value ≠ .float x) :
    value.textual.isTruthy = value.isTruthy := by
  cases value with
  | bool b => cases b <;> rfl
  | int n =>
    have hone : n.toInt = 1 ↔ n = 1 := Int64.toInt_inj (y := 1)
    simp only [textual, isTruthy, display, toString_eq_iff, hone]
  | float x => exact absurd rfl (h x)
  | text s => rfl

end AnnotationValue

def Table.mapValues {κ α β : Type} (f : α → β) (t : Table κ α) : Table κ β where
  toList := t.toList.map fun e => (e.1, f e.2)
  nodup := by
    rw [List.map_map]
    exact t.nodup

namespace Action

def textual (a : Action) : Action :=
  { a with annotations := a.annotations.mapValues fun values => values.map .textual }

theorem attached_textual (a : Action) :
    a.textual.attached = a.attached.map fun pair => (pair.1, pair.2.textual) := by
  simp only [attached, textual, Table.mapValues, List.flatMap_map, List.map_flatMap, List.map_map]
  rfl

/-- No binary number is attached to the key of a switch. -/
def HasNoFloatSwitch (a : Action) : Prop :=
  ∀ key x, (key, AnnotationValue.float x) ∈ a.attached →
    AnnotationKey.names "deprecated" key = false

end Action

namespace Site

/-- The change of a known key depends on the kind of the value only for a switch. -/
theorem changeOfKey_textual (site : Site) (hint : Location) {value : AnnotationValue}
    {known : AnnotationKey} (h : known = .deprecated → ∀ x, value ≠ .float x) :
    site.changeOfKey hint value.textual known = site.changeOfKey hint value known := by
  cases known with
  | deprecated => simp only [changeOfKey, AnnotationValue.isTruthy_textual (h rfl)]
  | _ => rfl

theorem apply_textual (site : Site) (hint : Location) (draft : Draft) (key : String)
    (value : AnnotationValue)
    (h : ∀ x, value = .float x → AnnotationKey.names "deprecated" key = false) :
    site.apply hint draft key value.textual = site.apply hint draft key value := by
  unfold apply change
  cases hk : AnnotationKey.ofText? key with
  | none => rfl
  | some known =>
    have hswitch : known = .deprecated → ∀ x, value ≠ .float x := by
      rintro rfl x hx
      have hspelling : AnnotationKey.deprecated.spellings = [Text.lower "deprecated"] := rfl
      have hname := (AnnotationKey.ofText?_eq_some_iff_names hspelling key).1 hk
      rw [h x hx] at hname
      cases hname
    simp only [site.changeOfKey_textual hint hswitch]

theorem applyAll_textual (site : Site) (hint : Location) (draft : Draft)
    {pairs : List (String × AnnotationValue)}
    (h : ∀ key x, (key, AnnotationValue.float x) ∈ pairs →
      AnnotationKey.names "deprecated" key = false) :
    site.applyAll hint draft (pairs.map fun pair => (pair.1, pair.2.textual)) =
      site.applyAll hint draft pairs := by
  induction pairs generalizing draft with
  | nil => rfl
  | cons pair rest ih =>
    obtain ⟨key, value⟩ := pair
    have hfirst := site.apply_textual hint draft key value
      fun x hx => h key x (by simp [hx])
    have hrest := fun next => ih next fun key x hmem => h key x (List.mem_cons_of_mem _ hmem)
    simp only [List.map_cons, applyAll, hfirst, hrest]

theorem operation_textual (site : Site) {action : Action} (h : action.HasNoFloatSwitch)
    (route : Route) : site.operation action.textual route = site.operation action route := by
  unfold operation
  rw [Action.attached_textual]
  simp only [site.applyAll_textual _ _ h]
  rfl

theorem addRoute_textual (site : Site) {action : Action} (h : action.HasNoFloatSwitch)
    (model : Model) (text : String) :
    site.addRoute action.textual model text = site.addRoute action model text := by
  unfold addRoute
  simp only [site.operation_textual h]

theorem addRoutes_textual (site : Site) (model : Model) {pairs : List (Action × String)}
    (h : ∀ pair ∈ pairs, pair.1.HasNoFloatSwitch) :
    site.addRoutes model (pairs.map fun pair => (pair.1.textual, pair.2)) =
      site.addRoutes model pairs := by
  induction pairs generalizing model with
  | nil => rfl
  | cons pair rest ih =>
    obtain ⟨hfirst, hrest⟩ := List.forall_mem_cons.1 h
    simp only [List.map_cons, addRoutes, site.addRoute_textual hfirst, ih _ hrest]

theorem routed_map_textual (actions : List Action) :
    routed (actions.map Action.textual) =
      (routed actions).map fun pair => (pair.1.textual, pair.2) := by
  simp only [routed, List.flatMap_map, List.map_flatMap, List.map_map]
  rfl

/-- A run over actions with their values replaced by texts gives the same model or the same
error, logs the same lines and reads the same schemas, whatever was read before. -/
theorem resolve_textual (site : Site) {actions : List Action}
    (h : ∀ action ∈ actions, action.HasNoFloatSwitch) (cache : SchemaCache) :
    site.resolve (actions.map Action.textual) cache = site.resolve actions cache := by
  have hpairs : ∀ pair ∈ routed actions, pair.1.HasNoFloatSwitch := by
    intro pair hpair
    obtain ⟨action, haction, hmem⟩ := List.mem_flatMap.1 hpair
    obtain ⟨text, _, rfl⟩ := List.mem_map.1 hmem
    exact h action haction
  simp only [resolve, routed_map_textual, site.addRoutes_textual _ hpairs, List.length_map]

def typedAction : Action where
  target := ⟨"Controllers\\UsersController", "list"⟩
  routes := ["GET/users"]
  annotations := Overlay.ofList
    [("summary", [.float 2.5]), ("deprecated", [.int 1, .int (-1)]), ("Deprecated", [.bool true]),
      ("tags", [.int 7, .text "a, b"]), ("params", [.text "user"])]

theorem resolve_textual_typed :
    (∀ action ∈ [typedAction], action.HasNoFloatSwitch) ∧
      (oneSchema.resolve ([typedAction].map Action.textual) Overlay.empty).result.isOk = true ∧
      oneSchema.resolve ([typedAction].map Action.textual) Overlay.empty =
        oneSchema.resolve [typedAction] Overlay.empty := by
  have hplain : ∀ action ∈ [typedAction], action.HasNoFloatSwitch := by
    rw [List.forall_mem_singleton]
    intro key x hmem
    obtain ⟨⟨k, values⟩, hentry, hvalue⟩ := List.mem_flatMap.1 hmem
    have hlisted := Overlay.mem_of_mem_ofList hentry
    simp only [List.mem_cons, List.not_mem_nil, or_false, Prod.mk.injEq] at hlisted
    rcases hlisted with ⟨rfl, rfl⟩ | ⟨rfl, rfl⟩ | ⟨rfl, rfl⟩ | ⟨rfl, rfl⟩ | ⟨rfl, rfl⟩
    · simp only [List.map_singleton, List.mem_singleton, Prod.mk.injEq] at hvalue
      rw [hvalue.1]
      decide
    all_goals simp at hvalue
  have heq := oneSchema.resolve_textual hplain Overlay.empty
  refine ⟨hplain, ?_, heq⟩
  rw [heq]
  decide +kernel

end Site

end Endpoints

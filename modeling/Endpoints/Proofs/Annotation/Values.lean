import Endpoints.Annotation.Effect
import Endpoints.Proofs.Text.Pieces
import Mathlib.Data.List.Forall2

/-!
# What a value says

A value acts through its text, lists the pieces of this text between the commas, or turns a switch
on. Each of the three is stated for the kinds of values on its own, and is what the value is taken
for.
-/

namespace Endpoints.AnnotationValue

/-- The text that stands for a value. -/
inductive Shows : AnnotationValue → String → Prop where
  | true : Shows (.bool true) "true"
  | false : Shows (.bool false) "false"
  | int (n : Int64) : Shows (.int n) (toString n.toInt)
  | float (x : Float) : Shows (.float x) (layout.write x)
  | text (s : String) : Shows (.text s) s

theorem shows_iff {value : AnnotationValue} {text : String} :
    value.Shows text ↔ value.display = text := by
  constructor
  · rintro ⟨⟩ <;> rfl
  · rintro rfl
    cases value with
    | bool b =>
      cases b with
      | true => exact .true
      | false => exact .false
    | int n => exact .int n
    | float x => exact .float x
    | text s => exact .text s

inductive TurnsOn : AnnotationValue → Prop where
  | true : TurnsOn (.bool true)
  | one : TurnsOn (.int 1)
  | textOne : TurnsOn (.text "1")
  | textTrue : TurnsOn (.text "true")

theorem turnsOn_iff {value : AnnotationValue} : value.TurnsOn ↔ value.isTruthy = true := by
  constructor
  · rintro ⟨⟩ <;> decide
  · intro h
    cases value with
    | bool b =>
      obtain rfl : b = Bool.true := h
      exact .true
    | int n =>
      obtain rfl : n = 1 := by simpa [isTruthy] using h
      exact .one
    | float x => cases h
    | text s =>
      obtain rfl | rfl : s = "1" ∨ s = "true" := by simpa [isTruthy] using h
      · exact .textOne
      · exact .textTrue

/-- The names that a value lists: the pieces of its text between the commas, also the empty ones,
each without the blanks at its ends. -/
def Lists (value : AnnotationValue) (names : List String) : Prop :=
  ∃ text pieces, value.Shows text ∧ Text.ArePieces ',' text.toList pieces ∧
    List.Forall₂ Text.IsTrimmed pieces (names.map String.toList)

theorem lists_iff {value : AnnotationValue} {names : List String} :
    value.Lists names ↔ value.listed = names := by
  have htrim (pieces : List (List Char)) :
      List.Forall₂ Text.IsTrimmed pieces (names.map String.toList) ↔
        pieces.map (fun piece => String.ofList (Text.trimChars piece)) = names := by
    rw [← List.forall₂_eq_eq_eq, List.forall₂_map_left_iff, List.forall₂_map_right_iff]
    simp only [← Text.trimChars_eq_iff, ← String.toList_inj, String.toList_ofList]
  simp only [Lists, shows_iff, ← Text.splitAtChar_eq_iff, htrim]
  simp [listed, Text.split, Text.trim, Function.comp_def]

end Endpoints.AnnotationValue

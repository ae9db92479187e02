import Endpoints.Proofs.Route.Framing
import Endpoints.Proofs.Route.Separators
import Endpoints.Proofs.Text.Letters

/-!
# The parts of a route

A text states a route when the slashes that separate cut it into the name of the method, in any case
and between blanks, and the segments. The placeholders of a route are those that its segments frame,
segment after segment; a segment without one is passed over.
-/

namespace Endpoints

namespace Route

open Text

theorem method?_eq_some_iff {token : String} {m : HttpMethod} : method? token = some m ↔
    ∃ name, IsTrimmed token.toList name ∧ SameButCase name m.name.toList := by
  have hlower : lower m.name = m.name := by cases m <;> decide
  have hread : method? token = some m ↔ SameButCase (trim token).toList m.name.toList := by
    rw [method?, HttpMethod.ofName?_eq_some_iff, ← lower_eq_lower_iff, hlower, eq_comm]
  rw [hread, trim, String.toList_ofList]
  simp only [← trimChars_eq_iff, exists_eq_left']

/-- What a text states: a method, in any case and between blanks, and then segments. -/
def IsStatedBy (r : Route) (text : String) : Prop :=
  ∃ token name, AreCutFrom none text.toList (token :: r.segments.map String.toList) ∧
    IsTrimmed token name ∧ SameButCase name r.method.name.toList

/-- A text is read as the route that it states. -/
theorem isStatedBy_iff {r : Route} {text : String} :
    r.IsStatedBy text ↔ ofText? text = some r := by
  rw [ofText?_eq_some_iff]
  constructor
  · rintro ⟨token, name, hcut, hname⟩
    refine ⟨String.ofList token, tokens_eq_iff.2 ?_, method?_eq_some_iff.2 ⟨name, ?_⟩⟩
    · simpa using hcut
    · simpa using hname
  · rintro ⟨token, htokens, hmethod⟩
    obtain ⟨name, hname⟩ := method?_eq_some_iff.1 hmethod
    exact ⟨token.toList, name, tokens_eq_iff.1 htokens, hname⟩

/-- The placeholders that segments frame, in order: the first one of each segment that has any. -/
inductive ArePlaceholders : List String → List Placeholder → Prop where
  | nil : ArePlaceholders [] []
  | none {segment rest ps} (plain : ¬ HoldsPlaceholder segment.toList)
      (tail : ArePlaceholders rest ps) : ArePlaceholders (segment :: rest) ps
  | cons {segment rest ps f} (frame : f.IsOf segment.toList) (tail : ArePlaceholders rest ps) :
      ArePlaceholders (segment :: rest) (Placeholder.ofFrame f :: ps)

theorem arePlaceholders_filterMap (segments : List String) :
    ArePlaceholders segments (segments.filterMap Placeholder.ofSegment?) := by
  induction segments with
  | nil => exact .nil
  | cons segment rest ih =>
    cases h : Placeholder.ofSegment? segment with
    | none =>
      rw [List.filterMap_cons_none h]
      exact .none (Placeholder.ofSegment?_eq_none_iff.1 h) ih
    | some p =>
      obtain ⟨f, hf, rfl⟩ := Placeholder.ofSegment?_eq_some_iff.1 h
      rw [List.filterMap_cons_some h]
      exact .cons hf ih

theorem ArePlaceholders.filterMap_eq {segments : List String} {ps : List Placeholder}
    (h : ArePlaceholders segments ps) : segments.filterMap Placeholder.ofSegment? = ps := by
  induction h with
  | nil => rfl
  | none plain _ ih =>
    rw [List.filterMap_cons_none (Placeholder.ofSegment?_eq_none_iff.2 plain), ih]
  | cons frame _ ih =>
    rw [List.filterMap_cons_some (Placeholder.ofSegment?_eq_some_iff.2 ⟨_, frame, rfl⟩), ih]

/-- The placeholders of a route are those of its segments, and no other list is. -/
theorem arePlaceholders_iff {r : Route} {ps : List Placeholder} :
    ArePlaceholders r.segments ps ↔ r.placeholders = ps := by
  refine ⟨ArePlaceholders.filterMap_eq, ?_⟩
  rintro rfl
  exact arePlaceholders_filterMap r.segments

theorem placeholders_eq_nil_iff {r : Route} :
    r.placeholders = [] ↔ ∀ segment ∈ r.segments, ¬ HoldsPlaceholder segment.toList := by
  simp only [placeholders, List.filterMap_eq_nil_iff, Placeholder.ofSegment?_eq_none_iff]

end Route

end Endpoints

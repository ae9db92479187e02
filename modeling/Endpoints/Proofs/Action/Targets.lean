import Endpoints.Target
import Endpoints.Proofs.Text.Pieces

/-!
# Targets in writing

No piece between separators holds a separator. So the class and the function of a target that was
read hold no dot, and reading what is written of such a target gives it back. A target with a dot
in one of its parts is written like another one.
-/

namespace Endpoints

namespace Target

/-- A target whose parts hold no dot. -/
structure IsDotFree (t : Target) : Prop where
  className : '.' ∉ t.className.toList
  function : '.' ∉ t.function.toList

theorem isDotFree_of_ofText? {text : String} {t : Target} (h : ofText? text = some t) :
    t.IsDotFree := by
  unfold ofText? at h
  split at h
  · rename_i className function others hpieces
    cases h
    have hfree : ∀ piece ∈ Text.split '.' text, '.' ∉ piece.toList := by
      intro piece hpiece
      obtain ⟨cs, hcs, rfl⟩ := List.mem_map.1 hpiece
      rw [String.toList_ofList]
      exact Text.not_mem_of_mem_splitAtChar hcs
    rw [hpieces] at hfree
    exact ⟨hfree className (by simp), hfree function (by simp)⟩
  · cases h

theorem ofText?_text_iff (t : Target) : ofText? t.text = some t ↔ t.IsDotFree := by
  refine ⟨isDotFree_of_ofText?, fun h => ?_⟩
  have hpieces : Text.split '.' t.text = [t.className, t.function] := by
    have htext : t.text.toList = t.className.toList ++ '.' :: t.function.toList := by
      simp [text]
    rw [Text.split, htext, Text.splitAtChar_append_cons h.className,
      Text.splitAtChar_of_not_mem h.function]
    simp
  rw [ofText?, hpieces]

example : (ofText? "Controllers\\Users.show.extra").map text = some "Controllers\\Users.show" := by
  decide

end Target

end Endpoints

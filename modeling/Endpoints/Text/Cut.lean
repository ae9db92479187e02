/-!
# Cutting texts

A text is cut at a position that is counted in bytes of its UTF-8 form. There is nothing to cut at
a position inside a character or behind the end.
-/

namespace Endpoints.Text

/-- What stands before and after a position in a text, if the position is at the edge of a
character. -/
def cut? (s : String) (position : Nat) : Option (String × String) :=
  if h : (String.Pos.Raw.mk position).IsValid s then
    let p : s.Pos := ⟨⟨position⟩, h⟩
    some ((s.sliceTo p).copy, (s.sliceFrom p).copy)
  else none

def before? (s : String) (position : Nat) : Option String :=
  (cut? s position).map Prod.fst

def after? (s : String) (position : Nat) : Option String :=
  (cut? s position).map Prod.snd

theorem cut?_eq_some_iff {s front back : String} {position : Nat} :
    cut? s position = some (front, back) ↔
      s = front ++ back ∧ position = front.utf8ByteSize := by
  constructor
  · intro h
    rw [cut?] at h
    split at h
    · rename_i hvalid
      obtain ⟨rfl, rfl⟩ := Prod.mk.inj (Option.some.inj h)
      have hsplits := String.Pos.splits (⟨⟨position⟩, hvalid⟩ : s.Pos)
      exact ⟨hsplits.eq_append, congrArg String.Pos.Raw.byteIdx hsplits.offset_eq_rawEndPos⟩
    · cases h
  · rintro ⟨rfl, rfl⟩
    have hvalid : (String.Pos.Raw.mk front.utf8ByteSize).IsValid (front ++ back) :=
      String.Pos.Raw.isValid_iff_exists_append.2 ⟨front, back, rfl, rfl⟩
    have hsplits : (⟨⟨front.utf8ByteSize⟩, hvalid⟩ : (front ++ back).Pos).Splits front back :=
      ⟨rfl, rfl⟩
    rw [cut?, dif_pos hvalid]
    exact congrArg some (Prod.ext hsplits.copy_sliceTo_eq hsplits.copy_sliceFrom_eq)

theorem isSome_after? {s : String} {position : Nat} :
    (after? s position).isSome = (before? s position).isSome := by
  rw [after?, before?, Option.isSome_map, Option.isSome_map]

end Endpoints.Text

import Endpoints.Text.AsciiCase
import Mathlib.Data.List.Basic

/-!
# Letters in either case

The texts that are compared without regard to case are those that become the same when the ASCII
letters of both are put in lower case.
-/

namespace Endpoints.Text

/-- Two texts that are the same but for the case of ASCII letters. -/
def SameButCase (a b : List Char) : Prop := a.map Char.toLower = b.map Char.toLower

instance (a b : List Char) : Decidable (SameButCase a b) :=
  inferInstanceAs (Decidable (a.map Char.toLower = b.map Char.toLower))

theorem toNat_ofNat_of_lt {n : Nat} (h : n < 128) : (Char.ofNat n).toNat = n := by
  have hvalid : n.isValidChar := .inl (by omega)
  rw [Char.ofNat, dif_pos hvalid]
  rfl

theorem lowerChar_eq_toLower (c : Char) : lowerChar c = c.toLower := by
  unfold lowerChar Char.toLower
  by_cases h : 'A' ≤ c ∧ c ≤ 'Z'
  · have hupper : c.val ≥ 'A'.val ∧ c.val ≤ 'Z'.val := h
    have hc : c.toNat ≤ 90 := h.2
    rw [if_pos h, dif_pos hupper, ← Char.toNat_inj, toNat_ofNat_of_lt (by omega), Char.toNat_mk]
    simp
    omega
  · have hupper : ¬ (c.val ≥ 'A'.val ∧ c.val ≤ 'Z'.val) := h
    rw [if_neg h, dif_neg hupper]

theorem map_lowerChar_eq_iff {a b : List Char} :
    a.map lowerChar = b.map lowerChar ↔ SameButCase a b := by
  rw [show lowerChar = Char.toLower from funext lowerChar_eq_toLower, SameButCase]

theorem sameLetters_iff {a b : List Char} : sameLetters a b = true ↔ SameButCase a b := by
  rw [sameLetters, beq_iff_eq, map_lowerChar_eq_iff]

theorem lower_eq_lower_iff {a b : String} : lower a = lower b ↔ SameButCase a.toList b.toList := by
  rw [lower, lower, String.ofList_inj, map_lowerChar_eq_iff]

end Endpoints.Text

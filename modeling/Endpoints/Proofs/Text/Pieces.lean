import Endpoints.Text.Blank
import Mathlib.Data.List.Basic
import Mathlib.Data.List.TakeWhile

/-!
# The pieces of a text

The pieces between the separators of a text are those that hold no separator and give the text back
when separators join them. A trimmed text is what stands between two gaps of blanks and neither
starts nor ends with a blank. Each of the two says by itself what the pieces and the rest are.
-/

namespace Endpoints.Text

/-- Pieces that a separator joins to a text, and in which the separator does not occur. -/
structure ArePieces (separator : Char) (cs : List Char) (pieces : List (List Char)) : Prop where
  ne_nil : pieces ≠ []
  joined : List.intercalate [separator] pieces = cs
  free : ∀ piece ∈ pieces, separator ∉ piece

section Pieces

variable {separator : Char} {cs piece : List Char} {pieces : List (List Char)}

theorem not_mem_of_mem_splitAtChar (h : piece ∈ splitAtChar separator cs) : separator ∉ piece := by
  induction cs generalizing piece with
  | nil =>
    obtain rfl := List.mem_singleton.1 h
    exact List.not_mem_nil
  | cons c rest ih =>
    rw [splitAtChar] at h
    split at h
    · cases h with
      | head => exact List.not_mem_nil
      | tail _ h => exact ih h
    · rename_i hc
      split at h
      · rename_i hnil
        exact absurd hnil (splitAtChar_ne_nil separator rest)
      · rename_i first others hpieces
        rw [hpieces] at ih
        cases h with
        | head =>
          rw [List.mem_cons, not_or]
          exact ⟨fun he => hc he.symm, ih List.mem_cons_self⟩
        | tail _ h => exact ih (List.mem_cons_of_mem _ h)

theorem splitAtChar_append_cons (h : separator ∉ piece) (rest : List Char) :
    splitAtChar separator (piece ++ separator :: rest) = piece :: splitAtChar separator rest := by
  induction piece with
  | nil => simp [splitAtChar]
  | cons c piece ih =>
    obtain ⟨hc, hpiece⟩ := not_or.1 (mt List.mem_cons.2 h)
    rw [List.cons_append, splitAtChar, if_neg fun he => hc he.symm, ih hpiece]

theorem splitAtChar_of_not_mem (h : separator ∉ cs) : splitAtChar separator cs = [cs] := by
  induction cs with
  | nil => rfl
  | cons c rest ih =>
    obtain ⟨hc, hrest⟩ := not_or.1 (mt List.mem_cons.2 h)
    rw [splitAtChar, if_neg fun he => hc he.symm, ih hrest]

theorem intercalate_splitAtChar (separator : Char) (cs : List Char) :
    List.intercalate [separator] (splitAtChar separator cs) = cs := by
  induction cs with
  | nil => simp [splitAtChar]
  | cons c rest ih =>
    rw [splitAtChar]
    split
    · rename_i hc
      obtain ⟨first, others, hpieces⟩ :=
        List.exists_cons_of_ne_nil (splitAtChar_ne_nil separator rest)
      rw [hpieces] at ih ⊢
      rw [List.intercalate_cons_cons, ih, hc]
      rfl
    · split
      · rename_i hnil
        exact absurd hnil (splitAtChar_ne_nil separator rest)
      · rename_i first others hpieces
        rw [hpieces] at ih
        cases others with
        | nil => simpa using ih
        | cons second others =>
          rw [List.intercalate_cons_cons] at ih ⊢
          exact congrArg (c :: ·) ih

theorem ArePieces.splitAtChar_eq (h : ArePieces separator cs pieces) :
    splitAtChar separator cs = pieces := by
  obtain ⟨hne, rfl, hfree⟩ := h
  induction pieces with
  | nil => exact absurd rfl hne
  | cons piece rest ih =>
    obtain ⟨hpiece, hrest⟩ := List.forall_mem_cons.1 hfree
    cases rest with
    | nil => rw [List.intercalate_singleton, splitAtChar_of_not_mem hpiece]
    | cons next rest =>
      rw [List.intercalate_cons_cons, List.append_assoc, List.singleton_append,
        splitAtChar_append_cons hpiece, ih (by simp) hrest]

theorem splitAtChar_eq_iff : splitAtChar separator cs = pieces ↔ ArePieces separator cs pieces := by
  refine ⟨?_, ArePieces.splitAtChar_eq⟩
  rintro rfl
  exact ⟨splitAtChar_ne_nil separator cs, intercalate_splitAtChar separator cs,
    fun _ => not_mem_of_mem_splitAtChar⟩

end Pieces

/-- A text without the blanks at its ends. -/
structure IsTrimmed (cs kept : List Char) : Prop where
  split : ∃ front back, cs = front ++ (kept ++ back) ∧
    (∀ c ∈ front, isBlank c = true) ∧ ∀ c ∈ back, isBlank c = true
  starts : ∀ c ∈ kept.head?, isBlank c = false
  ends : ∀ c ∈ kept.getLast?, isBlank c = false

section Trimming

variable {cs kept gap : List Char}

theorem dropWhile_isBlank_append (hgap : ∀ c ∈ gap, isBlank c = true)
    (hkept : ∀ c ∈ kept.head?, isBlank c = false) : (gap ++ kept).dropWhile isBlank = kept := by
  rw [List.dropWhile_append_of_pos hgap]
  cases kept with
  | nil => rfl
  | cons c rest => rw [List.dropWhile_cons_of_neg (by simp [hkept c rfl])]

theorem isBlank_head?_dropWhile (cs : List Char) :
    ∀ c ∈ (cs.dropWhile isBlank).head?, isBlank c = false := by
  intro c hc
  have hnot := List.head?_dropWhile_not isBlank cs
  rw [Option.mem_def] at hc
  simpa [hc] using hnot

theorem isTrimmed_trimChars (cs : List Char) : IsTrimmed cs (trimChars cs) := by
  let back := ((cs.dropWhile isBlank).reverse.takeWhile isBlank).reverse
  have hmiddle : cs.dropWhile isBlank = trimChars cs ++ back := by
    rw [trimChars, ← List.reverse_append, List.takeWhile_append_dropWhile, List.reverse_reverse]
  refine ⟨⟨cs.takeWhile isBlank, back, ?_, ?_, ?_⟩, ?_, ?_⟩
  · rw [← hmiddle, List.takeWhile_append_dropWhile]
  · exact fun c hc => List.mem_takeWhile_imp hc
  · exact fun c hc => List.mem_takeWhile_imp (List.mem_reverse.1 hc)
  · intro c hc
    refine isBlank_head?_dropWhile cs c ?_
    rw [Option.mem_def] at hc
    rw [hmiddle, List.head?_append, hc]
    rfl
  · intro c hc
    rw [trimChars, List.getLast?_reverse] at hc
    exact isBlank_head?_dropWhile _ c hc

theorem IsTrimmed.trimChars_eq (h : IsTrimmed cs kept) : trimChars cs = kept := by
  obtain ⟨⟨front, back, rfl, hfront, hback⟩, hstarts, hends⟩ := h
  have hreverse : ∀ c ∈ back.reverse, isBlank c = true := by simpa using hback
  cases kept with
  | nil =>
    have hgap : ∀ c ∈ front ++ back, isBlank c = true := List.forall_mem_append.2 ⟨hfront, hback⟩
    have hdrop : (front ++ back).dropWhile isBlank = [] :=
      List.dropWhile_eq_nil_iff.2 hgap
    rw [trimChars, List.nil_append, hdrop]
    rfl
  | cons c rest =>
    rw [trimChars, dropWhile_isBlank_append hfront (by simpa using hstarts), List.reverse_append,
      dropWhile_isBlank_append hreverse (by rwa [List.head?_reverse]), List.reverse_reverse]

theorem trimChars_eq_iff : trimChars cs = kept ↔ IsTrimmed cs kept := by
  refine ⟨?_, IsTrimmed.trimChars_eq⟩
  rintro rfl
  exact isTrimmed_trimChars cs

theorem mem_trimChars {c : Char} (h : c ∈ cs) (hc : isBlank c = false) : c ∈ trimChars cs := by
  obtain ⟨front, back, hsplit, hfront, hback⟩ := (isTrimmed_trimChars cs).split
  rw [hsplit, List.mem_append, List.mem_append] at h
  rcases h with h | h | h
  · simp [hfront c h] at hc
  · exact h
  · simp [hback c h] at hc

end Trimming

end Endpoints.Text

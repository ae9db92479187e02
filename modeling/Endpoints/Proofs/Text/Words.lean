import Endpoints.Text.Blank
import Mathlib.Data.List.Basic

/-!
# The words of a text

A text is its words with gaps of blanks around them. A gap between two words is not empty, so a
word takes in all characters up to the next blank. This determines the words, and it leaves the
gaps open: words that are joined by any gaps are the words of the text that comes out.
-/

namespace Endpoints.Text

structure IsWord (word : List Char) : Prop where
  ne_nil : word ≠ []
  solid : ∀ c ∈ word, isBlank c = false

/-- The maximal runs of characters of a text that are not blank, in order. -/
inductive AreWords : List Char → List (List Char) → Prop where
  | none {gap} (blank : ∀ c ∈ gap, isBlank c = true) : AreWords gap []
  | cons {gap word rest ws} (blank : ∀ c ∈ gap, isBlank c = true) (isWord : IsWord word)
      (ends : startsBlank rest = true) (tail : AreWords rest ws) :
      AreWords (gap ++ (word ++ rest)) (word :: ws)

section WordsOf

variable {c : Char} {gap word rest : List Char} {ws : List (List Char)}

theorem wordsOf_gap_append (h : ∀ c ∈ gap, isBlank c = true) (cs : List Char) :
    wordsOf (gap ++ cs) = wordsOf cs := by
  induction gap with
  | nil => rfl
  | cons c gap ih =>
    obtain ⟨hc, hgap⟩ := List.forall_mem_cons.1 h
    rw [List.cons_append, wordsOf, if_pos hc, ih hgap]

theorem wordsOf_word_append (h : IsWord word) (ends : startsBlank rest = true) :
    wordsOf (word ++ rest) = word :: wordsOf rest := by
  obtain ⟨hne, hsolid⟩ := h
  induction word with
  | nil => exact absurd rfl hne
  | cons c word ih =>
    obtain ⟨hc, hword⟩ := List.forall_mem_cons.1 hsolid
    cases word with
    | nil => cases hws : wordsOf rest <;> simp [wordsOf, hc, hws, ends]
    | cons d word =>
      have hgo : startsBlank (d :: (word ++ rest)) = false := hword d (by simp)
      rw [List.cons_append, wordsOf, ih (by simp) hword]
      simp [hc, hgo]

theorem wordsOf_of_areWords {cs : List Char} (h : AreWords cs ws) : wordsOf cs = ws := by
  induction h with
  | none blank =>
    have hgap := wordsOf_gap_append blank []
    rwa [List.append_nil] at hgap
  | cons blank isWord ends _ ih =>
    rw [wordsOf_gap_append blank, wordsOf_word_append isWord ends, ih]

theorem AreWords.cons_word (h : AreWords rest ws) (isWord : IsWord word)
    (ends : startsBlank rest = true) : AreWords (word ++ rest) (word :: ws) :=
  @AreWords.cons [] word rest ws (by simp) isWord ends h

theorem AreWords.cons_blank {cs : List Char} (h : AreWords cs ws) (hc : isBlank c = true) :
    AreWords (c :: cs) ws := by
  cases h with
  | none blank => exact .none (List.forall_mem_cons.2 ⟨hc, blank⟩)
  | @cons gap word rest ws blank isWord ends tail =>
    have hgap : ∀ d ∈ c :: gap, isBlank d = true := List.forall_mem_cons.2 ⟨hc, blank⟩
    have hall := AreWords.cons hgap isWord ends tail
    exact hall

theorem AreWords.cons_solid {cs : List Char} (h : AreWords cs ws) (hc : isBlank c = false)
    (hcs : startsBlank cs = false) : ∃ ws, AreWords (c :: cs) ws := by
  cases h with
  | none blank =>
    cases cs with
    | nil => simp [startsBlank] at hcs
    | cons d cs =>
      have hd := blank d (by simp)
      simp [startsBlank, hd] at hcs
  | @cons gap word rest ws blank isWord ends tail =>
    cases gap with
    | nil =>
      have hword : IsWord (c :: word) :=
        ⟨by simp, List.forall_mem_cons.2 ⟨hc, isWord.solid⟩⟩
      exact ⟨_, tail.cons_word hword ends⟩
    | cons d gap =>
      have hd := blank d (by simp)
      simp [startsBlank, hd] at hcs

theorem exists_areWords (cs : List Char) : ∃ ws, AreWords cs ws := by
  induction cs with
  | nil => exact ⟨[], .none (by simp)⟩
  | cons c rest ih =>
    obtain ⟨ws, h⟩ := ih
    cases hc : isBlank c with
    | true => exact ⟨ws, h.cons_blank hc⟩
    | false =>
      cases hrest : startsBlank rest with
      | true =>
        have hword : IsWord [c] := ⟨by simp, by simpa using hc⟩
        exact ⟨_, h.cons_word hword hrest⟩
      | false => exact h.cons_solid hc hrest

/-- A text has its words and no other ones. -/
theorem areWords_iff {cs : List Char} : AreWords cs ws ↔ wordsOf cs = ws := by
  constructor
  · exact wordsOf_of_areWords
  · rintro rfl
    obtain ⟨ws, h⟩ := exists_areWords cs
    rwa [wordsOf_of_areWords h]

theorem areWords_intercalate (h : ∀ word ∈ ws, IsWord word) :
    AreWords (List.intercalate [' '] ws) ws := by
  induction ws with
  | nil => exact .none (by simp)
  | cons word rest ih =>
    obtain ⟨hword, hrest⟩ := List.forall_mem_cons.1 h
    cases rest with
    | nil =>
      have hnone : AreWords [] [] := .none (by simp)
      simpa using hnone.cons_word hword rfl
    | cons next rest =>
      have htail : AreWords (' ' :: List.intercalate [' '] (next :: rest)) (next :: rest) :=
        (ih hrest).cons_blank rfl
      rw [List.intercalate_cons_cons, List.append_assoc]
      exact htail.cons_word hword rfl

end WordsOf

end Endpoints.Text

import Endpoints.Target
import Endpoints.Proofs.Text.Letters

/-!
# The short name of a class

A class is cut behind eleven bytes and before its last ten bytes. A word that is found there has
the size of the word that is looked for, because the case of an ASCII letter does not change its
size. So a cut that finds its word is one between characters, and counting characters finds the
same words.
-/

namespace Endpoints

namespace Text

/-- An ASCII letter takes one byte in either case. -/
theorem utf8Size_toLower (c : Char) : c.toLower.utf8Size = c.utf8Size := by
  unfold Char.toLower
  split
  · rename_i h
    have hc : c.toNat ≤ 90 := h.2
    have hone : c.utf8Size = 1 := by
      rw [Char.utf8Size_eq_one_iff, UInt32.le_iff_toNat_le]
      simp
      omega
    rw [hone, Char.utf8Size_eq_one_iff, UInt32.le_iff_toNat_le]
    simp
    omega
  · rfl

theorem utf8ByteSize_map_toLower (cs : List Char) :
    (String.ofList (cs.map Char.toLower)).utf8ByteSize = (String.ofList cs).utf8ByteSize := by
  induction cs with
  | nil => rfl
  | cons c rest ih =>
    simp only [List.map_cons, String.ofList_cons, String.utf8ByteSize_append,
      String.utf8ByteSize_singleton, utf8Size_toLower, ih]

section SameButCase

variable {a b : List Char}

theorem SameButCase.length_eq (h : SameButCase a b) : a.length = b.length := by
  simpa using congrArg List.length h

theorem SameButCase.utf8ByteSize_eq (h : SameButCase a b) :
    (String.ofList a).utf8ByteSize = (String.ofList b).utf8ByteSize := by
  rw [← utf8ByteSize_map_toLower a, h, utf8ByteSize_map_toLower]

end SameButCase

section Cut

variable {s front back : String} {k : Nat}

theorem toList_take_append_drop (s : String) (k : Nat) :
    s = String.ofList (s.toList.take k) ++ String.ofList (s.toList.drop k) := by
  rw [← String.toList_inj]
  simp [String.toList_append]

theorem cut?_take (s : String) (k : Nat) :
    cut? s (String.ofList (s.toList.take k)).utf8ByteSize =
      some (String.ofList (s.toList.take k), String.ofList (s.toList.drop k)) :=
  cut?_eq_some_iff.2 ⟨toList_take_append_drop s k, rfl⟩

theorem cut?_drop (s : String) (k : Nat) :
    cut? s (s.utf8ByteSize - (String.ofList (s.toList.drop k)).utf8ByteSize) =
      some (String.ofList (s.toList.take k), String.ofList (s.toList.drop k)) := by
  have hsize := congrArg String.utf8ByteSize (toList_take_append_drop s k)
  rw [String.utf8ByteSize_append] at hsize
  refine cut?_eq_some_iff.2 ⟨toList_take_append_drop s k, ?_⟩
  omega

/-- What stands before a cut and is a word but for case is the first characters of the text. -/
theorem take_of_cut? {position : Nat} {word : List Char} (h : cut? s position = some (front, back))
    (hword : SameButCase front.toList word) : s.toList.take word.length = front.toList := by
  rw [(cut?_eq_some_iff.1 h).1, String.toList_append]
  exact List.take_left' hword.length_eq

theorem drop_of_cut? {position : Nat} {word : List Char} (h : cut? s position = some (front, back))
    (hword : SameButCase back.toList word) :
    s.toList.drop (s.toList.length - word.length) = back.toList := by
  rw [(cut?_eq_some_iff.1 h).1, String.toList_append, List.length_append, ← hword.length_eq,
    Nat.add_sub_cancel, List.drop_left]

end Cut

end Text

namespace Target

open Text

/-- How many characters in front of a class are its namespace: the word, and a backslash right
behind it. -/
def namespaceSize (cs : List Char) : Nat :=
  if SameButCase (cs.take 11) "Controllers".toList then
    if cs[11]? = some '\\' then 12 else 11
  else 0

/-- How many characters at the end of a class are its ending. -/
def endingSize (c : List Char) : Nat :=
  if SameButCase (c.drop (c.length - 10)) "Controller".toList then 10 else 0

/-- A class in pieces: its namespace, its short name, and the ending of what stands behind the
namespace. -/
structure IsShortened (c front short back : List Char) : Prop where
  whole : c = front ++ (short ++ back)
  front_eq : front = c.take (namespaceSize c)
  back_length : back.length = endingSize (short ++ back)

theorem IsShortened.unique {c front short back front' short' back' : List Char}
    (h : IsShortened c front short back) (h' : IsShortened c front' short' back') :
    front = front' ∧ short = short' ∧ back = back' := by
  have hfront : front = front' := h.front_eq.trans h'.front_eq.symm
  have hrest : short ++ back = short' ++ back' := by
    have hwhole := h.whole.symm.trans h'.whole
    rw [hfront] at hwhole
    exact List.append_cancel_left hwhole
  have hback : back.length = back'.length := by rw [h.back_length, h'.back_length, hrest]
  exact ⟨hfront, List.append_inj' hrest hback⟩

theorem endingSize_le (c : List Char) : endingSize c ≤ c.length := by
  unfold endingSize
  split
  · rename_i h
    have hlength := h.length_eq
    simp at hlength
    omega
  · omega

theorem isShortened_take (c : List Char) :
    let rest := c.drop (namespaceSize c)
    IsShortened c (c.take (namespaceSize c)) (rest.take (rest.length - endingSize rest))
      (rest.drop (rest.length - endingSize rest)) := by
  intro rest
  have hle := endingSize_le rest
  constructor
  · rw [List.take_append_drop, List.take_append_drop]
  · rfl
  · rw [List.take_append_drop, List.length_drop]
    omega

theorem dropBackslash_drop (cs : List Char) :
    dropBackslash (String.ofList (cs.drop 11)) =
      String.ofList (cs.drop (if cs[11]? = some '\\' then 12 else 11)) := by
  have hnext : cs[11]? = (cs.drop 11).head? := by simp
  have htail : cs.drop 12 = (cs.drop 11).tail := by simp
  rw [dropBackslash, String.toList_ofList, hnext]
  split
  · rename_i rest hrest
    rw [hrest, List.head?_cons, if_pos rfl, htail, hrest, List.tail_cons]
  · rename_i hrest
    have hne : (cs.drop 11).head? ≠ some '\\' := by
      intro hhead
      obtain ⟨rest, hcons⟩ := List.head?_eq_some_iff.1 hhead
      exact hrest rest hcons
    rw [if_neg hne]

theorem eq_kept_of_not_found {piece : Option String} {word : String} {found kept : Option String} :
    (∀ s ∈ piece, ¬ SameButCase s.toList word.toList) →
    (match piece with
      | some s => if sameLetters s.toList word.toList then found else kept
      | none => kept) = kept := by
  intro h
  cases piece with
  | none => rfl
  | some s =>
    have hother : ¬ sameLetters s.toList word.toList = true := mt sameLetters_iff.1 (h s rfl)
    exact if_neg hother

/-- The namespace is found in bytes exactly when it is found in characters. -/
theorem dropNamespace?_eq (c : String) :
    dropNamespace? c = some (String.ofList (c.toList.drop (namespaceSize c.toList))) := by
  unfold dropNamespace? namespaceSize
  by_cases h : SameButCase (c.toList.take 11) "Controllers".toList
  · have hsize : (String.ofList (c.toList.take 11)).utf8ByteSize = 11 := h.utf8ByteSize_eq
    have hcut := cut?_take c 11
    rw [hsize] at hcut
    have hfound : sameLetters (c.toList.take 11) "Controllers".toList = true := sameLetters_iff.2 h
    simp only [before?, after?, hcut, Option.map_some, String.toList_ofList, hfound, if_true,
      dropBackslash_drop, if_pos h]
  · rw [if_neg h, List.drop_zero, String.ofList_toList]
    apply eq_kept_of_not_found
    intro head hhead hsame
    obtain ⟨pieces, hcut, rfl⟩ := Option.map_eq_some_iff.1 hhead
    have htake := take_of_cut? hcut hsame
    exact h (htake ▸ hsame)

theorem dropEnding?_eq (c : String) :
    dropEnding? c =
      some (String.ofList (c.toList.take (c.toList.length - endingSize c.toList))) := by
  unfold dropEnding? endingSize
  by_cases h : SameButCase (c.toList.drop (c.toList.length - 10)) "Controller".toList
  · have hsize : (String.ofList (c.toList.drop (c.toList.length - 10))).utf8ByteSize = 10 :=
      h.utf8ByteSize_eq
    have hcut := cut?_drop c (c.toList.length - 10)
    rw [hsize] at hcut
    have hle : 10 ≤ c.utf8ByteSize := by
      have hwhole := congrArg String.utf8ByteSize (toList_take_append_drop c (c.toList.length - 10))
      rw [String.utf8ByteSize_append] at hwhole
      omega
    have hfound : sameLetters (c.toList.drop (c.toList.length - 10)) "Controller".toList = true :=
      sameLetters_iff.2 h
    simp only [before?, after?, hcut, Option.map_some, String.toList_ofList, hfound, if_true,
      if_pos h, if_pos hle]
  · rw [if_neg h, Nat.sub_zero, List.take_length, String.ofList_toList]
    split
    · apply eq_kept_of_not_found
      intro tail htail hsame
      obtain ⟨pieces, hcut, rfl⟩ := Option.map_eq_some_iff.1 htail
      have hdrop := drop_of_cut? hcut hsame
      exact h (hdrop ▸ hsame)
    · rfl

theorem shortClass?_eq (t : Target) :
    let rest := t.className.toList.drop (namespaceSize t.className.toList)
    t.shortClass? = some (String.ofList (rest.take (rest.length - endingSize rest))) := by
  rw [shortClass?, dropNamespace?_eq, Option.bind_some, dropEnding?_eq, String.toList_ofList]

/-- No class is cut inside a character. Its short name is what is left when the namespace, told by
its first eleven characters and a backslash, is dropped, and then the ending, told by the last ten
characters that are left. The three pieces make up the class, and no other pieces do so. -/
theorem shortClass_isShortened (t : Target) :
    t.shortClass? = some t.shortClass ∧
      ∀ short, (∃ front back, IsShortened t.className.toList front short back) ↔
        short = t.shortClass.toList := by
  have hcut : t.shortClass? = some t.shortClass := (Option.some_get _).symm
  refine ⟨hcut, fun short => ?_⟩
  have hpieces := isShortened_take t.className.toList
  have hshort := hcut.symm.trans t.shortClass?_eq
  have hchars := congrArg String.toList (Option.some.inj hshort)
  rw [String.toList_ofList] at hchars
  simp only [← hchars] at hpieces
  constructor
  · rintro ⟨front, back, h⟩
    exact (h.unique hpieces).2.1
  · rintro rfl
    exact ⟨_, _, hpieces⟩

/-- Characters of several bytes stand at both cuts, and one stands across the first of them. -/
example :
    shortClass ⟨"controllerS\\\\éCONTROLLER", ""⟩ = "\\é" ∧
      shortClass ⟨"ControllerſController", ""⟩ = "Controllerſ" ∧
      shortClass ⟨"éontroller", ""⟩ = "éontroller" := by
  decide +kernel

end Target

end Endpoints

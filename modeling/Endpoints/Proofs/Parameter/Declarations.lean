import Endpoints.Annotation.Effect
import Endpoints.Proofs.Text.Words

/-!
# Lines that declare parameters

A line is read by its words. The words of a declaration are put together from a type token, which
may be left out, a name behind a dollar sign, a mark, which may be left out, and a description.
These pieces can be told apart again, so a line declares a parameter exactly when its words are put
together in this way, and the parameter says what the pieces say.
-/

namespace Endpoints

/-- The pieces of a line that declares a parameter. -/
structure Declaration where
  token : Option String
  name : String
  mark : Option String
  description : List String

namespace Declaration

/-- Whether a word makes a parameter optional where a mark may stand. -/
def IsMark (word : String) : Prop := word = "[optional]" ∨ word = "optional"

def words (d : Declaration) : List String :=
  d.token.toList ++ ("$" ++ d.name) :: (d.mark.toList ++ d.description)

/-- A type token does not look like a name, and what stands where a mark may stand is one if it
looks like one. -/
structure IsLawful (d : Declaration) : Prop where
  token_unsigned : ∀ token ∈ d.token, Parameter.hasSigil token = false
  name_ne : d.name ≠ ""
  mark_isMark : ∀ mark ∈ d.mark, IsMark mark
  description_unmarked : d.mark = none → ∀ word ∈ d.description.head?, ¬ IsMark word

/-- The parameter that the pieces describe. -/
def parameter (d : Declaration) (location : Location) : Parameter :=
  let type := (d.token.map TypeSpec.ofToken).getD { name := "string" }
  { name := d.name
    location := location
    required := d.mark.isNone
    typeName := type.name
    format := type.format
    pattern := type.pattern
    description := if d.description = [] then none else some (String.intercalate " " d.description)
    aliasOf := none
    hint := none }

end Declaration

namespace Parameter

open Declaration

theorem hasSigil_name (name : String) : hasSigil ("$" ++ name) = true := by
  simp [hasSigil, String.toList_append]

theorem splitType_append {token : Option String} {name : String} {rest : List String}
    (h : ∀ t ∈ token, hasSigil t = false) :
    splitType (token.toList ++ ("$" ++ name) :: rest) = (token, ("$" ++ name) :: rest) := by
  cases token with
  | none => simp [splitType, hasSigil_name]
  | some t =>
    have ht := h t rfl
    simp [splitType, ht]

theorem splitType_spec (ws : List String) :
    ws = (splitType ws).1.toList ++ (splitType ws).2 ∧
      ∀ token ∈ (splitType ws).1, hasSigil token = false := by
  cases ws with
  | nil => simp [splitType]
  | cons word rest => cases h : hasSigil word <;> simp [splitType, h]

/-- A name is read off a word that has something behind the dollar sign. -/
theorem splitName_eq_ok_iff {ws rest : List String} {name : String} :
    splitName ws = .ok (name, rest) ↔ name ≠ "" ∧ ws = ("$" ++ name) :: rest := by
  constructor
  · intro h
    unfold splitName at h
    split at h
    · cases h
    · rename_i word others
      split at h
      · cases h
      · rename_i chars hempty hword
        cases h
        have hsigned : word = "$" ++ String.ofList chars := by
          rw [← String.toList_inj, hword]
          simp [String.toList_append]
        exact ⟨fun hname => hempty (String.ofList_eq_empty_iff.1 hname), by rw [hsigned]⟩
      · cases h
  · rintro ⟨hname, rfl⟩
    have hword : ("$" ++ name).toList = '$' :: name.toList := by simp [String.toList_append]
    cases hchars : name.toList with
    | nil => exact absurd (String.toList_eq_nil_iff.1 hchars) hname
    | cons c chars =>
      simp only [splitName, hword, hchars]
      rw [← hchars, String.ofList_toList]

theorem splitOptional_append {mark : Option String} {description : List String}
    (hm : ∀ m ∈ mark, IsMark m)
    (hd : mark = none → ∀ word ∈ description.head?, ¬ IsMark word) :
    splitOptional (mark.toList ++ description) = (mark.isSome, description) := by
  cases mark with
  | none =>
    cases description with
    | nil => rfl
    | cons word rest => exact if_neg (hd rfl word rfl)
  | some m => exact if_pos (hm m rfl)

/-- What stands behind a name is a mark, if it starts with one, and a description. -/
theorem exists_mark (ws : List String) : ∃ (mark : Option String) (description : List String),
    ws = mark.toList ++ description ∧ (∀ m ∈ mark, IsMark m) ∧
      (mark = none → ∀ word ∈ description.head?, ¬ IsMark word) := by
  cases ws with
  | nil => exact ⟨none, [], by simp⟩
  | cons word rest =>
    by_cases h : IsMark word
    · exact ⟨some word, rest, by simpa using h⟩
    · exact ⟨none, word :: rest, by simpa using h⟩

/-- The pieces of a declaration are found again. -/
theorem ofWords_words {d : Declaration} (h : d.IsLawful) (location : Location) :
    ofWords d.words location = .ok (d.parameter location) := by
  have hname : splitName (("$" ++ d.name) :: (d.mark.toList ++ d.description)) =
      .ok (d.name, d.mark.toList ++ d.description) :=
    splitName_eq_ok_iff.2 ⟨h.name_ne, rfl⟩
  have hmark := splitOptional_append h.mark_isMark h.description_unmarked
  simp only [ofWords, words, splitType_append h.token_unsigned, hname, hmark]
  simp [make, parameter, TypeSpec.text]

theorem exists_declaration {ws : List String} {location : Location} {p : Parameter}
    (h : ofWords ws location = .ok p) : ∃ d : Declaration, d.IsLawful ∧ d.words = ws := by
  obtain ⟨hws, htoken⟩ := splitType_spec ws
  cases hn : splitName (splitType ws).2 with
  | error fault =>
    simp only [ofWords, hn] at h
    cases h
  | ok found =>
    obtain ⟨name, rest⟩ := found
    obtain ⟨hname, hrest⟩ := splitName_eq_ok_iff.1 hn
    obtain ⟨mark, description, rfl, hmark, hdescription⟩ := exists_mark rest
    refine ⟨⟨(splitType ws).1, name, mark, description⟩,
      ⟨htoken, hname, hmark, hdescription⟩, ?_⟩
    rw [words, ← hrest, ← hws]

theorem ofWords_eq_ok_iff {ws : List String} {location : Location} {p : Parameter} :
    ofWords ws location = .ok p ↔
      ∃ d : Declaration, d.IsLawful ∧ d.words = ws ∧ d.parameter location = p := by
  constructor
  · intro h
    obtain ⟨d, hd, rfl⟩ := exists_declaration h
    rw [ofWords_words hd] at h
    exact ⟨d, hd, rfl, Except.ok.inj h⟩
  · rintro ⟨d, hd, rfl, rfl⟩
    exact ofWords_words hd location

/-- A declaration starts with a name, or with a type token and a name. -/
theorem exists_words_eq_iff {ws : List String} :
    (∃ d : Declaration, d.IsLawful ∧ d.words = ws) ↔
      (∃ name rest, name ≠ "" ∧ ws = ("$" ++ name) :: rest) ∨
        ∃ token name rest, hasSigil token = false ∧ name ≠ "" ∧
          ws = token :: ("$" ++ name) :: rest := by
  constructor
  · rintro ⟨⟨token, name, mark, description⟩, hd, rfl⟩
    cases token with
    | none => exact .inl ⟨name, _, hd.name_ne, rfl⟩
    | some token => exact .inr ⟨token, name, _, hd.token_unsigned token rfl, hd.name_ne, rfl⟩
  · rintro (⟨name, rest, hname, rfl⟩ | ⟨token, name, rest, htoken, hname, rfl⟩)
    · obtain ⟨mark, description, rfl, hmark, hdescription⟩ := exists_mark rest
      exact ⟨⟨none, name, mark, description⟩, ⟨by simp, hname, hmark, hdescription⟩, rfl⟩
    · obtain ⟨mark, description, rfl, hmark, hdescription⟩ := exists_mark rest
      exact ⟨⟨some token, name, mark, description⟩,
        ⟨by simpa using htoken, hname, hmark, hdescription⟩, rfl⟩

end Parameter

theorem Text.areWords_words (line : String) :
    AreWords line.toList ((words line).map String.toList) := by
  have hwords : (words line).map String.toList = wordsOf line.toList := by
    simp [words, Function.comp_def]
  exact hwords ▸ areWords_iff.2 rfl

theorem Text.words_intercalate {ws : List String} (h : ∀ word ∈ ws, IsWord word.toList) :
    words (String.intercalate " " ws) = ws := by
  have hwords : AreWords (List.intercalate [' '] (ws.map String.toList)) (ws.map String.toList) :=
    areWords_intercalate (by simpa using h)
  have hline : (String.intercalate " " ws).toList =
      List.intercalate [' '] (ws.map String.toList) := String.toList_intercalate
  rw [words, hline, areWords_iff.1 hwords]
  simp [Function.comp_def]

namespace Site

open Parameter

theorem declaredParameter_eq (hint : Location) (line : String) (cache : SchemaCache) :
    declaredParameter hint line cache =
      ⟨(ofDeclaration line hint).mapError (.malformed line), cache, declarationNotices line⟩ := by
  unfold declaredParameter
  cases h : ofDeclaration line hint with
  | error fault => simp [Lookup.bind_apply, Except.mapError]
  | ok p => simp [Lookup.bind_apply, Except.mapError]

theorem result_declaredParameter (hint : Location) (line : String) (cache : SchemaCache) :
    (declaredParameter hint line cache).result =
      (ofWords (Text.words line) hint).mapError (.malformed line) := by
  rw [declaredParameter_eq, ofDeclaration]

theorem result_declaredParameter_eq_ok_iff {hint : Location} {line : String} {cache : SchemaCache}
    {p : Parameter} : (declaredParameter hint line cache).result = .ok p ↔
      ∃ d : Declaration, d.IsLawful ∧ d.words = Text.words line ∧ d.parameter hint = p := by
  rw [result_declaredParameter, ← ofWords_eq_ok_iff]
  cases ofWords (Text.words line) hint <;> simp [Except.mapError]

theorem exists_result_declaredParameter_iff {hint : Location} {line : String}
    {cache : SchemaCache} : (∃ p, (declaredParameter hint line cache).result = .ok p) ↔
      ∃ d : Declaration, d.IsLawful ∧ d.words = Text.words line := by
  constructor
  · rintro ⟨p, h⟩
    obtain ⟨d, hd, hwords, -⟩ := result_declaredParameter_eq_ok_iff.1 h
    exact ⟨d, hd, hwords⟩
  · rintro ⟨d, hd, hwords⟩
    exact ⟨_, result_declaredParameter_eq_ok_iff.2 ⟨d, hd, hwords, rfl⟩⟩

theorem exists_fault_of_declaredParameter {hint : Location} {line : String} {cache : SchemaCache}
    {e : Error} (h : (declaredParameter hint line cache).result = .error e) :
    ∃ fault, e = .malformed line fault := by
  rw [result_declaredParameter] at h
  cases hw : ofWords (Text.words line) hint with
  | error fault =>
    rw [hw] at h
    cases h
    exact ⟨fault, rfl⟩
  | ok p =>
    rw [hw] at h
    cases h

/-- A line declares a parameter exactly when its words, the maximal runs of characters that are not
blank, start with a name, or with a type token and a name. The parameter is the one that the pieces
of the line describe: the type, the name, whether a mark follows, and the words after that. Every
other line is malformed, and the error carries it as it is. Lines with the same words declare the
same parameter or none, and pieces that are written with single spaces are read back. -/
theorem declaredParameter_accepts_declarations (hint : Location) (line : String)
    (cache : SchemaCache) :
    let ws := Text.words line
    let read := declaredParameter hint line cache
    Text.AreWords line.toList (ws.map String.toList) ∧
    ((∃ p, read.result = .ok p) ↔
      (∃ name rest, name ≠ "" ∧ ws = ("$" ++ name) :: rest) ∨
        ∃ token name rest, hasSigil token = false ∧ name ≠ "" ∧
          ws = token :: ("$" ++ name) :: rest) ∧
    (∀ p, read.result = .ok p ↔
      ∃ d : Declaration, d.IsLawful ∧ d.words = ws ∧ d.parameter hint = p) ∧
    (∀ e, read.result = .error e → ∃ fault, e = .malformed line fault) ∧
    (∀ other cache', Text.words other = ws →
      (declaredParameter hint other cache').result.toOption = read.result.toOption) ∧
    ∀ d : Declaration, d.IsLawful → (∀ word ∈ d.words, Text.IsWord word.toList) →
      (declaredParameter hint (String.intercalate " " d.words) cache).result =
        .ok (d.parameter hint) := by
  intro ws read
  refine ⟨Text.areWords_words line, ?_, fun p => result_declaredParameter_eq_ok_iff,
    fun e => exists_fault_of_declaredParameter, ?_, ?_⟩
  · rw [← exists_words_eq_iff]
    exact exists_result_declaredParameter_iff
  · intro other cache' h
    rw [result_declaredParameter, result_declaredParameter, h]
    cases ofWords ws hint <;> rfl
  · intro d hd hwords
    exact result_declaredParameter_eq_ok_iff.2 ⟨d, hd, (Text.words_intercalate hwords).symm, rfl⟩

end Site

end Endpoints

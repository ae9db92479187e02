import Endpoints.Content
import Endpoints.Decimal.Numeral
import Endpoints.Text.Digit
import Endpoints.Yaml.Token

/-!
# What YAML scalars stand for

A plain scalar may stand for a null, a truth value or a number; a quoted one stands for its
text. A tag of the language overrides the form of the scalar. A scalar that a position reads as
a text stands for its text whatever else it may stand for, so both are kept.
-/

namespace Endpoints.Yaml

def isNullWord (s : String) : Bool :=
  s = "null" ∨ s = "Null" ∨ s = "NULL" ∨ s = "~"

def boolWord? (s : String) : Option Bool :=
  if s = "true" ∨ s = "True" ∨ s = "TRUE" then some true
  else if s = "false" ∨ s = "False" ∨ s = "FALSE" then some false
  else none

def splitSign : List Char → Option Char × List Char
  | '+' :: rest => (some '+', rest)
  | '-' :: rest => (some '-', rest)
  | cs => (none, cs)

/-- Whether a text is made of digits, perhaps behind a sign, and starts with a zero that does not
stand alone. Such a text is no number. -/
def isZeroPadded (cs : List Char) : Bool :=
  match (splitSign cs).2 with
  | '0' :: rest => !rest.isEmpty && rest.all Decimal.isDigit
  | _ => false

/-- The number that an unsigned text stands for: with `0x`, `0o` or `0b` in one of three bases,
else in decimal. -/
def unsigned? (cs : List Char) : Option Nat :=
  let marked := match cs with
    | '0' :: 'x' :: digits => Text.naturalIn? 16 digits
    | '0' :: 'o' :: digits => Text.naturalIn? 8 digits
    | '0' :: 'b' :: digits => Text.naturalIn? 2 digits
    | _ => none
  marked.orElse fun _ => if isZeroPadded cs then none else Text.naturalIn? 10 cs

def floatNumber? (s : String) : Option Float :=
  let cs := s.toList
  let (sign, body) := splitSign cs
  let finite? : Option Float := (Decimal.numeral? body).filter Float.isFinite
  match sign, String.ofList body with
  | some '-', ".inf" | some '-', ".Inf" | some '-', ".INF" => some (-1 / 0)
  | _, ".inf" | _, ".Inf" | _, ".INF" => some (1 / 0)
  | none, ".nan" | none, ".NaN" | none, ".NAN" => some (0 / 0)
  | some '-', _ => finite?.map fun x => -x
  | _, _ => finite?

/-- Whether a number needs more than 64 bits but no more than 128. No reader takes such a
number. -/
def isWide (n : Int) : Bool :=
  (Int.pow 2 64 ≤ n && n < Int.pow 2 128) || (-Int.pow 2 127 ≤ n && n < -Int.pow 2 63)

/-- What a whole number stands for: a number of 64 bits for itself, a larger one for nothing or,
beyond 128 bits, for the nearest binary number. -/
def wholeContent? (n : Int) : Option Content :=
  if isWide n then some .unreadable
  else if -Int.pow 2 63 ≤ n ∧ n < Int.pow 2 64 then some (.int n)
  else none

def integerContent? (cs : List Char) : Option Content :=
  match splitSign cs with
  | (some '-', digits) =>
      (unsigned? digits).bind fun n => if n = 0 then some .minusZero else wholeContent? (-n)
  | (_, digits) => (unsigned? digits).bind fun n => wholeContent? n

def plainContent (s : String) : Content :=
  if s = "" ∨ isNullWord s then .null
  else
    match boolWord? s with
    | some b => .bool b
    | none =>
        match integerContent? s.toList with
        | some content => content
        | none =>
            if isZeroPadded s.toList then .text s
            else
              match floatNumber? s with
              | some x => .float x
              | none => .text s

/-- Whether a scalar of a text may stand for a value: it stands for no collection, and for no text
but its own. -/
def isSpelledBy (text : String) : Content → Bool
  | .text s => s = text
  | .list _ | .map _ => false
  | _ => true

theorem isSpelledBy_of_wholeContent? {n : Int} {c : Content} (h : wholeContent? n = some c)
    (text : String) : isSpelledBy text c = true := by
  unfold wholeContent? at h
  split at h
  · cases h
    rfl
  · split at h
    · cases h
      rfl
    · cases h

theorem isSpelledBy_of_integerContent? {cs : List Char} {c : Content}
    (h : integerContent? cs = some c) (text : String) : isSpelledBy text c = true := by
  unfold integerContent? at h
  split at h
  · obtain ⟨n, _, hn⟩ := Option.bind_eq_some_iff.1 h
    split at hn
    · cases hn
      rfl
    · exact isSpelledBy_of_wholeContent? hn text
  · obtain ⟨n, _, hn⟩ := Option.bind_eq_some_iff.1 h
    exact isSpelledBy_of_wholeContent? hn text

theorem isSpelledBy_plainContent (s : String) : isSpelledBy s (plainContent s) = true := by
  unfold plainContent
  split
  · rfl
  · split
    · rfl
    · split
      · rename_i h
        exact isSpelledBy_of_integerContent? h s
      · split
        · simp [isSpelledBy]
        · split
          · rfl
          · simp [isSpelledBy]

namespace Scalar

/-- What a scalar with a tag of the language stands for. -/
def languageContent? (tag : Tag) (text : String) : Option Content :=
  if tag = .ofLanguage "bool" then some ((boolWord? text).elim .unreadable .bool)
  else if tag = .ofLanguage "int" then
    some ((integerContent? text.toList).getD .unreadable)
  else if tag = .ofLanguage "float" then some ((floatNumber? text).elim .unreadable .float)
  else if tag = .ofLanguage "null" then some (if isNullWord text then .null else .unreadable)
  else none

def formContent (style : ScalarStyle) (text : String) : Content :=
  if style = .plain then plainContent text else .text text

/-- What a scalar stands for, given its tag. A tag of the document's own that has no name leaves
the form to decide; a tag that is neither the document's own nor known makes a text. -/
def contentOf (tag : Option Tag) (style : ScalarStyle) (text : String) : Content :=
  match tag with
  | none => formContent style text
  | some tag =>
      if tag.isOwn then
        match tag.ownName? with
        | some name => .tagged name (formContent style text)
        | none => formContent style text
      else (languageContent? tag text).getD (.text text)

theorem isSpelledBy_formContent (style : ScalarStyle) (text : String) :
    isSpelledBy text (formContent style text) = true := by
  unfold formContent
  split
  · exact isSpelledBy_plainContent text
  · simp [isSpelledBy]

theorem isSpelledBy_languageContent (tag : Tag) (text : String) :
    isSpelledBy text ((languageContent? tag text).getD (.text text)) = true := by
  unfold languageContent?
  split
  · cases boolWord? text <;> rfl
  · split
    · cases h : integerContent? text.toList with
      | none => rfl
      | some c => exact isSpelledBy_of_integerContent? h text
    · split
      · cases floatNumber? text <;> rfl
      · split
        · cases isNullWord text <;> rfl
        · simp [isSpelledBy]

theorem isSpelledBy_contentOf (tag : Option Tag) (style : ScalarStyle) (text : String) :
    isSpelledBy text (contentOf tag style text) = true := by
  unfold contentOf
  split
  · exact isSpelledBy_formContent style text
  · split
    · split
      · rfl
      · exact isSpelledBy_formContent style text
    · exact isSpelledBy_languageContent _ text

end Scalar

structure Scalar where
  text : String
  /-- What a position that asks for no particular form reads. -/
  content : Content
  spelled : isSpelledBy text content = true
  /-- Whether the scalar is written without quotes or indicators. -/
  isPlain : Bool
  /-- The truth value for a position that asks for one. -/
  bool? : Option Bool
  /-- Whether a position that may be unset takes the scalar for unset; the outer `none` stands for
  a scalar that such a position does not take. -/
  isUnset? : Option Bool
  tag? : Option String

namespace Scalar

def ofTree (tag : Option Tag) (style : ScalarStyle) (text : String) : Scalar where
  text := text
  content := contentOf tag style text
  spelled := isSpelledBy_contentOf tag style text
  isPlain := style = .plain
  bool? :=
    if style = .plain ∨ (style = .literal ∧ tag = some (.ofLanguage "bool")) then boolWord? text
    else none
  isUnset? :=
    if style ≠ .plain then some false
    else if tag = some (.ofLanguage "null") then (if isNullWord text then some true else none)
    else if tag.isSome then some false
    else some (text = "" ∨ isNullWord text)
  tag? := tag.bind Tag.ownName?

/-- Whether the scalar is plain and, apart from its tag, stands for a null. -/
def isPlainNull (s : Scalar) : Bool :=
  s.isPlain && (s.text = "" || isNullWord s.text)

def isEmptyCollection (s : Scalar) : Bool :=
  s.isPlain && s.text = ""

end Scalar

end Endpoints.Yaml

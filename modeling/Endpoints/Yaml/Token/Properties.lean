import Endpoints.Decimal.Numeral
import Endpoints.Yaml.Token
import Endpoints.Yaml.Cursor

/-!
# Anchors, tags and directives in YAML text

How the properties of nodes and the directives of documents are read. A tag is written with a
handle and a suffix, or verbatim between angle brackets; percent signs stand for bytes that may
not be written as characters.
-/

namespace Endpoints.Yaml

def endsAnchor : List Char → Bool
  | [] => true
  | x :: _ => isGap x || ['?', ':', ',', ']', '}', '%', '@', '\x60'].contains x

def readAnchorName (c : Cursor) : Option (String × Cursor) :=
  let (name, after) := c.span isWordChar
  if name.isEmpty ∨ !endsAnchor after.rest then none
  else some (String.ofList name, after)

def isTagChar (verbatim : Bool) (c : Char) : Bool :=
  isWordChar c || ";/?:@&=+$.!~*'()".toList.contains c || (verbatim && ",[]".toList.contains c)

def percentBytes : List Char → List UInt8
  | '%' :: a :: b :: rest =>
      match Text.valueIn? 16 0 [a, b] with
      | some n => UInt8.ofNat n :: percentBytes rest
      | none => []
  | _ => []

def byteCount? (first : UInt8) : Option Nat :=
  if first < 0x80 then some 1
  else if first &&& 0xE0 = 0xC0 then some 2
  else if first &&& 0xF0 = 0xE0 then some 3
  else if first &&& 0xF8 = 0xF0 then some 4
  else none

def isTrailing (byte : UInt8) : Bool :=
  byte &&& 0xC0 = 0x80

/-- Read the bytes of one character written as percent signs. Only the form of the bytes counts;
there need not be such a character. -/
def readPercent (c : Cursor) : Option (List UInt8 × Cursor) :=
  match percentBytes (c.rest.take 12) with
  | [] => none
  | first :: further =>
      match byteCount? first with
      | none => none
      | some count =>
          let trailing := further.take (count - 1)
          if trailing.length = count - 1 ∧ trailing.all isTrailing then
            some (first :: trailing, c.skip (3 * count))
          else none

def readTagBytes (verbatim : Bool) : Nat → List UInt8 → Cursor →
    Option (List UInt8 × Cursor)
  | 0, read, c => some (read, c)
  | fuel + 1, read, c =>
      match c.peek? with
      | none => some (read, c)
      | some x =>
          if x = '%' then
            match readPercent c with
            | none => none
            | some (bytes, after) => readTagBytes verbatim fuel (bytes.reverse ++ read) after
          else if isTagChar verbatim x then
            readTagBytes verbatim fuel ((String.utf8EncodeChar x).reverse ++ read) (c.skip 1)
          else some (read, c)

/-- Read a part of a tag behind the word of a handle that proved to be none; there must be a byte
if there is no word. -/
def readTagPart (verbatim : Bool) (word : Option (List Char)) (c : Cursor) :
    Option (Tag × Cursor) :=
  match readTagBytes verbatim (c.limit + 1) [] c with
  | none => none
  | some (read, after) =>
      if word.isNone ∧ read.isEmpty then none
      else
        some (.ofBytes ((word.getD []).flatMap String.utf8EncodeChar ++ read.reverse), after)

/-- Read a handle, from its exclamation mark: the word behind it and a second mark, if there is
one. -/
def readHandle (c : Cursor) : Option (List Char × Cursor) :=
  if c.peek? ≠ some '!' then none
  else
    let (word, after) := (c.skip 1).span isWordChar
    if after.peek? = some '!' then some ('!' :: (word ++ ['!']), after.skip 1)
    else some ('!' :: word, after)

def isClosedHandle (handle : List Char) : Bool :=
  1 < handle.length && handle.getLast? == some '!'

def readTag (inFlow : Bool) (c : Cursor) : Option (Token × Cursor) := do
  let (token, after) ←
    if (c.rest.drop 1).head? = some '<' then do
      let (suffix, after) ← readTagPart true none (c.skip 2)
      if after.peek? = some '>' then some (Token.tag "" suffix, after.skip 1)
      else none
    else do
      let (handle, afterHandle) ← readHandle c
      if isClosedHandle handle then
        let (suffix, after) ← readTagPart false none afterHandle
        some (Token.tag (String.ofList handle) suffix, after)
      else
        let (suffix, after) ← readTagPart false (some (handle.drop 1)) afterHandle
        if suffix.bytes.isEmpty then some (Token.tag "" Tag.lone, after)
        else some (Token.tag "!" suffix, after)
  if (inFlow ∧ after.peek? = some ',') ∨ startsGap after.rest then some (token, after)
  else none

def readVersionPart (c : Cursor) : Option (Nat × Cursor) :=
  let (digits, after) := c.span Decimal.isDigit
  if digits.isEmpty ∨ 9 < digits.length then none
  else some (Decimal.digitsValue 0 digits, after)

def readDirective (c : Cursor) : Option (Token × Cursor) := do
  let (name, c) := (c.skip 1).span isWordChar
  if name.isEmpty ∨ !startsGap c.rest then none
  else
    let c := c.skipWhile isSpaceOrTab
    let (token, after) ←
      if name = "YAML".toList then do
        let (major, c) ← readVersionPart c
        if c.peek? ≠ some '.' then none
        else
          let (minor, c) ← readVersionPart (c.skip 1)
          some (Token.versionDirective major minor, c)
      else if name = "TAG".toList then do
        let (handle, c) ← readHandle c
        if handle ≠ ['!'] ∧ !isClosedHandle handle then none
        else if !(c.peek?.map isSpaceOrTab).getD false then none
        else
          let (start, c) ← readTagPart true none (c.skipWhile isSpaceOrTab)
          if startsGap c.rest then
            some (Token.tagDirective (String.ofList handle) start, c)
          else none
      else none
    let after ← after.endLine?
    some (token, after)

end Endpoints.Yaml

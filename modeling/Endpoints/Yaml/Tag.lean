/-!
# Tags of YAML nodes

A tag is a sequence of bytes that ends before the first zero. The tags of the language itself
share a start. A tag of the document's own starts with an exclamation mark, and has a name if the
bytes behind the mark are a text. A handle is a short form for the start of tags.
-/

namespace Endpoints.Yaml

structure Tag where
  bytes : List UInt8
  deriving DecidableEq, Repr

namespace Tag

/-- The tag that some bytes stand for: those before the first zero. -/
def ofBytes (bytes : List UInt8) : Tag :=
  ⟨bytes.takeWhile (· ≠ 0)⟩

def ofText (s : String) : Tag :=
  ofBytes (s.toList.flatMap String.utf8EncodeChar)

def mark : UInt8 := 0x21

def lone : Tag := ⟨[mark]⟩

def append (start rest : Tag) : Tag :=
  ⟨start.bytes ++ rest.bytes⟩

def languageStart : String := "tag:yaml.org,2002:"

def ofLanguage (name : String) : Tag :=
  ofText (languageStart ++ name)

def isOwn (t : Tag) : Bool :=
  t.bytes.head? = some mark

/-- The name of a tag of the document's own: what stands behind its exclamation mark, or the mark
when it stands alone. -/
def ownName? (t : Tag) : Option String :=
  if t.isOwn then
    String.fromUTF8? (ByteArray.mk (if t = lone then t.bytes else t.bytes.drop 1).toArray)
  else none

end Tag

abbrev Handles := List (String × Tag)

namespace Handles

def standard : Handles := [("!", Tag.lone), ("!!", Tag.ofText Tag.languageStart)]

def expand? (hs : Handles) (handle : String) (suffix : Tag) : Option Tag :=
  if handle = "" then some suffix
  else (hs.lookup handle).map fun start => start.append suffix

end Handles

end Endpoints.Yaml

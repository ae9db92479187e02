import Endpoints.Content.Plain
import Endpoints.Yaml.Scalar
import Endpoints.Yaml.Cursor

/-!
# Writing YAML

Plain content as YAML in block style: entries of maps are indented by two, and items of lists
stand at the column of their key. A text is written plain if it can be, and otherwise in the
plainest form that gives it back: as a literal block if it has line feeds, between single quotes,
or between double quotes with escapes.
-/

namespace Endpoints.Yaml

/-- What is written: truth values, texts, lists, and maps whose keys are texts. -/
inductive Block where
  | bool (b : Bool)
  | text (s : String)
  | list (items : List Block)
  | map (entries : List (String × Block))

namespace Block

mutual

def ofContent? : Content → Option Block
  | .bool b => some (.bool b)
  | .text s => some (.text s)
  | .list items => (ofItems? items).map .list
  | .map entries => (ofEntries? entries).map .map
  | _ => none

def ofItems? : List Content → Option (List Block)
  | [] => some []
  | item :: rest =>
      match ofContent? item, ofItems? rest with
      | some block, some blocks => some (block :: blocks)
      | _, _ => none

def ofEntries? : List (Content × Content) → Option (List (String × Block))
  | [] => some []
  | (key, value) :: rest =>
      match key, ofContent? value, ofEntries? rest with
      | .text name, some block, some blocks => some ((name, block) :: blocks)
      | _, _, _ => none

end

theorem isSome_ofItems? {items : List Content} (h : ∀ item ∈ items, (ofContent? item).isSome) :
    (ofItems? items).isSome := by
  induction items with
  | nil => rfl
  | cons item rest ih =>
    obtain ⟨hitem, hrest⟩ := List.forall_mem_cons.1 h
    obtain ⟨block, hblock⟩ := Option.isSome_iff_exists.1 hitem
    obtain ⟨blocks, hblocks⟩ := Option.isSome_iff_exists.1 (ih hrest)
    simp [ofItems?, hblock, hblocks]

theorem isSome_ofEntries? {entries : List (String × Content)}
    (h : ∀ entry ∈ entries, (ofContent? entry.2).isSome) :
    (ofEntries? (entries.map fun (key, value) => (.text key, value))).isSome := by
  induction entries with
  | nil => rfl
  | cons entry rest ih =>
    obtain ⟨hentry, hrest⟩ := List.forall_mem_cons.1 h
    obtain ⟨block, hblock⟩ := Option.isSome_iff_exists.1 hentry
    obtain ⟨blocks, hblocks⟩ := Option.isSome_iff_exists.1 (ih hrest)
    simp [ofEntries?, hblock, hblocks]

theorem isSome_ofContent? {c : Content} (h : c.IsPlain) : (ofContent? c).isSome := by
  induction h with
  | bool b => rfl
  | text s => rfl
  | list _ ih =>
    rw [ofContent?, Option.isSome_map]
    exact isSome_ofItems? ih
  | record _ ih =>
    rw [Content.record, ofContent?, Option.isSome_map]
    exact isSome_ofEntries? ih

end Block

structure TextShape where
  /-- An indicator stands where it would mean something else. -/
  indicator : Bool := false
  lineBreak : Bool := false
  /-- A character stands in it that can only be written as an escape. -/
  special : Bool := false
  leadingSpace : Bool := false
  leadingBreak : Bool := false
  trailingSpace : Bool := false
  trailingBreak : Bool := false
  breakSpace : Bool := false
  spaceBreak : Bool := false
  deriving DecidableEq, Repr

def isPrintable (c : Char) : Bool :=
  let n := c.toNat
  n == 0xA || (0x20 ≤ n && n ≤ 0x7E) || (0xA0 ≤ n && n ≤ 0xFFFD && n != 0xFEFF) || 0x10000 ≤ n

def isStartIndicator (c : Char) (rest : List Char) : Bool :=
  startIndicators.contains c || ((c == '?' || c == ':' || c == '-') && startsGap rest)

def isInnerIndicator (before : Char) (c : Char) (rest : List Char) : Bool :=
  (c == ':' && startsGap rest) || (c == '#' && isGap before)

/-- Add what a character says about the shape of a text, given the character before it. -/
def TextShape.addChar (t : TextShape) (before : Option Char) (c : Char) (rest : List Char) :
    TextShape :=
  let afterSpace := before == some ' '
  let afterBreak := (before.map isBreak).getD false
  { indicator := t.indicator ||
      match before with
      | none => isStartIndicator c rest
      | some b => isInnerIndicator b c rest
    lineBreak := t.lineBreak || isBreak c
    special := t.special || !isPrintable c
    leadingSpace := t.leadingSpace || (before.isNone && c == ' ')
    leadingBreak := t.leadingBreak || (before.isNone && isBreak c)
    trailingSpace := c == ' '
    trailingBreak := isBreak c
    breakSpace := t.breakSpace || (c == ' ' && afterBreak)
    spaceBreak := t.spaceBreak || (isBreak c && afterSpace) }

def TextShape.ofChars (t : TextShape) : Option Char → List Char → TextShape
  | _, [] => t
  | before, c :: rest => TextShape.ofChars (t.addChar before c rest) (some c) rest

def startsLikeMarker : List Char → Bool
  | '-' :: '-' :: '-' :: _ => true
  | '.' :: '.' :: '.' :: _ => true
  | _ => false

def TextShape.of (cs : List Char) : TextShape :=
  TextShape.ofChars { indicator := startsLikeMarker cs } none cs

namespace TextShape

def allowsPlain (t : TextShape) : Bool :=
  !(t.indicator || t.lineBreak || t.special || t.leadingSpace || t.leadingBreak ||
    t.trailingSpace || t.trailingBreak || t.breakSpace || t.spaceBreak)

def allowsSingle (t : TextShape) : Bool :=
  !(t.special || t.breakSpace || t.spaceBreak)

def allowsBlock (t : TextShape) : Bool :=
  !(t.special || t.spaceBreak || t.trailingSpace)

end TextShape

def isAmbiguous (s : String) : Bool :=
  isZeroPadded s.toList ||
    match plainContent s with
    | .text _ => false
    | _ => true

/-- The style in which a text is written. A key stands on a line of its own, so it cannot be a
block there. -/
def styleOf (isKey : Bool) (s : String) : ScalarStyle :=
  let shape := TextShape.of s.toList
  let wanted : ScalarStyle :=
    if s.toList.contains '\n' then .literal
    else if isAmbiguous s then .singleQuoted
    else .plain
  let wanted := if isKey && shape.lineBreak then .doubleQuoted else wanted
  match wanted with
  | .plain => if shape.allowsPlain then .plain
      else if shape.allowsSingle then .singleQuoted else .doubleQuoted
  | .singleQuoted => if shape.allowsSingle then .singleQuoted else .doubleQuoted
  | .literal => if shape.allowsBlock && !isKey && !s.isEmpty then .literal else .doubleQuoted
  | style => style

def escapeLetter? (c : Char) : Option Char :=
  match c.toNat with
  | 0x00 => some '0'
  | 0x07 => some 'a'
  | 0x08 => some 'b'
  | 0x09 => some 't'
  | 0x0A => some 'n'
  | 0x0B => some 'v'
  | 0x0C => some 'f'
  | 0x0D => some 'r'
  | 0x1B => some 'e'
  | 0x22 => some '"'
  | 0x5C => some '\\'
  | 0x85 => some 'N'
  | 0xA0 => some '_'
  | 0x2028 => some 'L'
  | 0x2029 => some 'P'
  | _ => none

def escapeChar (c : Char) : List Char :=
  if isPrintable c ∧ !isBreak c ∧ c ≠ '"' ∧ c ≠ '\\' then [c]
  else
    match escapeLetter? c with
    | some letter => ['\\', letter]
    | none =>
        if c.toNat ≤ 0xFF then '\\' :: 'x' :: Text.hexDigits 'A' 2 c.toNat
        else if c.toNat ≤ 0xFFFF then '\\' :: 'u' :: Text.hexDigits 'A' 4 c.toNat
        else '\\' :: 'U' :: Text.hexDigits 'A' 8 c.toNat

def spaces (n : Nat) : List Char :=
  List.replicate n ' '

/-- The characters of a text between single quotes, given whether a break stands before them. A
line feed is written twice after a text, and what follows breaks is indented. -/
def singleChars (indent : Nat) : Bool → List Char → List Char
  | broken, [] => if broken then spaces indent else []
  | broken, c :: rest =>
      if isBreak c then
        (if !broken ∧ c = '\n' then ['\n'] else []) ++ c :: singleChars indent true rest
      else if c = ' ' then ' ' :: singleChars indent broken rest
      else
        (if broken then spaces indent else []) ++
          (if c = '\'' then ['\'', '\''] else [c]) ++ singleChars indent false rest

def literalChars (indent : Nat) : Bool → List Char → List Char
  | _, [] => []
  | broken, c :: rest =>
      if isBreak c then c :: literalChars indent true rest
      else (if broken then spaces indent else []) ++ c :: literalChars indent false rest

/-- What stands behind the indicator of a literal block: the indentation if the text starts with
a gap, and what is kept of the breaks at its end. -/
def literalHints (cs : List Char) : List Char :=
  let indentation := match cs with
    | c :: _ => if c = ' ' ∨ isBreak c then ['2'] else []
    | [] => []
  let ending := match cs.reverse with
    | [] => ['-']
    | [c] => if isBreak c then ['+'] else ['-']
    | c :: d :: _ => if !isBreak c then ['-'] else if isBreak d then ['+'] else []
  indentation ++ ending

/-- A text in a style, for a position whose further lines stand at a column. -/
def scalarText (style : ScalarStyle) (indent : Nat) (s : String) : String :=
  let cs := s.toList
  match style with
  | .plain => s
  | .singleQuoted => String.ofList ('\'' :: (singleChars indent false cs ++ ['\'']))
  | .doubleQuoted => String.ofList ('"' :: (cs.flatMap escapeChar ++ ['"']))
  | .literal | .folded =>
      String.ofList ('|' :: (literalHints cs ++ '\n' :: literalChars indent true cs))

def keyLimit : Nat := 128

def isSimpleKey (s : String) : Bool :=
  !s.toList.any isBreak && s.utf8ByteSize ≤ keyLimit

/-- Start a new line at a column, unless the text before has just ended one. -/
def newLine (before : String) (indent : Nat) : String :=
  let ended := (before.toList.getLast?.map isBreak).getD false
  (if ended then "" else "\n") ++ String.ofList (spaces indent)

def joinLines (indent : Nat) : List String → String
  | [] => ""
  | [part] => part
  | part :: rest => part ++ newLine part indent ++ joinLines indent rest

/-- An entry of a map at a column, given its value for a simple key and for any other. -/
def entryText (indent : Nat) (key afterKey afterMark : String) : String :=
  if isSimpleKey key then scalarText (styleOf true key) (indent + 2) key ++ ":" ++ afterKey
  else
    let question := "? " ++ scalarText (styleOf false key) (indent + 2) key
    question ++ newLine question indent ++ ":" ++ afterMark

mutual

/-- A value behind the colon of a simple key, in a map at a column. -/
def afterKey (indent : Nat) : Block → String
  | .bool true => " true"
  | .bool false => " false"
  | .text s => " " ++ scalarText (styleOf false s) (indent + 2) s
  | .list [] => " []"
  | .list (item :: rest) =>
      "\n" ++ String.ofList (spaces indent) ++
        joinLines indent (itemTexts indent (item :: rest))
  | .map [] => " \x7b\x7d"
  | .map (entry :: rest) =>
      "\n" ++ String.ofList (spaces (indent + 2)) ++
        joinLines (indent + 2) (entryTexts (indent + 2) (entry :: rest))

/-- A value on the line of a mark of one character, which stands at a column. -/
def afterMark (indent : Nat) : Block → String
  | .map (entry :: rest) =>
      " " ++ joinLines (indent + 2) (entryTexts (indent + 2) (entry :: rest))
  | .list (item :: rest) =>
      " " ++ joinLines (indent + 2) (itemTexts (indent + 2) (item :: rest))
  | b => afterKey indent b

def itemTexts (indent : Nat) : List Block → List String
  | [] => []
  | item :: rest => ("-" ++ afterMark indent item) :: itemTexts indent rest

def entryTexts (indent : Nat) : List (String × Block) → List String
  | [] => []
  | (key, value) :: rest =>
      entryText indent key (afterKey indent value) (afterMark indent value) ::
        entryTexts indent rest

end

def write (b : Block) : String :=
  let body := match b with
    | .map (entry :: rest) => joinLines 0 (entryTexts 0 (entry :: rest))
    | .list (item :: rest) => joinLines 0 (itemTexts 0 (item :: rest))
    | b => String.ofList ((afterKey 0 b).toList.drop 1)
  body ++ newLine body 0

end Endpoints.Yaml

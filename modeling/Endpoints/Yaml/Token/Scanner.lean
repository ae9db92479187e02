import Endpoints.Yaml.Token.Properties
import Endpoints.Yaml.Token.Scalars

/-!
# From YAML text to tokens

The scanner walks once through a text. It keeps the columns of the open block collections, and
for each level of flow collections the place where a key may have started: only the colon that
follows tells that there was a key, and then the tokens for it are put in front of what has been
read since.
-/

namespace Endpoints.Yaml

structure KeyStart where
  /-- The number of tokens before the key. -/
  tokenCount : Nat
  index : Nat
  line : Nat
  column : Nat
  /-- Whether nothing but a key may stand there. -/
  required : Bool

structure Scanner where
  cursor : Cursor
  tokens : Array Token := #[]
  /-- The column of the innermost block collection, or `-1`. -/
  indent : Int := -1
  /-- The columns of the collections around it. -/
  indents : List Int := []
  /-- The possible start of a key in the block context and, innermost first, in each of the
  open flow collections. -/
  blockKey : Option KeyStart := none
  flowKeys : List (Option KeyStart) := []
  /-- Whether a key may start here. -/
  keyAllowed : Bool := true

namespace Scanner

def inFlow (s : Scanner) : Bool :=
  !s.flowKeys.isEmpty

def emit (s : Scanner) (t : Token) (c : Cursor) : Scanner :=
  { s with tokens := s.tokens.push t, cursor := c }

def insertAt (s : Scanner) (n : Nat) (t : Token) : Scanner :=
  { s with tokens := s.tokens.insertIdxIfInBounds n t }

def currentKey (s : Scanner) : Option KeyStart :=
  match s.flowKeys with
  | key :: _ => key
  | [] => s.blockKey

def setKey (s : Scanner) (key : Option KeyStart) : Scanner :=
  match s.flowKeys with
  | _ :: outer => { s with flowKeys := key :: outer }
  | [] => { s with blockKey := key }

def dropKey (s : Scanner) : Option Scanner :=
  match s.currentKey with
  | some key => if key.required then none else some (s.setKey none)
  | none => some s

def saveKey (s : Scanner) : Option Scanner :=
  if s.keyAllowed then
    (s.dropKey).map fun s =>
      s.setKey (some
        { tokenCount := s.tokens.size
          index := s.cursor.index
          line := s.cursor.line
          column := s.cursor.column
          required := !s.inFlow && s.indent == (s.cursor.column : Int) })
  else some s

/-- Whether a key that started there can still be one: it fits on a line and into 1024
characters. -/
def isFresh (c : Cursor) (key : KeyStart) : Bool :=
  key.line == c.line && c.index ≤ key.index + 1024

/-- The possible start of a key, if it is fresh; the outer `none` stands for a required key that
is not. -/
def refresh? (c : Cursor) : Option KeyStart → Option (Option KeyStart)
  | none => some none
  | some key =>
      if isFresh c key then some (some key)
      else if key.required then none
      else some none

def dropStaleKeys (s : Scanner) : Option Scanner := do
  let blockKey ← refresh? s.cursor s.blockKey
  let flowKeys ← s.flowKeys.mapM (refresh? s.cursor)
  return { s with blockKey, flowKeys }

def closeBlocksTo (s : Scanner) (column : Int) : List Int → Scanner
  | [] => s
  | outer :: rest =>
      if column < s.indent then
        closeBlocksTo
          { s with tokens := s.tokens.push .blockEnd, indent := outer, indents := rest }
          column rest
      else s

/-- Close the block collections that stand right of a column; inside a flow collection columns
do not matter. -/
def closeBlocks (s : Scanner) (column : Int) : Scanner :=
  if s.inFlow then s else s.closeBlocksTo column s.indents

/-- Open a block collection at a column, behind the first `n` tokens, if the column stands right
of the open ones. -/
def openBlock (s : Scanner) (column n : Nat) (t : Token) : Scanner :=
  if !s.inFlow ∧ s.indent < column then
    { s.insertAt n t with indent := column, indents := s.indent :: s.indents }
  else s

/-- Go on over gaps and comments to the next token. A byte order mark may start a line, of which it
is the first column. A line break in the block context allows a key; a tab counts as a gap only
where no key may start. -/
def skipGaps : Nat → Scanner → Scanner
  | 0, s => s
  | fuel + 1, s =>
      let c := s.cursor
      let c := if c.column = 0 ∧ c.peek? = some '\ufeff' then c.skip 1 else c
      let tabs := s.inFlow || !s.keyAllowed
      let c := c.skipWhile fun x => x == ' ' || (tabs && x == '\t')
      let c := if c.peek? = some '#' then c.skipWhile (fun x => !isBreak x) else c
      if (c.peek?.map isBreak).getD false then
        skipGaps fuel
          { s with cursor := c.skipBreak, keyAllowed := s.keyAllowed || !s.inFlow }
      else { s with cursor := c }

def readMarker (s : Scanner) (t : Token) : Option Scanner :=
  (s.closeBlocks (-1)).dropKey.map fun s =>
    { s with keyAllowed := false }.emit t (s.cursor.skip 3)

def openFlow (s : Scanner) (t : Token) : Option Scanner :=
  s.saveKey.map fun s =>
    { s with flowKeys := none :: s.flowKeys, keyAllowed := true }.emit t (s.cursor.skip 1)

def closeFlow (s : Scanner) (t : Token) : Option Scanner :=
  s.dropKey.map fun s =>
    { s with flowKeys := s.flowKeys.drop 1, keyAllowed := false }.emit t (s.cursor.skip 1)

def readFlowEntry (s : Scanner) : Option Scanner :=
  s.dropKey.map fun s => { s with keyAllowed := true }.emit .flowEntry (s.cursor.skip 1)

def readBlockEntry (s : Scanner) : Option Scanner :=
  if !s.inFlow ∧ !s.keyAllowed then none
  else
    (s.openBlock s.cursor.column s.tokens.size .blockSequenceStart).dropKey.map fun s =>
      { s with keyAllowed := true }.emit .blockEntry (s.cursor.skip 1)

def readKey (s : Scanner) : Option Scanner :=
  if !s.inFlow ∧ !s.keyAllowed then none
  else
    (s.openBlock s.cursor.column s.tokens.size .blockMappingStart).dropKey.map fun s =>
      { s with keyAllowed := !s.inFlow }.emit .key (s.cursor.skip 1)

/-- Read the colon of a value. If a key may have started at the innermost level, it did. -/
def readValue (s : Scanner) : Option Scanner :=
  match s.currentKey with
  | some key =>
      let s := (s.insertAt key.tokenCount .key).openBlock key.column key.tokenCount
        .blockMappingStart
      some ({ s.setKey none with keyAllowed := false }.emit .value (s.cursor.skip 1))
  | none =>
      if !s.inFlow ∧ !s.keyAllowed then none
      else
        let s := s.openBlock s.cursor.column s.tokens.size .blockMappingStart
        some ({ s with keyAllowed := !s.inFlow }.emit .value (s.cursor.skip 1))

def readAnchor (s : Scanner) (token : String → Token) : Option Scanner := do
  let s ← s.saveKey
  let (name, after) ← readAnchorName (s.cursor.skip 1)
  return { s with keyAllowed := false }.emit (token name) after

def readTagToken (s : Scanner) : Option Scanner := do
  let s ← s.saveKey
  let (token, after) ← readTag s.inFlow s.cursor
  return { s with keyAllowed := false }.emit token after

def readBlock (s : Scanner) (style : ScalarStyle) : Option Scanner := do
  let s ← s.dropKey
  let (text, after) ← readBlockScalar (style = .literal) s.indent (s.cursor.skip 1)
  return { s with keyAllowed := true }.emit (.scalar style text) after

def readQuotes (s : Scanner) (style : ScalarStyle) : Option Scanner := do
  let s ← s.saveKey
  let (text, after) ← readQuoted (style = .singleQuoted) (s.cursor.skip 1)
  return { s with keyAllowed := false }.emit (.scalar style text) after

def readPlainScalar (s : Scanner) : Option Scanner := do
  let s ← s.saveKey
  let (text, broken, after) ← readPlain s.inFlow (s.indent + 1) s.cursor
  return { s with keyAllowed := broken }.emit (.scalar .plain text) after

def startsPlain (inFlow : Bool) (x : Char) (rest : List Char) : Bool :=
  if x == '-' then !(rest.head?.map isSpaceOrTab).getD false
  else if x == '?' || x == ':' then !inFlow && !startsGap rest
  else !isGap x && !startIndicators.contains x

def readToken (s : Scanner) (x : Char) (rest : List Char) : Option Scanner :=
  if s.cursor.column = 0 ∧ x = '%' then do
    let s ← (s.closeBlocks (-1)).dropKey
    let (token, after) ← readDirective s.cursor
    return { s with keyAllowed := false }.emit token after
  else if s.cursor.atMarker '-' then s.readMarker .documentStart
  else if s.cursor.atMarker '.' then s.readMarker .documentEnd
  else if x = '[' then s.openFlow .flowSequenceStart
  else if x = '{' then s.openFlow .flowMappingStart
  else if x = ']' then s.closeFlow .flowSequenceEnd
  else if x = '}' then s.closeFlow .flowMappingEnd
  else if x = ',' then s.readFlowEntry
  else if x = '-' ∧ startsGap rest then s.readBlockEntry
  else if x = '?' ∧ (s.inFlow ∨ startsGap rest) then s.readKey
  else if x = ':' ∧ (s.inFlow ∨ startsGap rest) then s.readValue
  else if x = '*' then s.readAnchor .reference
  else if x = '&' then s.readAnchor .anchor
  else if x = '!' then s.readTagToken
  else if x = '|' ∧ !s.inFlow then s.readBlock .literal
  else if x = '>' ∧ !s.inFlow then s.readBlock .folded
  else if x = '\'' then s.readQuotes .singleQuoted
  else if x = '"' then s.readQuotes .doubleQuoted
  else if startsPlain s.inFlow x rest then s.readPlainScalar
  else none

/-- Read the tokens up to the end of the text. Every token takes at least one character. -/
def run : Nat → Scanner → Option (Array Token)
  | 0, _ => none
  | fuel + 1, s =>
      match (skipGaps (s.cursor.limit + 1) s).dropStaleKeys with
      | none => none
      | some s =>
          let s := s.closeBlocks s.cursor.column
          match s.cursor.rest with
          | [] => ((s.closeBlocks (-1)).dropKey).map Scanner.tokens
          | x :: rest =>
              match s.readToken x rest with
              | none => none
              | some s => run fuel s

end Scanner

def Token.ofText? (text : String) : Option (List Token) :=
  let cs := text.toList
  if cs.all isReadable then
    (Scanner.run (cs.length + 1) { cursor := { rest := cs } }).map Array.toList
  else none

end Endpoints.Yaml

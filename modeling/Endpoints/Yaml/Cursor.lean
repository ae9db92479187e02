import Endpoints.Text.Digit

/-!
# Characters and positions in YAML text

The character classes of the language, and a cursor that walks through a text. A cursor knows
what is left of the text, how far it has come, and its line and column; indentation is a matter
of columns.
-/

namespace Endpoints.Yaml

def isReadable (c : Char) : Bool :=
  let n := c.toNat
  n == 0x9 || n == 0xA || n == 0xD || (0x20 ≤ n && n ≤ 0x7E) || n == 0x85 ||
    (0xA0 ≤ n && n ≤ 0xFFFD) || 0x10000 ≤ n

def isBreak (c : Char) : Bool :=
  c == '\n' || c == '\r' || c == '\u0085' || c == '\u2028' || c == '\u2029'

def isSpaceOrTab (c : Char) : Bool :=
  c == ' ' || c == '\t'

def isGap (c : Char) : Bool :=
  isSpaceOrTab c || isBreak c

def isWordChar (c : Char) : Bool :=
  ('a' ≤ c && c ≤ 'z') || ('A' ≤ c && c ≤ 'Z') || ('0' ≤ c && c ≤ '9') || c == '_' || c == '-'

/-- The indicators that mean something at the start of a plain text, whatever follows them. -/
def startIndicators : List Char :=
  ['#', ',', '[', ']', '{', '}', '&', '*', '!', '|', '>', '\'', '"', '%', '@', '\x60']

/-- Whether a list of characters is empty or starts with a gap. -/
def startsGap : List Char → Bool
  | [] => true
  | c :: _ => isGap c

def startsBreak : List Char → Bool
  | [] => true
  | c :: _ => isBreak c

def charOfNat? (n : Nat) : Option Char :=
  if n < 0xD800 ∨ (0xDFFF < n ∧ n < 0x110000) then some (Char.ofNat n) else none

structure Cursor where
  /-- What is left of the text. -/
  rest : List Char
  /-- A bound on the length of what is left, which readers take as a bound on their steps. -/
  limit : Nat := rest.length
  index : Nat := 0
  line : Nat := 0
  column : Nat := 0

namespace Cursor

def peek? (c : Cursor) : Option Char :=
  c.rest.head?

def skip (c : Cursor) (n : Nat) : Cursor :=
  { c with rest := c.rest.drop n, index := c.index + n, column := c.column + n }

/-- The longest run of characters of a class, and the position after it. The class must not
hold line breaks. -/
def span (c : Cursor) (p : Char → Bool) : List Char × Cursor :=
  let run := c.rest.takeWhile p
  (run, c.skip run.length)

def skipWhile (c : Cursor) (p : Char → Bool) : Cursor :=
  (c.span p).2

def nextLine (c : Cursor) (n : Nat) (rest : List Char) : Cursor :=
  { c with rest, index := c.index + n, line := c.line + 1, column := 0 }

/-- Read a line break, if there is one. Most breaks count as a line feed; the two separators
of Unicode stay what they are. -/
def readBreak (c : Cursor) : List Char × Cursor :=
  match c.rest with
  | '\r' :: '\n' :: rest => (['\n'], c.nextLine 2 rest)
  | x :: rest =>
      if x == '\u2028' || x == '\u2029' then ([x], c.nextLine 1 rest)
      else if isBreak x then (['\n'], c.nextLine 1 rest)
      else ([], c)
  | [] => ([], c)

def skipBreak (c : Cursor) : Cursor :=
  c.readBreak.2

/-- The position after spaces, tabs and a comment, at the end of the line; `none` if there is
anything else on the line. -/
def endLine? (c : Cursor) : Option Cursor :=
  let c := c.skipWhile isSpaceOrTab
  let c := if c.peek? = some '#' then c.skipWhile (fun x => !isBreak x) else c
  if startsBreak c.rest then some c.skipBreak else none

def atMarker (c : Cursor) (mark : Char) : Bool :=
  c.column == 0 &&
    match c.rest with
    | x :: y :: z :: rest => x == mark && y == mark && z == mark && startsGap rest
    | _ => false

def atDocumentMarker (c : Cursor) : Bool :=
  c.atMarker '-' || c.atMarker '.'

end Cursor

end Endpoints.Yaml

import Endpoints.Yaml.Cursor

/-!
# Scalars in YAML text

How the four written forms of a scalar are read: block scalars with their indentation and their
final line breaks, quoted scalars with their escapes, and plain scalars, which end where an
indicator could begin. Lines are folded in the same way in the last three: a single break
becomes a space, and further breaks are kept.

Every reader takes a bound on its steps, which the callers take from the length of the text.
-/

namespace Endpoints.Yaml

/-- The line breaks that a fold leaves: a space for a single line feed, the further breaks
otherwise. A separator of Unicode is never turned into a space. -/
def foldBreaks (first further : List Char) : List Char :=
  if first.head? = some '\n' then (if further.isEmpty then [' '] else further)
  else first ++ further

structure Gaps where
  /-- Whether a line has ended. -/
  broken : Bool := false
  spaces : List Char := []
  first : List Char := []
  further : List Char := []

namespace Gaps

def text (g : Gaps) : List Char :=
  if g.broken then foldBreaks g.first g.further else g.spaces

def addBreak (g : Gaps) (br : List Char) : Gaps :=
  if g.broken then { g with further := g.further ++ br }
  else { g with broken := true, spaces := [], first := br }

end Gaps

/-- Read the spaces, tabs and line breaks that follow. `indent` is the column before which a
tab may not stand at the start of a line. -/
def readGaps (indent : Int) : Nat → Gaps → Cursor → Option (Gaps × Cursor)
  | 0, g, c => some (g, c)
  | fuel + 1, g, c =>
      match c.peek? with
      | none => some (g, c)
      | some x =>
          if isSpaceOrTab x then
            if g.broken ∧ (c.column : Int) < indent ∧ x = '\t' then none
            else if g.broken then readGaps indent fuel g (c.skip 1)
            else readGaps indent fuel { g with spaces := g.spaces ++ [x] } (c.skip 1)
          else if isBreak x then
            let (br, after) := c.readBreak
            readGaps indent fuel (g.addBreak br) after
          else some (g, c)

/-! ## Block scalars -/

inductive Chomping where
  | strip
  | clip
  | keep
  deriving DecidableEq, Repr

/-- Read the empty lines before a line of a block scalar, and its indentation: `none` for an
indentation that is still to be found. Returns the line breaks, the deepest column seen, and the
position. -/
def readIndentation (indent : Option Nat) : Nat → Nat → List Char → Cursor →
    Option (List Char × Nat × Cursor)
  | 0, deepest, breaks, c => some (breaks, deepest, c)
  | fuel + 1, deepest, breaks, c =>
      let spaces := c.rest.takeWhile (· == ' ')
      let count := match indent with
        | none => spaces.length
        | some n => min spaces.length (n - c.column)
      let c := c.skip count
      let deepest := max deepest c.column
      let isOpen : Bool := match indent with
        | none => true
        | some n => decide (c.column < n)
      match c.peek? with
      | none => some (breaks, deepest, c)
      | some x =>
          if isOpen ∧ x = '\t' then none
          else if isBreak x then
            let (br, after) := c.readBreak
            readIndentation indent fuel deepest (breaks ++ br) after
          else some (breaks, deepest, c)

structure BlockLines where
  text : List Char := []
  last : List Char := []
  empty : List Char := []
  /-- Whether the last line starts with a gap. -/
  leadingGap : Bool := false

def readBlockLines (isLiteral : Bool) (indent : Nat) : Nat → BlockLines → Cursor →
    Option (BlockLines × Cursor)
  | 0, b, c => some (b, c)
  | fuel + 1, b, c =>
      match c.peek? with
      | none => some (b, c)
      | some x =>
          if c.column ≠ indent then some (b, c)
          else
            let gap := isSpaceOrTab x
            let joint :=
              if !isLiteral ∧ b.last.head? = some '\n' ∧ !b.leadingGap ∧ !gap then
                if b.empty.isEmpty then [' '] else []
              else b.last
            let (line, atBreak) := c.span fun y => !isBreak y
            let (br, after) := atBreak.readBreak
            match readIndentation (some indent) fuel 0 [] after with
            | none => none
            | some (breaks, _, c) =>
                readBlockLines isLiteral indent fuel
                  { text := line.reverse ++ (b.empty.reverse ++ (joint.reverse ++ b.text))
                    last := br
                    empty := breaks
                    leadingGap := gap } c

def readBlockHeader (c : Cursor) : Option (Chomping × Option Nat × Cursor) :=
  let sign? : Option Char → Option Chomping
    | some '+' => some .keep
    | some '-' => some .strip
    | _ => none
  let digit? : Option Char → Option Nat
    | some x => if '0' ≤ x ∧ x ≤ '9' then some (x.toNat - '0'.toNat) else none
    | none => none
  match sign? c.peek?, digit? c.peek? with
  | some chomping, _ =>
      match digit? (c.skip 1).peek? with
      | some 0 => none
      | some n => some (chomping, some n, c.skip 2)
      | none => some (chomping, none, c.skip 1)
  | none, some 0 => none
  | none, some n =>
      match sign? (c.skip 1).peek? with
      | some chomping => some (chomping, some n, c.skip 2)
      | none => some (.clip, some n, c.skip 1)
  | none, none => some (.clip, none, c)

/-- Read a block scalar behind its indicator. `parent` is the indentation of the collection
around it. -/
def readBlockScalar (isLiteral : Bool) (parent : Int) (c : Cursor) :
    Option (String × Cursor) := do
  let (chomping, increment, c) ← readBlockHeader c
  let c ← c.endLine?
  let fuel := c.limit + 1
  let given := increment.map fun n => (max parent 0).toNat + n
  let (breaks, deepest, c) ← readIndentation given fuel 0 [] c
  let indent := given.getD (max (max deepest (parent + 1).toNat) 1)
  let (b, c) ← readBlockLines isLiteral indent fuel { empty := breaks } c
  let tail := match chomping with
    | .strip => []
    | .clip => b.last
    | .keep => b.last ++ b.empty
  return (String.ofList (b.text.reverse ++ tail), c)

/-! ## Quoted scalars -/

def escaped? : Char → Option Char
  | '0' => some '\x00'
  | 'a' => some '\x07'
  | 'b' => some '\x08'
  | 't' | '\t' => some '\t'
  | 'n' => some '\n'
  | 'v' => some '\x0b'
  | 'f' => some '\x0c'
  | 'r' => some '\r'
  | 'e' => some '\x1b'
  | ' ' => some ' '
  | '"' => some '"'
  | '/' => some '/'
  | '\\' => some '\\'
  | 'N' => some '\u0085'
  | '_' => some '\u00a0'
  | 'L' => some '\u2028'
  | 'P' => some '\u2029'
  | _ => none

def escapeLength? : Char → Option Nat
  | 'x' => some 2
  | 'u' => some 4
  | 'U' => some 8
  | _ => none

def readEscape (c : Cursor) : Option (Char × Cursor) :=
  match c.peek? with
  | none => none
  | some x =>
      match escaped? x, escapeLength? x with
      | some y, _ => some (y, c.skip 1)
      | none, some n =>
          let digits := (c.rest.drop 1).take n
          if digits.length = n then
            ((Text.valueIn? 16 0 digits).bind charOfNat?).map fun y => (y, c.skip (n + 1))
          else none
      | none, none => none

inductive RunEnd where
  /-- At a gap, at the end quote, or at the end of the text. -/
  | stop
  | cancelledBreak

/-- Read the characters of a quoted scalar up to a gap or the end quote. The characters are
collected in reverse. -/
def readQuotedRun (single : Bool) : Nat → List Char → Cursor →
    Option (List Char × RunEnd × Cursor)
  | 0, run, c => some (run, .stop, c)
  | fuel + 1, run, c =>
      match c.rest with
      | [] => some (run, .stop, c)
      | x :: rest =>
          if isGap x then some (run, .stop, c)
          else if single then
            if x = '\'' then
              if rest.head? = some '\'' then
                readQuotedRun single fuel ('\'' :: run) (c.skip 2)
              else some (run, .stop, c)
            else readQuotedRun single fuel (x :: run) (c.skip 1)
          else if x = '"' then some (run, .stop, c)
          else if x = '\\' then
            if (rest.head?.map isBreak).getD false then
              some (run, .cancelledBreak, (c.skip 1).skipBreak)
            else
              match readEscape (c.skip 1) with
              | none => none
              | some (y, after) => readQuotedRun single fuel (y :: run) after
          else readQuotedRun single fuel (x :: run) (c.skip 1)

def readQuotedFrom (single : Bool) : Nat → List Char → Cursor → Option (List Char × Cursor)
  | 0, _, _ => none
  | fuel + 1, text, c =>
      if c.atDocumentMarker ∨ c.rest.isEmpty then none
      else
        match readQuotedRun single fuel text c with
        | none => none
        | some (text, ending, c) =>
            if c.peek? = some (if single then '\'' else '"') then some (text, c.skip 1)
            else
              let start : Gaps := match ending with
                | .stop => {}
                | .cancelledBreak => { broken := true }
              match readGaps 0 fuel start c with
              | none => none
              | some (gaps, c) => readQuotedFrom single fuel (gaps.text.reverse ++ text) c

def readQuoted (single : Bool) (c : Cursor) : Option (String × Cursor) :=
  (readQuotedFrom single (c.limit + 2) [] c).map fun (text, c) =>
    (String.ofList text.reverse, c)

/-! ## Plain scalars -/

def isFlowIndicator (c : Char) : Bool :=
  c == ',' || c == '[' || c == ']' || c == '{' || c == '}'

def readPlainRun (inFlow : Bool) : List Char → List Char → Option (List Char)
  | run, [] => some run
  | run, x :: rest =>
      if isGap x then some run
      else if inFlow ∧ x = ':' ∧
          (rest.head?.map fun y => isFlowIndicator y || y == '?').getD false then none
      else if x = ':' ∧ startsGap rest then some run
      else if inFlow ∧ isFlowIndicator x then some run
      else readPlainRun inFlow (x :: run) rest

/-- Read a plain scalar; the text is collected in reverse. `indent` is the least column at which
a further line may start. Returns also whether a line has ended after the last character. -/
def readPlainFrom (inFlow : Bool) (indent : Int) : Nat → List Char → Gaps → Cursor →
    Option (List Char × Bool × Cursor)
  | 0, text, gaps, c => some (text, gaps.broken, c)
  | fuel + 1, text, gaps, c =>
      if c.atDocumentMarker ∨ c.peek? = some '#' then some (text, gaps.broken, c)
      else
        match readPlainRun inFlow [] c.rest with
        | none => none
        | some run =>
            let next := c.skip run.length
            let text' := if run.isEmpty then text else run ++ (gaps.text.reverse ++ text)
            let gaps' : Gaps := if run.isEmpty then gaps else {}
            if (next.peek?.map isGap).getD false then
              match readGaps indent fuel gaps' next with
              | none => none
              | some (gaps, c) =>
                  if !inFlow ∧ (c.column : Int) < indent then some (text', gaps.broken, c)
                  else readPlainFrom inFlow indent fuel text' gaps c
            else some (text', gaps'.broken, next)

def readPlain (inFlow : Bool) (indent : Int) (c : Cursor) : Option (String × Bool × Cursor) :=
  (readPlainFrom inFlow indent (c.limit + 2) [] {} c).map fun (text, broken, c) =>
    (String.ofList text.reverse, broken, c)

end Endpoints.Yaml

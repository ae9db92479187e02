import Endpoints.Log

/-!
# Arguments of the command line

A command line names one route table and sets options. A value of an option follows it in the
same word or in the next one, and is looked at only when the next option or text is met; so an
unknown word is reported before a value that is still open. A lone `--` ends the options.
-/

namespace Endpoints

inductive OutputFormat where
  | yaml
  | json
  deriving DecidableEq, Repr

namespace OutputFormat

def name : OutputFormat → String
  | .yaml => "yaml"
  | .json => "json"

def title : OutputFormat → String
  | .yaml => "Yaml"
  | .json => "Json"

def ofName? (s : String) : Option OutputFormat :=
  [yaml, json].find? fun f => f.name = s

end OutputFormat

structure Arguments where
  routes : String
  schemaDirectory : String := "schemas"
  includesDirectory : String := "includes"
  format : OutputFormat := .yaml
  output : Option String := none
  verbose : Bool := false
  deriving DecidableEq, Repr

inductive Rejection where
  | unknownArgument
  /-- A value is missing, empty, or none of the declared ones. -/
  | invalidValue
  /-- Something is given twice. -/
  | conflict
  /-- A switch is given a value. -/
  | tooManyValues
  /-- There is no route table. -/
  | missingArgument
  | help
  | version
  deriving DecidableEq, Repr

namespace Rejection

/-- The status with which a program ends: only showing the help or the version is no failure. -/
def exitCode : Rejection → Nat
  | .help | .version => 0
  | _ => 2

def versionLine : String := "openapi-from-routes 0.1.0\n"

end Rejection

namespace Arguments

inductive Slot where
  | routes
  | schemas
  | includes
  | format
  | output
  deriving DecidableEq, Repr

inductive Switch where
  | verbose
  | help
  | version
  deriving DecidableEq, Repr

inductive Flag where
  | slot (s : Slot)
  | switch (s : Switch)
  deriving DecidableEq, Repr

namespace Flag

def ofLong? : String → Option Flag
  | "schemas" => some (.slot .schemas)
  | "includes" => some (.slot .includes)
  | "format" => some (.slot .format)
  | "output" => some (.slot .output)
  | "verbose" => some (.switch .verbose)
  | "help" => some (.switch .help)
  | "version" => some (.switch .version)
  | _ => none

def ofShort? : Char → Option Flag
  | 's' => some (.slot .schemas)
  | 'i' => some (.slot .includes)
  | 'f' => some (.slot .format)
  | 'o' => some (.slot .output)
  | 'v' => some (.switch .verbose)
  | 'h' => some (.switch .help)
  | 'V' => some (.switch .version)
  | _ => none

end Flag

structure Given where
  routes : Option String := none
  schemas : Option String := none
  includes : Option String := none
  format : Option OutputFormat := none
  output : Option String := none
  verbose : Bool := false
  deriving DecidableEq, Repr

namespace Given

def has (g : Given) : Slot → Bool
  | .routes => g.routes.isSome
  | .schemas => g.schemas.isSome
  | .includes => g.includes.isSome
  | .format => g.format.isSome
  | .output => g.output.isSome

def assign (g : Given) (slot : Slot) (text : String) : Except Rejection Given :=
  match slot with
  | .routes => .ok { g with routes := some text }
  | .schemas => .ok { g with schemas := some text }
  | .includes => .ok { g with includes := some text }
  | .output => .ok { g with output := some text }
  | .format =>
      match OutputFormat.ofName? text with
      | some f => .ok { g with format := some f }
      | none => .error .invalidValue

/-- Set a value from what was given for it. A missing value is reported first, then a
repetition, and then a value that is empty or not a declared one. -/
def set (g : Given) (slot : Slot) : Option String → Except Rejection Given
  | none => .error .invalidValue
  | some text =>
      if g.has slot then .error .conflict
      else if text = "" then .error .invalidValue
      else g.assign slot text

def turnOn (g : Given) : Switch → Except Rejection Given
  | .verbose => if g.verbose then .error .conflict else .ok { g with verbose := true }
  | .help => .error .help
  | .version => .error .version

end Given

/-- A value that has been given, or is expected, but not yet looked at. -/
structure Pending where
  slot : Slot
  value : Option String := none
  deriving DecidableEq, Repr

structure Progress where
  given : Given := {}
  pending : Option Pending := none
  /-- Whether the text that names the route table has been met. -/
  hasRoutes : Bool := false
  ended : Bool := false
  deriving DecidableEq, Repr

namespace Progress

def settle (p : Progress) : Except Rejection Progress :=
  match p.pending with
  | none => .ok p
  | some pending => do
      let given ← p.given.set pending.slot pending.value
      return { p with given, pending := none }

/-- Read an option that takes a value, with the value if it stands in the same word. Only a
value in the same word is looked at at once. -/
def readSlot (p : Progress) (slot : Slot) (value : Option String) : Except Rejection Progress := do
  let p ← p.settle
  match value with
  | none => return { p with pending := some { slot } }
  | some text =>
      let given ← p.given.set slot (some text)
      return { p with given }

def readSwitch (p : Progress) (switch : Switch) : Except Rejection Progress := do
  let p ← p.settle
  let given ← p.given.turnOn switch
  return { p with given }

def readLong (p : Progress) (cs : List Char) : Except Rejection Progress :=
  let name := String.ofList (cs.takeWhile (· ≠ '='))
  let value := match cs.dropWhile (· ≠ '=') with
    | _ :: value => some (String.ofList value)
    | [] => none
  match Flag.ofLong? name, value with
  | none, _ => .error .unknownArgument
  | some (.slot slot), _ => p.readSlot slot value
  | some (.switch switch), none => p.readSwitch switch
  | some (.switch _), some _ => .error .tooManyValues

/-- Read the letters behind a single dash. A letter that takes a value takes the rest of the
word, without an equals sign in front. -/
def readShort (p : Progress) : List Char → Except Rejection Progress
  | [] => .ok p
  | c :: rest =>
      match Flag.ofShort? c with
      | none => .error .unknownArgument
      | some (.switch switch) => do
          let next ← p.readSwitch switch
          readShort next rest
      | some (.slot slot) =>
          match rest with
          | [] => p.readSlot slot none
          | '=' :: value => p.readSlot slot (some (String.ofList value))
          | value => p.readSlot slot (some (String.ofList value))

def readText (p : Progress) (text : String) : Except Rejection Progress :=
  if p.hasRoutes then .error .unknownArgument
  else do
    let p ← p.settle
    return { p with pending := some { slot := .routes, value := some text }, hasRoutes := true }

/-- Read a word that is not an option: the value of the option before it, or a text. -/
def readValue (p : Progress) (text : String) : Except Rejection Progress :=
  match p.pending with
  | some { slot, value := none } => .ok { p with pending := some { slot, value := some text } }
  | _ => p.readText text

def readWord (p : Progress) (word : String) : Except Rejection Progress :=
  if p.ended then p.readText word
  else
    match word.toList with
    | ['-', '-'] => .ok { p with ended := true }
    | '-' :: '-' :: cs => p.readLong cs
    | ['-'] => p.readValue word
    | '-' :: cs => p.readShort cs
    | _ => p.readValue word

end Progress

def ofWords (ws : List String) : Except Rejection Arguments := do
  let read ← ws.foldlM Progress.readWord {}
  let last ← read.settle
  let given := last.given
  match given.routes with
  | none => throw .missingArgument
  | some routes =>
      return { routes
               schemaDirectory := given.schemas.getD "schemas"
               includesDirectory := given.includes.getD "includes"
               format := given.format.getD .yaml
               output := given.output
               verbose := given.verbose }

end Arguments

end Endpoints

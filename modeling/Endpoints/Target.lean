import Endpoints.Error
import Endpoints.Text.AsciiCase
import Endpoints.Text.Cut

/-!
# Targets

A target names the function that serves a route, written `Class.function`. The class is shown
without the namespace `Controllers` in front and without the ending `Controller`.
-/

namespace Endpoints

structure Target where
  className : String
  function : String
  deriving DecidableEq, Repr

namespace Target

/-- Read a target: the class and the function are the first two pieces between dots, and what
follows them is dropped. -/
def ofText? (text : String) : Option Target :=
  match Text.split '.' text with
  | className :: function :: _ => some { className, function }
  | _ => none

def parse (text : String) : Except Error Target :=
  match ofText? text with
  | some t => .ok t
  | none => .error (.invalidAction text)

def text (t : Target) : String :=
  t.className ++ "." ++ t.function

def dropBackslash (s : String) : String :=
  match s.toList with
  | '\\' :: rest => String.ofList rest
  | _ => s

/-- Drop a namespace `Controllers`, in any letter case, with at most one backslash after it. What
follows the namespace has to start at the edge of a character. -/
def dropNamespace? (c : String) : Option String :=
  match Text.before? c 11 with
  | some head =>
      if Text.sameLetters head.toList "Controllers".toList then
        (Text.after? c 11).map dropBackslash
      else some c
  | none => some c

/-- Drop an ending `Controller`, in any letter case. What stands before the ending has to end at the
edge of a character. -/
def dropEnding? (c : String) : Option String :=
  if 10 ≤ c.utf8ByteSize then
    match Text.after? c (c.utf8ByteSize - 10) with
    | some tail =>
        if Text.sameLetters tail.toList "Controller".toList then
          Text.before? c (c.utf8ByteSize - 10)
        else some c
    | none => some c
  else some c

/-- The class without its namespace and its ending, which are found by their sizes in bytes. -/
def shortClass? (t : Target) : Option String :=
  (dropNamespace? t.className).bind dropEnding?

theorem isSome_dropNamespace? (c : String) : (dropNamespace? c).isSome := by
  unfold dropNamespace?
  split
  · rename_i head hhead
    have hafter : (Text.after? c 11).isSome := by rw [Text.isSome_after?, hhead, Option.isSome_some]
    split
    · rwa [Option.isSome_map]
    · rfl
  · rfl

theorem isSome_dropEnding? (c : String) : (dropEnding? c).isSome := by
  unfold dropEnding?
  split
  · split
    · rename_i tail htail
      split
      · rw [← Text.isSome_after?, htail, Option.isSome_some]
      · rfl
    · rfl
  · rfl

theorem isSome_shortClass? (t : Target) : t.shortClass?.isSome := by
  obtain ⟨c, hc⟩ := Option.isSome_iff_exists.1 (isSome_dropNamespace? t.className)
  rw [shortClass?, hc, Option.bind_some]
  exact isSome_dropEnding? c

def shortClass (t : Target) : String :=
  t.shortClass?.get t.isSome_shortClass?

end Target

end Endpoints

import Endpoints.Text.Blank

/-!
# Paths in writing

A path is a text whose parts are kept apart by slashes. Joining keeps both texts as they are;
the parent of a path is found by its parts, so repeated slashes and parts `.` do not count.
-/

namespace Endpoints.Path

/-- A name below a directory. A name that starts with a slash stands for itself. -/
def join (directory name : String) : String :=
  match name.toList, directory.toList.getLast? with
  | '/' :: _, _ => name
  | _, none => name
  | _, some '/' => directory ++ name
  | _, some _ => directory ++ "/" ++ name

def isAbsolute (path : String) : Bool :=
  path.toList.head? = some '/'

def parts (path : String) : List String :=
  Text.split '/' path

def counts (part : String) : Bool :=
  part ≠ "" ∧ part ≠ "."

def trimEnd (ps : List String) : List String :=
  (ps.reverse.dropWhile fun part => !counts part).reverse

/-- The parent of a path, or `none` for the root and for the empty path. A part `.` at the
very start is a part of its own. -/
def parent? (path : String) : Option String :=
  if isAbsolute path then
    match trimEnd (parts path) with
    | [] => none
    | ps =>
        match trimEnd ps.dropLast with
        | [] => some "/"
        | above => some (String.intercalate "/" above)
  else
    match trimEnd (parts path) with
    | [] => if (parts path).head? = some "." then some "" else none
    | ps =>
        match trimEnd ps.dropLast with
        | [] => if ps.length ≠ 1 ∧ ps.head? = some "." then some "." else some ""
        | above => some (String.intercalate "/" above)

end Endpoints.Path

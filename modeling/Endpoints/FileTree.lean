import Endpoints.FileTree.Path
import Endpoints.Overlay

/-!
# File trees

The files and directories that a run can see, as a value. A path is followed part by part from
the working directory or from the root; every part but the last must lead to a directory. What
lies outside the working directory is unknown: the directories above it exist, and nothing else
is in them unless the tree says so.
-/

namespace Endpoints

inductive FileError where
  | notFound
  | alreadyExists
  | notADirectory
  | isADirectory
  | nameTooLong
  /-- A path holds a character that no name may hold. -/
  | nulInPath
  /-- The bytes of a file are no text. -/
  | notText
  deriving DecidableEq, Repr

def FileError.message : FileError → String
  | .notFound => "No such file or directory (os error 2)"
  | .alreadyExists => "File exists (os error 17)"
  | .notADirectory => "Not a directory (os error 20)"
  | .isADirectory => "Is a directory (os error 21)"
  | .nameTooLong => "File name too long (os error 36)"
  | .nulInPath => "file name contained an unexpected NUL byte"
  | .notText => "stream did not contain valid UTF-8"

inductive FileEntry where
  | file (bytes : ByteArray)
  | directory

instance : DecidableEq FileEntry
  | .file a, .file b =>
      match ByteArray.decEq a b with
      | isTrue h => isTrue (congrArg FileEntry.file h)
      | isFalse h => isFalse fun e => h (FileEntry.file.inj e)
  | .directory, .directory => isTrue rfl
  | .file _, .directory => isFalse fun e => nomatch e
  | .directory, .file _ => isFalse fun e => nomatch e

/-- A place: the names on the way from the working directory, or `/` and the names on the way
from the root. Names `..` stand only at the start and lead out of the working directory. -/
abbrev Place := List String

namespace Place

def above (p : Place) : Place :=
  if p = ["/"] then p
  else if p.all (· = "..") then ".." :: p
  else p.dropLast

/-- Whether a place is a directory in every tree: the working directory, those above it, and
the root. -/
def isFixed (p : Place) : Bool :=
  p = ["/"] ∨ p.all (· = "..")

end Place

structure FileTree where
  entries : Table Place FileEntry := Overlay.empty
  deriving DecidableEq

namespace FileTree

def empty : FileTree := {}

/-- The longest name of an entry, and the longest path, in bytes. -/
def nameLimit : Nat := 255

@[inherit_doc nameLimit]
def pathLimit : Nat := 4095

def entryAt? (t : FileTree) (p : Place) : Option FileEntry :=
  if p.isFixed then some .directory else t.entries.get? p

/-- Where one part of a path leads from a place, whether or not there is anything. The place
must be a directory. -/
def step (t : FileTree) (p : Place) (part : String) : Except FileError Place :=
  match t.entryAt? p with
  | none => .error .notFound
  | some (.file _) => .error .notADirectory
  | some .directory =>
      if nameLimit < part.utf8ByteSize then .error .nameTooLong
      else if part = "" ∨ part = "." then .ok p
      else if part = ".." then .ok p.above
      else .ok (p ++ [part])

def follow (t : FileTree) : Place → List String → Except FileError Place
  | p, [] => .ok p
  | p, part :: rest =>
      match t.step p part with
      | .error e => .error e
      | .ok next => follow t next rest

def locateParts (t : FileTree) (path : String) (parts : List String) : Except FileError Place :=
  if path.toList.contains '\x00' then .error .nulInPath
  else if path = "" then .error .notFound
  else if pathLimit < path.utf8ByteSize then .error .nameTooLong
  else if Path.isAbsolute path then t.follow ["/"] parts
  else t.follow [] parts

/-- The place to which a path leads. There may be nothing at it, but there is a directory above
it. -/
def locate (t : FileTree) (path : String) : Except FileError Place :=
  t.locateParts path (Path.parts path)

def lookup (t : FileTree) (path : String) : Except FileError FileEntry :=
  match t.locate path with
  | .error e => .error e
  | .ok p =>
      match t.entryAt? p with
      | none => .error .notFound
      | some entry => .ok entry

def isPresent (t : FileTree) (path : String) : Bool :=
  match t.lookup path with
  | .ok _ => true
  | .error _ => false

def isFile (t : FileTree) (path : String) : Bool :=
  match t.lookup path with
  | .ok (.file _) => true
  | _ => false

def isDirectory (t : FileTree) (path : String) : Bool :=
  match t.lookup path with
  | .ok .directory => true
  | _ => false

def readText (t : FileTree) (path : String) : Except FileError String :=
  match t.lookup path with
  | .error e => .error e
  | .ok .directory => .error .isADirectory
  | .ok (.file bytes) =>
      match String.fromUTF8? bytes with
      | none => .error .notText
      | some text => .ok text

def setAt (t : FileTree) (p : Place) (entry : FileEntry) : FileTree :=
  { t with entries := t.entries.set p entry }

def makeDirectory (t : FileTree) (path : String) : Except FileError FileTree :=
  match t.locate path with
  | .error e => .error e
  | .ok p =>
      match t.entryAt? p with
      | some _ => .error .alreadyExists
      | none => .ok (t.setAt p .directory)

/-- Write a file at a path; the directory above it must be there. A path that ends in a slash
names no file, so its last name does not matter. -/
def writeFile (t : FileTree) (path : String) (bytes : ByteArray) : Except FileError FileTree :=
  let named := ((Path.parts path).reverse.dropWhile (· = "")).reverse
  if path ≠ "" ∧ (Path.parts path).length ≠ named.length then
    match t.locateParts path (named.dropLast ++ ["."]) with
    | .error e => .error e
    | .ok _ => .error .isADirectory
  else
    match t.locate path with
    | .error e => .error e
    | .ok p =>
        match t.entryAt? p with
        | some .directory => .error .isADirectory
        | _ => .ok (t.setAt p (.file bytes))

/-- Make a directory and those above it that are missing, for at most `fuel` of them. The tree
that is returned holds the directories made, also after a failure. -/
def makeDirectoriesFuel : Nat → FileTree → String → FileTree × Except FileError Unit
  | 0, t, _ => (t, .error .notFound)
  | fuel + 1, t, path =>
      if path = "" then (t, .ok ())
      else
        match t.makeDirectory path with
        | .ok made => (made, .ok ())
        | .error .notFound =>
            match Path.parent? path with
            | none => (t, .error .notFound)
            | some parent =>
                match makeDirectoriesFuel fuel t parent with
                | (made, .error e) => (made, .error e)
                | (made, .ok ()) =>
                    match made.makeDirectory path with
                    | .ok both => (both, .ok ())
                    | .error e =>
                        if made.isDirectory path then (made, .ok ()) else (made, .error e)
        | .error e => if t.isDirectory path then (t, .ok ()) else (t, .error e)

/-- Make a directory and those above it that are missing. A parent is shorter than its path, so
the length of the path bounds their number. -/
def makeDirectories (t : FileTree) (path : String) : FileTree × Except FileError Unit :=
  makeDirectoriesFuel (path.length + 1) t path

def plant (t : FileTree) (path : String) (bytes : ByteArray) : FileTree :=
  let ready := match Path.parent? path with
    | none => t
    | some parent => (t.makeDirectories parent).1
  match ready.writeFile path bytes with
  | .ok written => written
  | .error _ => ready

def removeFile (t : FileTree) (path : String) : FileTree :=
  match t.locate path with
  | .error _ => t
  | .ok p =>
      match t.entryAt? p with
      | some (.file _) => { t with entries := t.entries.remove p }
      | _ => t

end FileTree

end Endpoints

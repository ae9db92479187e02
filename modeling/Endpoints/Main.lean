import Endpoints.CommandLine.Sources

/-!
# The program

The outer layer: it reads the files that a run may need, runs, prints, and writes the output.
-/

namespace Endpoints.Main

/-- The number under which the system reports that a file is a directory. -/
def directoryCode : UInt32 := 21

def observe (files : FileTree) (path : String) : IO FileTree := do
  match ← (IO.FS.readBinFile path).toBaseIO with
  | .ok bytes => return files.plant path bytes
  | .error (.inappropriateType _ code _) =>
      return if code = directoryCode then (files.makeDirectories path).1 else files
  | .error _ => return files

def observeAll (a : Arguments) : IO FileTree := do
  let mut files := FileTree.empty
  for _ in [0:Arguments.rounds] do
    files ← (a.paths files).foldlM observe FileTree.empty
  return files

/-- The text that is shown for a command line that asks for no run. -/
def rejectionText : Rejection → String
  | .version => Rejection.versionLine
  | .help =>
      "Resolve an annotated route table into a normalized API operation model\n\n" ++
      "Usage: openapi-from-routes [OPTIONS] <ROUTES>\n\n" ++
      "  -s, --schemas <DIR>    [default: schemas]\n" ++
      "  -i, --includes <DIR>   [default: includes]\n" ++
      "  -f, --format <FORMAT>  [default: yaml] [possible values: yaml, json]\n" ++
      "  -o, --output <FILE>\n" ++
      "  -v, --verbose\n" ++
      "  -h, --help\n" ++
      "  -V, --version\n"
  | .unknownArgument => "error: unexpected argument\n"
  | .invalidValue => "error: invalid or missing value\n"
  | .conflict => "error: an argument is given twice\n"
  | .tooManyValues => "error: an argument takes no value\n"
  | .missingArgument => "error: the route table is missing\n"

def writeOutput (a : Arguments) (files : FileTree) : IO Unit := do
  match a.output with
  | none => return
  | some path =>
      match files.readText path with
      | .error _ => return
      | .ok text =>
          match Path.parent? path with
          | none | some "" => pure ()
          | some parent => IO.FS.createDirAll parent
          IO.FS.writeFile path text

def runWith (a : Arguments) : IO UInt32 := do
  let report := a.run (← observeAll a)
  for line in report.log do
    IO.eprintln (line.level.name ++ " " ++ line.text)
  IO.print report.printed
  match report.result with
  | .ok () =>
      writeOutput a report.files
      return 0
  | .error failure =>
      for text in failure.chain do
        IO.eprintln text
      return 1

end Endpoints.Main

def main (ws : List String) : IO UInt32 := do
  match Endpoints.Arguments.ofWords ws with
  | .ok a => Endpoints.Main.runWith a
  | .error rejection =>
      if rejection.exitCode = 0 then IO.print (Endpoints.Main.rejectionText rejection)
      else IO.eprint (Endpoints.Main.rejectionText rejection)
      return rejection.exitCode.toUInt32

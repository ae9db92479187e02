import Endpoints.CommandLine.Arguments
import Endpoints.Json.Writer
import Endpoints.Operation.Document
import Endpoints.Resolution
import Endpoints.Yaml.Writer

/-!
# A run of the program

A run looks at the files of its arguments, loads the route table, resolves it and writes the
model. It is a function of the files: what it prints, what it leaves in the files and what it
logs are its result.
-/

namespace Endpoints

namespace Model

def block (m : Model) : Yaml.Block :=
  (Yaml.Block.ofContent? m.content).get (Yaml.Block.isSome_ofContent? m.isPlain_content)

def text (m : Model) : OutputFormat → String
  | .yaml => Yaml.write m.block
  | .json => Json.pretty m.content

end Model

inductive RunFailure where
  | routesMissing (path : String)
  | routesNotAFile (path : String)
  | load (path : String) (cause : Error)
  | resolve (cause : Error)
  | makeDirectory (path : String) (cause : FileError)
  | write (path : String) (cause : FileError)
  deriving DecidableEq, Repr

/-- An error and what caused it, from the outside to the inside. -/
def Error.chain : Error → List String
  | .file cause => [Error.message (.file cause), cause.message]
  | e => [e.message]

def RunFailure.chain : RunFailure → List String
  | .routesMissing path => ["Route table does not exist: " ++ path]
  | .routesNotAFile path => ["Route table is not a file: " ++ path]
  | .load path cause => ("Failed to load route table: " ++ path) :: cause.chain
  | .resolve cause => "Failed to resolve operations" :: cause.chain
  | .makeDirectory path cause => ["Failed to create directory: " ++ path, cause.message]
  | .write path cause => ["Failed to write to file: " ++ path, cause.message]

structure Report where
  result : Except RunFailure Unit := .ok ()
  files : FileTree
  printed : String := ""
  log : Log := []

namespace Report

def failed (files : FileTree) (log : Log) (failure : RunFailure) : Report where
  result := .error failure
  files := files
  log := log

end Report

namespace Arguments

def site (a : Arguments) (files : FileTree) : Site where
  files := files
  schemaDirectory := a.schemaDirectory
  includesDirectory := a.includesDirectory

def failure? (a : Arguments) (files : FileTree) : Option RunFailure :=
  if !files.isPresent a.routes then some (.routesMissing a.routes)
  else if !files.isFile a.routes then some (.routesNotAFile a.routes)
  else none

def directoryNotice (files : FileTree) (label directory : String) : Log :=
  if files.isDirectory directory then []
  else Log.warn (label ++ " directory not found: " ++ directory)

def notices (a : Arguments) (files : FileTree) : Log :=
  directoryNotice files "Schema" a.schemaDirectory ++
  directoryNotice files "Includes" a.includesDirectory ++
  Log.info ("Route table: " ++ a.routes) ++
  Log.info ("Schema directory: " ++ a.schemaDirectory) ++
  Log.info ("Includes directory: " ++ a.includesDirectory) ++
  Log.info ("Output format: " ++ a.format.title) ++
  Log.info (match a.output with
    | some path => "Output file: " ++ path
    | none => "Output: stdout")

def loadNotices (actions : List Action) : Log :=
  Log.info ("Loaded " ++ toString actions.length ++ " actions") ++
  if actions.isEmpty then Log.warn "No actions found in the route table" else []

def modelNotices (a : Arguments) (m : Model) : Log :=
  Log.info ("Resolved " ++ toString m.operationCount ++ " operations across " ++
    toString m.toList.length ++ " paths") ++
  Log.info ("Serializing to " ++ a.format.title ++ " format...")

def summary (actions : List Action) (m : Model) : Log :=
  Log.info "Summary:" ++
  Log.info ("  - Actions: " ++ toString actions.length) ++
  Log.info ("  - Paths: " ++ toString m.toList.length) ++
  Log.info ("  - Operations: " ++ toString m.operationCount)

def makeParents (files : FileTree) (path : String) : FileTree × Except RunFailure Unit :=
  match Path.parent? path with
  | none => (files, .ok ())
  | some parent =>
      let (ready, made) := files.makeDirectories parent
      (ready, made.mapError (.makeDirectory parent))

def writeOutput (files : FileTree) (path text : String) : FileTree × Except RunFailure Unit :=
  match makeParents files path with
  | (ready, .error failure) => (ready, .error failure)
  | (ready, .ok ()) =>
      match ready.writeFile path text.toUTF8 with
      | .error e => (ready, .error (.write path e))
      | .ok written => (written, .ok ())

def deliver (a : Arguments) (files : FileTree) (text : String) (log last : Log) : Report :=
  match a.output with
  | none => { files, printed := text ++ "\n", log := log ++ last }
  | some path =>
      let log := log ++ Log.info ("Writing output to: " ++ path)
      match writeOutput files path text with
      | (files, .error failure) => Report.failed files log failure
      | (files, .ok ()) =>
          { files
            log := log ++ Log.info ("Successfully wrote operations to " ++ path) ++ last }

def run (a : Arguments) (files : FileTree) : Report :=
  match a.failure? files with
  | some failure => Report.failed files [] failure
  | none =>
      let log := a.notices files ++ Log.info "Starting operation resolution..."
      match RouteTable.load files a.routes with
      | .error e => Report.failed files log (.load a.routes e)
      | .ok actions =>
          let outcome := (a.site files).resolve actions Overlay.empty
          let log := log ++ loadNotices actions ++ outcome.log
          match outcome.result with
          | .error e => Report.failed files log (.resolve e)
          | .ok model =>
              a.deliver files (model.text a.format) (log ++ a.modelNotices model)
                (summary actions model)

end Arguments

end Endpoints

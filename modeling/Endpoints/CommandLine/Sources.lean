import Endpoints.CommandLine.Run

/-!
# The files that a run needs

The paths at which a run may look, found by loading what is known of the files so far. A route
table names fragments and schemas, and fragments name schemas, so three rounds find them all.
-/

namespace Endpoints

namespace Arguments

def candidates (directory : String) (endings names : List String) : List String :=
  names.flatMap fun name => endings.map (candidate directory name)

def namesUnder (key : AnnotationKey) (actions : List Action) : List String :=
  actions.flatMap fun action => action.attached.filterMap fun (k, value) =>
    if AnnotationKey.ofText? k = some key then some value.display else none

def schemasIn (fragment : Fragment) : List String :=
  fragment.entries.filterMap fun entry =>
    match entry with
    | .schema name => some name
    | .parameter _ => none

def knownActions (a : Arguments) (files : FileTree) : List Action :=
  match RouteTable.load files a.routes with
  | .ok actions => actions
  | .error _ => []

def knownSchemasAt (files : FileTree) (path : String) : List String :=
  match RouteTable.readSource files path Fragment.read with
  | .ok fragment => schemasIn fragment
  | .error _ => []

/-- The number of rounds in which all paths are found. -/
def rounds : Nat := 3

/-- The paths at which a run may look, as far as the files are known. -/
def paths (a : Arguments) (files : FileTree) : List String :=
  let actions := a.knownActions files
  let fragments := candidates a.includesDirectory fragmentEndings (namesUnder .fragment actions)
  let schemaNames := namesUnder .schema actions ++ fragments.flatMap (knownSchemasAt files)
  [a.routes, a.schemaDirectory, a.includesDirectory] ++ a.output.toList ++
    (a.output.bind Path.parent?).toList ++ fragments ++
    candidates a.schemaDirectory schemaEndings schemaNames

end Arguments

end Endpoints

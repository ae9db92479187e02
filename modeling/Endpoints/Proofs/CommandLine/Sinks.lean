import Endpoints.CommandLine.Run
import Endpoints.Proofs.FileTree.Writing
import Endpoints.Proofs.Operation.Counts
import Endpoints.Proofs.Resolution.Placement

/-!
# Where a run puts its model

A run that has no model prints nothing and leaves all files as they were. A run that has one puts
it into one place: it prints it, or it writes it into the output file, which may be a file that the
run has read. What it tells about the model are the numbers of different paths and of different
pairs of a path and a method that the routes of the table register.
-/

namespace Endpoints

namespace Site

def registeredPairs (actions : List Action) : List (String × HttpMethod) :=
  (registering actions).map fun (_, route) => (route.path, route.method)

def registeredPaths (actions : List Action) : List String :=
  (registeredPairs actions).map Prod.fst

/-- The model of a table has as many operations and paths as are different among those that its
routes register. -/
theorem counts_of_resolve {site : Site} {cache : SchemaCache} (hc : site.Agrees cache)
    {actions : List Action} {model : Model} (h : (site.resolve actions cache).result = .ok model) :
    model.operationCount = (registeredPairs actions).eraseDups.length ∧
      model.toList.length = (registeredPaths actions).eraseDups.length := by
  obtain ⟨entries, hpairs, hholds, rfl, _⟩ := resolve_ok hc h
  have hregistered : entries.map (fun e => (e.route.path, e.operation.method)) =
      registeredPairs actions := by
    rw [registeredPairs, ← map_route_eq_registering hpairs hholds, List.map_map]
    refine List.map_congr_left fun e he => ?_
    rw [method_eq_of_holds (hholds e he)]
    rfl
  rw [Model.operationCount_registerAll, Model.length_registerAll, registeredPaths, ← hregistered,
    List.map_map]
  exact ⟨rfl, rfl⟩

theorem exists_log_resolve {site : Site} {cache : SchemaCache} {actions : List Action}
    {model : Model} (h : (site.resolve actions cache).result = .ok model) :
    ∃ before, (site.resolve actions cache).log = before ++
      Log.info ("Resolved " ++ toString model.toList.length ++ " paths from " ++
        toString actions.length ++ " actions") := by
  obtain ⟨found, hfound, hrest⟩ := Lookup.bind_ok h
  cases hrest
  rw [resolve, Lookup.bind_of_ok hfound]
  exact ⟨_, rfl⟩

end Site

namespace Report

/-- A run that prints nothing and leaves all files and directories as they were. -/
structure IsSilent (r : Report) (files : FileTree) : Prop where
  printed_eq : r.printed = ""
  files_eq : r.files = files

/-- A run that puts a text into one place. Without an output file it prints the text with a line
break and leaves all files as they were. With an output file it prints nothing; if it succeeds then
the file holds the text, and other than that there are at most new directories. -/
structure Delivers (r : Report) (a : Arguments) (files : FileTree) (text : String) : Prop where
  printed : a.output = none →
    r.result = .ok () ∧ r.printed = text ++ "\n" ∧ r.files = files
  written : ∀ path, a.output = some path → r.printed = "" ∧
    (r.result = .ok () → files.Holds r.files path text) ∧
    ∀ failure, r.result = .error failure → files.AddsDirectories r.files

def countLines (actions paths operations : Nat) : Log :=
  Log.info ("Resolved " ++ toString paths ++ " paths from " ++ toString actions ++ " actions") ++
  Log.info ("Resolved " ++ toString operations ++ " operations across " ++ toString paths ++
    " paths")

def totalLines (actions paths operations : Nat) : Log :=
  Log.info "Summary:" ++
  Log.info ("  - Actions: " ++ toString actions) ++
  Log.info ("  - Paths: " ++ toString paths) ++
  Log.info ("  - Operations: " ++ toString operations)

/-- A run that tells the numbers of different paths and operations, and ends with them if it
succeeds. -/
structure Counts (r : Report) (actions : List Action) : Prop where
  counted : (countLines actions.length (Site.registeredPaths actions).eraseDups.length
    (Site.registeredPairs actions).eraseDups.length).Sublist r.log
  totalled : r.result = .ok () →
    totalLines actions.length (Site.registeredPaths actions).eraseDups.length
      (Site.registeredPairs actions).eraseDups.length <:+ r.log

end Report

namespace Arguments

variable {a : Arguments} {files : FileTree}

theorem addsDirectories_makeParents (files : FileTree) (path : String) :
    files.AddsDirectories (makeParents files path).1 := by
  unfold makeParents
  split
  · exact files.addsDirectories_refl
  · exact files.addsDirectories_makeDirectories _

/-- A write that succeeds leaves the text in the file; one that fails has made directories at
most. -/
theorem writeOutput_spec (files : FileTree) (path text : String) :
    ((writeOutput files path text).2 = .ok () →
      files.Holds (writeOutput files path text).1 path text) ∧
    ∀ failure, (writeOutput files path text).2 = .error failure →
      files.AddsDirectories (writeOutput files path text).1 := by
  have hparents := addsDirectories_makeParents files path
  unfold writeOutput
  split
  · rename_i ready _ hready
    rw [hready] at hparents
    refine ⟨fun hok => ?_, fun _ _ => hparents⟩
    cases hok
  · rename_i ready hready
    rw [hready] at hparents
    split
    · refine ⟨fun hok => ?_, fun _ _ => hparents⟩
      cases hok
    · rename_i written hwritten
      refine ⟨fun _ => FileTree.holds_of_writeFile hparents hwritten, fun _ herror => ?_⟩
      cases herror

theorem delivers_deliver (a : Arguments) (files : FileTree) (text : String) (log last : Log) :
    (a.deliver files text log last).Delivers a files text := by
  constructor
  · intro hnone
    rw [deliver, hnone]
    exact ⟨rfl, rfl, rfl⟩
  · intro path hsome
    obtain ⟨hholds, hadds⟩ := writeOutput_spec files path text
    rw [deliver, hsome]
    dsimp only
    split
    · rename_i after failure hfailed
      rw [hfailed] at hadds
      refine ⟨rfl, fun hok => ?_, fun _ _ => hadds failure rfl⟩
      cases hok
    · rename_i after hwritten
      rw [hwritten] at hholds
      refine ⟨rfl, fun _ => hholds rfl, fun _ herror => ?_⟩
      cases herror

/-- What was told before stays in front, and a delivery that succeeds is told last. -/
theorem log_deliver (a : Arguments) (files : FileTree) (text : String) (log last : Log) :
    log <+: (a.deliver files text log last).log ∧
      ((a.deliver files text log last).result = .ok () →
        last <:+ (a.deliver files text log last).log) := by
  unfold deliver
  split
  · exact ⟨List.prefix_append log last, fun _ => List.suffix_append log last⟩
  · dsimp only
    split
    · refine ⟨List.prefix_append log _, fun hok => ?_⟩
      cases hok
    · refine ⟨?_, fun _ => List.suffix_append _ last⟩
      rw [List.append_assoc, List.append_assoc]
      exact List.prefix_append log _

theorem run_of_load_error (h : a.failure? files = none) {e : Error}
    (hload : RouteTable.load files a.routes = .error e) :
    (a.run files).result = .error (.load a.routes e) ∧ (a.run files).IsSilent files := by
  simp only [run, h, hload]
  exact ⟨rfl, rfl, rfl⟩

theorem run_of_resolve_error (h : a.failure? files = none) {actions : List Action}
    (hload : RouteTable.load files a.routes = .ok actions) {e : Error}
    (hresolve : ((a.site files).resolve actions Overlay.empty).result = .error e) :
    (a.run files).result = .error (.resolve e) ∧ (a.run files).IsSilent files := by
  simp only [run, h, hload, hresolve]
  exact ⟨rfl, rfl, rfl⟩

/-- A run that has a model delivers its text, after some lines of log. -/
theorem run_of_model (h : a.failure? files = none) {actions : List Action}
    (hload : RouteTable.load files a.routes = .ok actions) {model : Model}
    (hresolve : ((a.site files).resolve actions Overlay.empty).result = .ok model) :
    a.run files = a.deliver files (model.text a.format)
      (a.notices files ++ Log.info "Starting operation resolution..." ++ loadNotices actions ++
        ((a.site files).resolve actions Overlay.empty).log ++ a.modelNotices model)
      (summary actions model) := by
  simp only [run, h, hload, hresolve]

theorem counts_of_model (h : a.failure? files = none) {actions : List Action}
    (hload : RouteTable.load files a.routes = .ok actions) {model : Model}
    (hresolve : ((a.site files).resolve actions Overlay.empty).result = .ok model) :
    (a.run files).Counts actions := by
  obtain ⟨hoperations, hpaths⟩ := Site.counts_of_resolve (a.site files).agrees_empty hresolve
  obtain ⟨before, hlog⟩ := Site.exists_log_resolve hresolve
  rw [run_of_model h hload hresolve, hlog]
  constructor
  · rw [← hoperations, ← hpaths]
    refine List.Sublist.trans ?_ (a.log_deliver files _ _ _).1.sublist
    refine List.Sublist.append ?_ (List.sublist_append_left _ _)
    exact (List.sublist_append_right before _).trans (List.sublist_append_right _ _)
  · rw [← hoperations, ← hpaths]
    exact (a.log_deliver files _ _ _).2

/-- Every run with usable arguments has one sink at most. Where the route table cannot be loaded or
resolved, nothing is printed and no file or directory is touched. Where both succeed, the model is
printed, or it is written into the output file and nothing is printed; and the numbers that are
told are those of the different paths and operations that the routes of the table register. -/
theorem run_delivers_once (h : a.failure? files = none) :
    (∀ e, RouteTable.load files a.routes = .error e →
      (a.run files).result = .error (.load a.routes e) ∧ (a.run files).IsSilent files) ∧
    ∀ actions, RouteTable.load files a.routes = .ok actions →
      (∀ e, ((a.site files).resolve actions Overlay.empty).result = .error e →
        (a.run files).result = .error (.resolve e) ∧ (a.run files).IsSilent files) ∧
      ∀ model, ((a.site files).resolve actions Overlay.empty).result = .ok model →
        (a.run files).Delivers a files (model.text a.format) ∧ (a.run files).Counts actions := by
  refine ⟨fun e hload => run_of_load_error h hload, fun actions hload => ⟨fun e hresolve => ?_,
    fun model hresolve => ⟨?_, counts_of_model h hload hresolve⟩⟩⟩
  · exact run_of_resolve_error h hload hresolve
  · rw [run_of_model h hload hresolve]
    exact a.delivers_deliver files _ _ _

def repeatingTable : FileTree :=
  FileTree.empty.plant "routes.yml"
    "- action: Users.show\n  routes: [GET/users, get/users, PUT/users, GET/, ANY/x]".toUTF8

/-- Arguments whose output file is the route table, behind a directory that is not there. -/
def overwriting : Arguments where
  routes := "routes.yml"
  format := .json
  output := some "new/../routes.yml"

theorem run_delivers_once_overwriting :
    ∃ actions model,
      RouteTable.load repeatingTable overwriting.routes = .ok actions ∧
      ((overwriting.site repeatingTable).resolve actions Overlay.empty).result = .ok model ∧
      (overwriting.run repeatingTable).result = .ok () ∧
      (overwriting.run repeatingTable).printed = "" ∧
      repeatingTable.Holds (overwriting.run repeatingTable).files "new/../routes.yml"
        (model.text .json) ∧
      (overwriting.run repeatingTable).files.entryAt? ["new"] = some .directory ∧
      Report.totalLines 1 2 3 <:+ (overwriting.run repeatingTable).log := by
  have hrun : overwriting.failure? repeatingTable = none ∧
      (overwriting.run repeatingTable).result = .ok () ∧
      (overwriting.run repeatingTable).files.entryAt? ["new"] = some .directory ∧
      ((RouteTable.load repeatingTable overwriting.routes).toOption.any fun actions =>
        ((overwriting.site repeatingTable).resolve actions Overlay.empty).result.isOk ∧
          actions.length = 1 ∧ (Site.registeredPaths actions).eraseDups.length = 2 ∧
          (Site.registeredPairs actions).eraseDups.length = 3) = true := by
    decide +kernel
  obtain ⟨hvalid, hok, hmade, hloaded⟩ := hrun
  obtain ⟨actions, hload, hchecked⟩ := (Option.any_eq_true _ _).1 hloaded
  obtain ⟨hresolved, hone, htwo, hthree⟩ := of_decide_eq_true hchecked
  obtain ⟨model, hresolve⟩ := ok_of_isOk hresolved
  have h := ok_of_toOption hload
  obtain ⟨hdelivers, hcounts⟩ := ((run_delivers_once hvalid).2 actions h).2 model hresolve
  obtain ⟨hprinted, hwritten, _⟩ := hdelivers.written _ rfl
  have hlast := hcounts.totalled hok
  rw [hone, htwo, hthree] at hlast
  exact ⟨actions, model, h, hresolve, hok, hprinted, hwritten hok, hmade, hlast⟩

end Arguments

end Endpoints

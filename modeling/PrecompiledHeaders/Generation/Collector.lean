import PrecompiledHeaders.Compiler.Task
import PrecompiledHeaders.Diagnostic.Sink
import PrecompiledHeaders.Frontend.Basic
import PrecompiledHeaders.Generation.IncludeSet
import PrecompiledHeaders.Text.Blank

/-!
# Collecting includes

A collector finds out which headers from outside of a project its units include. Every unit is
preprocessed; then the results are put together in the order of the units. Headers that belong to
the project are left out. A unit that fails gives a diagnostic, and no headers.
-/

namespace PrecompiledHeaders

/-- What work goes on in: the files, the ids of headers, and the diagnostics so far. -/
structure Workspace where
  /-- The files. -/
  tree : FileTree
  /-- The ids of headers. -/
  table : PathTable
  /-- The diagnostics. -/
  sink : DiagnosticSink
deriving Inhabited

/-- Emits a diagnostic. -/
def Workspace.emit (workspace : Workspace) (d : Diagnostic) : Workspace :=
  { workspace with sink := workspace.sink.emit d }

/-- Units whose includes are collected. -/
structure Collector where
  /-- The frontend. -/
  frontend : Frontend
  /-- The compiler. -/
  compiler : String
  /-- The arguments for the compiler. -/
  arguments : List String
  /-- The directory in which the compiler runs. -/
  directory : Path
  /-- The units. -/
  units : List Path := []
  /-- The files of the project. -/
  projectFiles : List Path := []
  /-- The headers that count as included already. -/
  excluded : List Path := []
  /-- The headers that were found. -/
  found : IncludeSet := .empty

namespace Collector

/-- Adds units. Paths are taken from the directory of the compiler. -/
def addUnits (collector : Collector) (paths : List Path) : Collector :=
  { collector with
    units := Path.dedup (collector.units ++ paths.map collector.directory.normalizeFrom) }

/-- Sets the files of the project. -/
def setProjectFiles (collector : Collector) (paths : List Path) : Collector :=
  { collector with projectFiles := paths.map collector.directory.normalizeFrom }

/-- Sets the headers that count as included already. -/
def setExcluded (collector : Collector) (paths : List Path) : Collector :=
  { collector with excluded := paths.map collector.directory.normalizeFrom }

/-! ### Diagnostics -/

/-- The warning about an excluded header that is not there. -/
def missingExclusion (path : Path) : Diagnostic :=
  .warning .unresolvedExclusion "excluded include does not exist; matching by path only" path

/-- The warning about an include that leads to no file. -/
def missingInclude (missing : UnresolvedInclude) : Diagnostic :=
  .warning .unresolvedInclude s!"'{missing.spelling}' file not found" missing.includer

/-- The code of the diagnostic about a unit that failed. -/
def failureCode : FrontendError → DiagnosticCode
  | .unreadableInput _ _ | .missingInput => .unreadableUnit
  | _ => .frontendFailure

/-- What a compiler said when it failed, if it said something. -/
def complaints : FrontendError → List String
  | .failed _ _ stderr =>
    let text := trim stderr.toList
    if text = [] then [] else [String.ofList text]
  | _ => []

/-- The diagnostic about a unit that failed. -/
def unitFailure (unit : Path) (e : FrontendError) : Diagnostic :=
  { Diagnostic.error (failureCode e) ("translation unit skipped: " ++ e.message) unit with
    notes := complaints e }

/-! ### Collecting -/

/-- The call of the compiler that preprocesses a unit. -/
def invocation (collector : Collector) (unit : Path) : Invocation :=
  ⟨collector.compiler, Task.arguments collector.arguments (.preprocess unit), collector.directory⟩

/-- Preprocesses units in order. -/
def preprocessAll (collector : Collector) (tree : FileTree) :
    List Path → List (Except FrontendError Preprocessed) × FileTree
  | [] => ([], tree)
  | unit :: rest =>
    let (result, tree) :=
      collector.frontend.preprocess tree (collector.invocation unit) collector.excluded
    let (results, tree) := collector.preprocessAll tree rest
    (result :: results, tree)

/-- Whether a header belongs to the project. -/
def isProjectFile (collector : Collector) (header : Path) : Bool :=
  header.normalize.isAmong collector.projectFiles

/-- Takes in headers in order. -/
def addHeaders (collector : Collector) (table : PathTable) :
    List Path → Collector × PathTable
  | [] => (collector, table)
  | header :: rest =>
    if collector.isProjectFile header then collector.addHeaders table rest
    else
      let (id, table) := table.id header
      { collector with found := collector.found.insert id }.addHeaders table rest

/-- Takes in the result of a unit. -/
def addResult (collector : Collector) (workspace : Workspace) (unit : Path) :
    Except FrontendError Preprocessed → Collector × Workspace
  | .error e => (collector, workspace.emit (unitFailure unit e))
  | .ok result =>
    let (collector, table) := collector.addHeaders workspace.table result.headers
    (collector, { workspace with
      table, sink := workspace.sink.extend (result.unresolved.map missingInclude) })

/-- Takes in the results of units in order. -/
def addResults (collector : Collector) (workspace : Workspace) :
    List (Path × Except FrontendError Preprocessed) → Collector × Workspace
  | [] => (collector, workspace)
  | (unit, result) :: rest =>
    let (collector, workspace) := collector.addResult workspace unit result
    collector.addResults workspace rest

/-- The excluded headers that are not there. -/
def missingExclusions (collector : Collector) (tree : FileTree) : List Path :=
  collector.excluded.filter fun path => !(tree.canonical path).isOk

/-- Preprocesses all units and takes in what they include. -/
def collect (collector : Collector) (workspace : Workspace) : Collector × Workspace :=
  let missing := collector.missingExclusions workspace.tree
  let sink := workspace.sink.extend (missing.map missingExclusion)
  let (results, tree) := collector.preprocessAll workspace.tree collector.units
  collector.addResults { workspace with tree, sink } (collector.units.zip results)

/-- Takes the headers that were found. -/
def takeFound (collector : Collector) : IncludeSet × Collector :=
  (collector.found, { collector with found := .empty })

end Collector

end PrecompiledHeaders

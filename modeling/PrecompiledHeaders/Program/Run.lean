import PrecompiledHeaders.Datum.Json
import PrecompiledHeaders.Job.Queue
import PrecompiledHeaders.Program.Command
import PrecompiledHeaders.Program.Session

/-!
# Running commands

A run of the program takes arguments and files to what is printed, an exit code and the files
as they are then (`run`). What a command shows of precompiled headers is what a generator gives:
`showIncludes` and `showCommandLine` make nothing, and show what `generate` would make.

The exit code is `0` if all went well, `1` if the command failed or there was an error among the
diagnostics, and `2` if the arguments are wrong.
-/

namespace PrecompiledHeaders.Program

/-- What a run prints, and its exit code. -/
structure Output where
  /-- The exit code. -/
  code : Nat := 0
  /-- What is printed. -/
  out : String := ""
  /-- What is told besides. -/
  err : String := ""
deriving DecidableEq, Repr, Inhabited

/-- The output of a command that fails, after something was told. -/
def Output.failed (told : String) (why : Failure) : Output :=
  { code := 1, err := told ++ "error: " ++ why.message ++ "\n" }

/-- Each text on a line of its own. -/
def lines (texts : List String) : String := String.join (texts.map (· ++ "\n"))

/-- What a run finds around it, apart from files. -/
structure Surroundings where
  /-- The frontends. -/
  frontends : Registry
  /-- Whether the kind of the terminal is known. -/
  terminalKnown : Bool := false
  /-- Whether colours are refused. -/
  coloursRefused : Bool := false

/-- Whether diagnostics are coloured. -/
def ColourChoice.applies (choice : ColourChoice) (around : Surroundings) : Bool :=
  match choice with
  | .auto => around.terminalKnown && !around.coloursRefused
  | .always => true
  | .never => false

/-- Diagnostics as they are told. -/
def tell (coloured : Bool) (diagnostics : List Diagnostic) : String :=
  String.join (diagnostics.map (Diagnostic.render coloured))

/-- The paths with the given ids, as text. -/
def showPaths (table : PathTable) (ids : List PathId) : Except UnresolvedPath (List String) := do
  return (← table.resolve ids).map Path.display

/-! ### A pass -/

/-- What a pass has made. -/
structure PassReport where
  /-- The global precompiled header. -/
  global : Option Artifact
  /-- The precompiled headers of the parts. -/
  parts : List Artifact
  /-- The headers that each part adds. -/
  includes : List (String × List String)
  /-- What went wrong on the way. -/
  diagnostics : List Diagnostic
deriving DecidableEq, Repr, Inhabited

namespace PassReport

/-- The report on the pass of a generator. -/
def ofGenerator (g : Generator) : Except UnresolvedPath PassReport := do
  let includes ← g.partIncludes.mapM fun part => do
    return (part.part, ← showPaths g.workspace.table part.includes)
  return ⟨g.globalArtifact, g.partArtifacts, includes, g.workspace.sink.pending⟩

/-- The report as a record; none if a path is no text. -/
def toDatum? (report : PassReport) : Option Datum := do
  let global ← match report.global with
    | none => some .null
    | some artifact => artifact.toDatum?
  let includes := report.includes.map fun (part, paths) =>
    .ofFields [("id", .ofString part), ("paths", .list (paths.map .ofString))]
  return .ofFields [
    ("global", global),
    ("project_parts", .list (← report.parts.mapM Artifact.toDatum?)),
    ("includes", .list includes),
    ("diagnostics", .list (← report.diagnostics.mapM Diagnostic.toDatum?))]

/-- The line about a precompiled header. -/
def artifactLine (artifact : Artifact) : String :=
  artifact.scope.part?.getD "global" ++ ": " ++ artifact.path.display

/-- The lines about the headers that a part adds. -/
def includesLines (part : String) (paths : List String) : List String :=
  ("includes of " ++ part ++ ":") :: paths.map ("  " ++ ·)

/-- The report as lines of text; the included headers are left out on demand. -/
def toLines (quiet : Bool) (report : PassReport) : List String :=
  (report.global.toList ++ report.parts).map artifactLine ++
    if quiet then []
    else report.includes.flatMap fun (part, paths) => includesLines part paths

/-- The exit code: whether there is an error among the diagnostics. -/
def code (report : PassReport) : Nat :=
  if report.diagnostics.any (·.severity = .error) then 1 else 0

end PassReport

/-- What is told before a pass. -/
def passHeading (config : Config.Resolved) : String :=
  "  Generating PCHs for " ++ toString config.parts.length ++ " project part(s) into " ++
    config.outputDirectory.display ++ "\n"

/-- The output of a pass that went well. -/
def reportOutput (quiet coloured : Bool) (format : ReportFormat) (heading : String)
    (report : PassReport) : Output :=
  match format with
  | .text =>
    ⟨report.code, lines (report.toLines quiet), heading ++ tell coloured report.diagnostics⟩
  | .json =>
    match report.toDatum? with
    | none => .failed heading .pathNoText
    | some datum => ⟨report.code, Json.pretty 0 datum ++ "\n", heading⟩

/-- Makes all precompiled headers. -/
def generate (session : Session) (quiet coloured : Bool) (format : ReportFormat)
    (tree : FileTree) : Output × FileTree :=
  let heading := if quiet ∨ format = .json then "" else passHeading session.config
  match (session.generator tree).generate with
  | (.error e, g) =>
    (.failed (heading ++ tell coloured g.workspace.sink.pending) (.generation e),
      g.workspace.tree)
  | (.ok (), g) =>
    match PassReport.ofGenerator g with
    | .error e => (.failed heading (.unresolved e), g.workspace.tree)
    | .ok report => (reportOutput quiet coloured format heading report, g.workspace.tree)

/-! ### Looking without making -/

/-- Finds the headers that all parts include, or those that a part adds. -/
def findIncludes (g : Generator) : Option String → Generator.Result IncludeSet
  | none =>
    let (includes, g) := g.collectGlobal
    (.ok includes, g)
  | some id =>
    match g.part id with
    | .error e => (.error e, g)
    | .ok part => g.collectPart part

/-- Shows the headers that all parts include, or those that a part adds. -/
def showIncludes (session : Session) (coloured : Bool) (part : Option String) (tree : FileTree) :
    Output × FileTree :=
  match findIncludes (session.generator tree) part with
  | (.error e, g) => (.failed "" (.generation e), g.workspace.tree)
  | (.ok includes, g) =>
    let told := tell coloured g.workspace.sink.pending
    match showPaths g.workspace.table includes.order with
    | .error e => (.failed told (.unresolved e), g.workspace.tree)
    | .ok paths => (⟨0, lines paths, told⟩, g.workspace.tree)

/-- Shows the command line that makes the precompiled header of a part, an argument a line. -/
def showCommandLine (session : Session) (id : String) (tree : FileTree) : Output :=
  let g := session.generator tree
  match g.part id with
  | .error e => .failed "" (.generation e)
  | .ok part => { out := lines (g.commandLine (g.partEmitArguments part)) }

/-! ### Reparsing -/

/-- The request to reparse a unit. -/
def requestFor (file : Path) : UnitKind → Request
  | .primary => .new .reparse file .primary
  | .supportive => .new .supportive file .supportive

/-- A queue with a document of a part and a request to reparse a unit of it. -/
def reparseQueue (session : Session) (file : Path) (part : ProjectPart) (unit : UnitKind) :
    Except JobError Queue := do
  let q ← (Queue.new session.config.compiler).openDocument file part.id part.arguments
    session.config.workingDirectory
  return (← q.add (requestFor file unit)).2

/-- The output for the result of a reparse. -/
def updateOutput (coloured : Bool) (table : PathTable) (told : String) (result : UpdateResult) :
    Output :=
  let told := told ++ tell coloured result.diagnostics
  match showPaths table result.includes with
  | .error e => .failed told (.unresolved e)
  | .ok paths =>
    ⟨if result.diagnostics.any (·.severity = .error) then 1 else 0, lines paths, told⟩

/-- Reparses a unit of a source file and shows the headers that it includes. -/
def reparse (session : Session) (coloured : Bool) (file : Path) (id : Option String)
    (unit : UnitKind) (tree : FileTree) : Output × FileTree :=
  let file := tree.here.path.normalizeFrom file
  match session.selectPart file id with
  | .error e => (.failed "" e, tree)
  | .ok part =>
    match reparseQueue session file part unit with
    | .error e => (.failed "" (.job e), tree)
    | .ok q =>
      let (_, q, tree, table) := q.drain session.frontend tree .empty
      let told := tell coloured q.sink.pending
      match q.documents.get file with
      | .error e => (.failed told (.job e), tree)
      | .ok document =>
        match document.result? unit with
        | none => (⟨1, "", told⟩, tree)
        | some result => (updateOutput coloured table told result, tree)

/-! ### Runs -/

/-- Carries a command out. -/
def execute (session : Session) (quiet coloured : Bool) (command : Command) (tree : FileTree) :
    Output × FileTree :=
  match command with
  | .generate format => generate session quiet coloured format tree
  | .includes part => showIncludes session coloured part tree
  | .commandLine part => (showCommandLine session part tree, tree)
  | .reparse file part unit => reparse session coloured file part unit tree

/-- What is printed if the program does not do its work. -/
def Stop.output : Stop → Output
  | .misuse => ⟨2, "", usage⟩
  | .help => ⟨0, usage, ""⟩
  | .version => ⟨0, versionText, ""⟩

/-- A run of the program with arguments, in the current directory of a file tree. -/
def run (around : Surroundings) (arguments : List String) (tree : FileTree) : Output × FileTree :=
  match Arguments.ofList arguments with
  | .error stop => (stop.output, tree)
  | .ok ⟨options, command⟩ =>
    match Session.start around.frontends tree options.config with
    | .error e => (.failed "" e, tree)
    | .ok session =>
      execute session options.quiet (options.colour.applies around) command tree

end PrecompiledHeaders.Program

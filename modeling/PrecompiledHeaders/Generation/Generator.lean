import PrecompiledHeaders.Generation.Artifact
import PrecompiledHeaders.Generation.Collector
import PrecompiledHeaders.Generation.Names
import PrecompiledHeaders.ProjectPart

/-!
# Generating precompiled headers

A generator makes the precompiled headers of a project: first one with the headers that all parts
include, then one for each part, on top of the first. Every operation takes the generator to a
new one and gives a result or an error, and both carry the files, the ids and the diagnostics on.

* `collectGlobal` finds the headers that all parts include, `collectPart` those that a part adds;
* `makeGlobal` and `makePart` write the header file and emit the precompiled header. A part is
  refused as long as there is no global one (`Generator.emitted`);
* `generate` is a whole pass: it keeps what it made only if everything went well.
-/

namespace PrecompiledHeaders

/-- Where the compiler is, and where files go. -/
structure Environment where
  /-- The compiler. -/
  compiler : String
  /-- The directory for generated files. -/
  outputDirectory : Path
  /-- The directory in which the compiler runs. -/
  workingDirectory : Path
deriving DecidableEq, Repr, Inhabited

/-- How far a pass has come. -/
inductive Stage
  /-- Nothing has been done. -/
  | idle
  /-- The files of the project are known. -/
  | headersKnown
  /-- The headers that all parts include are known. -/
  | includesKnown
  /-- The global precompiled header is there. -/
  | globalEmitted
  /-- The headers that a part adds are known. -/
  | partIncludesKnown (part : String)
  /-- The precompiled header of a part is there. -/
  | partEmitted (part : String)
  /-- All precompiled headers are there. -/
  | done
  /-- The pass has failed. -/
  | aborted
deriving DecidableEq, Repr, Inhabited

/-- Why the generator gives up. -/
inductive GenerationError
  /-- A frontend gave up. -/
  | frontend (cause : FrontendError)
  /-- A file or directory cannot be written. -/
  | unwritable (path : Path) (reason : FileError)
  /-- No path has the id. -/
  | unresolved (cause : UnresolvedPath)
  /-- There is no such part. -/
  | unknownPart (id : String)
  /-- A part was to be made without a global precompiled header. -/
  | globalMissing (part : String)
  /-- A pass failed at the global precompiled header. -/
  | globalFailed (cause : GenerationError)
  /-- A pass failed at a part. -/
  | partFailed (part : String) (cause : GenerationError)
deriving Repr

namespace GenerationError

/-- The text of the error. -/
def message : GenerationError → String
  | .frontend cause => cause.message
  | .unwritable path reason => s!"cannot write {path.display}: {reason.message}"
  | .unresolved cause => cause.message
  | .unknownPart id => s!"unknown project part '{id}'"
  | .globalMissing part =>
    "PCH generation aborted: project part '" ++ part ++
      "' needs the global PCH, which has not been generated"
  | .globalFailed cause => "PCH generation aborted: global PCH failed: " ++ cause.message
  | .partFailed part cause =>
    "PCH generation aborted: project part '" ++ part ++ "' failed: " ++ cause.message

/-- Whether a step was refused, or a pass given up. -/
def isAbort : GenerationError → Bool
  | .globalMissing _ | .globalFailed _ | .partFailed _ _ => true
  | _ => false

end GenerationError

/-- A project whose precompiled headers are made. -/
structure Generator where
  /-- The parts of the project. -/
  parts : List ProjectPart
  /-- Where things are. -/
  environment : Environment
  /-- What works as the compiler. -/
  frontend : Frontend
  /-- The files, the ids and the diagnostics. -/
  workspace : Workspace
  /-- How far the pass has come. -/
  stage : Stage := .idle
  /-- The headers that all parts include, once they are known. -/
  globalIncludes : Option IncludeSet := none
  /-- The global precompiled header, until it is taken. -/
  globalArtifact : Option Artifact := none
  /-- Whether there is a global precompiled header to build on. -/
  emitted : Bool := false
  /-- The precompiled headers of the parts after a pass, until they are taken. -/
  partArtifacts : List Artifact := []
  /-- The headers that the parts add after a pass, until they are taken. -/
  partIncludes : List PartIncludes := []

namespace Generator

/-- What an operation gives: a result or an error, and the generator behind it. -/
abbrev Result (α : Type) := Except GenerationError α × Generator

/-! ### The project -/

/-- The part with a name. -/
def part (g : Generator) (id : String) : Except GenerationError ProjectPart :=
  match g.parts.find? fun part => part.id = id with
  | some part => .ok part
  | none => .error (.unknownPart id)

/-- The headers of all parts, each path once. -/
def headerPaths (g : Generator) : List Path := Path.dedup (g.parts.flatMap ProjectPart.headers)

/-- The sources of all parts, each path once. -/
def sourcePaths (g : Generator) : List Path := Path.dedup (g.parts.flatMap ProjectPart.sources)

/-- The headers and then the sources of all parts, each path once. -/
def headerAndSourcePaths (g : Generator) : List Path :=
  Path.dedup (g.headerPaths ++ g.sourcePaths)

/-- The arguments of all parts, one part after the other. -/
def arguments (g : Generator) : List String := g.parts.flatMap ProjectPart.arguments

/-! ### Generated files and their command lines -/

/-- The header file with the headers that all parts include. -/
def globalHeaderFile (g : Generator) : Path := headerFile g.environment.outputDirectory globalStem

/-- The global precompiled header. -/
def globalFile (g : Generator) : Path := precompiledFile g.environment.outputDirectory globalStem

/-- The header file of a part. -/
def partHeaderFile (g : Generator) (part : ProjectPart) : Path :=
  headerFile g.environment.outputDirectory (partStem part.id)

/-- The precompiled header of a part. -/
def partFile (g : Generator) (part : ProjectPart) : Path :=
  precompiledFile g.environment.outputDirectory (partStem part.id)

/-- The arguments that emit the global precompiled header. -/
def globalEmitArguments (g : Generator) : List String :=
  Task.arguments g.arguments (.emit g.globalHeaderFile g.globalFile none)

/-- The arguments that emit the precompiled header of a part. -/
def partEmitArguments (g : Generator) (part : ProjectPart) : List String :=
  Task.arguments part.arguments
    (.emit (g.partHeaderFile part) (g.partFile part) (some g.globalFile))

/-- The compiler with arguments. -/
def commandLine (g : Generator) (arguments : List String) : List String :=
  PrecompiledHeaders.commandLine g.environment.compiler arguments

/-! ### Collecting -/

/-- The generator with another workspace. -/
def withWorkspace (g : Generator) (workspace : Workspace) : Generator := { g with workspace }

/-- A collector with the given arguments. -/
def collector (g : Generator) (arguments : List String) : Collector where
  frontend := g.frontend
  compiler := g.environment.compiler
  arguments := arguments
  directory := g.environment.workingDirectory

/-- The headers that parts include, each part for itself, with the arguments of all parts. Parts
    without files are skipped. -/
def collectParts (g : Generator) (workspace : Workspace) :
    List ProjectPart → List IncludeSet × Workspace
  | [] => ([], workspace)
  | part :: rest =>
    if part.headerAndSourcePaths = [] then g.collectParts workspace rest
    else
      let collector := ((g.collector g.arguments).addUnits part.headerAndSourcePaths)
        |>.setProjectFiles g.headerAndSourcePaths
      let (collector, workspace) := collector.collect workspace
      let (others, workspace) := g.collectParts workspace rest
      (collector.found :: others, workspace)

/-- The ids that are in all of some sets, in the order of the first. -/
def shared : List IncludeSet → IncludeSet
  | [] => .empty
  | first :: others => others.foldl IncludeSet.intersect first

/-- Finds the headers that all parts include. -/
def collectGlobal (g : Generator) : IncludeSet × Generator :=
  let (found, workspace) := g.collectParts g.workspace g.parts
  (shared found,
    { g with workspace, globalIncludes := some (shared found), stage := .includesKnown })

/-- The headers that all parts include, found before or only now. -/
def knownGlobal (g : Generator) : IncludeSet × Generator :=
  match g.globalIncludes with
  | some includes => (includes, g)
  | none => g.collectGlobal

/-- Finds the headers that a part includes, without those that all parts include and what only
    these include. -/
def collectPart (g : Generator) (part : ProjectPart) : Result IncludeSet :=
  let (includes, g) := g.knownGlobal
  match g.workspace.table.resolve includes.order with
  | .error e => (.error (.unresolved e), g)
  | .ok excluded =>
    let collector := (g.collector part.arguments).addUnits part.headerAndSourcePaths
      |>.setProjectFiles part.headerAndSourcePaths
      |>.setExcluded excluded
    let (collector, workspace) := collector.collect g.workspace
    (.ok collector.found, { g with workspace, stage := .partIncludesKnown part.id })

/-! ### Header files -/

/-- The line of a header file that includes a header. -/
def includeLine (p : Path) : String := s!"#include <{p.display}>\n"

/-- The text of a header file that includes the headers with the given ids. -/
def headerText (table : PathTable) (ids : List PathId) : Except UnresolvedPath String := do
  return String.join ((← table.resolve ids).map includeLine)

/-- The text of the header file with the headers that all parts include. -/
def globalHeaderText (g : Generator) : Result String :=
  let (includes, g) := g.knownGlobal
  ((headerText g.workspace.table includes.order).mapError .unresolved, g)

/-- Writes a header file, and makes the directories that lead to it. -/
def writeHeader (g : Generator) (p : Path) (text : Bytes) : Result Unit :=
  let write (tree : FileTree) : Result Unit :=
    match tree.write p text with
    | .error e => (.error (.unwritable p e), g.withWorkspace { g.workspace with tree })
    | .ok tree => (.ok (), g.withWorkspace { g.workspace with tree })
  match p.parent? with
  | none => write g.workspace.tree
  | some directory =>
    match g.workspace.tree.makeDirectories directory with
    | (.error e, tree) =>
      (.error (.unwritable directory e), g.withWorkspace { g.workspace with tree })
    | (.ok (), tree) => write tree

/-- Writes the header file with the headers that all parts include. -/
def writeGlobalHeader (g : Generator) : Result Path :=
  match g.globalHeaderText with
  | (.error e, g) => (.error e, g)
  | (.ok text, g) =>
    match g.writeHeader g.globalHeaderFile (Utf8.encode text.toList) with
    | (.error e, g) => (.error e, g)
    | (.ok (), g) => (.ok g.globalHeaderFile, g)

/-! ### Emitting -/

/-- Runs the compiler. If it fails, that is a diagnostic about the header file, told under a
    heading. -/
def emit (g : Generator) (arguments : List String) (heading : String) (header : Path) :
    Result Unit :=
  let environment := g.environment
  let invocation : Invocation :=
    ⟨environment.compiler, arguments, environment.workingDirectory⟩
  match g.frontend.compile g.workspace.tree invocation with
  | (.ok (), tree) => (.ok (), g.withWorkspace { g.workspace with tree })
  | (.error e, tree) =>
    let d := Diagnostic.error .emissionFailed (heading ++ ": " ++ e.message) header
    (.error (.frontend e), g.withWorkspace ({ g.workspace with tree }.emit d))

/-- Makes the global precompiled header. -/
def makeGlobal (g : Generator) : Result Artifact :=
  let (includes, g) := { g with globalArtifact := none, emitted := false }.collectGlobal
  match g.writeGlobalHeader with
  | (.error e, g) => (.error e, g)
  | (.ok header, g) =>
    match g.emit g.globalEmitArguments "global PCH" header with
    | (.error e, g) => (.error e, { g with stage := .aborted })
    | (.ok (), g) =>
      let artifact : Artifact :=
        { scope := .global
          path := g.globalFile
          header := header
          commandLine := g.commandLine g.globalEmitArguments
          includes := includes.order }
      (.ok artifact,
        { g with globalArtifact := some artifact, emitted := true, stage := .globalEmitted })

/-- Makes the precompiled header of a part. There has to be a global one. -/
def makePart (g : Generator) (part : ProjectPart) : Result (Artifact × PartIncludes) :=
  if !g.emitted then (.error (.globalMissing part.id), g)
  else
    match g.collectPart part with
    | (.error e, g) => (.error e, g)
    | (.ok includes, g) =>
      match headerText g.workspace.table includes.order with
      | .error e => (.error (.unresolved e), g)
      | .ok text =>
        match g.writeHeader (g.partHeaderFile part) (Utf8.encode text.toList) with
        | (.error e, g) => (.error e, g)
        | (.ok (), g) =>
          let header := g.partHeaderFile part
          match g.emit (g.partEmitArguments part) s!"project part '{part.id}'" header with
          | (.error e, g) => (.error e, g)
          | (.ok (), g) =>
            let artifact : Artifact :=
              { scope := .part part.id
                path := g.partFile part
                header := header
                commandLine := g.commandLine (g.partEmitArguments part)
                includes := includes.order }
            (.ok (artifact, ⟨part.id, includes.order⟩), { g with stage := .partEmitted part.id })

/-! ### Passes -/

/-- The generator when a pass is given up: nothing of the pass is kept. -/
def abort (g : Generator) : Generator :=
  { g with
    stage := .aborted
    globalArtifact := none
    emitted := false
    partArtifacts := []
    partIncludes := [] }

/-- Makes the precompiled headers of parts in order, up to the first that fails. -/
def makeParts (g : Generator) : List ProjectPart → Result (List (Artifact × PartIncludes))
  | [] => (.ok [], g)
  | part :: rest =>
    match g.makePart part with
    | (.error e, g) => (.error (.partFailed part.id e), g)
    | (.ok made, g) =>
      match g.makeParts rest with
      | (.error e, g) => (.error e, g)
      | (.ok others, g) => (.ok (made :: others), g)

/-- Makes the global precompiled header and then those of all parts. If anything fails, the pass
    is given up. -/
def generate (g : Generator) : Result Unit :=
  match { g with partArtifacts := [], partIncludes := [] }.makeGlobal with
  | (.error e, g) => (.error (.globalFailed e), g.abort)
  | (.ok _, g) =>
    match g.makeParts g.parts with
    | (.error e, g) => (.error e, g.abort)
    | (.ok made, g) =>
      (.ok (), { g with
        partArtifacts := made.map Prod.fst, partIncludes := made.map Prod.snd, stage := .done })

/-- Takes the precompiled headers of the parts. -/
def takePartArtifacts (g : Generator) : List Artifact × Generator :=
  (g.partArtifacts, { g with partArtifacts := [] })

/-- Takes the headers that the parts add. -/
def takePartIncludes (g : Generator) : List PartIncludes × Generator :=
  (g.partIncludes, { g with partIncludes := [] })

/-- Takes the global precompiled header. It is still there to build on. -/
def takeGlobalArtifact (g : Generator) : Option Artifact × Generator :=
  (g.globalArtifact, { g with globalArtifact := none })

end Generator

end PrecompiledHeaders

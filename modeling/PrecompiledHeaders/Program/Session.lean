import PrecompiledHeaders.Config.Discovery
import PrecompiledHeaders.Frontend.Registry
import PrecompiledHeaders.Generation.Generator
import PrecompiledHeaders.Job.Document

/-!
# Sessions

A session is what every command starts from: the configuration, with its paths resolved, and the
frontend that it names. `Session.start` finds the configuration: in the given file or directory, or
else in the nearest directory around the current one.
-/

namespace PrecompiledHeaders.Program

/-- Why a command fails. -/
inductive Failure
  /-- There is no valid configuration. -/
  | config (cause : ConfigError)
  /-- A file cannot be read. -/
  | file (cause : FileError)
  /-- A frontend gave up, or there is none with the name. -/
  | frontend (cause : FrontendError)
  /-- The generator gave up. -/
  | generation (cause : GenerationError)
  /-- A document cannot be dealt with. -/
  | job (cause : JobError)
  /-- No path has the id. -/
  | unresolved (cause : UnresolvedPath)
  /-- A source file is in no part. -/
  | unlisted (file : Path)
  /-- A path is no text, and cannot be part of a record. -/
  | pathNoText
deriving Repr

/-- The text of the failure. -/
def Failure.message : Failure → String
  | .config cause => cause.message
  | .file cause => cause.message
  | .frontend cause => cause.message
  | .generation cause => cause.message
  | .job cause => cause.message
  | .unresolved cause => cause.message
  | .unlisted source => source.display ++ " is not in any project part; pass --part"
  | .pathNoText => "path contains invalid UTF-8 characters"

/-- What commands start from. -/
structure Session where
  /-- The configuration. -/
  config : Config.Resolved
  /-- The frontend that it names. -/
  frontend : Frontend

namespace Session

/-- The directory that a file is in. -/
def directoryOf (file : Path) : Path :=
  match file.parent? with
  | some directory => if directory.bytes = [] then .ofString "." else directory
  | none => .ofString "."

/-- The configuration and its directory. The path may be that of a file with any name, or of a
    directory. -/
def findConfig (tree : FileTree) : Option Path → Except Failure (Path × Config)
  | none => do
    let directory ← (Config.find tree tree.here.path).mapError .config
    return (directory, ← (Config.load tree directory).mapError .config)
  | some path =>
    if tree.isFile path then do
      let directory ← (tree.canonical (directoryOf path)).mapError .file
      let text ← (tree.readText path).mapError .file
      return (directory, ← (Config.ofText text).mapError .config)
    else do
      let directory ← (tree.canonical path).mapError .file
      return (directory, ← (Config.load tree directory).mapError .config)

/-- Starts a session. -/
def start (frontends : Registry) (tree : FileTree) (path : Option Path) :
    Except Failure Session := do
  let (directory, config) ← findConfig tree path
  let frontend ← (frontends.create config.frontend).mapError .frontend
  return ⟨config.resolve directory, frontend⟩

/-- A generator for the project, on the files there are. -/
def generator (session : Session) (tree : FileTree) : Generator where
  parts := session.config.parts
  environment :=
    ⟨session.config.compiler, session.config.outputDirectory, session.config.workingDirectory⟩
  frontend := session.frontend
  workspace := ⟨tree, .empty, .empty⟩

/-- The part with a name, or else the first one that lists a file. -/
def selectPart (session : Session) (file : Path) : Option String → Except Failure ProjectPart
  | some id =>
    match session.config.parts.find? fun part => part.id = id with
    | some part => .ok part
    | none => .error (.generation (.unknownPart id))
  | none =>
    match session.config.parts.find? fun part => file.isAmong (part.sources ++ part.headers) with
    | some part => .ok part
    | none => .error (.unlisted file)

end Session

end PrecompiledHeaders.Program

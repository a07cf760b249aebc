import PrecompiledHeaders.Datum.Toml.Document
import PrecompiledHeaders.Path.Normal
import PrecompiledHeaders.ProjectPart

/-!
# Configurations

A configuration, written in TOML, says how a project is compiled and which parts it has.
`Config.ofText` reads and validates one: a configuration that was accepted names a compiler and a
frontend, has at least one part, and its parts have names that are not empty and differ
pairwise.
-/

namespace PrecompiledHeaders

/-- How a project is compiled, where generated files go, and the parts of the project. -/
structure Config where
  /-- The compiler. -/
  compiler : String
  /-- The name of the frontend that runs the compiler. -/
  frontend : String
  /-- The directory in which the compiler is run. -/
  workingDirectory : String
  /-- The directory for generated files. -/
  outputDirectory : String
  /-- How many jobs may run at a time; zero leaves the choice to the program. -/
  threads : Nat
  /-- The parts of the project. -/
  parts : List ProjectPart
deriving DecidableEq, Repr, Inhabited

/-- Why there is no configuration. -/
inductive ConfigError
  /-- The file cannot be read, for the given reason. -/
  | unreadable (path : Path) (reason : String)
  /-- The text is no configuration. -/
  | malformed
  /-- No directory around the given one has a configuration file. -/
  | notFound (start : Path)
  /-- Something that must not be empty is. -/
  | emptyField (name : String)
  /-- Two parts have the same name. -/
  | duplicatePart (id : String)
  /-- There is no part. -/
  | noParts
deriving DecidableEq, Repr

/-- The text of the error. What is wrong with a malformed text is not told. -/
def ConfigError.message : ConfigError → String
  | .unreadable path reason => s!"cannot read {path.display}: {reason}"
  | .malformed => "invalid configuration: "
  | .notFound start => s!"could not find pchd.toml in {start.display} or any parent directory"
  | .emptyField name => s!"missing required field: {name}"
  | .duplicatePart id => s!"duplicate project part id '{id}'"
  | .noParts => "at least one [[project_parts]] entry is required"

namespace Config

/-! ### Reading -/

/-- The parts that a list of records writes. -/
def partsOfDatum? : Datum → Option (List ProjectPart)
  | .list items => items.mapM (ProjectPart.ofDatum? false)
  | _ => none

/-- The configuration that a datum writes. Only the compiler has to be there. -/
def ofDatum? (datum : Datum) : Option Config := do
  let fields ← datum.fields? false ["compiler", "output", "jobs", "project_parts"]
  let compiler ← fields.required? "compiler"
    (Datum.fields? false ["path", "frontend", "working_directory"])
  let output : Datum.Fields ← fields.withDefault? "output" (fun _ => none)
    (Datum.fields? false ["directory"])
  let jobs : Datum.Fields ← fields.withDefault? "jobs" (fun _ => none)
    (Datum.fields? false ["threads"])
  return {
    compiler := ← compiler.required? "path" Datum.string?
    frontend := ← compiler.withDefault? "frontend" "scan" Datum.string?
    workingDirectory := ← compiler.withDefault? "working_directory" "." Datum.string?
    outputDirectory := ← output.withDefault? "directory" ".pchd" Datum.string?
    threads := ← jobs.withDefault? "threads" 0 Datum.natural?
    parts := ← fields.withDefault? "project_parts" [] partsOfDatum? }

/-! ### Validation -/

/-- Checks the names of parts in order, `seen` being the names already used. -/
def checkParts (seen : List String) : List ProjectPart → Except ConfigError Unit
  | [] => .ok ()
  | part :: rest =>
    if part.id = "" then .error (.emptyField "project_parts.id")
    else if part.id ∈ seen then .error (.duplicatePart part.id)
    else checkParts (part.id :: seen) rest

/-- Checks what the form of a configuration leaves open. -/
def validate (config : Config) : Except ConfigError Unit :=
  if config.compiler = "" then .error (.emptyField "compiler.path")
  else if config.frontend = "" then .error (.emptyField "compiler.frontend")
  else if config.parts = [] then .error .noParts
  else checkParts [] config.parts

/-- The configuration that a text writes, if it is valid. -/
def ofText (text : List Char) : Except ConfigError Config :=
  match (Toml.parse? text).bind ofDatum? with
  | none => .error .malformed
  | some config => do
    validate config
    return config

/-! ### Resolution -/

/-- The configuration with the paths in it taken from the directory it was found in: they are
    normal then, and absolute if that directory is. -/
structure Resolved where
  /-- The compiler, as it was written. -/
  compiler : String
  /-- The name of the frontend. -/
  frontend : String
  /-- The directory in which the compiler is run. -/
  workingDirectory : Path
  /-- The directory for generated files. -/
  outputDirectory : Path
  /-- How many jobs may run at a time. -/
  threads : Nat
  /-- The parts, with resolved headers and sources. -/
  parts : List ProjectPart
deriving DecidableEq, Repr, Inhabited

/-- A part with its files taken from a directory. -/
def resolvePart (directory : Path) (part : ProjectPart) : ProjectPart :=
  { part with
    headers := part.headers.map directory.normalizeFrom
    sources := part.sources.map directory.normalizeFrom }

/-- Takes the paths of a configuration from the directory it was found in. -/
def resolve (config : Config) (directory : Path) : Resolved where
  compiler := config.compiler
  frontend := config.frontend
  workingDirectory := directory.normalizeFrom (.ofString config.workingDirectory)
  outputDirectory := directory.normalizeFrom (.ofString config.outputDirectory)
  threads := config.threads
  parts := config.parts.map (resolvePart directory)

end Config

end PrecompiledHeaders

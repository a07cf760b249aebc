import PrecompiledHeaders.Path.Normal

/-!
# Compiler settings

What the arguments of a compiler say about includes. Arguments are read from left to right; some
wait for a value in the next argument (`Expectation`), and each may make a setting (`read`).
Arguments about other things are skipped.

Paths in settings are as they were written. `Settings.absolute` takes them from the directory in
which the compiler runs, all but forced includes, which are searched for like includes.
-/

namespace PrecompiledHeaders

/-- The flags with a path for a value. The value may follow in the same argument. -/
inductive PathFlag
  /-- A directory for includes in quotes. -/
  | quote
  /-- A directory of the system. -/
  | system
  /-- A directory that is searched last. -/
  | after
  /-- A file that is included in front of the input. -/
  | forced
  /-- A directory for includes. -/
  | search
  /-- Where the output goes. -/
  | output
deriving DecidableEq, Repr

namespace PathFlag

/-- All flags. No flag starts with the text of another. -/
def all : List PathFlag := [.quote, .system, .after, .forced, .search, .output]

/-- The text of the flag. -/
def text : PathFlag → String
  | .quote => "-iquote"
  | .system => "-isystem"
  | .after => "-idirafter"
  | .forced => "-include"
  | .search => "-I"
  | .output => "-o"

/-- What follows the flag in an argument that starts with it. -/
def value? (flag : PathFlag) (argument : String) : Option String :=
  let flag := flag.text.toList
  let argument := argument.toList
  if flag.isPrefixOf argument then some (String.ofList (argument.drop flag.length)) else none

/-- The flag that an argument starts with, and what follows it. -/
def split? (argument : String) : Option (PathFlag × String) :=
  all.findSome? fun flag => (flag.value? argument).map (flag, ·)

end PathFlag

/-- The flags whose value, in the next argument, says nothing about includes. -/
def skippedFlags : List String :=
  ["-D", "-U", "-MF", "-MT", "-MQ", "-target", "-arch", "-isysroot", "-Xlinker", "-Xpreprocessor",
    "-imacros", "-iprefix", "-iwithprefix", "-x"]

/-- One thing that arguments say. -/
inductive Setting
  /-- A path behind a flag. -/
  | path (flag : PathFlag) (value : Path)
  /-- A precompiled header in front of the input. -/
  | base (value : Path)
  /-- A precompiled header is to be emitted. -/
  | emit
  /-- An input. -/
  | input (value : Path)
deriving DecidableEq, Repr

/-- What the next argument is read as. -/
inductive Expectation
  /-- An argument of its own. -/
  | argument
  /-- The value of a flag. -/
  | value (flag : PathFlag)
  /-- The value of a flag that is skipped. -/
  | skipped
  /-- An argument that is passed through to the compiler proper. -/
  | passed
  /-- A precompiled header, which may be passed through too. -/
  | passedBase
  /-- A precompiled header. -/
  | base
deriving DecidableEq, Repr

namespace Expectation

/-- Reads an argument of its own. -/
def start (text : String) : Expectation × List Setting :=
  if text = "-Xclang" then (.passed, [])
  else if text = "-include-pch" then (.base, [])
  else if text ∈ skippedFlags then (.skipped, [])
  else if text.toList.head? = some '-' then
    match PathFlag.split? text with
    | none => (.argument, [])
    | some (flag, path) =>
      if path = "" then (.value flag, []) else (.argument, [.path flag (.ofString path)])
  else (.argument, [.input (.ofString text)])

/-- Reads an argument: what is expected next, and the settings that were made. -/
def next (expectation : Expectation) (text : String) : Expectation × List Setting :=
  match expectation with
  | .argument => start text
  | .value flag => (.argument, [.path flag (.ofString text)])
  | .skipped => (.argument, [])
  | .passed =>
    if text = "-emit-pch" then (.argument, [.emit])
    else if text = "-include-pch" then (.passedBase, [])
    else (.argument, [])
  | .passedBase =>
    if text = "-Xclang" then (.base, []) else (.argument, [.base (.ofString text)])
  | .base => (.argument, [.base (.ofString text)])

/-- Reads arguments: what is expected behind them, and the settings in order. -/
def read (expectation : Expectation) : List String → Expectation × List Setting
  | [] => (expectation, [])
  | text :: rest =>
    let (expectation, settings) := expectation.next text
    let (final, others) := expectation.read rest
    (final, settings ++ others)

theorem read_append (expectation : Expectation) (xs ys : List String) :
    expectation.read (xs ++ ys) =
      (((expectation.read xs).1.read ys).1,
        (expectation.read xs).2 ++ ((expectation.read xs).1.read ys).2) := by
  induction xs generalizing expectation with
  | nil => simp [read]
  | cons x xs ih => simp [read, ih]

end Expectation

/-- What arguments say about includes. -/
structure Settings where
  /-- The directories for includes in quotes only. -/
  quoteDirectories : List Path
  /-- The directories for includes. -/
  includeDirectories : List Path
  /-- The directories of the system. -/
  systemDirectories : List Path
  /-- The directories that are searched last. -/
  afterDirectories : List Path
  /-- The files that are included in front of the input. -/
  forcedIncludes : List Path
  /-- The precompiled headers in front of the input. -/
  bases : List Path
  /-- Where the output goes. -/
  output : Option Path
  /-- Whether a precompiled header is to be emitted. -/
  emits : Bool
  /-- The inputs. -/
  inputs : List Path
deriving DecidableEq, Repr

namespace Settings

/-- The paths behind a flag, in order. -/
def pathsOf (flag : PathFlag) (settings : List Setting) : List Path :=
  settings.filterMap fun
    | .path f value => if f = flag then some value else none
    | _ => none

/-- Single settings put together. Of several outputs the last one counts. -/
def ofList (settings : List Setting) : Settings where
  quoteDirectories := pathsOf .quote settings
  includeDirectories := pathsOf .search settings
  systemDirectories := pathsOf .system settings
  afterDirectories := pathsOf .after settings
  forcedIncludes := pathsOf .forced settings
  bases := settings.filterMap fun
    | .base value => some value
    | _ => none
  output := (pathsOf .output settings).getLast?
  emits := settings.contains .emit
  inputs := settings.filterMap fun
    | .input value => some value
    | _ => none

/-- The settings of some arguments. -/
def ofArguments (arguments : List String) : Settings :=
  ofList (Expectation.read .argument arguments).2

/-- The settings with paths taken from the directory in which the compiler runs. -/
def absolute (settings : Settings) (directory : Path) : Settings :=
  { settings with
    quoteDirectories := settings.quoteDirectories.map directory.normalizeFrom
    includeDirectories := settings.includeDirectories.map directory.normalizeFrom
    systemDirectories := settings.systemDirectories.map directory.normalizeFrom
    afterDirectories := settings.afterDirectories.map directory.normalizeFrom
    bases := settings.bases.map directory.normalizeFrom
    output := settings.output.map directory.normalizeFrom
    inputs := settings.inputs.map directory.normalizeFrom }

end Settings

end PrecompiledHeaders

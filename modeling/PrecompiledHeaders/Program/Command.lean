import PrecompiledHeaders.Job.Request
import PrecompiledHeaders.Program.Options

/-!
# Commands

The arguments of the program are a command word and options. Some options go with every command,
and may stand in front of the command word or behind it (`globalOptions`); the others go with one
command (`CommandForm`). `Arguments.ofList` reads them all.
-/

namespace PrecompiledHeaders.Program

/-- When diagnostics are coloured. -/
inductive ColourChoice
  /-- If the terminal is known and does not refuse colours. -/
  | auto
  /-- Always. -/
  | always
  /-- Never. -/
  | never
deriving DecidableEq, Repr, Inhabited

/-- The choice with the given word. -/
def ColourChoice.ofWord? : String → Option ColourChoice
  | "auto" => some .auto
  | "always" => some .always
  | "never" => some .never
  | _ => none

/-- How the result of a pass is printed. -/
inductive ReportFormat
  /-- As lines of text. -/
  | text
  /-- As one record. -/
  | json
deriving DecidableEq, Repr, Inhabited

/-- The format with the given word. -/
def ReportFormat.ofWord? : String → Option ReportFormat
  | "text" => some .text
  | "json" => some .json
  | _ => none

/-- What the program is to do. -/
inductive Command
  /-- Make all precompiled headers. -/
  | generate (format : ReportFormat)
  /-- Show the headers that all parts include, or those that a part adds. -/
  | includes (part : Option String)
  /-- Show the command line that makes the precompiled header of a part. -/
  | commandLine (part : String)
  /-- Reparse a unit of a source file, as a part compiles it. -/
  | reparse (file : Path) (part : Option String) (unit : UnitKind)
deriving DecidableEq, Repr, Inhabited

/-- What goes with every command. -/
structure Options where
  /-- Whether only what was asked for is printed. -/
  quiet : Bool := false
  /-- When diagnostics are coloured. -/
  colour : ColourChoice := .auto
  /-- The configuration file, or the directory that it is in. -/
  config : Option Path := none
deriving DecidableEq, Repr, Inhabited

/-- The arguments of the program, taken apart. -/
structure Arguments where
  /-- What goes with every command. -/
  options : Options
  /-- The command. -/
  command : Command
deriving DecidableEq, Repr, Inhabited

/-! ### Forms -/

/-- The option that explains the arguments. -/
def helpOption : CommandOption := ⟨"help", some 'h', .stop .help⟩

/-- The option that tells the version. -/
def versionOption : CommandOption := ⟨"version", some 'V', .stop .version⟩

/-- The options of every command. A path may not be empty. -/
def globalOptions : List CommandOption := [
  ⟨"quiet", some 'q', .flag⟩,
  ⟨"verbose", some 'v', .flag⟩,
  ⟨"color", none, .value fun word => (ColourChoice.ofWord? word).isSome⟩,
  ⟨"config", none, .value (· ≠ "")⟩,
  helpOption]

/-- The option for a part of the project, which may have any name. -/
def partOption : CommandOption := ⟨"part", some 'p', .value fun _ => true⟩

/-- How a command is written. -/
structure CommandForm where
  /-- The command word. -/
  word : String
  /-- The options that go with this command only. -/
  options : List CommandOption
  /-- The greatest number of operands. -/
  operands : Nat := 0
  /-- The command, unless something is missing. -/
  make? : Given → Option Command

/-- How commands are written. -/
def commandForms : List CommandForm := [
  { word := "generate"
    options :=
      [⟨"format", some 'f', .value fun word => (ReportFormat.ofWord? word).isSome⟩]
    make? := fun given =>
      some (.generate (((given.value? "format").bind ReportFormat.ofWord?).getD .text)) },
  { word := "includes"
    options := [partOption]
    make? := fun given => some (.includes (given.value? "part")) },
  { word := "command-line"
    options := [partOption]
    make? := fun given => (given.value? "part").map .commandLine },
  { word := "reparse"
    options := [partOption, ⟨"supportive", none, .flag⟩]
    operands := 1
    make? := fun given => given.operands.head?.map fun file =>
      .reparse (.ofString file) (given.value? "part")
        (if given.has "supportive" then .supportive else .primary) }]

/-- The word that asks for an explanation of the program, or of a command. -/
def helpWord : String := "help"

/-- Whether the words after `help` name something that can be explained. -/
def isTopic : List String → Bool
  | [] => true
  | [word] => word = helpWord || commandForms.any fun form => form.word = word
  | _ => false

/-- How the program is called. -/
def usage : String :=
  "Usage: pchd [--quiet] [--verbose] [--color WHEN] [--config PATH] COMMAND\n\n" ++
  "Commands:\n" ++
  "  generate [--format text|json]\n" ++
  "  includes [--part ID]\n" ++
  "  command-line --part ID\n" ++
  "  reparse [--part ID] [--supportive] FILE\n"

/-- What the program says when it is asked for its version. -/
def versionText : String := "pchd 0.1.0\n"

/-! ### Reading -/

/-- The options for every command. -/
def Options.ofGiven (given : Given) : Options where
  quiet := given.has "quiet"
  colour := ((given.value? "color").bind ColourChoice.ofWord?).getD .auto
  config := (given.value? "config").map .ofString

/-- Reads what stands behind a command word. -/
def CommandForm.read (form : CommandForm) (front : Given) (arguments : List String) :
    Except Stop Arguments := do
  let given ← Level.read ⟨form.options ++ globalOptions, form.operands⟩ arguments
  match form.make? given with
  | none => .error .misuse
  | some command => .ok ⟨.ofGiven (front.and given), command⟩

/-- Takes the arguments of the program apart. -/
def Arguments.ofList (arguments : List String) : Except Stop Arguments := do
  let (front, word, rest) ← Level.readToWord ⟨versionOption :: globalOptions, 0⟩ {} arguments
  if word = helpWord then
    .error (if isTopic rest then .help else .misuse)
  else match commandForms.find? fun form => form.word = word with
    | none => .error .misuse
    | some form => form.read front rest

end PrecompiledHeaders.Program

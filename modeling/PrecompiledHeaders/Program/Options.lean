/-!
# Options

How the arguments of a program are read: words that start with `-` are options, the others are
values of options or *operands*. A long option `--name` may have its value behind `=` or in the next
argument. A short one `-n` may have it right behind it, with or without `=`, or in the next
argument, and short options without values may stand together. After `--` all arguments are
operands.

An argument is one step of a `Reading`, and the first step that goes wrong decides, as does the
first option that asks for something other than a run (`Stop`). No option may be given twice.
-/

namespace PrecompiledHeaders.Program

/-- Why the program does not do its work. -/
inductive Stop
  /-- The arguments are wrong. -/
  | misuse
  /-- An explanation of the arguments was asked for. -/
  | help
  /-- The version was asked for. -/
  | version
deriving DecidableEq, Repr

/-- What an option does. -/
inductive OptionKind
  /-- It is set, and has no value. -/
  | flag
  /-- It has a value, one of those that are accepted. -/
  | value (accepts : String → Bool)
  /-- It asks for something other than a run. -/
  | stop (why : Stop)

/-- An option. -/
structure CommandOption where
  /-- The name behind `--`. -/
  name : String
  /-- The letter behind `-`. -/
  letter : Option Char
  /-- What it does. -/
  kind : OptionKind

/-- What may be given: options, and up to so many operands. -/
structure Level where
  /-- The options. -/
  options : List CommandOption
  /-- The greatest number of operands. -/
  operands : Nat := 0

/-- What has been given. -/
structure Given where
  /-- The names of the options without values. -/
  flags : List String := []
  /-- The names of the options with values, and the values. -/
  values : List (String × String) := []
  /-- The operands. -/
  operands : List String := []
deriving DecidableEq, Repr, Inhabited

namespace Given

/-- Whether an option without a value was given. -/
def has (given : Given) (name : String) : Bool := given.flags.contains name

/-- The value of an option. -/
def value? (given : Given) (name : String) : Option String := given.values.lookup name

/-- What was given in two places. For an option with a value the second place counts. -/
def and (outer inner : Given) : Given :=
  ⟨inner.flags ++ outer.flags, inner.values ++ outer.values, outer.operands ++ inner.operands⟩

end Given

/-- How far arguments have been read. -/
structure Reading where
  /-- What has been given. -/
  given : Given := {}
  /-- The option whose value comes next. -/
  awaiting : Option CommandOption := none
  /-- Whether only operands follow. -/
  escaped : Bool := false

namespace Reading

/-- Gives an option its value. -/
def give (reading : Reading) (option : CommandOption) (value : String) : Except Stop Reading :=
  match option.kind with
  | .value accepts =>
    if (reading.given.value? option.name).isSome || !accepts value then .error .misuse
    else
      let values := (option.name, value) :: reading.given.values
      .ok { reading with given := { reading.given with values }, awaiting := none }
  | _ => .error .misuse

/-- Mentions an option, with no value beside it. -/
def mention (reading : Reading) (option : CommandOption) : Except Stop Reading :=
  match option.kind with
  | .value _ => .ok { reading with awaiting := some option }
  | .stop why => .error why
  | .flag =>
    if reading.given.has option.name then .error .misuse
    else
      let flags := option.name :: reading.given.flags
      .ok { reading with given := { reading.given with flags } }

/-- Adds an operand. There may not be too many, and none may be empty. -/
def operand (level : Level) (reading : Reading) (word : String) : Except Stop Reading :=
  if level.operands ≤ reading.given.operands.length ∨ word = "" then .error .misuse
  else
    let operands := reading.given.operands ++ [word]
    .ok { reading with given := { reading.given with operands } }

/-- Reads what stands behind `--`: a name, and perhaps a value. -/
def long (level : Level) (reading : Reading) (text : List Char) : Except Stop Reading :=
  let name := String.ofList (text.takeWhile (· ≠ '='))
  match level.options.find? fun option => option.name = name with
  | none => .error .misuse
  | some option =>
    match text.dropWhile (· ≠ '=') with
    | [] => reading.mention option
    | _ :: value => reading.give option (String.ofList value)

/-- Reads what stands behind `-`: letters, and perhaps a value for the last one. -/
def short (level : Level) (reading : Reading) : List Char → Except Stop Reading
  | [] => .ok reading
  | letter :: rest =>
    match level.options.find? fun option => option.letter = some letter with
    | none => .error .misuse
    | some option =>
      match option.kind, rest with
      | .value _, '=' :: value => reading.give option (String.ofList value)
      | .value _, value@(_ :: _) => reading.give option (String.ofList value)
      | _, _ => do short level (← reading.mention option) rest

/-- Reads an argument that starts with `-` and goes on. -/
def dashed (level : Level) (reading : Reading) : List Char → Except Stop Reading
  | ['-'] => .ok { reading with escaped := true }
  | '-' :: text => reading.long level text
  | text => reading.short level text

/-- Reads an argument. An option's value may not look like an option. -/
def step (level : Level) (reading : Reading) (argument : String) : Except Stop Reading :=
  if reading.escaped then reading.operand level argument
  else match argument.toList, reading.awaiting with
    | '-' :: _ :: _, some _ => .error .misuse
    | '-' :: first :: rest, none => reading.dashed level (first :: rest)
    | _, some option => reading.give option argument
    | _, none => reading.operand level argument

/-- What was given, if no option is left without its value. -/
def finish (reading : Reading) : Except Stop Given :=
  if reading.awaiting.isSome then .error .misuse else .ok reading.given

end Reading

namespace Level

/-- Reads arguments to their end. -/
def read (level : Level) (arguments : List String) : Except Stop Given := do
  (← arguments.foldlM (Reading.step level) {}).finish

/-- Whether an argument is a word on its own, and neither an option nor the value of one. -/
def isWord (reading : Reading) (argument : String) : Bool :=
  !reading.escaped && reading.awaiting.isNone &&
    match argument.toList with
    | '-' :: _ :: _ => false
    | _ => true

/-- Reads arguments up to the first word; gives that word and the arguments behind it, too. There
    has to be one. -/
def readToWord (level : Level) (reading : Reading) :
    List String → Except Stop (Given × String × List String)
  | [] => .error .misuse
  | argument :: rest =>
    if isWord reading argument then .ok (reading.given, argument, rest)
    else do readToWord level (← reading.step level argument) rest

end Level

end PrecompiledHeaders.Program

import PrecompiledHeaders.Snapshot.Basic

/-!
# Frontends

A frontend does the work of a compiler as far as it concerns precompiled headers: it tells which
headers a unit includes (`Frontend.preprocess`) and compiles, which may write files
(`Frontend.compile`). Both give back the file tree as it is afterwards.
-/

namespace PrecompiledHeaders

/-- A call of a compiler. -/
structure Invocation where
  /-- The compiler. -/
  compiler : String
  /-- The arguments, without the compiler. -/
  arguments : List String
  /-- The directory in which the compiler runs. -/
  directory : Path
deriving DecidableEq, Repr, Inhabited

/-- An include that leads to no file. -/
structure UnresolvedInclude where
  /-- The file with the include. -/
  includer : Path
  /-- The name of the header, as it is written. -/
  spelling : String
deriving DecidableEq, Repr

/-- What there is to tell about a unit. -/
structure Preprocessed where
  /-- The headers that are included, in the order in which they are entered first. -/
  headers : List Path
  /-- The includes that lead to no file. -/
  unresolved : List UnresolvedInclude
deriving DecidableEq, Repr, Inhabited

/-- Why a frontend gives up. -/
inductive FrontendError
  /-- The compiler cannot be started. -/
  | spawn (program reason : String)
  /-- The compiler ended with a code that tells of failure, or, without a code, by a signal. -/
  | failed (program : String) (status : Option Int) (stderr : String)
  /-- The unit cannot be read. -/
  | unreadableInput (path : Path) (reason : FileError)
  /-- There is no unit among the arguments. -/
  | missingInput
  /-- It is not said where the precompiled header goes. -/
  | missingOutput
  /-- A file is no snapshot, or a snapshot cannot be put in one. -/
  | invalidSnapshot (path : Path) (reason : SnapshotError)
  /-- A file cannot be written. -/
  | unwritable (path : Path) (reason : FileError)
  /-- There is no frontend of this name. -/
  | unknownFrontend (name : String)
deriving DecidableEq, Repr

namespace FrontendError

/-- How a compiler ended. -/
def ending : Option Int → String
  | some code => s!"exited with code {code}"
  | none => "crashed (terminated by signal)"

/-- The text of the error. -/
def message : FrontendError → String
  | .spawn program reason => s!"failed to start {program}: {reason}"
  | .failed program status _ => s!"{program} {ending status}"
  | .unreadableInput path reason =>
    s!"cannot read translation unit {path.display}: {reason.message}"
  | .missingInput => "no input file in compiler arguments"
  | .missingOutput => "PCH emission requested without an output path"
  | .invalidSnapshot path reason => s!"invalid PCH snapshot {path.display}: {reason.message}"
  | .unwritable path reason => s!"cannot write {path.display}: {reason.message}"
  | .unknownFrontend name => s!"unknown frontend '{name}'"

/-- Whether the compiler was ended by a signal. -/
def isCrash : FrontendError → Bool
  | .failed _ none _ => true
  | _ => false

end FrontendError

/-- Something that does the work of a compiler. -/
structure Frontend where
  /-- The name of the frontend. -/
  name : String
  /-- The headers that a unit includes, without excluded ones and what only these include. -/
  preprocess : FileTree → Invocation → (excluded : List Path) →
    Except FrontendError Preprocessed × FileTree
  /-- Compiles. -/
  compile : FileTree → Invocation → Except FrontendError Unit × FileTree

end PrecompiledHeaders

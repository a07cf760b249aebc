import PrecompiledHeaders.Diagnostic.Basic
import PrecompiledHeaders.Job.Request
import PrecompiledHeaders.Path.Table

/-!
# Documents

A document is a source file that is open, with the arguments it is compiled with. Each change
gives it a new revision. It holds the last results for its two units, and it is in need of a
reparse until a result for the current revision has come in for the primary one.
-/

namespace PrecompiledHeaders

/-- What a reparse works on: a document as it is at some revision. -/
structure UpdateInput where
  /-- The source file. -/
  file : Path
  /-- The compiler. -/
  compiler : String
  /-- The arguments for the compiler. -/
  arguments : List String
  /-- The directory in which the compiler runs. -/
  directory : Path
  /-- The revision. -/
  revision : Nat
deriving DecidableEq, Repr, Inhabited

/-- What a reparse gives. -/
structure UpdateResult where
  /-- The revision of the document it started from. -/
  revision : Nat
  /-- The headers that the unit includes, in the order in which they are entered first. -/
  includes : List PathId
  /-- What is wrong with the unit. -/
  diagnostics : List Diagnostic
deriving DecidableEq, Repr, Inhabited

/-- A source file that is open. -/
structure Document where
  /-- The source file. -/
  file : Path
  /-- The project part that it belongs to. -/
  part : String
  /-- The compiler. -/
  compiler : String
  /-- The arguments for the compiler. -/
  arguments : List String
  /-- The directory in which the compiler runs. -/
  directory : Path
  /-- The number of the current revision. -/
  revision : Nat
  /-- Whether a result for the current revision is missing. -/
  needsReparse : Bool
  /-- The last result for the primary unit. -/
  primary : Option UpdateResult
  /-- The last result for the supportive unit. -/
  supportive : Option UpdateResult
deriving DecidableEq, Repr, Inhabited

namespace Document

/-- A document that has just been opened. -/
def new (file : Path) (part compiler : String) (arguments : List String) (directory : Path) :
    Document :=
  ⟨file, part, compiler, arguments, directory, 1, true, none, none⟩

/-- The document after a change, which may have given it other arguments. -/
def update (document : Document) (arguments : Option (List String)) : Document :=
  { document with
    arguments := arguments.getD document.arguments
    revision := document.revision + 1
    needsReparse := true }

/-- What a reparse of the document works on. -/
def updateInput (document : Document) : UpdateInput :=
  ⟨document.file, document.compiler, document.arguments, document.directory, document.revision⟩

/-- The last result for a unit. -/
def result? (document : Document) : UnitKind → Option UpdateResult
  | .primary => document.primary
  | .supportive => document.supportive

/-- The document with a new result for a unit. -/
def incorporate (document : Document) (unit : UnitKind) (result : UpdateResult) : Document :=
  match unit with
  | .primary =>
    { document with
      primary := some result
      needsReparse := document.needsReparse && result.revision ≠ document.revision }
  | .supportive => { document with supportive := some result }

end Document

/-- What is wrong with a request. -/
inductive Malformation
  /-- It is not of the kind that the job is for. -/
  | wrongKind (expected found : RequestKind)
  /-- Its document is not open. -/
  | notOpen (file : Path)
deriving DecidableEq, Repr

/-- Why something cannot be done with documents. -/
inductive JobError
  /-- A request is malformed. -/
  | malformed (why : Malformation)
  /-- A document is not open. -/
  | notOpen (file : Path)
  /-- A document is open already. -/
  | alreadyOpen (file : Path)
deriving DecidableEq, Repr

/-- The text of the error. -/
def JobError.message : JobError → String
  | .malformed (.wrongKind expected found) =>
    s!"malformed job request: expected a {expected.label} request, got {found.label}"
  | .malformed (.notOpen file) => s!"malformed job request: {file.display} is not open"
  | .notOpen file => s!"document {file.display} is not open"
  | .alreadyOpen file => s!"document {file.display} is already open"

/-- The documents that are open. -/
structure Documents where
  /-- The documents; their files differ pairwise. -/
  entries : List Document
deriving DecidableEq, Repr, Inhabited

namespace Documents

/-- No documents. -/
def empty : Documents := ⟨[]⟩

/-- The number of documents. -/
def size (documents : Documents) : Nat := documents.entries.length

/-- The document of a file. -/
def get? (documents : Documents) (file : Path) : Option Document :=
  documents.entries.find? fun document => Path.Same file document.file

/-- Whether a file is open. -/
def contains (documents : Documents) (file : Path) : Bool := (documents.get? file).isSome

/-- The document of a file, which has to be open. -/
def get (documents : Documents) (file : Path) : Except JobError Document :=
  match documents.get? file with
  | some document => .ok document
  | none => .error (.notOpen file)

/-- Opens a document. -/
def opened (documents : Documents) (document : Document) : Except JobError Documents :=
  if documents.contains document.file then .error (.alreadyOpen document.file)
  else .ok ⟨documents.entries ++ [document]⟩

/-- Closes the document of a file. -/
def closed (documents : Documents) (file : Path) : Except JobError (Document × Documents) := do
  let document ← documents.get file
  return (document, ⟨documents.entries.filter fun other => !Path.Same file other.file⟩)

/-- Changes the document of a file. -/
def modify (documents : Documents) (file : Path) (change : Document → Document) : Documents :=
  ⟨documents.entries.map fun document =>
    if Path.Same file document.file then change document else document⟩

end Documents

end PrecompiledHeaders

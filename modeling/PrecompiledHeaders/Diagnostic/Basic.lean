import PrecompiledHeaders.Datum.Basic
import PrecompiledHeaders.Diagnostic.Code
import PrecompiledHeaders.Path.Basic

/-!
# Diagnostics

A diagnostic tells about one problem: how serious it is, which kind it is, a message, the file it
concerns and notes. Diagnostics are rendered for a terminal (`Diagnostic.render`) and exchanged
as data (`Diagnostic.toDatum?`, `Diagnostic.ofDatum?`).
-/

namespace PrecompiledHeaders

/-- How serious a problem is. -/
inductive Severity
  /-- Something worth knowing. -/
  | note
  /-- Something was skipped or guessed, but the work went on. -/
  | warning
  /-- Something failed. -/
  | error
deriving DecidableEq, Repr, Inhabited

namespace Severity

/-- All severities, the least serious first. -/
def all : List Severity := [.note, .warning, .error]

/-- The word for the severity. -/
def label : Severity → String
  | .note => "note"
  | .warning => "warning"
  | .error => "error"

/-- The place of the severity among all. -/
def rank : Severity → Nat
  | .note => 0
  | .warning => 1
  | .error => 2

/-- The severities that are less serious, the least serious first. -/
def below (s : Severity) : List Severity := all.filter fun t => t.rank < s.rank

/-- The severity with the given word. -/
def ofLabel? (label : String) : Option Severity := all.find? fun s => s.label = label

/-- The severity that a datum writes by its word. -/
def ofDatum? (datum : Datum) : Option Severity := do
  ofLabel? (← datum.word?)

end Severity

/-- A problem that is told to the user. -/
structure Diagnostic where
  /-- How serious it is. -/
  severity : Severity
  /-- Which kind of problem it is. -/
  code : DiagnosticCode
  /-- What happened. -/
  message : String
  /-- The file it concerns. -/
  file : Option Path
  /-- Further explanations. -/
  notes : List String
deriving DecidableEq, Repr, Inhabited

namespace Diagnostic

/-- An error about a file. -/
def error (code : DiagnosticCode) (message : String) (file : Path) : Diagnostic :=
  ⟨.error, code, message, some file, []⟩

/-- A warning about a file. -/
def warning (code : DiagnosticCode) (message : String) (file : Path) : Diagnostic :=
  ⟨.warning, code, message, some file, []⟩

/-! ### Rendering -/

/-- The control sequence that turns on the colour of a severity. -/
def colour : Severity → String
  | .error => "\x1b[1;31m"
  | .warning => "\x1b[1;33m"
  | .note => "\x1b[1;36m"

/-- The heading of a diagnostic: its severity and code, coloured if wanted. -/
def heading (coloured : Bool) (d : Diagnostic) : String :=
  let plain := d.severity.label ++ "[" ++ d.code.text ++ "]"
  if coloured then colour d.severity ++ plain ++ "\x1b[0m" else plain

/-- A diagnostic as it is shown on a terminal: the heading with the message, then the file, then
    each note, every one on a line of its own. -/
def render (coloured : Bool) (d : Diagnostic) : String :=
  d.heading coloured ++ ": " ++ d.message ++ "\n" ++
    (match d.file with
      | some file => "  --> " ++ file.display ++ "\n"
      | none => "") ++
    String.join (d.notes.map fun note => "   = note: " ++ note ++ "\n")

/-! ### As data -/

/-- The fields of a diagnostic, in order. -/
def fieldNames : List String := ["severity", "code", "message", "file", "notes"]

/-- A diagnostic as a record; nothing if its file is no text. -/
def toDatum? (d : Diagnostic) : Option Datum := do
  let file ← match d.file with
    | none => some .null
    | some file => file.text?.map .ofString
  return .ofFields [
    ("severity", .ofString d.severity.label),
    ("code", .ofString d.code.text),
    ("message", .ofString d.message),
    ("file", file),
    ("notes", .list (d.notes.map .ofString))]

/-- The code that a datum writes. -/
def codeOfDatum? (datum : Datum) : Option DiagnosticCode := do
  (DiagnosticCode.ofText (← datum.string?)).toOption

/-- The file that a datum writes: nothing, or a path as text. -/
def fileOfDatum? : Datum → Option (Option Path)
  | .null => some none
  | .text (some text) => some (some (.ofString text))
  | _ => none

/-- The diagnostic that a datum writes: a record, in which only the file may be missing, or a list
    of all the fields. -/
def ofDatum? (datum : Datum) : Option Diagnostic := do
  if let .list items := datum then
    if items.length < fieldNames.length then failure
  let fields ← datum.fields? true fieldNames
  return {
    severity := ← fields.required? "severity" Severity.ofDatum?
    code := ← fields.required? "code" codeOfDatum?
    message := ← fields.required? "message" Datum.string?
    file := ← fields.withDefault? "file" none fileOfDatum?
    notes := ← fields.required? "notes" Datum.strings? }

end Diagnostic

end PrecompiledHeaders

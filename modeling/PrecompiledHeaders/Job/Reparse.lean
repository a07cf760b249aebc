import PrecompiledHeaders.Compiler.Task
import PrecompiledHeaders.Frontend.Basic
import PrecompiledHeaders.Job.Document

/-!
# Reparsing

A reparse finds out which headers a document includes. It works on a copy of what it needs of the
document, so that the document may change in the meantime. If the frontend gives up, that is a
diagnostic on a result without headers.
-/

namespace PrecompiledHeaders.UpdateInput

/-- The call of the compiler that lists the headers. -/
def invocation (input : UpdateInput) : Invocation :=
  ⟨input.compiler, Task.arguments input.arguments (.preprocess input.file), input.directory⟩

/-- The code of the diagnostic about a frontend that gave up. -/
def failureCode : FrontendError → DiagnosticCode
  | .unreadableInput _ _ => .unreadableUnit
  | _ => .frontendFailure

/-- The result of a reparse, from what the frontend gives; the headers get their ids. -/
def resultOf (input : UpdateInput) (table : PathTable) :
    Except FrontendError Preprocessed → UpdateResult × PathTable
  | .error e => (⟨input.revision, [], [.error (failureCode e) e.message input.file]⟩, table)
  | .ok found =>
    let (ids, table) := table.ids found.headers
    let warnings := found.unresolved.map fun missing =>
      Diagnostic.warning .unresolvedInclude s!"'{missing.spelling}' file not found"
        missing.includer
    (⟨input.revision, ids, warnings⟩, table)

/-- Reparses. -/
def reparse (input : UpdateInput) (frontend : Frontend) (tree : FileTree) (table : PathTable) :
    UpdateResult × FileTree × PathTable :=
  let (found, tree) := frontend.preprocess tree input.invocation []
  let (result, table) := input.resultOf table found
  (result, tree, table)

end PrecompiledHeaders.UpdateInput

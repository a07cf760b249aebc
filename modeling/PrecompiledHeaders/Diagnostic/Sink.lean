import PrecompiledHeaders.Diagnostic.Basic

/-!
# Diagnostic sinks

A sink keeps the diagnostics of a piece of work until they are taken, and counts the errors and
warnings among all it ever got: taking the diagnostics does not reset the counts.
-/

namespace PrecompiledHeaders

/-- The diagnostics that were emitted and not yet taken, and counts of all that were emitted. -/
structure DiagnosticSink where
  /-- The diagnostics not yet taken, in order. -/
  pending : List Diagnostic
  /-- How many errors were emitted. -/
  errors : Nat
  /-- How many warnings were emitted. -/
  warnings : Nat
deriving DecidableEq, Repr, Inhabited

namespace DiagnosticSink

/-- The sink that got nothing yet. -/
def empty : DiagnosticSink := ⟨[], 0, 0⟩

/-- Emits one diagnostic. -/
def emit (sink : DiagnosticSink) (d : Diagnostic) : DiagnosticSink where
  pending := sink.pending ++ [d]
  errors := sink.errors + if d.severity = .error then 1 else 0
  warnings := sink.warnings + if d.severity = .warning then 1 else 0

/-- Emits diagnostics in order. -/
def extend (sink : DiagnosticSink) (ds : List Diagnostic) : DiagnosticSink :=
  ds.foldl emit sink

/-- Takes the diagnostics. -/
def takeAll (sink : DiagnosticSink) : List Diagnostic × DiagnosticSink :=
  (sink.pending, { sink with pending := [] })

/-- Whether any error was emitted. -/
def hasErrors (sink : DiagnosticSink) : Bool := 0 < sink.errors

/-- The sink as the log shows it. -/
def summary (sink : DiagnosticSink) : String :=
  "DiagnosticSink \x7b pending: " ++ toString sink.pending.length ++ ", errors: " ++
    toString sink.errors ++ ", warnings: " ++ toString sink.warnings ++ " \x7d"

end DiagnosticSink

end PrecompiledHeaders

import PrecompiledHeaders.Frontend.Basic
import PrecompiledHeaders.Include.Trace

/-!
# The process frontend

The process frontend runs the compiler as a program of its own. How programs run is up to a
`Launcher`. For the headers of a unit it relies on the header trace that the compiler writes with
its complaints.
-/

namespace PrecompiledHeaders

/-- How the run of a program ends. -/
inductive Outcome
  /-- The program could not be started. -/
  | refused (reason : String)
  /-- The program ended with a code, or, without one, by a signal. -/
  | ended (status : Option Int) (stderr : Bytes)
deriving DecidableEq, Repr

/-- Runs programs. A program may change files. -/
abbrev Launcher := FileTree → Invocation → Outcome × FileTree

namespace Frontend

/-- What a program has written, if it ended well. -/
def output (invocation : Invocation) : Outcome → Except FrontendError Bytes
  | .refused reason => .error (.spawn invocation.compiler reason)
  | .ended (some 0) stderr => .ok stderr
  | .ended status stderr =>
    .error (.failed invocation.compiler status (String.ofList (Utf8.decodeLossy stderr)))

/-- The frontend that runs compilers. -/
def process (launch : Launcher) : Frontend where
  name := "process"
  preprocess tree invocation excluded :=
    let (outcome, tree) := launch tree invocation
    match output invocation outcome with
    | .error e => (.error e, tree)
    | .ok stderr =>
      let excluded := excluded.map fun p => tree.identity (invocation.directory.normalizeFrom p)
      let trace := Utf8.decodeLossy stderr
      (.ok ⟨HeaderTrace.headers tree invocation.directory excluded trace, []⟩, tree)
  compile tree invocation :=
    let (outcome, tree) := launch tree invocation
    ((output invocation outcome).map fun _ => (), tree)

end Frontend

end PrecompiledHeaders

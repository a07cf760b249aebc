import PrecompiledHeaders.Frontend.Scan

/-!
# Failing frontends

A frontend that fails at certain calls, and otherwise leaves the work to the scanner. It stands
in for compilers that crash, so that what happens then can be tried out.
-/

namespace PrecompiledHeaders

/-- A call that fails, and how. -/
structure Fault where
  /-- Whether it is a call to compile, or one to preprocess. -/
  compiles : Bool
  /-- What one of the arguments has to end with. -/
  suffix : List Char
  /-- The code of the compiler, or none if it ends by a signal. -/
  status : Option Int
  /-- What the compiler writes. -/
  stderr : String
deriving DecidableEq, Repr

namespace Fault

/-- Whether a call is one that fails. -/
def applies (fault : Fault) (compiles : Bool) (invocation : Invocation) : Bool :=
  fault.compiles = compiles &&
    invocation.arguments.any fun argument => fault.suffix.isSuffixOf argument.toList

/-- The error of a call, by the first fault that applies. -/
def error? (faults : List Fault) (compiles : Bool) (invocation : Invocation) :
    Option FrontendError :=
  (faults.find? fun fault => fault.applies compiles invocation).map fun fault =>
    .failed invocation.compiler fault.status fault.stderr

end Fault

/-- The frontend that fails at the calls given by faults. -/
def Frontend.failing (faults : List Fault) : Frontend where
  name := "fault"
  preprocess tree invocation excluded :=
    match Fault.error? faults false invocation with
    | some e => (.error e, tree)
    | none => Frontend.scan.preprocess tree invocation excluded
  compile tree invocation :=
    match Fault.error? faults true invocation with
    | some e => (.error e, tree)
    | none => Frontend.scan.compile tree invocation

end PrecompiledHeaders

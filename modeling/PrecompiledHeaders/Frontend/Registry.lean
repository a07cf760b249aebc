import PrecompiledHeaders.Frontend.Process
import PrecompiledHeaders.Frontend.Scan

/-!
# Frontend registries

A registry knows frontends by name. The name under which a frontend is registered need not be
its own.
-/

namespace PrecompiledHeaders

/-- Frontends under names. -/
structure Registry where
  /-- The names in ascending order, each with its frontend. -/
  entries : List (String × Frontend)

namespace Registry

/-- The registry without frontends. -/
def empty : Registry := ⟨[]⟩

/-- Puts a frontend among others, in front of the first with a greater name. -/
def insert (name : String) (frontend : Frontend) : List (String × Frontend) →
    List (String × Frontend)
  | [] => [(name, frontend)]
  | (other, f) :: rest =>
    if name < other then (name, frontend) :: (other, f) :: rest
    else if name = other then (name, frontend) :: rest
    else (other, f) :: insert name frontend rest

/-- Registers a frontend, in place of the one that had the name. -/
def register (registry : Registry) (name : String) (frontend : Frontend) : Registry :=
  ⟨insert name frontend registry.entries⟩

/-- The registry of the frontends there are, with a launcher for programs. -/
def defaults (launch : Launcher) : Registry :=
  (empty.register "scan" .scan).register "process" (.process launch)

/-- The names, in ascending order. -/
def names (registry : Registry) : List String := registry.entries.map Prod.fst

/-- The frontend with a name. -/
def create (registry : Registry) (name : String) : Except FrontendError Frontend :=
  match registry.entries.lookup name with
  | some frontend => .ok frontend
  | none => .error (.unknownFrontend name)

end Registry

end PrecompiledHeaders

import PrecompiledHeaders.Path.Basic

/-!
# Compiler tasks

What a compiler is asked to do around precompiled headers: list the headers that a unit includes,
emit a precompiled header, or compile a unit on top of one. The arguments of a task come behind
the arguments of the project part (`Task.arguments`).
-/

namespace PrecompiledHeaders

/-- Something that a compiler is asked to do. -/
inductive Task
  /-- Preprocess a unit and list the headers it includes. -/
  | preprocess (input : Path)
  /-- Compile a header and write it as a precompiled header to the target, on top of another
      precompiled header if one is given. -/
  | emit (header target : Path) (base : Option Path)
  /-- Compile a unit on top of a precompiled header. -/
  | consume (base input : Path)
deriving DecidableEq, Repr

namespace Task

/-- The arguments that put a precompiled header in front of the input. -/
def baseArguments (base : Path) : List String :=
  ["-Xclang", "-include-pch", "-Xclang", base.display]

/-- The arguments of a task alone. -/
def ownArguments : Task → List String
  | .preprocess input => ["-E", "-H", input.display]
  | .emit header target base =>
    ["-x", "c++-header"] ++ (base.map baseArguments).getD [] ++
      ["-Xclang", "-emit-pch", "-o", target.display, header.display]
  | .consume base input => baseArguments base ++ [input.display]

/-- The arguments of a task, behind those of a project part. -/
def arguments (part : List String) (task : Task) : List String :=
  part ++ task.ownArguments

end Task

/-- A compiler with its arguments. -/
def commandLine (compiler : String) (arguments : List String) : List String :=
  compiler :: arguments

end PrecompiledHeaders

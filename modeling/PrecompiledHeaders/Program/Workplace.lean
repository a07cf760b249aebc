import PrecompiledHeaders.Datum.Json
import PrecompiledHeaders.FileTree.Change
import PrecompiledHeaders.Program.Run
import PrecompiledHeaders.Shell.Launch

/-!
# Workplaces

A workplace is where the program runs: files, a current directory and the variables that are set.
It is written as a record, such as

    {"directory": "/work", "variables": ["TERM"], "files": {"/work/a.h": "#pragma once\n"}}

of which only the directory has to be there.
-/

namespace PrecompiledHeaders.Program

/-- Where the program runs. -/
structure Workplace where
  /-- The files, and the current directory. -/
  tree : FileTree
  /-- The names of the variables that are set. -/
  defined : List String

namespace Workplace

/-- The tree with another file, and the directories above it. -/
def addFile? (tree : FileTree) (p : Path) (text : String) : Option FileTree :=
  let tree := match p.parent? with
    | some above => (tree.makeDirectories above).2
    | none => tree
  (tree.write p (Utf8.encode text.toList)).toOption

/-- The files of a record, each under its path. -/
def filesOfDatum? (tree : FileTree) : Datum → Option FileTree
  | .record fields => fields.foldlM (fun tree (name?, text) => do
      addFile? tree (.ofString (← name?)) (← text.string?)) tree
  | _ => none

/-- The workplace that a datum writes. -/
def ofDatum? (datum : Datum) : Option Workplace := do
  let fields ← datum.fields? true ["directory", "variables", "files"]
  let directory ← fields.required? "directory" Datum.string?
  let tree := ((FileTree.system []).makeDirectories (.ofString directory)).2
  let tree ← fields.withDefault? "files" tree (filesOfDatum? tree)
  return {
    tree := { tree with here := ← (tree.locate (.ofString directory)).toOption }
    defined := ← fields.withDefault? "variables" [] Datum.strings? }

/-- What a run in the workplace finds around it. -/
def surroundings (workplace : Workplace) : Surroundings where
  frontends := .defaults Shell.launch
  terminalKnown := workplace.defined.contains "TERM"
  coloursRefused := workplace.defined.contains "NO_COLOR"

/-- What a run of the program prints, in the workplace that a text writes. -/
def runIn (text : String) (arguments : List String) : Output :=
  match (Json.ofBytes? (Utf8.encode text.toList)).bind ofDatum? with
  | none => { code := 1, err := "error: there is no workplace\n" }
  | some workplace => (run workplace.surroundings arguments workplace.tree).1

end Workplace

end PrecompiledHeaders.Program

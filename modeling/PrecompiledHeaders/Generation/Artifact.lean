import PrecompiledHeaders.Datum.Basic
import PrecompiledHeaders.Path.Table

/-!
# Artifacts

What a pass of the generator has made: precompiled headers, each for all parts of a project or
for one of them, and the headers that each part includes on top of the common ones.
-/

namespace PrecompiledHeaders

/-- What a precompiled header is for. -/
inductive Scope
  /-- All parts of the project. -/
  | global
  /-- One part. -/
  | part (id : String)
deriving DecidableEq, Repr, Inhabited

namespace Scope

/-- The part, if the precompiled header is for one. -/
def part? : Scope → Option String
  | .global => none
  | .part id => some id

/-- The scope as a record. -/
def toDatum : Scope → Datum
  | .global => .ofFields [("scope", .ofString "global")]
  | .part id => .ofFields [("scope", .ofString "project_part"), ("id", .ofString id)]

/-- The scope with a word and the datum beside it. -/
def ofWord? (word : String) (id : Option Datum) : Option Scope :=
  match word, id with
  | "global", none | "global", some .null => some .global
  | "project_part", some id => id.string?.map .part
  | _, _ => none

/-- The scope that a datum writes: a list of the word, as a text, and what stands beside it, or a
    record of both, where the word may have any form that words of choices have. -/
def ofDatum? : Datum → Option Scope
  | .list items => do
    let [word, id] := items | failure
    ofWord? (← word.string?) (some id)
  | datum => do
    let fields ← datum.fields? true ["scope", "id"]
    ofWord? (← fields.required? "scope" Datum.word?) (fields "id")

end Scope

/-- A precompiled header that was emitted. -/
structure Artifact where
  /-- What it is for. -/
  scope : Scope
  /-- Its file. -/
  path : Path
  /-- The header that it was compiled from. -/
  header : Path
  /-- The command line that made it. -/
  commandLine : List String
  /-- The headers in it, in the order of the header file. -/
  includes : List PathId
deriving DecidableEq, Repr, Inhabited

namespace Artifact

/-- A path as text. -/
def pathDatum? (p : Path) : Option Datum := p.text?.map .ofString

/-- Ids as numbers. -/
def idsDatum (ids : List PathId) : Datum := .list (ids.map fun id => .integer id.index)

/-- An artifact as a record; none if a path is no text. -/
def toDatum? (artifact : Artifact) : Option Datum := do
  return .ofFields [
    ("scope", artifact.scope.toDatum),
    ("path", ← pathDatum? artifact.path),
    ("header_path", ← pathDatum? artifact.header),
    ("arguments", .list (artifact.commandLine.map .ofString)),
    ("include_ids", idsDatum artifact.includes)]

end Artifact

/-- The headers that a part includes on top of the common ones. -/
structure PartIncludes where
  /-- The part. -/
  part : String
  /-- The headers. -/
  includes : List PathId
deriving DecidableEq, Repr, Inhabited

end PrecompiledHeaders

import PrecompiledHeaders.Datum.Basic
import PrecompiledHeaders.Path.Basic

/-!
# Project parts

A project part is one way in which a part of a project is compiled: the arguments for the
compiler, and the headers and sources that are compiled with them.
-/

namespace PrecompiledHeaders

/-- Files of a project that are compiled with the same arguments. -/
structure ProjectPart where
  /-- The name of the part, by which it is asked for. -/
  id : String
  /-- The arguments for the compiler, without the compiler itself. -/
  arguments : List String
  /-- The headers that belong to the part. -/
  headers : List Path
  /-- The sources that belong to the part. -/
  sources : List Path
deriving DecidableEq, Repr, Inhabited

namespace ProjectPart

/-- The headers and then the sources of the part, each path once. -/
def headerAndSourcePaths (part : ProjectPart) : List Path :=
  Path.dedup (part.headers ++ part.sources)

/-- The fields of a project part, in order. -/
def fieldNames : List String := ["id", "arguments", "headers", "sources"]

/-- The paths that a list of texts writes. -/
def pathsOfDatum? (datum : Datum) : Option (List Path) := do
  return (← datum.strings?).map .ofString

/-- The project part that a datum writes. Only the name has to be there. -/
def ofDatum? (exact : Bool) (datum : Datum) : Option ProjectPart := do
  let fields ← datum.fields? exact fieldNames
  return {
    id := ← fields.required? "id" Datum.string?
    arguments := ← fields.withDefault? "arguments" [] Datum.strings?
    headers := ← fields.withDefault? "headers" [] pathsOfDatum?
    sources := ← fields.withDefault? "sources" [] pathsOfDatum? }

end ProjectPart

end PrecompiledHeaders

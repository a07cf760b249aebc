import PrecompiledHeaders.Path.Key
import PrecompiledHeaders.Path.Normal
import PrecompiledHeaders.Text.Interner

/-!
# Path tables

A path table gives each normal path a small number, its *id*: ids are given out in the order in
which paths are first seen, without gaps, and never change. Include sets, reports and job
results name headers by id; the table resolves ids back to paths.

Ids are the numbers that an interner gives to the keys of normal paths (`Interner.pathId`). The
table is one such interner (`PathTable.interner`).
-/

namespace PrecompiledHeaders

/-- The number of a path in a path table. -/
structure PathId where
  /-- The place of the path in the order of first sight. -/
  index : Nat
deriving DecidableEq, Hashable, Repr, Inhabited

/-- The error of looking up a number that no path has. -/
structure UnresolvedPath where
  /-- The number. -/
  id : PathId
deriving DecidableEq, Repr

/-- The text of the error. -/
def UnresolvedPath.message (e : UnresolvedPath) : String :=
  s!"unresolved path id {e.id.index}: no path was interned under this id"

/-! ### Paths in interners -/

namespace Interner

variable {Store : Type} (interner : Interner Store)

/-- The id of a path that was seen before. -/
def pathId? (store : Store) (p : Path) : Option PathId :=
  (interner.get? store p.normalize.key).map PathId.mk

/-- The id of a path, which from now on is seen. -/
def pathId (store : Store) (p : Path) : PathId × Store :=
  let (number, store) := interner.intern store p.normalize.key
  (⟨number⟩, store)

/-- The id of a path that is given as text. -/
def pathIdOfText (store : Store) (text : String) : PathId × Store :=
  interner.pathId store (.ofString text)

/-- The ids of some paths, seen in their order. -/
def pathIds (store : Store) : List Path → List PathId × Store
  | [] => ([], store)
  | p :: rest =>
    let (id, store) := interner.pathId store p
    let (ids, store) := pathIds store rest
    (id :: ids, store)

/-- The normal path with the given id. -/
def path (store : Store) (id : PathId) : Except UnresolvedPath Path :=
  match (interner.text? store id.index).bind Path.ofKey? with
  | some p => .ok p
  | none => .error ⟨id⟩

/-- The normal paths with the given ids; the first id that no path has is an error. -/
def paths (store : Store) (ids : List PathId) : Except UnresolvedPath (List Path) :=
  ids.mapM (interner.path store)

end Interner

/-! ### Tables -/

/-- The normal paths seen so far, by their keys in the order of first sight. -/
structure PathTable where
  /-- The keys of the paths; the id of each is its place. -/
  keys : Array (List Char)
deriving Inhabited

namespace PathTable

/-- The table that has seen no path. -/
def empty : PathTable := ⟨#[]⟩

/-- Tables hold texts in the order of their numbers. -/
def interner : Interner PathTable where
  empty := empty
  size t := t.keys.size
  get? t text := t.keys.idxOf? text
  intern t text :=
    match t.keys.idxOf? text with
    | some number => (number, t)
    | none => (t.keys.size, ⟨t.keys.push text⟩)
  text? t number := t.keys[number]?

/-- The number of paths seen. -/
def size (t : PathTable) : Nat := interner.size t

/-- The id of a path that was seen before. -/
def get? (t : PathTable) (p : Path) : Option PathId := interner.pathId? t p

/-- The id of a path, which from now on is seen. -/
def id (t : PathTable) (p : Path) : PathId × PathTable := interner.pathId t p

/-- The ids of some paths, seen in their order. -/
def ids (t : PathTable) (paths : List Path) : List PathId × PathTable := interner.pathIds t paths

/-- The normal path with the given id. -/
def path (t : PathTable) (id : PathId) : Except UnresolvedPath Path := interner.path t id

/-- The normal paths with the given ids; the first id that no path has is an error. -/
def resolve (t : PathTable) (ids : List PathId) : Except UnresolvedPath (List Path) :=
  interner.paths t ids

end PathTable

end PrecompiledHeaders

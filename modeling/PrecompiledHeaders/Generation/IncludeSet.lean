import PrecompiledHeaders.Path.Table
import Std.Data.HashSet

/-!
# Include sets

An include set holds ids of headers, each once, in the order in which they came in. It keeps them
twice: in order, as generated headers list them, and as a set, for the question whether an id is
among them.
-/

namespace PrecompiledHeaders

/-- Ids, each once, in the order in which they came in. -/
structure IncludeSet where
  /-- The ids in order. -/
  order : List PathId
  /-- The ids as a set. -/
  members : Std.HashSet PathId
deriving Inhabited

namespace IncludeSet

/-- The set without ids. -/
def empty : IncludeSet := ⟨[], ∅⟩

/-- Whether an id is in the set. -/
def contains (s : IncludeSet) (id : PathId) : Bool := s.members.contains id

/-- The number of ids. -/
def size (s : IncludeSet) : Nat := s.order.length

/-- Whether there is no id. -/
def isEmpty (s : IncludeSet) : Bool := s.order.isEmpty

/-- The set with an id, as the last one if it is new. -/
def insert (s : IncludeSet) (id : PathId) : IncludeSet :=
  if s.contains id then s else ⟨s.order ++ [id], s.members.insert id⟩

/-- Puts an id into a set, and tells whether it is new. -/
def add (s : IncludeSet) (id : PathId) : Bool × IncludeSet :=
  let (known, members) := s.members.containsThenInsert id
  if known then (false, s) else (true, ⟨s.order ++ [id], members⟩)

/-- The set of the ids of a list, in the order in which they come first. -/
def ofList (ids : List PathId) : IncludeSet := ids.foldl insert empty

/-- The ids that are kept, with what is left of the members. Whether an id is kept may depend on
    what was asked before. -/
def retainFrom {σ : Type} (keep : PathId → σ → Bool × σ) (state : σ)
    (members : Std.HashSet PathId) : List PathId → List PathId × Std.HashSet PathId
  | [] => ([], members)
  | id :: rest =>
    let (kept, state) := keep id state
    if kept then
      let (order, members) := retainFrom keep state members rest
      (id :: order, members)
    else retainFrom keep state (members.erase id) rest

/-- The set with only the ids that are kept. They are asked for in order. -/
def retain {σ : Type} (s : IncludeSet) (keep : PathId → σ → Bool × σ) (state : σ) : IncludeSet :=
  let (order, members) := retainFrom keep state s.members s.order
  ⟨order, members⟩

/-- The set with only the ids that have a property. -/
def filter (s : IncludeSet) (keep : PathId → Bool) : IncludeSet :=
  s.retain (fun id _ => (keep id, ())) ()

/-- The ids that are in both sets, in the order of the first. -/
def intersect (s t : IncludeSet) : IncludeSet := ofList (s.order.filter t.contains)

/-- The ids in order. -/
def toList (s : IncludeSet) : List PathId := s.order

/-- The ids without an order. -/
def toSet (s : IncludeSet) : Std.HashSet PathId := s.members

/-- Whether two sets hold the same ids in the same order. -/
def same (s t : IncludeSet) : Bool :=
  s.order = t.order && s.members.all t.members.contains && t.members.all s.members.contains

end IncludeSet

end PrecompiledHeaders

import PrecompiledHeaders.Text.Split
import PrecompiledHeaders.Text.Utf8

/-!
# Paths

A path is a string of bytes in which slashes separate names. What a path says is the list of its
*components* (`Path.components`): repeated and trailing slashes, and every `.` but a leading one,
say nothing. Two paths with the same components are *the same path* (`Path.Same`), however they
are written; documents and project files are looked up by that relation. The text itself is kept
as it was given, as messages and command lines show it.

The other operations are the usual ones on paths as text: joining (`Path.join`), the parent
(`Path.parent?`) and the chain of ancestors (`Path.ancestors`), which ends because a parent is
always shorter (`length_parent?_lt`).
-/

namespace PrecompiledHeaders

/-- A path, as it is written. -/
structure Path where
  /-- The text of the path: any bytes. -/
  bytes : Bytes
deriving DecidableEq, Repr, Inhabited

namespace Path

/-- The byte between the names of a path. -/
def separator : UInt8 := 0x2F

/-- The name of the directory that a path stands in. -/
def dot : Bytes := [0x2E]

/-- The name of the directory above. -/
def dotDot : Bytes := [0x2E, 0x2E]

/-- The path written as the given text. -/
def ofString (text : String) : Path :=
  ⟨Utf8.encode text.toList⟩

/-- The text of a path, as far as it is one: bytes that are no text are shown as replacement
    characters. -/
def display (p : Path) : String :=
  String.ofList (Utf8.decodeLossy p.bytes)

/-- The text of a path that is valid text. -/
def text? (p : Path) : Option String :=
  (Utf8.decode? p.bytes).map String.ofList

/-- A path is absolute if it starts with a slash. -/
def isAbsolute (p : Path) : Bool :=
  p.bytes.head? = some separator

/-- The root directory. -/
def root : Path := ⟨[separator]⟩

/-! ### Components -/

/-- One step of what a path says. -/
inductive Component
  /-- The root directory; only at the front. -/
  | root
  /-- The directory the path is taken from; only at the front. -/
  | current
  /-- The directory above. -/
  | parent
  /-- The entry of this name. -/
  | name (bytes : Bytes)
deriving DecidableEq, Repr

/-- The text of a component (that of the root is the empty name before the first slash). -/
def Component.bytes : Component → Bytes
  | .root => []
  | .current => dot
  | .parent => dotDot
  | .name bytes => bytes

/-- What a piece between slashes says, at any place but the front. -/
def Component.ofSegment? (segment : Bytes) : Option Component :=
  if segment = [] ∨ segment = dot then none
  else if segment = dotDot then some .parent
  else some (.name segment)

/-- The pieces of a path between its slashes. -/
def segments (p : Path) : List Bytes :=
  split separator p.bytes

/-- The components of a path, in order. -/
def components (p : Path) : List Component :=
  let front : List Component :=
    if p.isAbsolute then [.root]
    else if p.segments.head? = some dot then [.current]
    else []
  front ++ p.segments.filterMap Component.ofSegment?

/-- Two paths are the same if they have the same components. -/
def Same (p q : Path) : Prop := p.components = q.components

instance (p q : Path) : Decidable (Same p q) :=
  inferInstanceAs (Decidable (p.components = q.components))

/-- Whether the list holds a path that is the same as `p`. -/
def isAmong (p : Path) (paths : List Path) : Bool :=
  paths.any fun q => Same q p

/-- The paths without those that are the same as an earlier one. -/
def dedup (paths : List Path) : List Path :=
  paths.foldl (fun kept p => if p.isAmong kept then kept else kept ++ [p]) []

/-! ### Joining -/

/-- The path `p` taken from the directory `base`. An absolute path stays what it is. -/
def join (base p : Path) : Path :=
  if p.isAbsolute then p
  else if base.bytes = [] ∨ base.bytes.getLast? = some separator then ⟨base.bytes ++ p.bytes⟩
  else ⟨base.bytes ++ separator :: p.bytes⟩

/-- The entry of the directory `base` with the given name. -/
def child (base : Path) (name : String) : Path :=
  base.join (ofString name)

/-! ### Parents -/

/-- The part of a path in front of its names: the slash of the root, or a leading dot. -/
def front (p : Path) : Bytes :=
  if p.isAbsolute then [separator]
  else if p.segments.head? = some dot then dot
  else []

/-- The pieces of a path behind its front, last first, without the ones that say nothing at the
    end. -/
def trailing (segments : List Bytes) : List Bytes :=
  segments.dropWhile fun s => s = [] ∨ s = dot

/-- The directory that holds the last component of the path, written as in the path. The root
    and the empty path have none. -/
def parent? (p : Path) : Option Path :=
  let body := split separator (p.bytes.drop p.front.length)
  match trailing body.reverse with
  | [] => if p.front = dot then some ⟨[]⟩ else none
  | _ :: below => some ⟨p.front ++ PrecompiledHeaders.join separator (trailing below).reverse⟩

/-- The number of bytes that pieces take with one separator after each. -/
def extent : List Bytes → Nat
  | [] => 0
  | s :: rest => s.length + 1 + extent rest

theorem extent_append (segments others : List Bytes) :
    extent (segments ++ others) = extent segments + extent others := by
  induction segments with
  | nil => simp [extent]
  | cons s rest ih => simp only [List.cons_append, extent, ih]; omega

theorem length_join_add_one (segments : List Bytes) (h : segments ≠ []) :
    (PrecompiledHeaders.join separator segments).length + 1 = extent segments := by
  induction segments with
  | nil => exact absurd rfl h
  | cons s rest ih =>
    cases rest with
    | nil => simp [PrecompiledHeaders.join, extent]
    | cons s' rest =>
      have := ih (by simp)
      simp only [PrecompiledHeaders.join, extent, List.length_append, List.length_cons] at this ⊢
      omega

theorem extent_trailing_le (segments : List Bytes) :
    extent (trailing segments) ≤ extent segments := by
  induction segments with
  | nil => simp [trailing]
  | cons s rest ih =>
    rw [trailing, List.dropWhile_cons]
    split
    · exact Nat.le_trans ih (by simp [extent])
    · exact Nat.le_refl _

theorem extent_reverse (segments : List Bytes) : extent segments.reverse = extent segments := by
  induction segments with
  | nil => rfl
  | cons s rest ih => simp only [List.reverse_cons, extent_append, extent, ih]; omega

theorem length_front_le (p : Path) : p.front.length ≤ p.bytes.length := by
  unfold front isAbsolute
  split
  · next h =>
    cases hb : p.bytes with
    | nil => simp [hb] at h
    | cons => simp
  · split
    · next h =>
      cases hb : p.bytes with
      | nil => simp [segments, hb, split, dot] at h
      | cons => simp [dot]
    · simp

/-- A parent is shorter than its path. -/
theorem length_parent?_lt {p q : Path} (h : p.parent? = some q) :
    q.bytes.length < p.bytes.length := by
  have hfront := p.length_front_le
  simp only [parent?] at h
  split at h
  · split at h
    · next hdot =>
      cases h
      rw [hdot] at hfront
      exact hfront
    · exact absurd h (by simp)
  · next last below hsegs =>
    cases h
    have hbody : extent (split separator (p.bytes.drop p.front.length)) =
        (p.bytes.length - p.front.length) + 1 := by
      rw [← length_join_add_one _ (split_ne_nil _ _), join_split, List.length_drop]
    have hle := extent_trailing_le (split separator (p.bytes.drop p.front.length)).reverse
    rw [hsegs, extent_reverse, hbody] at hle
    have hbelow := extent_trailing_le below
    simp only [extent] at hle
    rw [List.length_append]
    cases ht : (trailing below).reverse with
    | nil =>
      have : trailing below = [] := by simpa using ht
      cases hb : last with
      | nil =>
        -- The last piece says something, so it is not empty.
        have := List.head?_dropWhile_not (fun s : Bytes => decide (s = [] ∨ s = dot))
          (split separator (p.bytes.drop p.front.length)).reverse
        simp only [trailing] at hsegs
        rw [hsegs] at this
        simp [hb] at this
      | cons => simp only [PrecompiledHeaders.join, hb, List.length_cons] at hle ⊢; simp; omega
    | cons s rest =>
      have hj := length_join_add_one (s :: rest) (by simp)
      rw [← ht, extent_reverse] at hj
      rw [← ht]
      omega

/-- The path, its parent, its parent's parent and so on, as long as there are parents. -/
def ancestors (p : Path) : List Path :=
  p :: match _h : p.parent? with
    | none => []
    | some q => q.ancestors
termination_by p.bytes.length
decreasing_by exact length_parent?_lt _h

end Path

end PrecompiledHeaders

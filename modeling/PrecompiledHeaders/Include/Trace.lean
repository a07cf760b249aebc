import PrecompiledHeaders.FileTree.Access
import PrecompiledHeaders.Text.Blank
import PrecompiledHeaders.Text.Line

/-!
# Header traces

Compilers list the headers they enter, one on a line, with as many dots in front as headers are
open. `HeaderTrace.headers` reads such a trace. An excluded header hides the headers that are
listed below it: the lines behind it that are deeper than it is, up to the next that is not.
-/

namespace PrecompiledHeaders.HeaderTrace

/-- A header in a trace. -/
structure Mention where
  /-- How many headers are open, this one included. -/
  depth : Nat
  /-- The header, as the compiler writes it. -/
  spelling : List Char
deriving DecidableEq, Repr

/-- The header that a line of a trace mentions: dots, one blank, and the header. -/
def Mention.ofLine? (line : List Char) : Option Mention :=
  let dots := line.takeWhile (· = '.')
  match line.drop dots.length with
  | ' ' :: spelling => if dots = [] then none else some ⟨dots.length, trimEnd spelling⟩
  | _ => none

/-- What a trace is followed by. -/
def trailer : List Char := "Multiple include guards may be useful for:".toList

/-- The headers that a trace mentions, in order. -/
def mentions (trace : List Char) : List Mention :=
  ((lines trace).takeWhile fun line => !trailer.isPrefixOf line).filterMap Mention.ofLine?

/-- The headers that are not hidden, each at its depth. `hidden` is the depth of an excluded
    header whose own headers are being listed. -/
def visible (excluded : Path → Bool) (hidden : Option Nat) : List (Nat × Path) → List Path
  | [] => []
  | (depth, path) :: rest =>
    if hidden.any (· < depth) then visible excluded hidden rest
    else if excluded path then visible excluded (some depth) rest
    else path :: visible excluded none rest

/-- The paths without those of files that stood earlier or are among the files already seen. -/
def distinct (tree : FileTree) (seen : List Path) : List Path → List Path
  | [] => []
  | path :: rest =>
    if tree.identity path ∈ seen then distinct tree seen rest
    else path :: distinct tree (tree.identity path :: seen) rest

/-- The headers that a trace lists, without excluded files and what these hide. Paths are taken
    from the directory in which the compiler ran. -/
def headers (tree : FileTree) (directory : Path) (excluded : List Path) (trace : List Char) :
    List Path :=
  let listed := (mentions trace).map fun mention =>
    (mention.depth, directory.normalizeFrom ⟨Utf8.encode mention.spelling⟩)
  distinct tree [] (visible (fun path => tree.identity path ∈ excluded) none listed)

end PrecompiledHeaders.HeaderTrace

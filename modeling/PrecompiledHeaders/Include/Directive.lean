import PrecompiledHeaders.Text.Blank
import PrecompiledHeaders.Text.Line

/-!
# Include directives

The include directives of a source text, as they are written (`directives`). Lines that end with
a backslash go on in the next line; comments are taken out (`stripComments`), which needs a look
at texts in quotes; then every line is looked at alone (`directive?`). Macros and conditions are
not evaluated: a directive counts wherever it stands, and one whose header is not written out
says nothing.
-/

namespace PrecompiledHeaders

/-- How a header name is written. -/
inductive Quotation
  /-- In quotes: the header is looked for beside the includer first. -/
  | quoted
  /-- In angle brackets. -/
  | angled
deriving DecidableEq, Repr

/-- An include directive. -/
structure Directive where
  /-- How the name is written. -/
  quotation : Quotation
  /-- The name of the header. -/
  spelling : List Char
deriving DecidableEq, Repr

namespace Directive

/-! ### Lines -/

/-- The text without the given word, wherever it stands. -/
def without (word : List Char) : List Char → List Char
  | [] => []
  | c :: rest =>
    if word ≠ [] ∧ word.isPrefixOf (c :: rest) then without word ((c :: rest).drop word.length)
    else c :: without word rest
termination_by text => text.length
decreasing_by
  · next h =>
    have : 0 < word.length := List.length_pos_iff.2 h.1
    simp only [List.length_drop, List.length_cons]
    omega
  · simp

/-- The text with continued lines put together. -/
def joinLines (source : List Char) : List Char :=
  without ['\\', '\n'] (without ['\\', '\r', '\n'] source)

/-! ### Comments -/

/-- Where in a source text a character stands. -/
inductive Region
  /-- Outside of comments and texts in quotes. -/
  | code
  /-- In a comment that ends with its line. -/
  | lineComment
  /-- In a comment between marks. -/
  | blockComment
  /-- In a text between the given quotes. -/
  | literal (quote : Char)
deriving DecidableEq, Repr

/-- The text from some place on, with comments taken out. A comment between marks leaves a blank
    and the line ends in it. A text in quotes ends at its line's end at the latest. -/
def stripFrom : Region → List Char → List Char
  | _, [] => []
  | .code, '/' :: '/' :: rest => stripFrom .lineComment rest
  | .code, '/' :: '*' :: rest => ' ' :: stripFrom .blockComment rest
  | .code, c :: rest =>
    c :: stripFrom (if c = '"' ∨ c = '\'' then .literal c else .code) rest
  | .lineComment, c :: rest =>
    if c = '\n' then '\n' :: stripFrom .code rest else stripFrom .lineComment rest
  | .blockComment, '*' :: '/' :: rest => stripFrom .code rest
  | .blockComment, c :: rest =>
    if c = '\n' then '\n' :: stripFrom .blockComment rest else stripFrom .blockComment rest
  | .literal quote, '\\' :: c :: rest => '\\' :: c :: stripFrom (.literal quote) rest
  | .literal quote, c :: rest =>
    c :: stripFrom (if c = quote ∨ c = '\n' then .code else .literal quote) rest

/-- The text with comments taken out. -/
def stripComments (source : List Char) : List Char :=
  stripFrom .code source

/-! ### Directives -/

/-- The words that include directives start with. A word stands in front of its own prefixes. -/
def keywords : List (List Char) :=
  ["include_next".toList, "include".toList, "import".toList]

/-- What follows a word, if the text starts with it. -/
def after? (word text : List Char) : Option (List Char) :=
  if word.isPrefixOf text then some (text.drop word.length) else none

/-- The name up to a closing mark. -/
def name? (close : Char) (text : List Char) : Option (List Char) :=
  let name := text.takeWhile (· ≠ close)
  if name = [] ∨ name = text then none else some name

/-- The directive on a line. -/
def directive? (line : List Char) : Option Directive := do
  let rest ← after? ['#'] (trimStart line)
  let rest ← keywords.findSome? (after? · (trimStart rest))
  if rest.head?.all fun c => c ∉ [' ', '\t', '"', '<'] then none
  match trimStart rest with
  | '"' :: rest => return ⟨.quoted, ← name? '"' rest⟩
  | '<' :: rest => return ⟨.angled, ← name? '>' rest⟩
  | _ => none

end Directive

/-- The include directives of a source text, in order. -/
def directives (source : List Char) : List Directive :=
  (lines (Directive.stripComments (Directive.joinLines source))).filterMap Directive.directive?

end PrecompiledHeaders

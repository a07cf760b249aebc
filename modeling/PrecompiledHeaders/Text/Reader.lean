/-!
# Readers

A reader takes something off the front of a text: it gives a value and the rest of the text, or
fails. Readers are put together with `do` and with `<|>`, which tries the second reader on the
same text if the first one fails. Repetition (`Reader.many`) ends because it stops at a reader
that takes nothing; so that this can be seen at once, what is left of a text always goes with its
length (`Source`), so that a source is known by its characters. Readers of nested notations carry
a bound on the depth, for which the length of the text is enough (`Reader.parse?`).
-/

namespace PrecompiledHeaders

/-- What is left of a text that is being read. -/
structure Source where
  /-- The characters. -/
  chars : List Char
  /-- How many there are. -/
  size : Nat
  /-- The count is right. -/
  size_eq : size = chars.length
deriving Repr

namespace Source

/-- A text, of which nothing is read yet. -/
def ofList (text : List Char) : Source := ⟨text, text.length, rfl⟩

/-- The source without its first characters. -/
def drop (s : Source) (count : Nat) : Source :=
  ⟨s.chars.drop count, s.size - count, by simp [s.size_eq]⟩

@[simp]
theorem ofList_chars (s : Source) : ofList s.chars = s := by
  cases s with
  | mk chars size size_eq => subst size_eq; rfl

@[simp]
theorem chars_drop (s : Source) (count : Nat) : (s.drop count).chars = s.chars.drop count := rfl

end Source

/-- Takes something off the front of a text, or fails. -/
abbrev Reader (α : Type) := StateT Source Option α

namespace Reader

/-- The next character, left in place; nothing at the end. -/
def peek : Reader (Option Char) := fun s => some (s.chars.head?, s)

/-- Takes the next character. -/
def next : Reader Char := fun s =>
  match s.chars with
  | [] => none
  | c :: _ => some (c, s.drop 1)

/-- Takes the next character if it is one of a kind. -/
def satisfy (kind : Char → Bool) : Reader Char := fun s =>
  match s.chars with
  | [] => none
  | c :: _ => if kind c then some (c, s.drop 1) else none

/-- Takes the given character. -/
def exactly (c : Char) : Reader Unit := do
  let _ ← satisfy (· = c)

/-- Takes the given word. -/
def word (expected : List Char) : Reader Unit := fun s =>
  if expected.isPrefixOf s.chars then some ((), s.drop expected.length) else none

/-- Takes the given number of characters. -/
def take (count : Nat) : Reader (List Char) := fun s =>
  if count ≤ s.size then some (s.chars.take count, s.drop count) else none

/-- Takes the characters of a kind, as many as there are. -/
def takeWhile (kind : Char → Bool) : Reader (List Char) := fun s =>
  let taken := s.chars.takeWhile kind
  some (taken, s.drop taken.length)

/-- Takes the characters of a kind, at least one. -/
def takeWhile1 (kind : Char → Bool) : Reader (List Char) := do
  let first ← satisfy kind
  let others ← takeWhile kind
  return first :: others

/-- Succeeds at the end of the text. -/
def atEnd : Reader Unit := fun s =>
  if s.chars.isEmpty then some ((), s) else none

/-- What a reader takes off the text again and again, until it fails or takes nothing. -/
def manyFrom {α : Type} (r : Reader α) (s : Source) : List α × Source :=
  match r s with
  | none => ([], s)
  | some (a, rest) =>
    if _h : rest.size < s.size then
      let (others, final) := manyFrom r rest
      (a :: others, final)
    else ([], s)
termination_by s.size
decreasing_by exact _h

/-- Uses a reader again and again, until it fails or takes nothing. -/
def many {α : Type} (r : Reader α) : Reader (List α) := fun s => some (manyFrom r s)

/-- The items that a reader takes, with something to be skipped between each two. -/
def separated {α : Type} (item : Reader α) (separator : Reader Unit) : Reader (List α) := do
  let first ← item
  let others ← many do
    separator
    item
  return first :: others

/-- What a reader makes of a whole text. The reader is given a bound on the depth of nesting that
    no text of this length can exceed. -/
def parse? {α : Type} (r : Nat → Reader α) (text : List Char) : Option α :=
  let s := Source.ofList text
  match r (s.size + 1) s with
  | some (a, rest) => if rest.chars.isEmpty then some a else none
  | none => none

end Reader

end PrecompiledHeaders

import PrecompiledHeaders.FileTree.Access
import PrecompiledHeaders.FileTree.System
import PrecompiledHeaders.Shell.Text
import PrecompiledHeaders.Text.Digits

/-!
# Tests

Whether the words of a `test` command hold (`Test.holds`). Words make up *terms*: a word alone,
which holds unless it is empty; an operator and its operand; two operands with an operator between
them; words in brackets. There may be `!` in front of a term, and terms are joined by `-a` and,
less tightly, by `-o`.

Nothing marks a word as an operator. What looks like one is an operand if only so the words around
it make up a term; and up to four words are looked at as a whole first.
-/

namespace PrecompiledHeaders.Shell

/-- Why words are no test. -/
inductive TestError
  /-- There is nothing behind an operator. -/
  | missingOperand (operator : List Char)
  /-- Words follow the end of the test, which is at the given word. -/
  | unexpected (last : List Char)
  /-- A bracket is not closed. -/
  | unclosed
  /-- A word is compared as a number and is none. -/
  | noNumber (word : List Char)
  /-- The bracket that ends the command is missing. -/
  | unfinished
deriving DecidableEq, Repr

/-- The text of the error. -/
def TestError.message : TestError → List Char
  | .missingOperand operator => operator ++ ": argument expected".toList
  | .unexpected [] => "unexpected operator".toList
  | .unexpected last => last ++ ": unexpected operator".toList
  | .unclosed => "closing paren expected".toList
  | .noNumber word => "Illegal number: ".toList ++ word
  | .unfinished => "missing ]".toList

/-! ### Numbers -/

/-- The blanks that may stand around a number. -/
def isSpace (c : Char) : Bool := c = ' ' ∨ ('\t' ≤ c ∧ c ≤ '\r')

/-- The whole number of at most 64 bits that a word writes. -/
def integer? (word : List Char) : Option Int := do
  let text := ((word.dropWhile isSpace).reverse.dropWhile isSpace).reverse
  let (negative, digits) := match text with
    | '-' :: digits => (true, digits)
    | '+' :: digits => (false, digits)
    | digits => (false, digits)
  if digits = [] then failure
  let n ← Digits.number? 10 digits
  let value : Int := if negative then -n else n
  if -0x8000000000000000 ≤ value ∧ value < 0x8000000000000000 then return value else failure

namespace Test

/-- The number that an operand writes. -/
def number (operand : List Char) : Except TestError Int :=
  match integer? operand with
  | some n => .ok n
  | none => .error (.noNumber operand)

/-! ### Operators -/

/-- The operators with one operand. -/
def unaryOperators : List String :=
  ["-b", "-c", "-d", "-e", "-f", "-g", "-h", "-k", "-n", "-p", "-r", "-s", "-t", "-u", "-w", "-x",
    "-z", "-G", "-L", "-O", "-S"]

/-- The operators with two operands. -/
def binaryOperators : List String :=
  ["=", "!=", "<", ">", "-eq", "-ne", "-lt", "-le", "-gt", "-ge", "-nt", "-ot", "-ef"]

/-- Whether a word is an operator with one operand. -/
def isUnary (word : List Char) : Bool := unaryOperators.contains (String.ofList word)

/-- Whether a word is an operator with two operands. -/
def isBinary (word : List Char) : Bool := binaryOperators.contains (String.ofList word)

/-- Whether a path is that of a link. -/
def isLink (tree : FileTree) (p : Path) : Bool :=
  match tree.place false p with
  | .ok (.taken location) =>
    match tree.entryAt location with
    | some (.link _) => true
    | _ => false
  | _ => false

/-- Whether a path leads to a device: a special file that does not pass for a file. -/
def isDevice (tree : FileTree) (p : Path) : Bool :=
  match tree.find? p with
  | some (.special file) => !file.isFile
  | _ => false

/-- Whether there is something in a file; in a directory there is. -/
def hasContents (tree : FileTree) (p : Path) : Bool :=
  match tree.read p with
  | .ok contents => contents ≠ []
  | .error e => e = .isDirectory

/-- Whether an entry may be run, or be looked into if it is a directory. -/
def isOpenToRun (tree : FileTree) (p : Path) : Bool :=
  tree.isDirectory p || match tree.locate p with
    | .ok location => (FileTree.programAt? location).isSome
    | .error _ => false

/-- A term with one operand. All entries belong to the user. -/
def unary (tree : FileTree) (operator operand : List Char) : Except TestError Bool :=
  match String.ofList operator with
  | "-n" => .ok (operand ≠ [])
  | "-z" => .ok (operand = [])
  | "-e" | "-r" | "-w" | "-G" | "-O" => .ok (tree.exists? (pathOf operand))
  | "-f" => .ok (tree.isFile (pathOf operand))
  | "-d" => .ok (tree.isDirectory (pathOf operand))
  | "-x" => .ok (isOpenToRun tree (pathOf operand))
  | "-c" => .ok (isDevice tree (pathOf operand))
  | "-h" | "-L" => .ok (isLink tree (pathOf operand))
  | "-s" => .ok (hasContents tree (pathOf operand))
  | "-t" => do
    let _ ← number operand
    return false
  | _ => .ok false

/-- Whether two paths lead to the same entry. -/
def areSame (tree : FileTree) (p q : Path) : Bool :=
  match tree.locate p, tree.locate q with
  | .ok here, .ok there => here = there
  | _, _ => false

/-- A term with two operands. No file is older than another. -/
def binary (tree : FileTree) (left operator right : List Char) : Except TestError Bool :=
  match String.ofList operator with
  | "=" => .ok (left = right)
  | "!=" => .ok (left ≠ right)
  | "<" => .ok (left < right)
  | ">" => .ok (right < left)
  | "-eq" => do return (← number left) = (← number right)
  | "-ne" => do return (← number left) ≠ (← number right)
  | "-lt" => do return (← number left) < (← number right)
  | "-le" => do return (← number left) ≤ (← number right)
  | "-gt" => do return (← number left) > (← number right)
  | "-ge" => do return (← number left) ≥ (← number right)
  | "-ef" => .ok (areSame tree (pathOf left) (pathOf right))
  | _ => .ok false

/-! ### Terms and connectives -/

/-- What is known of the terms between two brackets, or of all, up to some word. -/
structure Tally where
  /-- Whether the terms in front of the last `-o` hold. -/
  earlier : Bool := false
  /-- Whether the terms behind the last `-o` hold. -/
  current : Bool := true
  /-- Whether the next term is to be turned over. -/
  negated : Bool := false

/-- Takes a term in. -/
def Tally.term (tally : Tally) (holds : Bool) : Tally :=
  { tally with current := tally.current && (holds != tally.negated), negated := false }

/-- Takes a `-o` in. -/
def Tally.or (tally : Tally) : Tally :=
  { tally with earlier := tally.earlier || tally.current, current := true }

/-- Whether the terms hold. -/
def Tally.holds (tally : Tally) : Bool := tally.earlier || tally.current

mutual

/-- Reads terms from the next one on; `outer` is what is known outside of open brackets, the
    innermost ones first. -/
def fromTerm (tree : FileTree) (tally : Tally) (outer : List Tally) :
    List (List Char) → Except TestError Bool
  | [] => fromConnective tree (tally.term false) outer [] []
  | ['!'] :: rest => fromTerm tree { tally with negated := !tally.negated } outer rest
  | ['('] :: [')'] :: rest => fromConnective tree (tally.term false) outer [')'] rest
  | ['('] :: next :: rest => fromTerm tree {} (tally :: outer) (next :: rest)
  | [word] => fromConnective tree (tally.term (word ≠ [])) outer word []
  | word :: next :: rest => do
    if isUnary word ∧ !(isBinary next ∧ rest ≠ []) then
      fromConnective tree (tally.term (← unary tree word next)) outer next rest
    else if isBinary next then
      match rest with
      | [] => .error (.missingOperand next)
      | right :: rest =>
        fromConnective tree (tally.term (← binary tree word next right)) outer right rest
    else fromConnective tree (tally.term (word ≠ [])) outer word (next :: rest)
termination_by words => (words.length, 1)

/-- Reads on behind a term, the last word of which is known. -/
def fromConnective (tree : FileTree) (tally : Tally) (outer : List Tally) (last : List Char) :
    List (List Char) → Except TestError Bool
  | ['-', 'a'] :: rest => fromTerm tree tally outer rest
  | ['-', 'o'] :: rest => fromTerm tree tally.or outer rest
  | words =>
    match outer, words with
    | around :: outer, [')'] :: rest =>
      fromConnective tree (around.term tally.holds) outer [')'] rest
    | _ :: _, _ => .error .unclosed
    | [], [] => .ok tally.holds
    | [], _ :: _ => .error (.unexpected last)
termination_by words => (words.length, 0)

end

/-! ### Whole tests -/

/-- The words between brackets, if these are the first and the last word. -/
def unwrapped? (words : List (List Char)) : Option (List (List Char)) :=
  if words.head? = some ['('] ∧ words.getLast? = some [')'] then some words.tail.dropLast
  else none

/-- Whether words hold, or do not if that is `negated`. Three words with an operator in the middle
    are a comparison. Otherwise brackets around three or four words are left out; or else a `!` in
    front of them turns over what the others say, however often it stands there. -/
def holdsFrom (tree : FileTree) (negated : Bool) : List (List Char) → Except TestError Bool
  | [] => .ok negated
  | word :: rest => do
    if rest.length = 2 ∨ rest.length = 3 then
      match rest with
      | [operator, right] =>
        if isBinary operator then return (← binary tree word operator right) != negated
      | _ => pure ()
      if let some inner := unwrapped? (word :: rest) then
        return (← fromTerm tree {} [] inner) != negated
      if word = ['!'] then return ← holdsFrom tree true rest
    return (← fromTerm tree {} [] (word :: rest)) != negated

/-- Whether the words of a test hold. -/
def holds (tree : FileTree) (words : List (List Char)) : Except TestError Bool :=
  holdsFrom tree false words

/-- Whether the words behind an opening bracket hold; the last one has to close it. -/
def holdsBracketed (tree : FileTree) (words : List (List Char)) : Except TestError Bool :=
  if words.getLast? = some [']'] then holds tree words.dropLast else .error .unfinished

end Test

end PrecompiledHeaders.Shell

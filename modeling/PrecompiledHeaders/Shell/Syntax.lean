/-!
# Shell scripts

What the scripts are made of that stand in for compilers: simple commands with assignments and
redirections, and lists, pipelines, choices and loops of them (`Script`). Words are kept with
their quotes and with what is to be replaced in them (`Part`); as the output of commands can be
put into a word, words and commands are defined together.
-/

namespace PrecompiledHeaders.Shell

mutual

/-- A part of a word. -/
inductive Part
  /-- Characters. -/
  | text (quoted : Bool) (content : List Char)
  /-- What is made of a parameter. -/
  | parameter (quoted : Bool) (name : List Char) (use : Use)
  /-- What a command writes. -/
  | output (quoted : Bool) (script : Script)
  /-- The value of an arithmetic expression. -/
  | value (quoted : Bool) (expression : List Part)

/-- What is made of a parameter. -/
inductive Use
  /-- Its value. -/
  | whole
  /-- The length of its value. -/
  | length
  /-- Its value, or if it has none, or an empty one where that counts as none, something else. -/
  | orElse (emptyCounts : Bool) (instead : Instead) (word : List Part)
  /-- Its value without what a pattern matches at its start or at its end: as little as possible, or
      as much. -/
  | trim (atEnd most : Bool) (pattern : List Part)
  /-- Nothing that there is. -/
  | illegal

/-- What happens if a parameter has no value. -/
inductive Instead
  /-- A word stands for it. -/
  | word
  /-- A word stands for it, and becomes its value. -/
  | assign
  /-- It is an error, which a word explains. -/
  | error
  /-- Nothing stands for it; but a word does if it has a value. -/
  | nothing

/-- What a descriptor of a command is tied to. -/
inductive Target
  /-- A file that is read. -/
  | input (file : List Part)
  /-- A file that is written anew; with `force`, even if files are not to be overwritten. -/
  | output (force : Bool) (file : List Part)
  /-- A file that is written behind what it holds. -/
  | append (file : List Part)
  /-- A file that is read and written. -/
  | both (file : List Part)
  /-- What another descriptor is tied to, or nothing. -/
  | copy (descriptor : List Part)
  /-- A text in the script; its number among these texts. -/
  | document (index : Nat)

/-- Ties a descriptor of a command to something. -/
inductive Redirection
  /-- The descriptor and the target. -/
  | mk (descriptor : Nat) (target : Target)

/-- A command. Where it says so, the number of its line in the script goes with it. -/
inductive Script
  /-- A command of assignments and words. -/
  | simple (line : Nat) (assignments : List (List Char × List Part)) (words : List (List Part))
      (redirections : List Redirection)
  /-- A command with redirections of its own. -/
  | redirected (line : Nat) (script : Script) (redirections : List Redirection)
  /-- A command that runs in a copy of the shell. -/
  | subshell (line : Nat) (script : Script) (redirections : List Redirection)
  /-- A command for the end of which nobody waits. -/
  | background (script : Script)
  /-- Commands each of which reads what the one in front of it writes. -/
  | pipeline (scripts : List Script)
  /-- Commands one after the other. -/
  | sequence (scripts : List Script)
  /-- A command, and a second one if it succeeds. -/
  | both (first second : Script)
  /-- A command, and a second one if it fails. -/
  | either (first second : Script)
  /-- A command that succeeds if the given one fails. -/
  | negation (script : Script)
  /-- A command for each of some words, or for each argument. -/
  | loop (line : Nat) (name : List Char) (words? : Option (List (List Part))) (body : Script)
  /-- The command behind the first pattern that a word matches. -/
  | choice (line : Nat) (subject : List Part) (arms : List (List (List Part) × Script))
  /-- One of two commands, as a condition says. -/
  | branch (condition yes no : Script)

end

/-- A command with redirections behind it, at a line. They take the place of those of a copy of the
    shell that is all there is in the command. -/
def Script.redirect (line : Nat) (redirections : List Redirection) : Script → Script
  | .sequence [script] => script.redirect line redirections
  | .subshell line body _ => .subshell line body redirections
  | script => .redirected line script redirections

/-- A word. -/
abbrev Word := List Part

instance : Inhabited Script := ⟨.sequence []⟩

namespace Word

/-- Whether something in a word is quoted; values that are put into it do not count. -/
def isQuoted (word : Word) : Bool :=
  word.any fun
    | .text quoted _ => quoted
    | _ => false

/-- The text of a word without quotes and without anything to be replaced. -/
def literal? : Word → Option (List Char)
  | [] => some []
  | .text false content :: rest => (literal? rest).map (content ++ ·)
  | _ => none

/-- The characters of a word in which nothing is to be replaced. -/
def content (word : Word) : List Char :=
  word.flatMap fun
    | .text _ content => content
    | _ => []

end Word

/-! ### Names -/

/-- Whether a name may start with a character. -/
def startsName (c : Char) : Bool := c.isAlpha || c = '_'

/-- Whether a character may stand in a name. -/
def isName (c : Char) : Bool := c.isAlphanum || c = '_'

/-- Whether a text is a name. -/
def isGoodName (text : List Char) : Bool := text.head?.any startsName && text.all isName

/-- The characters that are names of parameters by themselves; digits are, too. -/
def isSpecial (c : Char) : Bool := c.isDigit || c ∈ ['$', '#', '?', '-', '@', '*', '!']

/-! ### Errors -/

/-- Why a text is no script. -/
inductive SyntaxError
  /-- Something stands where it must not, and maybe where something else has to stand. -/
  | unexpected (found : String) (expected? : Option String)
  /-- A quote is not closed. -/
  | openQuote
  /-- A command in backquotes is not closed. -/
  | openCommand
  /-- A brace behind a parameter is not closed. -/
  | openBrace
  /-- An arithmetic expression is not closed. -/
  | openExpression
  /-- Something else than a name stands behind the word for a loop. -/
  | badLoopVariable
  /-- A function is defined, which scripts here do not. -/
  | badFunctionName
  /-- What follows the sign for descriptors is none. -/
  | badDescriptor
deriving DecidableEq, Repr

/-- The text of the error. -/
def SyntaxError.message (e : SyntaxError) : String :=
  "Syntax error: " ++ match e with
    | .unexpected found none => s!"{found} unexpected"
    | .unexpected found (some expected) => s!"{found} unexpected (expecting {expected})"
    | .openQuote => "Unterminated quoted string"
    | .openCommand => "EOF in backquote substitution"
    | .openBrace => "Missing '\x7d'"
    | .openExpression => "Missing '))'"
    | .badLoopVariable => "Bad for loop variable"
    | .badFunctionName => "Bad function name"
    | .badDescriptor => "Bad fd number"

end PrecompiledHeaders.Shell

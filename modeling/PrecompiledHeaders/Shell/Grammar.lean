import PrecompiledHeaders.Shell.Syntax
import PrecompiledHeaders.Text.Split

/-!
# The grammar of shell scripts

Scripts are read command by command (`Grammar.nextCommands?`), as the commands of a line are run
before the next line is looked at; so a script does its work up to the place where it is no
script any more.

Characters make up words (`bareParts`, `quotedParts`), words and operators are the tokens
(`token`), and these make up lists of commands (`commands`). A word can hold commands again: what
reads words and tokens is given a reader for what is nested in them. No reader takes more steps
than a text has characters, up to a factor (`Reading.bound`).
-/

namespace PrecompiledHeaders.Shell

/-- How a file is opened. -/
inductive Opening
  /-- To be read. -/
  | input
  /-- To be written anew; with `force`, even if files are not to be overwritten. -/
  | output (force : Bool)
  /-- To be written behind what it holds. -/
  | append
  /-- To be read and written. -/
  | both
  /-- Not at all: another descriptor is named. -/
  | copy
  /-- Not at all: the text follows in the script, maybe without the tabs its lines start with. -/
  | document (dropTabs : Bool)
deriving DecidableEq, Repr

/-- A piece of a script that commands are made of. -/
inductive Token
  /-- The end of the script. -/
  | ending
  /-- The end of a line. -/
  | newline
  /-- An operator, or a word that has a meaning in the language. -/
  | sign (text : String)
  /-- The front of a redirection. -/
  | redirection (descriptor : Nat) (opening : Opening)
  /-- A word. -/
  | word (word : Word)

/-- An operator or a word of the language, as errors show it. -/
def shownSign (text : String) : String := "\"" ++ text ++ "\""

/-- A token, as errors show it. -/
def Token.shown : Token → String
  | ending => "end of file"
  | newline => "newline"
  | sign text => shownSign text
  | redirection _ _ => "redirection"
  | word _ => "word"

/-- Whether a token is the given operator or word of the language. -/
def Token.isSign (t : Token) (expected : String) : Bool :=
  match t with
  | sign text => text = expected
  | _ => false

/-- A text that is to follow in the script. -/
structure Document where
  /-- Its number. -/
  index : Nat
  /-- The line that ends it. -/
  delimiter : List Char
  /-- Whether nothing in it is replaced. -/
  isLiteral : Bool
  /-- Whether the tabs that its lines start with are left out. -/
  dropTabs : Bool

/-- A script that is being read. -/
structure Reading where
  /-- What is left of it. -/
  rest : List Char
  /-- The number of the line. -/
  line : Nat
  /-- No reader takes more steps than this. -/
  bound : Nat
  /-- A token that was read but not used. -/
  held : Option Token := none
  /-- Whether nothing is replaced in the word that is being read. -/
  verbatim : Bool := false
  /-- How many texts were named that are to follow a line. -/
  count : Nat := 0
  /-- The texts that are to follow this line. -/
  awaited : List Document := []
  /-- The texts that were read, under their numbers. -/
  documents : List (Nat × Word) := []

/-- A script of which nothing is read yet. -/
def Reading.ofText (text : List Char) : Reading where
  rest := text
  line := 1
  bound := 2 * text.length + 8

/-- Reads something of a script, or fails at a line. -/
abbrev Grammar (α : Type) := StateT Reading (Except (Nat × SyntaxError)) α

/-- How far a list of commands goes. -/
inductive Extent
  /-- To the end of the line. -/
  | line
  /-- To a sign that ends commands; there has to be a command. -/
  | body
  /-- To a sign that ends commands. -/
  | arm
deriving DecidableEq, Repr

namespace Grammar

/-- Fails at the line. -/
def fail {α : Type} (e : SyntaxError) : Grammar α := do
  throw ((← get).line, e)

/-- Fails because a token stands where it must not. -/
def unexpected {α : Type} (t : Token) (expected? : Option String) : Grammar α :=
  fail (.unexpected t.shown expected?)

/-! ### Characters -/

/-- A text without the line ends behind backslashes that it starts with. -/
def joinedFrom : List Char → (line : Nat) → List Char × Nat
  | '\\' :: '\n' :: rest, line => joinedFrom rest (line + 1)
  | rest, line => (rest, line)

/-- The characters of a kind that a text starts with, over line ends behind backslashes. -/
def spanJoined (kind : Char → Bool) : List Char → (line : Nat) → List Char × List Char × Nat
  | '\\' :: '\n' :: rest, line => spanJoined kind rest (line + 1)
  | c :: rest, line =>
    if kind c then
      let (taken, final, line) := spanJoined kind rest line
      (c :: taken, final, line)
    else ([], c :: rest, line)
  | [], line => ([], [], line)

/-- A text without the blanks and the comment it starts with. -/
def skippedFrom : List Char → (line : Nat) → List Char × Nat
  | '\\' :: '\n' :: rest, line => skippedFrom rest (line + 1)
  | ' ' :: rest, line | '\t' :: rest, line => skippedFrom rest line
  | '#' :: rest, line => (rest.dropWhile (· ≠ '\n'), line)
  | rest, line => (rest, line)

/-- Puts the reader at another place. -/
def moveTo (rest : List Char) (line : Nat) : Grammar Unit :=
  modify fun s => { s with rest, line }

/-- Skips line ends behind backslashes, and gives what follows. -/
def joined : Grammar (List Char) := do
  let s ← get
  let (rest, line) := joinedFrom s.rest s.line
  moveTo rest line
  return rest

/-- Skips blanks and a comment, and gives what follows. -/
def skipped : Grammar (List Char) := do
  let s ← get
  let (rest, line) := skippedFrom s.rest s.line
  moveTo rest line
  return rest

/-- Takes the next character. -/
def skip : Grammar Unit := do
  let s ← get
  match s.rest with
  | [] => return
  | c :: rest => moveTo rest (if c = '\n' then s.line + 1 else s.line)

/-- Takes the next character; an end of a line among such characters is not counted. -/
def drop : Grammar Unit := modify fun s => { s with rest := s.rest.tail }

/-- Takes the next character if it is the given one; whether it is. -/
def skipIf (c : Char) : Grammar Bool := do
  if (← joined).head? = some c then
    skip
    return true
  else return false

/-- Takes the characters of a kind. -/
def takeWhile (kind : Char → Bool) : Grammar (List Char) := do
  let s ← get
  let taken := s.rest.takeWhile kind
  moveTo (s.rest.drop taken.length) (s.line + taken.count '\n')
  return taken

/-- Takes the characters of a kind, over line ends behind backslashes. -/
def takeJoined (kind : Char → Bool) : Grammar (List Char) := do
  let s ← get
  let (taken, rest, line) := spanJoined kind s.rest s.line
  moveTo rest line
  return taken

/-! ### Words -/

/-- The characters that end a word. -/
def isMeta (c : Char) : Bool := c ∈ [' ', '\t', '\n', ';', '&', '|', '<', '>', '(', ')']

/-- Puts a part in front of a word. -/
def attach : Part → Word → Word
  | .text q content, .text q' content' :: rest =>
    if q = q' then .text q (content ++ content') :: rest else .text q content :: .text q' content' :: rest
  | part, word => part :: word

/-- What surrounds a quoted part of a script. -/
inductive Frame
  /-- Double quotes. -/
  | quotes
  /-- Braces behind a parameter that is quoted; inner quotes may be open. -/
  | braces (inner : Bool)
  /-- The lines of a text. -/
  | document
  /-- The brackets of an arithmetic expression, and how many more are open in it. -/
  | expression (brackets : Nat)
deriving DecidableEq, Repr

/-- The characters that stand for themselves behind a backslash. -/
def Frame.escapes : Frame → Char → Bool
  | document, c => c ∈ ['$', '\x60', '\\']
  | braces _, c => c ∈ ['$', '\x60', '\\', '"', '\x7d']
  | _, c => c ∈ ['$', '\x60', '\\', '"']

/-- Why a quoted part must not be at its end together with the script, if it must not. -/
def Frame.openError? : Frame → Option SyntaxError
  | document => none
  | expression _ => some .openExpression
  | _ => some .openQuote

/-- The text of commands up to a backquote, with backslashes resolved; and what follows. -/
def backquotedText (quoted : Bool) : List Char → (line : Nat) →
    Option (List Char × List Char × Nat)
  | [], _ => none
  | '\x60' :: rest, line => some ([], rest, line)
  | '\\' :: '\n' :: rest, line => backquotedText quoted rest (line + 1)
  | '\\' :: c :: rest, line => do
    let (text, final, line) ← backquotedText quoted rest line
    if c ∈ ['\\', '\x60', '$'] ∨ (quoted ∧ c = '"') then return (c :: text, final, line)
    else return ('\\' :: c :: text, final, line)
  | c :: rest, line => do
    let (text, final, line) ← backquotedText quoted rest (if c = '\n' then line + 1 else line)
    return (c :: text, final, line)

/-- What a sign behind a name in braces makes of the parameter; and whether it is to be read
    like what is not quoted. -/
inductive Modification
  /-- Nothing. -/
  | none
  /-- Something that a word goes with. -/
  | word (use : Word → Use) (bare : Bool)

/-- What stands instead of a parameter without a value. -/
def insteadOf? : Char → Option Instead
  | '-' => some .word
  | '=' => some .assign
  | '?' => some .error
  | '+' => some .nothing
  | _ => none

/-- The sign behind a name in braces. Something else is no part of what follows. -/
def modification : Grammar Modification := do
  match (← joined).head? with
  | some '\x7d' =>
    skip
    return .none
  | some ':' =>
    skip
    let instead? := (← joined).head?.bind insteadOf?
    drop
    match instead? with
    | some instead => return .word (.orElse true instead) false
    | none => return .word (fun _ => .illegal) false
  | some c =>
    if c = '%' ∨ c = '#' then
      skip
      let most ← skipIf c
      return .word (.trim (c = '%') most) true
    else
      drop
      match insteadOf? c with
      | some instead => return .word (.orElse false instead) false
      | none => return .word (fun _ => .illegal) false
  | none => return .word (fun _ => .illegal) false

/-- The name of a parameter in braces. -/
def parameterName? : Grammar (Option (List Char)) := do
  match (← joined).head? with
  | none => return none
  | some c =>
    if startsName c then return some (← takeJoined isName)
    else if c.isDigit then return some (← takeJoined Char.isDigit)
    else if isSpecial c then
      skip
      return some [c]
    else return none

/-- What is no parameter: its first character, if that does not close the braces, is no part of
    what follows. -/
def noParameter : Grammar (List Char × Modification) := do
  if (← joined).head? ≠ some '\x7d' then drop
  return ([], .word (fun _ => .illegal) false)

/-- A parameter in braces, behind the opening one: its name, and what is made of it. The sign for
    lengths is one only if a name follows it that goes up to the closing brace. -/
def bracedName : Grammar (List Char × Modification) := do
  if (← joined).head? = some '#' then
    skip
    let after ← joined
    let isLength := match after with
      | c :: rest => startsName c || c.isDigit ||
          (c ≠ '\x7d' && (joinedFrom rest 0).1.head? = some '\x7d')
      | [] => false
    if !isLength then return (['#'], ← modification)
    match ← parameterName? with
    | some name =>
      if (← joined).head? = some '\x7d' then
        return (name, .word (fun _ => .length) false)
      else return ([], .word (fun _ => .illegal) false)
    | none => return ← noParameter
  match ← parameterName? with
  | some name => return (name, ← modification)
  | none => noParameter

variable (nested : Extent → Grammar Script)

/-- The commands of a text that stands for itself. -/
def commandsOf (text : List Char) : Grammar Script := do
  let s ← get
  set { s with rest := text, line := 1, held := none, awaited := [] }
  let script ← nested .arm
  modify fun inner => { s with count := inner.count, documents := inner.documents }
  return script

/-- Commands in backquotes. -/
def backquoted (quoted : Bool) : Grammar Part := do
  skip
  let s ← get
  if s.verbatim then return .text quoted ['\x60']
  match backquotedText quoted s.rest s.line with
  | none => throw (s.line + s.rest.count '\n', .openCommand)
  | some (text, rest, line) =>
    moveTo rest line
    return .output quoted (← commandsOf nested text)

/-- Commands in brackets, behind the opening one. -/
def bracketed : Grammar Script := do
  let awaited := (← get).awaited
  modify fun s => { s with held := none, awaited := [] }
  let script ← nested .arm
  match (← get).held with
  | some t =>
    if !t.isSign ")" then unexpected t (some (shownSign ")"))
  | none => pure ()
  modify fun s => { s with held := none, awaited }
  return script

mutual

/-- The parts of a word that are not quoted, up to the end of the word, or to a closing brace. -/
def bareParts (inBraces : Bool) : (steps : Nat) → Grammar Word
  | 0 => fail .openQuote
  | steps + 1 => do
    match ← joined with
    | [] => return []
    | c :: _ =>
      if (if inBraces then c = '\x7d' else isMeta c) then return []
      match c with
      | '\'' =>
        skip
        let content ← takeWhile (· ≠ '\'')
        if (← get).rest.isEmpty then fail .openQuote
        skip
        return attach (.text true content) (← bareParts inBraces steps)
      | '"' =>
        skip
        let parts ← quotedParts .quotes steps
        let others ← bareParts inBraces steps
        match parts with
        | [.parameter _ ['@'] .whole] => return parts ++ others
        | parts => return .text true [] :: parts ++ others
      | '\\' =>
        skip
        match (← get).rest with
        | [] => return [.text true ['\\']]
        | c :: _ =>
          skip
          return attach (.text true [c]) (← bareParts inBraces steps)
      | '$' =>
        let part ← dollar false steps
        return attach part (← bareParts inBraces steps)
      | '\x60' =>
        let part ← backquoted nested false
        return attach part (← bareParts inBraces steps)
      | c =>
        skip
        let others ← takeWhile fun c =>
          !isMeta c && c ∉ ['\'', '"', '\\', '$', '\x60', '\x7d']
        return attach (.text false (c :: others)) (← bareParts inBraces steps)

/-- The parts of a word that are quoted, up to the end that the frame says. A closing brace is
    left in place. -/
def quotedParts (frame : Frame) : (steps : Nat) → Grammar Word
  | 0 => fail .openQuote
  | steps + 1 => do
    match ← joined with
    | [] =>
      match frame.openError? with
      | some e => fail e
      | none => return []
    | c :: rest =>
      match c, frame with
      | '"', .quotes =>
        skip
        return []
      | '"', .braces inner =>
        skip
        quotedParts (.braces !inner) steps
      | '\x7d', .braces false => return []
      | '(', .expression brackets =>
        skip
        return attach (.text true ['(']) (← quotedParts (.expression (brackets + 1)) steps)
      | ')', .expression (brackets + 1) =>
        skip
        return attach (.text true [')']) (← quotedParts (.expression brackets) steps)
      | ')', .expression 0 =>
        skip
        if ← skipIf ')' then return []
        return attach (.text true [')']) (← quotedParts frame steps)
      | '\\', _ =>
        skip
        skip
        let content := match rest with
          | c :: _ => if frame.escapes c then [c] else ['\\', c]
          | [] => ['\\']
        return attach (.text true content) (← quotedParts frame steps)
      | '$', _ =>
        let part ← dollar true steps
        return attach part (← quotedParts frame steps)
      | '\x60', _ =>
        let part ← backquoted nested true
        return attach part (← quotedParts frame steps)
      | c, _ =>
        skip
        let others ← takeWhile fun c => c ∉ ['"', '\\', '$', '\x60', '\x7d', '(', ')']
        return attach (.text true (c :: others)) (← quotedParts frame steps)

/-- What a dollar sign starts; it may stand for itself. -/
def dollar (quoted : Bool) : (steps : Nat) → Grammar Part
  | 0 => fail .openQuote
  | steps + 1 => do
    skip
    if (← get).verbatim then return .text quoted ['$']
    match ← joined with
    | '(' :: _ =>
      skip
      if ← skipIf '(' then
        return .value quoted (← quotedParts (.expression 0) steps)
      return .output quoted (← bracketed nested)
    | '\x7b' :: _ =>
      skip
      let (name, modification) ← bracedName
      match modification with
      | .none => return .parameter quoted name .whole
      | .word use bare =>
        let word ← if bare ∨ !quoted then bareParts true steps
          else quotedParts (.braces false) steps
        if !(← skipIf '\x7d') then fail .openBrace
        return .parameter quoted name (use word)
    | c :: _ =>
      if startsName c then return .parameter quoted (← takeJoined isName) .whole
      if isSpecial c then
        skip
        return .parameter quoted [c] .whole
      return .text quoted ['$']
    | [] => return .text quoted ['$']

end

/-! ### Tokens -/

/-- The way in which a redirection opens a file, and the descriptor that it is for if none is
    named; the sign for it is next. -/
def opening : Grammar (Nat × Opening) := do
  if ← skipIf '>' then
    if ← skipIf '>' then return (1, .append)
    if ← skipIf '|' then return (1, .output true)
    if ← skipIf '&' then return (1, .copy)
    return (1, .output false)
  skip
  if ← skipIf '<' then return (0, .document (← skipIf '-'))
  if ← skipIf '&' then return (0, .copy)
  if ← skipIf '>' then return (0, .both)
  return (0, .input)

/-- A word, or the front of a redirection. -/
def wordToken : Grammar Token := do
  let parts ← bareParts nested false (← get).bound
  let next? := (← get).rest.head?
  if next? = some '<' ∨ next? = some '>' then
    match parts with
    | [] =>
      let (descriptor, opening) ← opening
      return .redirection descriptor opening
    | [.text false [digit]] =>
      if digit.isDigit then
        let (_, opening) ← opening
        return .redirection (digit.toNat - '0'.toNat) opening
    | _ => pure ()
  return .word parts

/-- An operator that may be doubled. -/
def doubled (c : Char) : Grammar Token := do
  skip
  return .sign (String.ofList (if ← skipIf c then [c, c] else [c]))

/-- The token that was held, or the next one. -/
def nextToken : Grammar Token := do
  match (← get).held with
  | some t =>
    modify fun s => { s with held := none }
    return t
  | none =>
    match ← skipped with
    | [] => return .ending
    | '\n' :: _ =>
      skip
      return .newline
    | c :: _ =>
      if c = '&' ∨ c = '|' ∨ c = ';' then doubled c
      else if c = '(' ∨ c = ')' then
        skip
        return .sign (String.ofList [c])
      else wordToken nested

/-- Holds a token back. -/
def hold (t : Token) : Grammar Unit := modify fun s => { s with held := some t }

/-- The words that have a meaning where a command may start. -/
def reserved : List String :=
  ["!", "case", "do", "done", "elif", "else", "esac", "fi", "for", "if", "in", "then", "\x7b",
    "\x7d"]

/-- The lines of a text up to the one that ends it, and, if there is such a line, those behind it.
    Unless the text is taken literally, a line end behind a backslash does not count: what follows
    belongs to the same line, which starts behind it if nothing else was there. Behind tabs that are
    dropped, such a backslash stands for itself. -/
def documentLines (d : Document) (joined : Bool) : List (List Char) →
    List (List Char) × Option (List (List Char))
  | [] => ([], none)
  | line :: others =>
    let content := if d.dropTabs && !joined then line.dropWhile (· = '\t') else line
    if !joined && content = d.delimiter then ([], some others)
    else
      let startsHere := !joined && content = ['\\'] && !d.isLiteral
      let tabsDropped := content.length < line.length
      let content := if startsHere && tabsDropped then ['\\', '\\'] else content
      let backslashes := (line.reverse.takeWhile (· = '\\')).length
      let goesOn := !d.isLiteral && backslashes % 2 = 1
      let (body, rest?) := documentLines d (goesOn && !(startsHere && !tabsDropped)) others
      ((if others = [] then content else content ++ ['\n']) :: body, rest?)

/-- Reads a text that follows a line. -/
def readDocument (d : Document) : Grammar Unit := do
  let s ← get
  let lines := split '\n' s.rest
  let (body, rest?) := documentLines d false lines
  let final := join '\n' (rest?.getD [])
  let line := s.line + match rest? with
    | some rest => lines.length - rest.length
    | none => lines.length - 1
  let content ← if d.isLiteral then pure [.text true body.flatten]
    else
      moveTo body.flatten s.line
      quotedParts nested .document s.bound
  modify fun s =>
    { s with rest := final, line, documents := (d.index, content) :: s.documents }

/-- Reads the texts that follow a line. -/
def readDocuments : Grammar Unit := do
  let awaited := (← get).awaited
  modify fun s => { s with awaited := [] }
  for d in awaited do
    readDocument nested d

/-- A token behind ends of lines. -/
def skipNewlines : (steps : Nat) → Token → Grammar Token
  | steps + 1, .newline => do
    readDocuments nested
    skipNewlines steps (← nextToken nested)
  | _, t => return t

/-- The next token. Ends of lines may be skipped; words that have a meaning are signs only where
    they are looked for. -/
def token (newlines keywords : Bool) : Grammar Token := do
  let t ← nextToken nested
  let t ← if newlines then skipNewlines nested (← get).bound t else pure t
  match t with
  | .word w =>
    let keyword? := do
      let text := String.ofList (← w.literal?)
      if keywords ∧ text ∈ reserved then return text else failure
    return (keyword?.map .sign).getD t
  | t => return t

/-- Takes the given sign. -/
def expect (newlines keywords : Bool) (text : String) : Grammar Unit := do
  let t ← token nested newlines keywords
  if t.isSign text then return else unexpected t (some (shownSign text))

/-! ### Simple commands -/

/-- A redirection, of which the front was read. -/
def redirection (descriptor : Nat) (opening : Opening) : Grammar Redirection := do
  let verbatim := match opening with
    | .document _ => true
    | _ => false
  modify fun s => { s with verbatim }
  let t ← token nested false false
  modify fun s => { s with verbatim := false }
  let .word file := t | unexpected t none
  match opening with
  | .input => return ⟨descriptor, .input file⟩
  | .output force => return ⟨descriptor, .output force file⟩
  | .append => return ⟨descriptor, .append file⟩
  | .both => return ⟨descriptor, .both file⟩
  | .copy => return ⟨descriptor, .copy file⟩
  | .document dropTabs =>
    let s ← get
    let document : Document := ⟨s.count, file.content, file.isQuoted, dropTabs⟩
    set { s with count := s.count + 1, awaited := s.awaited ++ [document] }
    return ⟨descriptor, .document document.index⟩

/-- The name and the value of an assignment, if a word is one. -/
def assignment? : Word → Option (List Char × Word)
  | .text false content :: rest =>
    let name := content.takeWhile isName
    match content.drop name.length with
    | '=' :: value =>
      if isGoodName name then
        some (name, if value.isEmpty then rest else .text false value :: rest)
      else none
    | _ => none
  | _ => none

/-- What was read of a simple command, the last things first. -/
structure Draft where
  /-- The assignments. -/
  assignments : List (List Char × Word) := []
  /-- The words. -/
  words : List Word := []
  /-- The redirections. -/
  redirections : List Redirection := []

/-- A simple command behind what was read of it. -/
def simpleFrom (line : Nat) : (steps : Nat) → Draft → Grammar Script
  | 0, _ => fail .openQuote
  | steps + 1, draft => do
    match ← token nested false false with
    | .word w =>
      match (if draft.words.isEmpty then assignment? w else none) with
      | some a => simpleFrom line steps { draft with assignments := a :: draft.assignments }
      | none => simpleFrom line steps { draft with words := w :: draft.words }
    | .redirection descriptor opening =>
      let r ← redirection nested descriptor opening
      simpleFrom line steps { draft with redirections := r :: draft.redirections }
    | t =>
      if t.isSign "(" ∧ draft.words.length = 1 ∧ draft.assignments.isEmpty ∧
          draft.redirections.isEmpty then
        expect nested false false ")"
        fail .badFunctionName
      hold t
      return .simple line draft.assignments.reverse draft.words.reverse
        draft.redirections.reverse

/-! ### Commands -/

/-- The words behind a loop's `in`. -/
def loopWords : (steps : Nat) → Grammar (List Word)
  | 0 => fail .openQuote
  | steps + 1 => do
    match ← token nested false false with
    | .word w => return w :: (← loopWords steps)
    | .newline => return []
    | t => if t.isSign ";" then return [] else unexpected t none

/-- A loop behind its first word. -/
def loop (line : Nat) : Grammar Script := do
  let .word w ← token nested false false | fail .badLoopVariable
  let some name := w.literal? | fail .badLoopVariable
  if !isGoodName name then fail .badLoopVariable
  let t ← token nested true true
  let words? ← (do
    if t.isSign "in" then return some (← loopWords nested (← get).bound)
    if !t.isSign ";" then hold t
    return none)
  expect nested true true "do"
  let body ← nested .body
  expect nested false false "done"
  return .loop line name words? body

/-- The patterns of an arm of a choice from a token on, up to the closing bracket. A sign that is
    a word is a pattern here. -/
def patterns : (steps : Nat) → Token → Grammar (List Word)
  | 0, _ => fail .openQuote
  | steps + 1, t => do
    let pattern : Word := match t with
      | .word w => w
      | .sign text => [.text false text.toList]
      | _ => []
    let t ← token nested false false
    if t.isSign "|" then
      return pattern :: (← patterns steps (← token nested false false))
    if t.isSign ")" then return [pattern]
    unexpected t (some (shownSign ")"))

/-- The arms of a choice, up to its last word. -/
def arms : (steps : Nat) → Grammar (List (List Word × Script))
  | 0 => fail .openQuote
  | steps + 1 => do
    let t ← token nested true true
    if t.isSign "esac" then return []
    let first ← if t.isSign "(" then token nested false false else pure t
    let ps ← patterns nested (← get).bound first
    let body ← nested .arm
    let t ← token nested true true
    if t.isSign "esac" then return [(ps, body)]
    if t.isSign ";;" then return (ps, body) :: (← arms steps)
    unexpected t (some (shownSign ";;"))

/-- A choice behind its first word. -/
def choice (line : Nat) : Grammar Script := do
  let t ← token nested false false
  let .word subject := t | unexpected t (some "word")
  expect nested true true "in"
  return .choice line subject (← arms nested (← get).bound)

/-- The part of a condition behind its first word. -/
def conditional : (steps : Nat) → Grammar Script
  | 0 => fail .openQuote
  | steps + 1 => do
    let condition ← nested .body
    expect nested false false "then"
    let yes ← nested .body
    let t ← token nested false false
    if t.isSign "elif" then return .branch condition yes (← conditional steps)
    let no ← if t.isSign "else" then nested .body
      else do
        hold t
        pure (.sequence [])
    expect nested false false "fi"
    return .branch condition yes no

/-- Redirections behind a command. -/
def redirections (keywords : Bool) : (steps : Nat) → Grammar (List Redirection)
  | 0 => fail .openQuote
  | steps + 1 => do
    match ← token nested false keywords with
    | .redirection descriptor opening =>
      let r ← redirection nested descriptor opening
      return r :: (← redirections false steps)
    | t =>
      hold t
      return []

/-- A command without operators. -/
def command (newlines : Bool) : Grammar Script := do
  let s ← get
  let line := s.line
  let withRedirections (script : Script) : Grammar Script := do
    let rs ← redirections nested true s.bound
    return if rs.isEmpty then script else script.redirect line rs
  match ← token nested newlines true with
  | .sign "if" => withRedirections (← conditional nested s.bound)
  | .sign "for" => withRedirections (← loop nested line)
  | .sign "case" => withRedirections (← choice nested line)
  | .sign "\x7b" =>
    let body ← nested .body
    expect nested false false "\x7d"
    withRedirections body
  | .sign "(" =>
    let body ← nested .body
    expect nested false false ")"
    return .subshell line body (← redirections nested true s.bound)
  | .word w =>
    hold (.word w)
    simpleFrom nested (← get).line s.bound {}
  | .redirection descriptor opening =>
    hold (.redirection descriptor opening)
    simpleFrom nested (← get).line s.bound {}
  | t => unexpected t none

/-- The commands of a pipeline behind the first one. -/
def piped : (steps : Nat) → Grammar (List Script)
  | 0 => fail .openQuote
  | steps + 1 => do
    let t ← token nested false false
    if t.isSign "|" then
      let script ← command nested true
      return script :: (← piped steps)
    hold t
    return []

/-- A pipeline, which may be negated. -/
def pipeline (newlines : Bool) : Grammar Script := do
  let t ← token nested newlines true
  let negated := t.isSign "!"
  if !negated then hold t
  let first ← command nested false
  let others ← piped nested (← get).bound
  let script := if others.isEmpty then first else .pipeline (first :: others)
  return if negated then .negation script else script

/-- Pipelines behind a first one, with operators between them. -/
def operated : (steps : Nat) → Script → Grammar Script
  | 0, _ => fail .openQuote
  | steps + 1, first => do
    let t ← token nested false false
    if t.isSign "&&" then
      let second ← pipeline nested true
      operated steps (.both first second)
    else if t.isSign "||" then
      let second ← pipeline nested true
      operated steps (.either first second)
    else
      hold t
      return first

/-- The signs that end commands. -/
def closing : List String :=
  [";;", ")", "do", "done", "elif", "else", "esac", "fi", "then", "\x7d"]

/-- Whether a token ends commands. -/
def isClosing : Token → Bool
  | .sign text => text ∈ closing
  | _ => false

/-- Commands, behind others, the last ones first. -/
def commandsFrom (extent : Extent) : (steps : Nat) → List Script → Grammar (List Script)
  | 0, _ => fail .openQuote
  | steps + 1, done => do
    match ← token nested (extent ≠ .line) true with
    | .newline =>
      readDocuments nested
      return done
    | .ending =>
      readDocuments nested
      hold .ending
      return done
    | t =>
      hold t
      if isClosing t ∧ (extent = .arm ∨ (extent = .body ∧ !done.isEmpty)) then return done
      let script ← operated nested (← get).bound (← pipeline nested false)
      match ← token nested false false with
      | .sign "&" => commandsFrom extent steps (.background script :: done)
      | .sign ";" => commandsFrom extent steps (script :: done)
      | .newline =>
        hold .newline
        commandsFrom extent steps (script :: done)
      | .ending =>
        readDocuments nested
        hold .ending
        return script :: done
      | t =>
        if extent = .line then unexpected t none
        hold t
        return script :: done

/-- Commands that are nested at most so deep. -/
def commands : (depth : Nat) → Extent → Grammar (List Script)
  | 0, _ => fail .openQuote
  | depth + 1, extent => do
    let nested (extent : Extent) : Grammar Script := do
      return .sequence (← commands depth extent)
    return (← commandsFrom nested extent (← get).bound []).reverse

/-- The commands of the next line, with all lines that belong to them; nothing at the end of the
    script. -/
def nextCommands? : Grammar (Option (List Script)) := do
  modify fun s => { s with held := none, awaited := [] }
  let scripts ← commands (← get).bound .line
  match scripts, (← get).held with
  | [], some .ending => return none
  | scripts, _ => return some scripts

end Grammar

end PrecompiledHeaders.Shell

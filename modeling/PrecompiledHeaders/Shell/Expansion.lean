import PrecompiledHeaders.Shell.Arithmetic
import PrecompiledHeaders.Shell.Names
import PrecompiledHeaders.Shell.Session

/-!
# Replacing what is in words

A word stands for no, one or several texts, its *fields*. First its parts are replaced by what
they stand for (`Word.atoms`), then unquoted values are divided (`divide`), and then patterns are
replaced by the names of files (`fields`). Where a single text is wanted, nothing is divided
(`single`).

What commands in a word write is found out elsewhere: `Environment` says how.
-/

namespace PrecompiledHeaders.Shell

/-- What words are replaced in. -/
structure Environment where
  /-- The descriptors. -/
  streams : Streams
  /-- The output of commands. -/
  output : Script → Run (List Char)

/-- What a word is made of when its parts are replaced. -/
inductive Atom
  /-- Characters that belong together; even none of them make a field. -/
  | marks (marks : List Mark)
  /-- Characters at which fields may be divided. -/
  | value (text : List Char)
  /-- The end of a field. -/
  | stop

/-! ### Parameters -/

/-- The number of the process, which nothing shows. -/
def processNumber : List Char := "4242".toList

/-- The letters of the options. -/
def Options.letters (o : Options) : List Char :=
  [(o.exitsOnFailure, 'e'), (o.noNames, 'f'), (o.noRun, 'n'), (o.needsValues, 'u'),
    (o.showsLines, 'v'), (o.showsCommands, 'x'), (o.keepsFiles, 'C')].filterMap fun (on, letter) =>
      if on then some letter else none

/-- The value of a parameter other than all arguments, if it has one. -/
def Session.value? (s : Session) (name : List Char) : Option (List Char) :=
  match name with
  | ['?'] => some (Nat.toDigits 10 s.status)
  | ['#'] => some (Nat.toDigits 10 s.arguments.length)
  | ['$'] => some processNumber
  | ['-'] => some s.options.letters
  | ['!'] => none
  | name =>
    match Digits.number? 10 name with
    | some 0 => some s.name
    | some (n + 1) => s.arguments[n]?
    | none => s.bindings.lookup name

/-- The characters that divide values. -/
def Session.dividers (s : Session) : List Char :=
  (s.bindings.lookup "IFS".toList).getD [' ', '\t', '\n']

/-- Whether a name is that of all arguments. -/
def isAll (name : List Char) : Bool := name = ['@'] || name = ['*']

/-- All arguments with the first divider between each two. -/
def Session.joinedArguments (s : Session) : List Char :=
  (s.dividers.take 1).intercalate s.arguments

/-- The value of a parameter as one text, if it has one. -/
def Session.text? (s : Session) (name : List Char) : Option (List Char) :=
  if isAll name then some s.joinedArguments else s.value? name

/-! ### Dividing values -/

/-- What divides a value beside its dividers, and never belongs to it: it stands between the
    arguments that are taken together. -/
def argumentEnd : Char := '\x00'

/-- Whether a divider is a blank, of which several are like one. -/
def isBlankDivider (c : Char) : Bool := c ∈ [' ', '\t', '\n', argumentEnd]

/-- Fields that are being put together: those that are done, the last ones first, and the
    characters of the current one, the last ones first, if there is one. -/
structure Division where
  /-- The fields that are done. -/
  done : List (List Mark) := []
  /-- The current field. -/
  current : Option (List Mark) := none

namespace Division

/-- Ends the current field, be it empty. -/
def finish (d : Division) : Division :=
  ⟨(d.current.getD []).reverse :: d.done, none⟩

/-- Adds characters to the current field. -/
def add (d : Division) (marks : List Mark) : Division :=
  { d with current := some (marks.reverseAux (d.current.getD [])) }

/-- Adds a value, divided. A divider that is no blank ends a field, which may be empty, unless
    blanks have done so right in front of it, which `gap` says. -/
def addValue (dividers : List Char) (gap : Bool) (d : Division) : List Char → Division
  | [] => d
  | c :: rest =>
    if c ∈ dividers ∨ c = argumentEnd then
      if isBlankDivider c then
        match d.current with
        | none => addValue dividers gap d rest
        | some _ => addValue dividers true d.finish rest
      else if gap then addValue dividers false d rest
      else addValue dividers false d.finish rest
    else addValue dividers false (d.add [⟨c, false⟩]) rest

/-- Adds an atom. -/
def addAtom (dividers : List Char) (d : Division) : Atom → Division
  | .marks marks => d.add marks
  | .value text => d.addValue dividers false text
  | .stop => { d.finish with current := some [] }

/-- The fields. -/
def fields (d : Division) : List (List Mark) :=
  ((if d.current.isSome then d.finish else d).done).reverse

end Division

/-- The fields that atoms make up. -/
def divide (dividers : List Char) (atoms : List Atom) : List (List Mark) :=
  (atoms.foldl (Division.addAtom dividers) {}).fields

/-- The characters of atoms that are not to be divided. -/
def undivided (atoms : List Atom) : List Mark :=
  atoms.flatMap fun
    | .marks marks => marks
    | .value text => plain text
    | .stop => []

/-! ### Trimming -/

/-- A text without what a pattern matches at its start: the first of the given lengths that fits
    counts. -/
def trimStartBy (pattern : List Matcher) (text : List Char) (lengths : List Nat) : List Char :=
  match lengths.find? fun n => Matcher.accepts pattern (text.take n) with
  | some n => text.drop n
  | none => text

/-- A text without what a pattern matches at its end: the first of the given lengths that fits
    counts. -/
def trimEndBy (pattern : List Matcher) (text : List Char) (lengths : List Nat) : List Char :=
  match lengths.find? fun n => Matcher.accepts pattern (text.drop (text.length - n)) with
  | some n => text.take (text.length - n)
  | none => text

/-- A text without what a pattern matches at its start or end, as little as possible or as much. -/
def trimmed (atEnd most : Bool) (pattern : List Mark) (text : List Char) : List Char :=
  let lengths := List.range (text.length + 1)
  let lengths := if most then lengths.reverse else lengths
  (if atEnd then trimEndBy else trimStartBy) (Matcher.ofWord pattern) text lengths

/-! ### Words -/

/-- A value, quoted or to be divided. -/
def valueAtom (quoted : Bool) (text : List Char) : Atom :=
  if quoted then .marks (Shell.quoted text) else .value text

/-- The atoms of all arguments. If fields are `divided`, each argument makes a field of its own, in
    quotes only if that is asked for by the `@`. -/
def argumentAtoms (s : Session) (divided quoted : Bool) (name : List Char) : List Atom :=
  if !divided then [valueAtom quoted s.joinedArguments]
  else if !quoted then [.value ([argumentEnd].intercalate s.arguments)]
  else if name = ['*'] then [valueAtom true s.joinedArguments]
  else (s.arguments.map fun argument => Atom.marks (Shell.quoted argument)).intersperse .stop

/-- A part of an error about a parameter. -/
def noValue (name : List Char) (emptyCounts : Bool) : List Char :=
  name ++ ": parameter not set".toList ++ (if emptyCounts then " or null".toList else [])

/-- The text of a parameter that should have a value. -/
def neededText (env : Environment) (name : List Char) : Run (List Char) := do
  let s ← get
  match s.text? name with
  | some text => return text
  | none =>
    if s.options.needsValues then Run.fail env.streams (noValue name false) else return []

/-- The value of an arithmetic expression. -/
def valueText (env : Environment) (expression : List Char) : Run (List Char) := do
  match Arithmetic.evaluate (← get).bindings expression with
  | .ok (n, bindings) =>
    modify fun s => { s with bindings }
    return (toString n).toList
  | .error (.noNumber text) => Run.fail env.streams ("Illegal number: ".toList ++ text)
  | .error (.malformed why) =>
    Run.fail env.streams
      (s!"arithmetic expression: {why}: \"".toList ++ expression ++ ['"'])

mutual

/-- The atoms of a word; with `inner`, it stands for a parameter, and its text can be divided
    like a value. -/
def wordAtoms (env : Environment) (divided inner : Bool) : Word → Run (List Atom)
  | [] => return []
  | part :: rest => do
    let first ← partAtoms env divided inner part
    return first ++ (← wordAtoms env divided inner rest)

/-- The atoms of a part of a word. -/
def partAtoms (env : Environment) (divided inner : Bool) : Part → Run (List Atom)
  | .text true content => return [.marks (quoted content)]
  | .text false content => return [if inner then .value content else .marks (plain content)]
  | .output q script => return [valueAtom q (← env.output script)]
  | .value q expression => do
    let text := characters (undivided (← wordAtoms env false false expression))
    return [valueAtom q (← valueText env text)]
  | .parameter q name use => useAtoms env divided q name use

/-- The atoms of what is made of a parameter. -/
def useAtoms (env : Environment) (divided q : Bool) (name : List Char) : Use → Run (List Atom)
  | .whole => wholeAtoms name
  | .length => return [valueAtom q (Nat.toDigits 10 (← neededText env name).length)]
  | .illegal => Run.fail env.streams "Bad substitution".toList
  | .trim atEnd most pattern => do
    let text ← neededText env name
    let pattern := undivided (← wordAtoms env false false pattern)
    return [valueAtom q (trimmed atEnd most pattern text)]
  | .orElse emptyCounts instead word => do
    let text? := (← get).text? name
    let missing := text?.isNone || (emptyCounts && text? = some [])
    match instead with
    | .nothing => if missing then return [valueAtom q []] else wordAtoms env divided true word
    | .word => if missing then wordAtoms env divided true word else wholeAtoms name
    | .assign =>
      if missing then
        let value := characters (undivided (← wordAtoms env false true word))
        if !isGoodName name then Run.fail env.streams (name ++ ": bad variable name".toList)
        Run.assign name value
      wholeAtoms name
    | .error =>
      if missing then
        let explanation := characters (undivided (← wordAtoms env false true word))
        Run.fail env.streams
          (if word.isEmpty then noValue name emptyCounts
            else name ++ ": ".toList ++ explanation)
      wholeAtoms name
where
  /-- The atoms of the value of a parameter. -/
  wholeAtoms (name : List Char) : Run (List Atom) := do
    if isAll name then return argumentAtoms (← get) divided q name
    return [valueAtom q (← neededText env name)]

end

/-- The one text that a word stands for where words are not divided, with its quotes. -/
def single (env : Environment) (word : Word) : Run (List Mark) := do
  return undivided (← wordAtoms env false false word)

/-- The one text that a word stands for where words are not divided. -/
def singleText (env : Environment) (word : Word) : Run (List Char) := do
  return characters (← single env word)

/-- The texts that a word stands for. -/
def fields (env : Environment) (word : Word) : Run (List (List Char)) := do
  let atoms ← wordAtoms env true false word
  let s ← get
  return (divide s.dividers atoms).flatMap fun field =>
    let names := if s.options.noNames then [] else FileNames.ofWord s.tree field
    if names = [] then [characters field] else names

/-- The texts that words stand for. -/
def allFields (env : Environment) : List Word → Run (List (List Char))
  | [] => return []
  | word :: rest => do
    let first ← fields env word
    return first ++ (← allFields env rest)

end PrecompiledHeaders.Shell

import PrecompiledHeaders.Frontend.Process
import PrecompiledHeaders.Shell.Run

/-!
# Launching programs

A launcher that knows the programs of the file tree: above all the shell, which runs scripts. A
program is named by a path, which is followed from the directory that it is to run in, or by a
name in the directory of programs. No other file may be run.
-/

namespace PrecompiledHeaders.Shell

/-- What the arguments ask the shell for. -/
inductive Request
  /-- To run the text of an argument, under a name, with arguments. -/
  | command (text name : List Char) (arguments : List (List Char))
  /-- To run a file with arguments. -/
  | file (path : List Char) (arguments : List (List Char))
  /-- To run what can be read, which is nothing. -/
  | nothing
  /-- Something wrong. -/
  | wrong (why : List Char)

/-- The options that are known by names, with their letters. -/
def optionNames : List (String × Char) :=
  [("errexit", 'e'), ("noglob", 'f'), ("ignoreeof", 'I'), ("interactive", 'i'), ("monitor", 'm'),
    ("noexec", 'n'), ("stdin", 's'), ("xtrace", 'x'), ("verbose", 'v'), ("vi", 'V'),
    ("emacs", 'E'), ("noclobber", 'C'), ("allexport", 'a'), ("notify", 'b'), ("nounset", 'u'),
    ("nolog", ' '), ("debug", ' ')]

/-- Switches the option of a letter on or off; none if there is no such option. Some options change
    nothing here. -/
def Options.switch? (o : Options) (on : Bool) : Char → Option Options
  | 'e' => some { o with exitsOnFailure := on }
  | 'f' => some { o with noNames := on }
  | 'n' => some { o with noRun := on }
  | 'u' => some { o with needsValues := on }
  | 'v' => some { o with showsLines := on }
  | 'x' => some { o with showsCommands := on }
  | 'C' => some { o with keepsFiles := on }
  | c => if c ∈ ['I', 'i', 'm', 's', 'V', 'E', 'a', 'b', 'l', ' '] then some o else none

/-- What the words of a call have asked for so far. -/
structure Call where
  /-- The options. -/
  options : Options := {}
  /-- Whether the text of a command is given. -/
  command : Bool := false
  /-- Whether commands are to be read. -/
  reads : Bool := false

/-- Takes in the letters of a word with options, the first ones switched on or off. Words that go
    with them are taken from the rest. -/
def Call.letters (call : Call) (on : Bool) : List Char → List (List Char) →
    Except (List Char) (Call × List (List Char))
  | [], rest => .ok (call, rest)
  | 'c' :: letters, rest => Call.letters { call with command := true } on letters rest
  | 'o' :: letters, word :: rest =>
    match optionNames.lookup (String.ofList word) with
    | none => .error ("Illegal option -o ".toList ++ word)
    | some letter =>
      Call.letters { call with options := (call.options.switch? on letter).getD call.options }
        on letters rest
  | 'o' :: letters, [] => Call.letters call on letters []
  | letter :: letters, rest =>
    match call.options.switch? on letter with
    | none => .error ("Illegal option -".toList ++ [letter])
    | some options =>
      Call.letters { call with options, reads := call.reads || (letter = 's' && on) } on letters rest

/-- What follows the letters of options is not longer than what followed their word. -/
theorem Call.length_of_letters {call after : Call} {on : Bool} {letters : List Char}
    {words rest : List (List Char)} (h : call.letters on letters words = .ok (after, rest)) :
    rest.length ≤ words.length := by
  fun_induction Call.letters call on letters words with
  | case1 => cases h; exact Nat.le_refl _
  | case3 | case6 => cases h
  | case4 => exact Nat.le_succ_of_le (by simp_all)
  | _ => simp_all

/-- What the words of a call ask the shell for, which has the given name. -/
def Call.request (call : Call) (name : List Char) (words : List (List Char)) :
    Options × Request :=
  match words with
  | (sign :: letters) :: rest =>
    if sign = '-' ∧ (letters = [] ∨ letters = ['-']) then operands rest
    else if sign = '-' ∨ sign = '+' then
      match _h : call.letters (sign = '-') letters rest with
      | .error why => (call.options, .wrong why)
      | .ok (call, rest) => call.request name rest
    else operands words
  | words => operands words
termination_by words.length
decreasing_by exact Nat.lt_succ_of_le (length_of_letters _h)
where
  /-- What the words behind the options ask for. -/
  operands (words : List (List Char)) : Options × Request :=
    (call.options, match call.command, words with
      | true, text :: name :: arguments => .command text name arguments
      | true, [text] => .command text name []
      | true, [] => .wrong "-c requires an argument".toList
      | false, file :: arguments => if call.reads then .nothing else .file file arguments
      | false, [] => .nothing)

/-- Runs the text of a script in the current directory of the tree. -/
def runText (tree : FileTree) (options : Options) (text name : List Char)
    (arguments : List (List Char)) : Outcome × FileTree :=
  let bindings := [("PWD".toList, textOf tree.here.path), ("IFS".toList, [' ', '\t', '\n']),
    ("OPTIND".toList, ['1']), ("PS1".toList, ['#', ' ']), ("PS2".toList, ['>', ' ']),
    ("PS4".toList, ['+', ' '])]
  let (code?, stderr, tree) := runScript { tree, arguments, name, options, bindings } text
  (.ended (code?.map Int.ofNat) stderr, tree)

/-- Runs the shell with arguments in the current directory of the tree. -/
def runShell (tree : FileTree) (name : List Char) (arguments : List (List Char)) :
    Outcome × FileTree :=
  let refuse (why : List Char) : Outcome × FileTree :=
    (.ended (some 2) (toBytes (name ++ ": 0: ".toList ++ why ++ ['\n'])), tree)
  match Call.request {} name arguments with
  | (_, .nothing) => (.ended (some 0) [], tree)
  | (_, .wrong why) => refuse why
  | (options, .command text name arguments) => runText tree options text name arguments
  | (options, .file file arguments) =>
    match tree.read (pathOf file) with
    | .ok contents =>
      runText tree options ((ofBytes contents).filter (· ≠ '\x00')) file arguments
    | .error .isDirectory => (.ended (some 0) [], tree)
    | .error e =>
      let why := if e = .notFound ∨ e = .notDirectory then "No such file" else e.reason
      refuse ("cannot open ".toList ++ file ++ ": ".toList ++ why.toList)

/-- Runs a program other than the shell, of which only the complaints are of interest. -/
def runProgram (tree : FileTree) (command : Run Nat) : Outcome × FileTree :=
  let session : Session := { tree, arguments := [], name := [], options := {}, bindings := [] }
  let (result, after) := command.run session
  (.ended (some (result.toOption.getD 0)) (toBytes after.complaints.reverse.flatten), after.tree)

/-- Runs a program with a name and arguments in the current directory of the tree. -/
def Program.run (tree : FileTree) (name : List Char) (arguments : List (List Char)) :
    PrecompiledHeaders.Program → Outcome × FileTree
  | .shell => runShell tree name arguments
  | .concatenate => runProgram tree (Builtin.concatenate .initial arguments)
  | .fail => (.ended (some 1) [], tree)
  | .succeed | .echo | .whereabouts => (.ended (some 0) [], tree)

/-- Launches programs in their directories. -/
def launch : Launcher := fun tree invocation =>
  if ((invocation.compiler :: invocation.arguments).any fun s => s.toList.contains '\x00') ∨
      invocation.directory.bytes.contains 0 then
    (.refused "nul byte found in provided data", tree)
  else
    match tree.locate invocation.directory with
    | .error e => (.refused e.message, tree)
    | .ok location =>
      if tree.entryAt location ≠ some .directory then
        (.refused FileError.notDirectory.message, tree)
      else
        let inside := { tree with here := location }
        let characters (s : String) : List Char := ofBytes (Utf8.encode s.toList)
        let name := characters invocation.compiler
        match (if name = [] then .error .notFound else Builtin.program? inside name) with
        | .error e => (.refused e.message, tree)
        | .ok program =>
          let (outcome, after) :=
            Program.run inside name (invocation.arguments.map characters) program
          (outcome, { after with here := tree.here })

end PrecompiledHeaders.Shell

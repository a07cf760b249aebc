import PrecompiledHeaders.FileTree.System
import PrecompiledHeaders.Shell.Concatenation
import PrecompiledHeaders.Shell.Expansion
import PrecompiledHeaders.Shell.Quotation
import PrecompiledHeaders.Shell.Test

/-!
# The commands of scripts

What the commands do that scripts run: those that the shell has itself, and the programs beside
it. Each gets its descriptors and its arguments, and gives back a code.
-/

namespace PrecompiledHeaders.Shell

/-- The descriptor that a path stands for, by which files that are open already are named. -/
def descriptorOf? (p : List Char) : Option Nat :=
  match String.ofList p with
  | "/dev/stdin" => some 0
  | "/dev/stdout" => some 1
  | "/dev/stderr" => some 2
  | _ =>
    ["/dev/fd/", "/proc/self/fd/"].findSome? fun front =>
      match (front.toList.isPrefixOf p : Bool), p.drop front.length with
      | true, [c] => if c.isDigit then some (c.toNat - '0'.toNat) else none
      | _, _ => none

namespace Builtin

/-- Writes to the ordinary output. -/
def put (streams : Streams) (name text : List Char) : Run Nat := do
  if ← Run.write streams 1 text then return 0
  Run.complain streams (name ++ ": ".toList ++ name ++ ": I/O error".toList)
  return 1

/-- Complains in the name of a command. -/
def refuse (streams : Streams) (name why : List Char) : Run Nat := do
  Run.complain streams (name ++ ": ".toList ++ why)
  return 2

/-- The number from zero on that a word writes, if it is not too great. -/
def number? (word : List Char) : Option Nat :=
  match integer? word with
  | some (.ofNat n) => if n ≤ 0x7FFFFFFF then some n else none
  | _ => none

/-- What is wrong with a word that is no number. -/
def noNumber (word : List Char) : List Char := (TestError.noNumber word).message

/-! ### Echo -/

/-- The character that a letter stands for behind a backslash. -/
def escaped? : Char → Option Char
  | 'a' => some '\x07'
  | 'b' => some '\x08'
  | 'e' => some '\x1b'
  | 'f' => some '\x0c'
  | 'n' => some '\n'
  | 'r' => some '\r'
  | 't' => some '\t'
  | 'v' => some '\x0b'
  | '\\' => some '\\'
  | _ => none

/-- Text with its escapes replaced, and whether an escape has cut it off. A code has up to three
    digits to base eight, and there may be a zero in front of it. -/
def unescape : List Char → List Char × Bool
  | [] => ([], false)
  | '\\' :: 'c' :: _ => ([], true)
  | '\\' :: c :: rest =>
    match escaped? c with
    | some c =>
      let (others, cut) := unescape rest
      (c :: others, cut)
    | none =>
      let digits := (rest.take (if c = '0' then 3 else 2)).takeWhile (Digits.isDigit 8)
      if Digits.isDigit 8 c then
        let (others, cut) := unescape (rest.drop digits.length)
        (Char.ofNat (Digits.number 8 (c :: digits) % 256) :: others, cut)
      else
        let (others, cut) := unescape rest
        ('\\' :: c :: others, cut)
  | c :: rest =>
    let (others, cut) := unescape rest
    (c :: others, cut)
termination_by text => text.length
decreasing_by all_goals simp only [List.length_cons, List.length_drop]; omega

/-- What an echo of words writes. -/
def echoed (words : List (List Char)) : List Char :=
  let (words, newline) := match words with
    | ['-', 'n'] :: rest => (rest, false)
    | words => (words, true)
  let (text, cut) := unescape ([' '].intercalate words)
  if newline ∧ !cut then text ++ ['\n'] else text

/-! ### Files one after the other -/

/-- What the options among the words of a command ask for, and the other words; or the option that
    there is not. -/
def layoutOf (layout : Layout) : List (List Char) →
    Except (List Char) (Layout × List (List Char))
  | [] => .ok (layout, [])
  | ['-', '-'] :: rest => .ok (layout, rest)
  | ('-' :: '-' :: name) :: _ => .error ("unrecognized option '--".toList ++ name ++ ['\''])
  | ('-' :: letter :: letters) :: rest =>
    match (letter :: letters).find? fun c => (layout.withLetter? c).isNone with
    | some c => .error ("invalid option -- '".toList ++ [c, '\''])
    | none =>
      layoutOf ((letter :: letters).foldl (fun l c => (l.withLetter? c).getD l) layout) rest
  | word :: rest => do
    let (layout, words) ← layoutOf layout rest
    return (layout, word :: words)

/-- The number of the open file that a word of the command names, and the file. -/
def inputOf (streams : Streams) (word : List Char) : Run (Except String (Nat × OpenFile)) := do
  let descriptor? := if word = ['-'] then some 0 else descriptorOf? word
  match descriptor? with
  | some descriptor =>
    match ← Run.file? streams descriptor with
    | some (number, file) =>
      return if file.readable then .ok (number, file) else .error "Bad file descriptor"
    | none =>
      return .error (if word = ['-'] then "Bad file descriptor" else FileError.notFound.reason)
  | none =>
    let tree := (← get).tree
    let opened : Except FileError Location := do
      let location ← tree.locate (pathOf word)
      match tree.entryAt location with
      | some (.special file) => file.read.map fun _ => location
      | _ => return location
    match opened with
    | .error e => return .error e.reason
    | .ok location =>
      let file : OpenFile := { channel := .file location, readable := true, writable := false }
      return .ok (← Run.openFile file, file)

/-- Whether an open file is a directory. -/
def isDirectory (file : OpenFile) : Run Bool := do
  match file.channel with
  | .file location => return (← get).tree.entryAt location = some .directory
  | _ => return false

/-- Whether files are the same, so that reading what is left of the first would never end. -/
def feedsItself (input output : OpenFile) : Run Bool := do
  match input.channel, output.channel with
  | .file location, .file location' =>
    return location = location' ∧ input.offset < (← Run.contentsAt location).length
  | _, _ => return false

/-- Complains in the name of the program. -/
def concatenateError (streams : Streams) (text : List Char) : Run Unit := do
  let _ ← Run.write streams 2 ("cat: ".toList ++ text ++ ['\n'])

/-- Writes files one after the other. -/
def concatenateAll (streams : Streams) (layout : Layout) (state : Layout.State) (code : Nat) :
    List (List Char) → Run Nat
  | [] => return code
  | word :: rest => do
    let failed (why : String) : Run Nat := do
      concatenateError streams (FileName.shown word ++ ": ".toList ++ why.toList)
      concatenateAll streams layout state 1 rest
    match ← inputOf streams word with
    | .error why => failed why
    | .ok (number, file) =>
      let some (_, output) ← Run.file? streams 1 | return 1
      if ← feedsItself file output then failed "input file is output file"
      else if ← isDirectory file then failed FileError.isDirectory.reason
      else
        let (text, state) := layout.apply state (← Run.takeAll number file)
        if ← Run.write streams 1 text then concatenateAll streams layout state code rest
        else
          concatenateError streams "write error: Bad file descriptor".toList
          return 1

/-- The program that writes files one after the other. -/
def concatenate (streams : Streams) (words : List (List Char)) : Run Nat := do
  match layoutOf {} words with
  | .error why =>
    concatenateError streams why
    let _ ← Run.write streams 2 "Try 'cat --help' for more information.\n".toList
    return 1
  | .ok (layout, files) =>
    if (← Run.file? streams 1).isNone then
      concatenateError streams "standard output: Bad file descriptor".toList
      return 1
    let files := if files.isEmpty then [['-']] else files
    let code ← concatenateAll streams layout {} 0 files
    if files.contains ['-'] ∧ (← Run.file? streams 0).isNone then
      concatenateError streams "closing standard input: Bad file descriptor".toList
      return 1
    return code

/-! ### Signals -/

/-- The names of the first signals, from 1 on. Some have only their numbers. -/
def signalNames : List String :=
  ["HUP", "INT", "QUIT", "ILL", "TRAP", "ABRT", "BUS", "FPE", "KILL", "USR1", "SEGV", "USR2",
    "PIPE", "ALRM", "TERM", "16", "CHLD", "CONT", "STOP", "TSTP", "TTIN", "TTOU", "URG", "XCPU",
    "XFSZ", "VTALRM", "PROF", "WINCH", "IO", "PWR", "SYS", "32", "33", "RTMIN"]

/-- The number of signals. -/
def signalCount : Nat := 64

/-- The signals that do not end a process. -/
def harmless : List Nat := [0, 17, 18, 23, 28]

/-- The signal that a word names, by its number or its name. -/
def signal? (word : List Char) : Option Nat :=
  if word ≠ [] ∧ word.all Char.isDigit then
    let n := Digits.number 10 (word.dropWhile (· = '0'))
    if n ≤ signalCount then some n else none
  else (signalNames.idxOf? (String.ofList (word.map Char.toUpper))).map (· + 1)

/-- What the words of a kill ask for: the signal, whether signals are to be listed, and the
    processes; or what is wrong with them. -/
structure KillRequest where
  /-- The signal, if one is named. -/
  signal? : Option Nat := none
  /-- Whether signals are to be listed. -/
  lists : Bool := false
  /-- The processes. -/
  processes : List (List Char) := []

/-- The options of a kill. -/
def killOptions (request : KillRequest) : List (List Char) → Except (List Char) KillRequest
  | [] => .ok request
  | ['-', '-'] :: rest => .ok { request with processes := rest }
  | ('-' :: letter :: letters) :: rest =>
    letters' request (letter :: letters) rest
  | words => .ok { request with processes := words }
where
  /-- The options that the letters of a word name. -/
  letters' (request : KillRequest) : List Char → List (List Char) →
      Except (List Char) KillRequest
    | [], rest => killOptions request rest
    | 'l' :: letters, rest => letters' { request with lists := true } letters rest
    | ['s'], [] => .error "No arg for -s option".toList
    | ['s'], word :: rest => named request word rest
    | 's' :: word, rest => named request word rest
    | letter :: _, _ => .error ("Illegal option -".toList ++ [letter])
  /-- The options behind one that names a signal. -/
  named (request : KillRequest) (word : List Char) (rest : List (List Char)) :
      Except (List Char) KillRequest :=
    match signal? word with
    | some n => killOptions { request with signal? := some n } rest
    | none => .error ("invalid signal number or name: ".toList ++ word)

/-- What the words of a kill ask for. A signal may be named right behind a dash. -/
def killRequest (words : List (List Char)) : Except (List Char) KillRequest :=
  let direct? := do
    let first ← words.head?
    let name ← if first.head? = some '-' then some first.tail else none
    signal? name
  match direct? with
  | some n => .ok { signal? := some n, processes := words.tail }
  | none => killOptions {} words

/-- How a kill is used. -/
def killUsage : List Char :=
  ("Usage: kill [-s sigspec | -signum | -sigspec] [pid | job]... or\n" ++
    "kill -l [exitstatus]").toList

/-- Sends a signal to processes one after the other. The shell itself is the only one there is; a
    copy of it outlives the shell. -/
def killAll (streams : Streams) (isCopy : Bool) (signal : Nat) (code : Nat) :
    List (List Char) → Run Nat
  | [] => return code
  | process :: rest => do
    let digits := if process.head? = some '-' then process.tail else process
    match number? digits with
    | none => refuse streams "kill".toList (noNumber digits)
    | some _ =>
      if process = processNumber then
        if signal ∉ harmless then
          if isCopy then modify fun s => { s with killed := true }
          else throw .signal
        killAll streams isCopy signal code rest
      else
        let _ ← refuse streams "kill".toList "No such process\n".toList
        killAll streams isCopy signal 1 rest

/-- Sends a signal. -/
def kill (streams : Streams) (isCopy : Bool) (words : List (List Char)) : Run Nat := do
  match killRequest words with
  | .error why => refuse streams "kill".toList why
  | .ok request =>
    if request.lists ∧ request.signal?.isNone then
      put streams "kill".toList
        ("\n".intercalate ("0" :: signalNames) ++ "\n").toList
    else if request.lists ∨ request.processes.isEmpty then
      refuse streams "kill".toList killUsage
    else killAll streams isCopy (request.signal?.getD 15) 0 request.processes

/-! ### Others -/

/-- The code of a test. -/
def tested (streams : Streams) (name : List Char) : Except TestError Bool → Run Nat
  | .ok true => return 0
  | .ok false => return 1
  | .error e => refuse streams name e.message

/-- Writes the path of the current directory. -/
def whereabouts (streams : Streams) (name : List Char) (words : List (List Char)) : Run Nat := do
  let unknown? := words.findSome? fun
    | '-' :: letters => letters.find? fun c => c ≠ 'L' ∧ c ≠ 'P'
    | _ => none
  match unknown? with
  | some letter => refuse streams name ("Illegal option -".toList ++ [letter])
  | none => put streams name (textOf (← get).tree.here.path ++ ['\n'])

/-- Ends the shell. -/
def exit (streams : Streams) (name : List Char) (words : List (List Char)) : Run Nat := do
  match words with
  | [] => throw (.exit (← get).status)
  | code :: _ =>
    match number? code with
    | some n => throw (.exit (n % 256))
    | none => Run.fail streams (name ++ ": ".toList ++ noNumber code)

/-- Ends some loops; not more than there are. -/
def leave (streams : Streams) (loops : Nat) (ending : Nat → Ending) (name : List Char)
    (words : List (List Char)) : Run Nat := do
  let count := words.head?.getD ['1']
  match number? count with
  | some (n + 1) =>
    if loops = 0 then return 0
    Run.setStatus 0
    throw (ending (min (n + 1) loops))
  | _ => Run.fail streams (name ++ ": ".toList ++ noNumber count)

/-- The commands whose errors end the shell, and whose assignments stay. -/
def special : List String := [":", "break", "continue", "exit"]

/-- A command that the shell has itself. -/
def run? (streams : Streams) (isCopy : Bool) (loops : Nat) (name : List Char)
    (words : List (List Char)) : Option (Run Nat) :=
  match String.ofList name with
  | ":" | "true" => some (return 0)
  | "false" => some (return 1)
  | "echo" => some (put streams name (echoed words))
  | "pwd" => some (whereabouts streams name words)
  | "exit" => some (exit streams name words)
  | "break" => some (leave streams loops .leave name words)
  | "continue" => some (leave streams loops .again name words)
  | "kill" => some (kill streams isCopy words)
  | "test" => some do tested streams name (Test.holds (← get).tree words)
  | "[" => some do tested streams name (Test.holdsBracketed (← get).tree words)
  | _ => none

/-- What is wrong with a command that cannot be run, and the code for it. A file that is there must
    not be run, which has a code of its own if the command is a path. -/
def refusal (name : List Char) (e : FileError) : String × Nat :=
  match e with
  | .notFound | .notDirectory => ("not found", 127)
  | .nameTooLong | .tooManyLinks => (e.reason, 127)
  | e => (e.reason, if name.contains '/' then 126 else 127)

/-- The program that a command names, by a path or, without a slash, in the directory of the
    programs. -/
def program? (tree : FileTree) (name : List Char) : Except FileError Program := do
  let p := if name.contains '/' then name
    else textOf FileTree.programDirectory.path ++ ['/'] ++ name
  match FileTree.programAt? (← tree.locate (pathOf p)) with
  | some program => .ok program
  | none => .error .permissionDenied

/-- Runs a command. -/
def run (streams : Streams) (isCopy : Bool) (loops : Nat) (name : List Char)
    (words : List (List Char)) : Run Nat := do
  match run? streams isCopy loops name words with
  | some command => command
  | none =>
    match program? (← get).tree name with
    | .ok .concatenate => concatenate streams words
    | .ok .succeed => return 0
    | .ok .fail => return 1
    | .ok .echo => put streams name ([' '].intercalate words ++ ['\n'])
    | .ok .whereabouts => put streams name (textOf (← get).tree.here.path ++ ['\n'])
    | .ok .shell => return 0
    | .error e =>
      let (why, code) := refusal name e
      Run.complain streams (name ++ ": ".toList ++ why.toList)
      return code

end Builtin

end PrecompiledHeaders.Shell

import PrecompiledHeaders.Shell.Builtin
import PrecompiledHeaders.Shell.Grammar

/-!
# Running shell scripts

Running a script changes files and variables and writes to streams, until the script is through
or ends itself, with a code or by a signal. Commands are run by recursion on the depth to which
they stand in each other (`run`); the commands of a line are run before the next line is read
(`runLines`).
-/

namespace PrecompiledHeaders.Shell

/-- What a command is run with. -/
structure Setting where
  /-- The descriptors. -/
  streams : Streams
  /-- How many loops there are around the command. -/
  loops : Nat := 0
  /-- Whether something depends on the command's code, so that it may fail. -/
  tested : Bool := false
  /-- Whether a copy of the shell runs the command. -/
  isCopy : Bool := false

/-- Runs commands that stand in others. -/
abbrev Runner := Setting → Script → Run Unit

/-! ### Copies of the shell -/

/-- Runs something in a copy of the shell, which shares files and streams with it, but nothing
    else; gives back the code that it ends with. -/
def inCopy (action : Run Unit) : Run Nat := do
  let before ← get
  tryCatch action fun
    | .exit code => Run.setStatus code
    | _ => return
  let after ← get
  set { before with
    tree := after.tree, files := after.files, complaints := after.complaints
    killed := after.killed }
  return after.status

/-- Ends the shell if a copy has ended it. -/
def waitFor (setting : Setting) : Run Unit := do
  if (← get).killed ∧ !setting.isCopy then throw .signal

/-- What a command writes, without the ends of lines at its end. A zero byte cannot be part of a
    text. -/
def captured (runner : Runner) (setting : Setting) (script : Script) : Run (List Char) := do
  if let .sequence [] := script then return []
  let pipe ← Run.openFile ⟨.pipe [], true, true, false, 0⟩
  let status ← inCopy
    (runner { setting with streams := setting.streams.tie 1 pipe, isCopy := true } script)
  waitFor setting
  modify fun s => { s with outputStatus := status }
  let text ← match (← get).files[pipe]? with
    | some file => Run.takeAll pipe file
    | none => pure []
  return ((text.filter (· ≠ '\x00')).reverse.dropWhile (· = '\n')).reverse

/-- What words are replaced in where a command is run. -/
def environment (runner : Runner) (setting : Setting) : Environment :=
  ⟨setting.streams, captured runner setting⟩

/-- Ends the shell if the last command has failed and it was asked to end then. -/
def checkStatus (setting : Setting) : Run Unit := do
  let s ← get
  if s.options.exitsOnFailure ∧ !setting.tested ∧ s.status ≠ 0 then throw (.exit s.status)

/-! ### Redirections -/

/-- What a descriptor is to be tied to, with its words replaced. -/
inductive Tie
  /-- A file that is opened. -/
  | file (opening : Opening) (path : List Char)
  /-- What another descriptor is tied to, or nothing. -/
  | copy (descriptor? : Option Nat)
  /-- A text in the script. -/
  | document (index : Nat)

/-- The tie of a redirection. -/
def tieOf (env : Environment) : Target → Run Tie
  | .input file => return .file .input (← singleText env file)
  | .output force file => return .file (.output force) (← singleText env file)
  | .append file => return .file .append (← singleText env file)
  | .both file => return .file .both (← singleText env file)
  | .document index => return .document index
  | .copy descriptor => do
    match ← singleText env descriptor with
    | ['-'] => return .copy none
    | [c] => if c.isDigit then return .copy (some (c.toNat - '0'.toNat))
    | _ => pure ()
    modify fun s => { s with line := s.readLine }
    Run.fail env.streams SyntaxError.badDescriptor.message.toList

/-- The ties of redirections, with their descriptors. -/
def tiesOf (env : Environment) : List Redirection → Run (List (Nat × Tie))
  | [] => return []
  | ⟨descriptor, target⟩ :: rest => do
    let tie ← tieOf env target
    return (descriptor, tie) :: (← tiesOf env rest)

/-- Opens a file; its number, or what is wrong. -/
def openPath (opening : Opening) (p : List Char) : Run (Except FileError Nat) := do
  let s ← get
  let file : OpenFile :=
    { channel := .null, readable := opening = .input ∨ opening = .both
      writable := opening ≠ .input, appends := opening = .append }
  let before : Except FileError Bytes := s.tree.read (pathOf p)
  let tree : Except FileError FileTree := match opening with
    | .input =>
      match s.tree.find? (pathOf p) with
      | some (.special file) => file.read.map fun _ => s.tree
      | _ => .ok s.tree
    | .output force =>
      if s.options.keepsFiles ∧ !force ∧ s.tree.isFile (pathOf p) then .error .exists
      else s.tree.write (pathOf p) []
    | _ => s.tree.write (pathOf p) (before.toOption.getD [])
  match tree with
  | .error e => return .error e
  | .ok tree =>
    set { s with tree }
    match tree.locate (pathOf p) with
    | .error e => return .error e
    | .ok location => return .ok (← Run.openFile { file with channel := .file location })

/-- Complains about a file that cannot be opened. -/
def complainAbout (streams : Streams) (opening : Opening) (p : List Char) (e : FileError) :
    Run Unit :=
  let missing := e = .notFound ∨ e = .notDirectory
  Run.complain streams <|
    if opening = .input then
      "cannot open ".toList ++ p ++ ": ".toList ++
        (if missing then "No such file" else e.reason).toList
    else
      "cannot create ".toList ++ p ++ ": ".toList ++
        (if missing then "Directory nonexistent" else e.reason).toList

/-- Ties a descriptor; none if that fails, which is complained about. If what it was tied to has to
    come back behind the command, it is put aside before a copy is made, and a complaint about the
    copy cannot be written to it. -/
def tie (runner : Runner) (setting : Setting) (comesBack : Bool) (streams : Streams)
    (descriptor : Nat) : Tie → Run (Option Streams)
  | .copy none => return some (streams.close descriptor)
  | .copy (some other) => do
    if other = descriptor then return some streams
    match streams.lookup other with
    | some file => return some (streams.tie descriptor file)
    | none =>
      let isAside := comesBack ∧ streams.lookup descriptor = setting.streams.lookup descriptor
      Run.complain (if isAside then streams.close descriptor else streams)
        (Nat.toDigits 10 other ++ ": Bad file descriptor".toList)
      return none
  | .document index => do
    let content := ((← get).documents.lookup index).getD []
    let text ← singleText (environment runner { setting with streams }) content
    return some (streams.tie descriptor (← Run.openFile ⟨.pipe [text], true, true, false, 0⟩))
  | .file opening p => do
    match descriptorOf? p with
    | some other =>
      match streams.lookup other with
      | some file => return some (streams.tie descriptor file)
      | none =>
        complainAbout streams opening p .notFound
        return none
    | none =>
      match ← openPath opening p with
      | .ok file => return some (streams.tie descriptor file)
      | .error e =>
        complainAbout streams opening p e
        return none

/-- Ties descriptors in order. -/
def tieAll (runner : Runner) (setting : Setting) (comesBack : Bool) (streams : Streams) :
    List (Nat × Tie) → Run (Option Streams)
  | [] => return some streams
  | (descriptor, t) :: rest => do
    match ← tie runner setting comesBack streams descriptor t with
    | none => return none
    | some streams => tieAll runner setting comesBack streams rest

/-- Runs something with descriptors tied. -/
def redirected (runner : Runner) (setting : Setting) (comesBack : Bool) (ties : List (Nat × Tie))
    (action : Setting → Run Unit) : Run Unit := do
  match ← tieAll runner setting comesBack setting.streams ties with
  | none => Run.setStatus 2
  | some streams => action { setting with streams }

/-- The ties of the redirections of a command in a line. -/
def tiesAt (runner : Runner) (setting : Setting) (line : Nat)
    (redirections : List Redirection) : Run (List (Nat × Tie)) := do
  modify fun s => { s with line }
  tiesOf (environment runner setting) redirections

/-! ### Simple commands -/

/-- Gives variables their values. -/
def assignAll (env : Environment) : List (List Char × Word) → Run (List (List Char))
  | [] => return []
  | (name, word) :: rest => do
    let value ← singleText env word
    Run.assign name value
    return (name ++ ['='] ++ value) :: (← assignAll env rest)

/-- Writes a command that is about to be run, if that was asked for. -/
def showCommand (streams : Streams) (words : List (List Char)) : Run Unit := do
  if (← get).options.showsCommands then
    let _ ← Run.write streams 2 (['+', ' '] ++ [' '].intercalate words ++ ['\n'])

/-- Runs a simple command. Assignments in front of most commands hold only as long as these. -/
def runSimple (runner : Runner) (setting : Setting) (line : Nat)
    (assignments : List (List Char × Word)) (words : List Word)
    (redirections : List Redirection) : Run Unit := do
  modify fun s => { s with line, outputStatus := 0 }
  let env := environment runner setting
  let texts ← allFields env words
  let isSpecial := texts.head?.any fun name => String.ofList name ∈ Builtin.special
  let ties ← tiesOf env redirections
  match ← tieAll runner setting true setting.streams ties with
  | none =>
    if isSpecial then throw (.exit 2)
    Run.setStatus 2
  | some streams =>
    let bindings := (← get).bindings
    let shown ← assignAll (environment runner { setting with streams }) assignments
    showCommand setting.streams (shown ++ texts)
    match texts with
    | [] => Run.setStatus (← get).outputStatus
    | name :: arguments =>
      Run.setStatus (← Builtin.run streams setting.isCopy setting.loops name arguments)
      if !isSpecial then modify fun s => { s with bindings }

/-! ### Commands -/

/-- Runs commands each of which reads what the one in front of it writes. -/
def runPipeline (runner : Runner) (setting : Setting) (input? : Option Nat) :
    List Script → Run Unit
  | [] => return
  | script :: rest => do
    let streams := (input?.map (setting.streams.tie 0)).getD setting.streams
    let setting' := { setting with streams, isCopy := true }
    match rest with
    | [] => Run.setStatus (← inCopy (runner setting' script))
    | rest =>
      let pipe ← Run.openFile ⟨.pipe [], true, true, false, 0⟩
      let _ ← inCopy (runner { setting' with streams := streams.tie 1 pipe } script)
      runPipeline runner setting (some pipe) rest

/-- Runs the body of a loop for one word; whether the loop goes on. -/
def runRound (body : Run Unit) : Run Bool :=
  tryCatch (do body; return true) fun
    | .leave (n + 2) => throw (.leave (n + 1))
    | .leave _ => return false
    | .again (n + 2) => throw (.again (n + 1))
    | .again _ => return true
    | ending => throw ending

/-- Runs the body of a loop for words. -/
def runRounds (name : List Char) (body : Run Unit) : List (List Char) → Run Unit
  | [] => return
  | word :: rest => do
    Run.assign name word
    if ← runRound body then runRounds name body rest

/-- The first arm of a choice with a pattern that a text matches. -/
def armFor? (env : Environment) (subject : List Char) :
    List (List Word × Script) → Run (Option Script)
  | [] => return none
  | (patterns, body) :: rest => do
    if ← patterns.anyM fun pattern => do
        return Matcher.accepts (Matcher.ofWord (← single env pattern)) subject
    then return some body
    else armFor? env subject rest

/-- Runs a command; `depth` bounds how deep commands stand in each other. -/
def run : (depth : Nat) → Runner
  | 0, _, _ => return
  | depth + 1, setting, script => do
    let runner : Runner := run depth
    let testing := { setting with tested := true }
    match script with
    | .simple line assignments words redirections =>
      runSimple runner setting line assignments words redirections
      checkStatus setting
    | .redirected line script redirections =>
      let ties ← tiesAt runner setting line redirections
      redirected runner setting true ties fun setting => runner setting script
    | .subshell line script redirections =>
      let ties ← tiesAt runner setting line redirections
      Run.setStatus (← inCopy
        (redirected runner { setting with isCopy := true } false ties fun setting =>
          runner setting script))
      waitFor setting
      checkStatus setting
    | .background script =>
      let streams := setting.streams.tie 0 0
      let _ ← inCopy (runner { setting with streams, isCopy := true, tested := false } script)
      waitFor setting
      Run.setStatus 0
    | .pipeline scripts =>
      runPipeline runner setting none scripts
      waitFor setting
      checkStatus setting
    | .sequence scripts =>
      if scripts.isEmpty then Run.setStatus 0
      for script in scripts do
        runner setting script
    | .both first second =>
      runner testing first
      if ← Run.succeeded then runner setting second
    | .either first second =>
      runner testing first
      if !(← Run.succeeded) then runner setting second
    | .negation script =>
      runner testing script
      Run.setStatus (if ← Run.succeeded then 1 else 0)
    | .loop line name words? body =>
      modify fun s => { s with line }
      let words ← match words? with
        | none => pure (← get).arguments
        | some words => allFields (environment runner setting) words
      if words.isEmpty then Run.setStatus 0
      runRounds name (runner { setting with loops := setting.loops + 1 } body) words
    | .choice line subject arms =>
      modify fun s => { s with line }
      let env := environment runner setting
      let subject ← singleText env subject
      match ← armFor? env subject arms with
      | none => Run.setStatus 0
      | some script => runner setting script
    | .branch condition yes no =>
      runner testing condition
      if ← Run.succeeded then runner setting yes else runner setting no

/-! ### Scripts -/

/-- Runs a script from a place on, at most so many lines of it. -/
def runLines : (steps : Nat) → Reading → Run Unit
  | 0, _ => return
  | steps + 1, reading => do
    let setting : Setting := { streams := .initial }
    let showLines (text : List Char) : Run Unit := do
      if (← get).options.showsLines then
        let _ ← Run.write setting.streams 2 text
    match Grammar.nextCommands?.run reading with
    | .error (line, e) =>
      showLines reading.rest
      modify fun s => { s with line }
      Run.fail setting.streams e.message.toList
    | .ok (none, _) => showLines reading.rest
    | .ok (some scripts, after) =>
      showLines (reading.rest.take (reading.rest.length - after.rest.length))
      modify fun s => { s with documents := after.documents, readLine := after.line }
      if !(← get).options.noRun then
        for script in scripts do
          run reading.bound setting script
      runLines steps after

/-- How the run of a script ended: with a code or, without one, by a signal; what it has
    complained about; and the files behind it. -/
def runScript (session : Session) (text : List Char) : Option Nat × Bytes × FileTree :=
  let reading := Reading.ofText text
  let (result, after) := (runLines reading.bound reading).run session
  let code? := match result with
    | .error (.exit code) => some code
    | .error .signal => none
    | _ => some after.status
  (code?, toBytes after.complaints.reverse.flatten, after.tree)

end PrecompiledHeaders.Shell

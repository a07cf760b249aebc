import PrecompiledHeaders.Frontend.Basic
import PrecompiledHeaders.Include.Walk

/-!
# The scanning frontend

The scanning frontend does without a compiler: it follows the include directives itself. Files
that are excluded, the input and the headers of precompiled headers in front of it count as
visited from the start. To emit a precompiled header is to write a snapshot of the headers that
were entered, behind those of the precompiled headers in front.
-/

namespace PrecompiledHeaders

/-- What the scan of an input has found. -/
structure Scan where
  /-- The settings of the arguments, with absolute paths. -/
  settings : Settings
  /-- The headers of the precompiled headers in front of the input. -/
  base : List SnapshotEntry
  /-- What happened when the includes were followed. -/
  events : List Event

namespace Scan

/-- The headers that were entered, in order. -/
def entries (scan : Scan) : List SnapshotEntry :=
  scan.events.filterMap fun event => do
    let (path, contents) ← event.header?
    return ⟨path, .ofBytes contents⟩

/-- The includes that lead to no file, in order. -/
def unresolved (scan : Scan) : List UnresolvedInclude :=
  scan.events.filterMap fun event => do
    let missing ← event.missing?
    return ⟨missing.includer, String.ofList missing.directive.spelling⟩

/-- The entries of precompiled headers, in order. -/
def baseEntries (tree : FileTree) : List Path → Except FrontendError (List SnapshotEntry)
  | [] => .ok []
  | base :: rest =>
    match Snapshot.read tree base with
    | .error e => .error (.invalidSnapshot base e)
    | .ok snapshot => do return snapshot.entries ++ (← baseEntries tree rest)

/-- The includes that arguments force in front of an input. They are taken from the directory in
    which the compiler runs. -/
def forcedIncludes (settings : Settings) (directory input : Path) : List Include :=
  settings.forcedIncludes.map fun forced => ⟨input, directory, ⟨.quoted, forced.display.toList⟩⟩

/-- Scans the input of an invocation. -/
def run (tree : FileTree) (invocation : Invocation) (excluded : List Path) :
    Except FrontendError Scan :=
  let directory := invocation.directory
  let settings := (Settings.ofArguments invocation.arguments).absolute directory
  match settings.inputs with
  | [] => .error .missingInput
  | input :: _ =>
    match tree.read input with
    | .error e => .error (.unreadableInput input e)
    | .ok source => do
      let base ← baseEntries tree settings.bases
      let visited := tree.identity input :: base.map (tree.identity ·.path) ++
        excluded.map fun p => tree.identity (directory.normalizeFrom p)
      let includes := forcedIncludes settings directory input ++ Include.ofFile input source
      return ⟨settings, base, Include.walk (.ofSettings settings) tree visited includes⟩

/-- What a compiler says about an include that leads to no file. -/
def complaint (missing : UnresolvedInclude) : String :=
  s!"{missing.includer.display}: fatal error: '{missing.spelling}' file not found"

/-- The headers that an input includes. -/
def preprocess (tree : FileTree) (invocation : Invocation) (excluded : List Path) :
    Except FrontendError Preprocessed := do
  let scan ← run tree invocation excluded
  return ⟨scan.entries.map SnapshotEntry.path, scan.unresolved⟩

/-- Writes a snapshot to a file. Nothing is written of a snapshot that has no bytes. -/
def writeSnapshot (tree : FileTree) (p : Path) (snapshot : Snapshot) :
    Except FrontendError Unit × FileTree :=
  match snapshot.encode? with
  | none => (.error (.invalidSnapshot p .codec), tree)
  | some bytes =>
    match tree.write p bytes with
    | .error e => (.error (.unwritable p e), tree)
    | .ok tree => (.ok (), tree)

/-- Compiles an input: every include has to lead to a file. If a precompiled header is to be emitted,
    it is written in the end. -/
def compile (tree : FileTree) (invocation : Invocation) : Except FrontendError Unit × FileTree :=
  match run tree invocation [] with
  | .error e => (.error e, tree)
  | .ok scan =>
    if scan.unresolved ≠ [] then
      (.error (.failed invocation.compiler (some 1)
        ("\n".intercalate (scan.unresolved.map complaint))), tree)
    else if scan.settings.emits then
      match scan.settings.output with
      | none => (.error .missingOutput, tree)
      | some output => writeSnapshot tree output ⟨scan.base ++ scan.entries⟩
    else (.ok (), tree)

end Scan

/-- The frontend that scans. -/
def Frontend.scan : Frontend where
  name := "scan"
  preprocess tree invocation excluded := (Scan.preprocess tree invocation excluded, tree)
  compile := Scan.compile

end PrecompiledHeaders

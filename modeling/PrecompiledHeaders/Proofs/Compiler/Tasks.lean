import PrecompiledHeaders.Frontend.Scan
import PrecompiledHeaders.Proofs.Compiler.Settings

/-!
# Tasks are read as they are meant

The arguments of a task are written in one place and read in another. Behind arguments that leave no
flag waiting for its value, whatever else these say, they are read as what the task asks for and
nothing else (`Settings.ofArguments_task`).

A scan reads the first input that there is (`Scan.reads_iff`). The input of a task comes last, so
that is the one which is read only if no other stands in front of it, or the first of these leads to
the same path (`Scan.tasks_are_read_back`).
-/

namespace PrecompiledHeaders

namespace Task

/-- What a compiler is to read for a task. -/
def input : Task → Path
  | .preprocess input => input
  | .emit header _ _ => header
  | .consume _ input => input

/-- The paths that a task names. -/
def paths : Task → List Path
  | .preprocess input => [input]
  | .emit header target base => header :: target :: base.toList
  | .consume base input => [base, input]

end Task

namespace Settings

variable {arguments : List String} {task : Task}

/-- Settings with what a task asks for behind them. -/
def extend (settings : Settings) : Task → Settings
  | .preprocess input => { settings with inputs := settings.inputs ++ [input] }
  | .emit header target base =>
    { settings with
      bases := settings.bases ++ base.toList
      output := some target
      emits := true
      inputs := settings.inputs ++ [header] }
  | .consume base input =>
    { settings with
      bases := settings.bases ++ [base]
      inputs := settings.inputs ++ [input] }

/-- Behind complete arguments, those of a task say what it asks for. -/
theorem ofArguments_task (h : IsComplete arguments)
    (hpaths : ∀ p ∈ task.paths, p.isAbsolute ∧ p.IsText) :
    ofArguments (task.arguments arguments) = (ofArguments arguments).extend task := by
  cases task with
  | preprocess input =>
    obtain ⟨hinput, htext⟩ := hpaths input List.mem_cons_self
    exact ofArguments_preprocess h hinput htext
  | emit header target base =>
    have hheader := hpaths header List.mem_cons_self
    have htarget := hpaths target (List.mem_cons_of_mem _ List.mem_cons_self)
    refine ofArguments_emit h hheader.1 hheader.2 htarget.2 fun b hb => ?_
    exact (hpaths b (List.mem_cons_of_mem _ (List.mem_cons_of_mem _ (Option.mem_toList.2 hb)))).2
  | consume base input =>
    have hbase := hpaths base List.mem_cons_self
    obtain ⟨hinput, htext⟩ := hpaths input (List.mem_cons_of_mem _ List.mem_cons_self)
    exact ofArguments_consume h hinput htext hbase.2

/-- The input of a task comes behind those that are named already. -/
theorem inputs_extend (settings : Settings) (task : Task) :
    (settings.extend task).inputs = settings.inputs ++ [task.input] := by
  cases task <;> rfl

end Settings

namespace Scan

variable {invocation : Invocation} {p : Path} {arguments : List String} {task : Task}

/-- Whether a path is what a scan reads as its input: the scan gives up over this path whenever it
    cannot be read. -/
def Reads (invocation : Invocation) (p : Path) : Prop :=
  ∀ tree excluded e, tree.read p = .error e →
    run tree invocation excluded = .error (.unreadableInput p e)

/-- In a tree without entries there is nothing to be read. -/
theorem exists_read_error (p : Path) : ∃ e, (⟨[], []⟩ : FileTree).read p = .error e := by
  unfold FileTree.read
  cases hlocate : (⟨[], []⟩ : FileTree).locate p with
  | error e => exact ⟨e, rfl⟩
  | ok location =>
    cases location with
    | nil => exact ⟨.isDirectory, rfl⟩
    | cons name above => exact ⟨.notFound, rfl⟩

theorem reads_iff : Reads invocation p ↔
    ((Settings.ofArguments invocation.arguments).absolute invocation.directory).inputs.head? =
      some p := by
  constructor
  · intro h
    obtain ⟨e, hread⟩ := exists_read_error p
    have hrun := h ⟨[], []⟩ [] e hread
    simp only [run] at hrun
    split at hrun
    · cases hrun
    · next input others hinputs =>
      obtain ⟨e', hread'⟩ := exists_read_error input
      rw [hread'] at hrun
      cases hrun
      rw [hinputs, List.head?_cons]
  · intro h tree excluded e hread
    obtain ⟨others, hinputs⟩ := List.head?_eq_some_iff.1 h
    simp only [run, hinputs, hread]

/-- **Tasks are read back.** Behind arguments that leave no flag waiting for its value, the
    arguments of a task change what is said by what the task asks for. The input that is read for
    it is its own if and only if no other is named in front of it, or the first of these is the
    same path from the directory in which the compiler runs. -/
theorem tasks_are_read_back (h : Settings.IsComplete arguments)
    (hpaths : ∀ p ∈ task.paths, p.isAbsolute ∧ p.IsText) :
    Settings.ofArguments (task.arguments arguments) =
      (Settings.ofArguments arguments).extend task ∧
    ∀ (compiler : String) (directory : Path),
      Reads ⟨compiler, task.arguments arguments, directory⟩
          (directory.normalizeFrom task.input) ↔
        (Settings.ofArguments arguments).inputs = [] ∨
        ∃ first, (Settings.ofArguments arguments).inputs.head? = some first ∧
          directory.normalizeFrom first = directory.normalizeFrom task.input := by
  have htask := Settings.ofArguments_task h hpaths
  refine ⟨htask, fun compiler directory => ?_⟩
  have hinputs : ((Settings.ofArguments (task.arguments arguments)).absolute directory).inputs =
      ((Settings.ofArguments arguments).inputs ++ [task.input]).map directory.normalizeFrom := by
    rw [htask, ← Settings.inputs_extend]
    rfl
  rw [reads_iff, hinputs]
  cases (Settings.ofArguments arguments).inputs with
  | nil => simp
  | cons first others => simp

/-- Arguments that emit a precompiled header of an input, on top of another one. -/
def emitting : List String :=
  ["-include-pch", "a.pch", "-Xclang", "-emit-pch", "-o", "b.pch", "src/../main.cpp"]

/-- To compile the same input, written in another way, on top of what is emitted. -/
def consuming : Task := .consume (.ofString "/work/b.pch") (.ofString "/work/./main.cpp")

theorem tasks_are_read_back_emitting :
    Settings.IsComplete emitting ∧ (∀ p ∈ consuming.paths, p.isAbsolute ∧ p.IsText) ∧
    Settings.ofArguments (consuming.arguments emitting) =
      { Settings.ofArguments [] with
        bases := [.ofString "a.pch", .ofString "/work/b.pch"]
        output := some (.ofString "b.pch")
        emits := true
        inputs := [.ofString "src/../main.cpp", .ofString "/work/./main.cpp"] } ∧
    Reads ⟨"clang++", consuming.arguments emitting, .ofString "/work"⟩
      (.ofString "/work/main.cpp") := by
  have hcomplete : Settings.IsComplete emitting := by decide +kernel
  have hpaths : ∀ p ∈ consuming.paths, p.isAbsolute ∧ p.IsText :=
    List.forall_mem_cons.2 ⟨⟨by decide, Path.isText_ofString _⟩,
      List.forall_mem_singleton.2 ⟨by decide, Path.isText_ofString _⟩⟩
  obtain ⟨hsettings, hreads⟩ := tasks_are_read_back hcomplete hpaths
  refine ⟨hcomplete, hpaths, hsettings.trans (by decide +kernel), ?_⟩
  have hinput : (Path.ofString "/work").normalizeFrom consuming.input =
      .ofString "/work/main.cpp" := by decide +kernel
  rw [← hinput]
  exact (hreads "clang++" _).2
    (.inr ⟨.ofString "src/../main.cpp", by decide +kernel, by decide +kernel⟩)

end Scan

end PrecompiledHeaders

import PrecompiledHeaders.Frontend.Process
import PrecompiledHeaders.Proofs.Frontend.Exclusion
import PrecompiledHeaders.Proofs.Include.Trace

/-!
# Units that are included

A unit may be included again, by itself or by one of its headers. A scan has visited its input
before it follows an include, so it does not list the unit whatever the arguments and the files are
(`Scan.identity_ne_of_mem_headers`). A compiler mentions the unit in its trace like any header that
is entered, and nothing in a trace tells the unit apart: it is listed if a line shows it
(`HeaderTrace.exists_mem_headers_iff`).

So the unit is not among the headers of a scan, and among those of a trace only if the trace shows
it (`Frontend.unit_is_listed_by_traces_only`). Such traces there are (`Frontend.unit_is_listed`).
-/

namespace PrecompiledHeaders

variable {tree : FileTree} {arguments : List String} {directory unit header p : Path}
  {excluded seen paths : List Path}

/-! ### Scans -/

namespace Scan

variable {compiler : String} {found : Preprocessed}

/-- What a scan lists has another identity than the input that it reads. -/
theorem identity_ne_of_mem_headers
    (h : preprocess tree ⟨compiler, arguments, directory⟩ excluded = .ok found)
    (hinput : ((Settings.ofArguments arguments).absolute directory).inputs.head? = some unit)
    (hheader : header ∈ found.headers) : tree.identity header ≠ tree.identity unit := by
  obtain ⟨input, source, base, events, hinput', -, -, rfl, rfl⟩ := exists_walk_of_preprocess h
  cases hinput.symm.trans hinput'
  intro heq
  refine Include.not_visited_of_mem_walk hheader ?_
  rw [heq, visitedBefore, List.cons_append]
  exact List.mem_cons_self

/-- The input of a preprocessing task is its unit, as arguments show it. -/
theorem head?_inputs_preprocess (ha : Settings.TakesInput arguments) (hu : unit.isAbsolute)
    (directory : Path) : ((Settings.ofArguments
      (Task.arguments arguments (.preprocess unit))).absolute directory).inputs.head? =
        some (Path.ofString unit.display).normalize := by
  have hown : (Settings.ofArguments (Task.ownArguments (.preprocess unit))).inputs =
      [.ofString unit.display] := by
    rw [Settings.ofArguments, Settings.read_preprocess hu]
    rfl
  simp only [Settings.absolute, Task.arguments, Settings.inputs_append ha.complete, ha.inputs, hown,
    List.nil_append, List.map_cons, List.map_nil, List.head?_cons,
    Path.normalizeFrom_of_isAbsolute (Path.isAbsolute_ofString_display hu)]

/-- A scan does not list the unit of its task. -/
theorem unit_not_listed (ha : Settings.TakesInput arguments) (hu : unit.isAbsolute)
    (h : preprocess tree ⟨compiler, Task.arguments arguments (.preprocess unit), directory⟩
      excluded = .ok found) (hheader : header ∈ found.headers) :
    tree.identity header ≠ tree.identity (Path.ofString unit.display).normalize :=
  identity_ne_of_mem_headers h (head?_inputs_preprocess ha hu directory) hheader

end Scan

/-! ### Traces -/

namespace HeaderTrace

/-- Of each file, a path is kept. -/
theorem exists_mem_distinct (h : p ∈ paths) (hseen : tree.identity p ∉ seen) :
    ∃ q ∈ distinct tree seen paths, tree.identity q = tree.identity p := by
  induction paths generalizing seen with
  | nil => exact absurd h List.not_mem_nil
  | cons path rest ih =>
    rw [distinct]
    by_cases heq : tree.identity path = tree.identity p
    · rw [if_neg (heq ▸ hseen)]
      exact ⟨path, List.mem_cons_self, heq⟩
    have hp : p ∈ rest := (List.mem_cons.1 h).resolve_left fun hfirst => heq (hfirst ▸ rfl)
    split
    · exact ih hp hseen
    · have hnot : tree.identity p ∉ tree.identity path :: seen := fun hin =>
        (List.mem_cons.1 hin).elim (Ne.symm heq) hseen
      obtain ⟨q, hq, hidentity⟩ := ih hp hnot
      exact ⟨q, List.mem_cons_of_mem _ hq, hidentity⟩

/-- A file is listed if and only if a line shows it. -/
theorem exists_mem_headers_iff (tree : FileTree) (directory : Path) (excluded : List Path)
    (trace : List Char) (identity : Path) :
    (∃ header ∈ headers tree directory excluded trace, tree.identity header = identity) ↔
      ∃ n p, IsShown (fun p => tree.identity p ∈ excluded) directory (body trace) n p ∧
        tree.identity p = identity := by
  obtain ⟨shown, hvisible, -, hshown⟩ := exists_shown
    (fun p => tree.identity p ∈ excluded) directory (body trace)
  rw [headers_eq, hvisible]
  constructor
  · rintro ⟨header, hheader, hidentity⟩
    obtain ⟨⟨n, p⟩, hmem, rfl⟩ := List.mem_map.1 (of_mem_distinct hheader).1
    exact ⟨n, p, (hshown n p).1 hmem, hidentity⟩
  · rintro ⟨n, p, hline, hidentity⟩
    have hmem := List.mem_map_of_mem (f := Prod.snd) ((hshown n p).2 hline)
    have hseen : tree.identity p ∉ [] := List.not_mem_nil
    obtain ⟨header, hheader, heq⟩ := exists_mem_distinct hmem hseen
    exact ⟨header, hheader, heq.trans hidentity⟩

end HeaderTrace

/-! ### Units -/

namespace Frontend

variable {launch : Launcher} {after : FileTree}

/-- What the process frontend lists is what it reads from the complaints of a compiler that ended
    well. -/
theorem preprocess_process {invocation : Invocation} {stderr : Bytes}
    (h : launch tree invocation = (.ended (some 0) stderr, after)) (excluded : List Path) :
    (process launch).preprocess tree invocation excluded =
      (.ok ⟨HeaderTrace.headers after invocation.directory
        (excluded.map fun e => after.identity (invocation.directory.normalizeFrom e))
        (Utf8.decodeLossy stderr), []⟩, after) := by
  simp only [process, h, output]

/-- **Units among their headers.** Behind arguments that take an input, no header that a scan lists
    has the identity of the unit, as arguments show it, nor that of the path that was given, unless
    this turns back behind a link. A compiler's trace lists the unit if and only if one of its lines
    shows it. -/
theorem unit_is_listed_by_traces_only (ha : Settings.TakesInput arguments) (hu : unit.isAbsolute) :
    (∀ tree compiler directory excluded found,
      Frontend.scan.preprocess tree
          ⟨compiler, Task.arguments arguments (.preprocess unit), directory⟩ excluded =
        (.ok found, tree) →
      ∀ header ∈ found.headers,
        tree.identity header ≠ tree.identity (Path.ofString unit.display).normalize ∧
        (unit.IsText → tree.IsReal tree.here → ¬tree.TurnsBack unit →
          tree.identity header ≠ tree.identity unit)) ∧
    ∀ launch tree compiler directory excluded stderr after,
      launch tree ⟨compiler, Task.arguments arguments (.preprocess unit), directory⟩ =
        (.ended (some 0) stderr, after) →
      ∃ found,
        (process launch).preprocess tree
            ⟨compiler, Task.arguments arguments (.preprocess unit), directory⟩ excluded =
          (.ok found, after) ∧
        ((∃ header ∈ found.headers, after.identity header = after.identity unit) ↔
          ∃ n p, HeaderTrace.IsShown
              (fun p => after.identity p ∈
                excluded.map fun e => after.identity (directory.normalizeFrom e))
              directory (HeaderTrace.body (Utf8.decodeLossy stderr)) n p ∧
            after.identity p = after.identity unit) := by
  constructor
  · intro tree compiler directory excluded found h header hheader
    have hpreprocess := congrArg Prod.fst h
    have hne := Scan.unit_not_listed ha hu hpreprocess hheader
    refine ⟨hne, fun ht hhere hturns => ?_⟩
    rw [ht.ofString_display] at hne
    have hnormal := Scan.normalize_of_mem_headers hpreprocess hheader
    exact FileTree.identity_ne_of_normalize hu hturns
      (FileTree.identity_identity (.inr hhere) hnormal) hne
  · intro launch tree compiler directory excluded stderr after hlaunch
    exact ⟨_, preprocess_process hlaunch excluded,
      HeaderTrace.exists_mem_headers_iff after directory _ _ _⟩

/-! ### A unit that includes itself -/

/-- A unit that is included by itself and by its header. -/
def selfIncluding : FileTree where
  entries := [
    ([(Path.ofString "main.cpp").bytes],
      .file (Path.ofString "#include \"main.cpp\"\n#include \"x.h\"\n").bytes),
    ([(Path.ofString "x.h").bytes], .file (Path.ofString "#include \"main.cpp\"\n").bytes)]
  here := []

/-- What a compiler lists when it enters the unit again, the header, and from there the unit. -/
def selfTrace : Bytes := (Path.ofString ". /main.cpp\n. /x.h\n.. /main.cpp\n").bytes

/-- A compiler that writes the trace, and changes no files. -/
def tracing : Launcher := fun tree _ => (.ended (some 0) selfTrace, tree)

/-- What is to be asked about the unit. -/
def listing : Invocation :=
  ⟨"clang++", Task.arguments [] (.preprocess (.ofString "/main.cpp")), .root⟩

theorem scan_selfIncluding :
    Frontend.scan.preprocess selfIncluding listing [] =
      (.ok ⟨[.ofString "/x.h"], []⟩, selfIncluding) := by
  have hwithin : Scan.preprocessWithin 4 selfIncluding [] .root [] (.ofString "/main.cpp") =
      some ⟨[.ofString "/x.h"], []⟩ := by decide +kernel
  have hunit : (Path.ofString "/main.cpp").IsNormal := ⟨by decide, by decide⟩
  exact congrArg (·, selfIncluding) (Scan.preprocess_of_preprocessWithin Settings.isOpenEnded_nil
    hunit (Path.isText_ofString _) hwithin)

theorem process_selfIncluding :
    (process tracing).preprocess selfIncluding listing [] =
      (.ok ⟨[.ofString "/main.cpp", .ofString "/x.h"], []⟩, selfIncluding) := by
  have hheaders : HeaderTrace.headers selfIncluding .root [] (Utf8.decodeLossy selfTrace) =
      [.ofString "/main.cpp", .ofString "/x.h"] := by decide +kernel
  rw [preprocess_process rfl, ← hheaders]
  rfl

/-- The scan lists the header only. The trace lists the unit, and this because a line shows it. -/
theorem unit_is_listed_by_traces_only_selfIncluding :
    Settings.TakesInput [] ∧ ¬selfIncluding.TurnsBack (.ofString "/main.cpp") ∧
    Frontend.scan.preprocess selfIncluding listing [] =
      (.ok ⟨[.ofString "/x.h"], []⟩, selfIncluding) ∧
    selfIncluding.identity (.ofString "/x.h") ≠ selfIncluding.identity (.ofString "/main.cpp") ∧
    ∃ n p, HeaderTrace.IsShown (fun p => selfIncluding.identity p ∈ ([] : List Path)) .root
        (HeaderTrace.body (Utf8.decodeLossy selfTrace)) n p ∧
      selfIncluding.identity p = selfIncluding.identity (.ofString "/main.cpp") := by
  have hturns : ¬selfIncluding.TurnsBack (.ofString "/main.cpp") := by
    rintro ⟨front, name, rest, target, hsegments, -, -, hup⟩
    have hmem : Path.dotDot ∈ (Path.ofString "/main.cpp").segments :=
      hsegments ▸ List.mem_append_right _ (List.mem_cons_of_mem _ hup)
    exact absurd hmem (by decide)
  have hunit : (Path.ofString "/main.cpp").isAbsolute := by decide
  obtain ⟨hscan, hprocess⟩ := unit_is_listed_by_traces_only Settings.takesInput_nil hunit
  have hheader := (hscan _ _ _ _ _ scan_selfIncluding _ List.mem_cons_self).2
    (Path.isText_ofString _) .root hturns
  obtain ⟨found, hfound, hlisted⟩ := hprocess tracing selfIncluding "clang++" .root [] _ _ rfl
  cases hfound.symm.trans process_selfIncluding
  exact ⟨Settings.takesInput_nil, hturns, scan_selfIncluding, hheader,
    hlisted.1 ⟨_, List.mem_cons_self, rfl⟩⟩

/-- The trace mentions the unit when it is entered again, and it is listed as a header of its own. -/
theorem unit_is_listed :
    Settings.TakesInput [] ∧ (Path.ofString "/main.cpp").isAbsolute ∧ ∃ found,
      (process tracing).preprocess selfIncluding listing [] = (.ok found, selfIncluding) ∧
      ∃ header ∈ found.headers,
        selfIncluding.identity header = selfIncluding.identity (.ofString "/main.cpp") :=
  ⟨Settings.takesInput_nil, by decide, _, process_selfIncluding, _, List.mem_cons_self, rfl⟩

end Frontend

end PrecompiledHeaders

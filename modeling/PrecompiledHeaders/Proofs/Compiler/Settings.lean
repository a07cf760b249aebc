import PrecompiledHeaders.Compiler.Settings
import PrecompiledHeaders.Compiler.Task
import PrecompiledHeaders.Proofs.Path.Absolute

/-!
# Arguments behind arguments

If arguments leave no flag waiting for its value (`Settings.IsComplete`), what comes behind them is
read as if it stood alone (`Settings.read_append`). So the arguments of a preprocessing task say
what those in front of them say, and name one input more (`Settings.ofArguments_preprocess`).
-/

namespace PrecompiledHeaders

/-- An absolute path is shown with a slash in front. -/
theorem Path.head?_display {p : Path} (h : p.isAbsolute) :
    p.display.toList.head? = some '/' := by
  rw [display, String.toList_ofList]
  cases hb : p.bytes with
  | nil => simp [isAbsolute, hb] at h
  | cons b rest =>
    have hsep : b = separator := by simpa [isAbsolute, hb] using h
    rw [hsep, Utf8.decodeLossy, Utf8.pieces, List.map_cons]
    rfl

/-- What an absolute path is shown as is absolute, text or not. -/
theorem Path.isAbsolute_ofString_display {p : Path} (h : p.isAbsolute) :
    (ofString p.display).isAbsolute = true := by
  have hhead := head?_display h
  rw [ofString, isAbsolute]
  cases hdisplay : p.display.toList with
  | nil =>
    rw [hdisplay] at hhead
    cases hhead
  | cons c text =>
    rw [hdisplay] at hhead
    cases hhead
    rfl

/-- What does not look like a flag is an input. -/
theorem Expectation.start_of_head? {text : String} (h : text.toList.head? ≠ some '-') :
    start text = (.argument, [.input (.ofString text)]) := by
  have hne (flag : String) (hflag : flag.toList.head? = some '-') : text ≠ flag := by
    rintro rfl
    exact h hflag
  -- All flags that are known start with a dash.
  have hskipped : text ∉ skippedFlags := fun hmem => hne text
    ((by decide : ∀ flag ∈ skippedFlags, flag.toList.head? = some '-') text hmem) rfl
  rw [start, if_neg (hne "-Xclang" (by decide)), if_neg (hne "-include-pch" (by decide)),
    if_neg hskipped, if_neg h]

/-- An absolute path is an input, as it is shown. -/
theorem Expectation.start_display {p : Path} (hp : p.isAbsolute) :
    start p.display = (.argument, [.input (.ofString p.display)]) := by
  -- It starts with a slash, so it is not taken for a flag.
  apply start_of_head?
  rw [Path.head?_display hp]
  decide

namespace Settings

variable {xs ys : List String} {unit : Path}

/-- Whether arguments leave no flag waiting for its value. -/
def IsComplete (arguments : List String) : Prop :=
  (Expectation.read .argument arguments).1 = .argument

instance (arguments : List String) : Decidable (IsComplete arguments) :=
  inferInstanceAs (Decidable ((Expectation.read .argument arguments).1 = .argument))

theorem read_append (h : IsComplete xs) (ys : List String) :
    Expectation.read .argument (xs ++ ys) = ((Expectation.read .argument ys).1,
      (Expectation.read .argument xs).2 ++ (Expectation.read .argument ys).2) := by
  rw [Expectation.read_append, show (Expectation.read .argument xs).1 = .argument from h]

/-- Settings with others behind them: lists are put behind one another, and of two outputs the later
    one counts. -/
def append (settings others : Settings) : Settings where
  quoteDirectories := settings.quoteDirectories ++ others.quoteDirectories
  includeDirectories := settings.includeDirectories ++ others.includeDirectories
  systemDirectories := settings.systemDirectories ++ others.systemDirectories
  afterDirectories := settings.afterDirectories ++ others.afterDirectories
  forcedIncludes := settings.forcedIncludes ++ others.forcedIncludes
  bases := settings.bases ++ others.bases
  output := others.output.or settings.output
  emits := settings.emits || others.emits
  inputs := settings.inputs ++ others.inputs

theorem ofList_append (settings others : List Setting) :
    ofList (settings ++ others) = (ofList settings).append (ofList others) := by
  have hpaths (flag : PathFlag) :
      pathsOf flag (settings ++ others) = pathsOf flag settings ++ pathsOf flag others :=
    List.filterMap_append
  simp only [ofList, append, hpaths, List.filterMap_append, List.getLast?_append,
    List.contains_eq_mem, List.mem_append, Bool.decide_or]

/-- Behind complete arguments, others say what they say alone. -/
theorem ofArguments_append (h : IsComplete xs) (ys : List String) :
    ofArguments (xs ++ ys) = (ofArguments xs).append (ofArguments ys) := by
  rw [ofArguments, read_append h, ofList_append]
  rfl

theorem inputs_append (h : IsComplete xs) (ys : List String) :
    (ofArguments (xs ++ ys)).inputs = (ofArguments xs).inputs ++ (ofArguments ys).inputs :=
  congrArg inputs (ofArguments_append h ys)

theorem bases_append (h : IsComplete xs) (ys : List String) :
    (ofArguments (xs ++ ys)).bases = (ofArguments xs).bases ++ (ofArguments ys).bases :=
  congrArg bases (ofArguments_append h ys)

theorem forcedIncludes_append (h : IsComplete xs) (ys : List String) :
    (ofArguments (xs ++ ys)).forcedIncludes =
      (ofArguments xs).forcedIncludes ++ (ofArguments ys).forcedIncludes :=
  congrArg forcedIncludes (ofArguments_append h ys)

theorem ofList_append_input (settings : List Setting) (input : Path) :
    ofList (settings ++ [.input input]) =
      { ofList settings with inputs := (ofList settings).inputs ++ [input] } := by
  simp [ofList, pathsOf]

/-- The arguments of a preprocessing task name one input, as it is shown. -/
theorem read_preprocess (hu : unit.isAbsolute) :
    Expectation.read .argument (Task.ownArguments (.preprocess unit)) =
      (.argument, [.input (.ofString unit.display)]) := by
  have hE : Expectation.start "-E" = (.argument, []) := by decide
  have hH : Expectation.start "-H" = (.argument, []) := by decide
  simp only [Task.ownArguments, Expectation.read, Expectation.next, hE, hH,
    Expectation.start_display hu, List.nil_append, List.append_nil]

/-- The arguments of a preprocessing task say what those in front of them say, and name one input
    more. -/
theorem ofArguments_preprocess (h : IsComplete xs) (hu : unit.isAbsolute) (ht : unit.IsText) :
    ofArguments (Task.arguments xs (.preprocess unit)) =
      { ofArguments xs with inputs := (ofArguments xs).inputs ++ [unit] } := by
  rw [ofArguments, Task.arguments, read_append h, read_preprocess hu, ht.ofString_display,
    ofList_append_input]
  rfl

/-- The arguments of a consuming task say what those in front of them say, and name one precompiled
    header and one input more. -/
theorem ofArguments_consume {base : Path} (h : IsComplete xs) (hu : unit.isAbsolute)
    (ht : unit.IsText) (hbt : base.IsText) :
    ofArguments (Task.arguments xs (.consume base unit)) =
      { ofArguments xs with
        bases := (ofArguments xs).bases ++ [base]
        inputs := (ofArguments xs).inputs ++ [unit] } := by
  have hown : Expectation.read .argument (Task.baseArguments base ++ [unit.display]) =
      (.argument, [.base base, .input unit]) := by
    have hpass : Expectation.start "-Xclang" = (.passed, []) := by decide
    simp [Task.baseArguments, Expectation.read, Expectation.next, hpass,
      Expectation.start_display hu, ht.ofString_display, hbt.ofString_display]
  rw [ofArguments, Task.arguments, Task.ownArguments, read_append h, hown]
  simp [ofArguments, ofList, pathsOf]

/-- What the arguments of an emitting task say, with paths as they are shown. Whatever is expected in
    front of them, it is not expected any more behind the kind of the input. -/
theorem exists_read_emit (expectation : Expectation) {header : Path} (target : Path)
    (base : Option Path) (hh : header.isAbsolute) : ∃ front,
    (expectation = .argument → front = []) ∧
    expectation.read (Task.ownArguments (.emit header target base)) =
      (.argument, front ++ (base.toList.map fun b => Setting.base (.ofString b.display)) ++
        [.emit, .path .output (.ofString target.display), .input (.ofString header.display)]) := by
  have hkind : (expectation.read ["-x", "c++-header"]).1 = .argument ∧
      (expectation = .argument → (expectation.read ["-x", "c++-header"]).2 = []) := by
    cases expectation with
    | value flag => exact ⟨rfl, fun h => by cases h⟩
    | argument => exact ⟨by decide, fun _ => by decide⟩
    | skipped => exact ⟨by decide, fun h => by cases h⟩
    | passed => exact ⟨by decide, fun h => by cases h⟩
    | passedBase => exact ⟨by decide, fun h => by cases h⟩
    | base => exact ⟨by decide, fun h => by cases h⟩
  have hheader := Expectation.start_display hh
  have hpass : Expectation.start "-Xclang" = (.passed, []) := by decide
  have ho : Expectation.start "-o" = (.value .output, []) := by decide
  refine ⟨_, hkind.2, ?_⟩
  rw [Task.ownArguments, List.append_assoc, Expectation.read_append, hkind.1]
  cases base with
  | none => simp [Expectation.read, Expectation.next, hpass, ho, hheader]
  | some b => simp [Task.baseArguments, Expectation.read, Expectation.next, hpass, ho, hheader]

/-- What the arguments of an emitting task say. -/
theorem read_emit {header target : Path} {base : Option Path} (hh : header.isAbsolute)
    (hht : header.IsText) (htt : target.IsText) (hbt : ∀ b ∈ base, b.IsText) :
    Expectation.read .argument (Task.ownArguments (.emit header target base)) =
      (.argument, base.toList.map Setting.base ++
        [.emit, .path .output target, .input header]) := by
  obtain ⟨front, hfront, hread⟩ := exists_read_emit .argument target base hh
  have hbase : (base.toList.map fun b => Setting.base (.ofString b.display)) =
      base.toList.map Setting.base :=
    List.map_congr_left fun b hb => by rw [(hbt b (Option.mem_toList.1 hb)).ofString_display]
  rw [hread, hfront rfl, hbase, htt.ofString_display, hht.ofString_display]
  rfl

/-- Whatever arguments say, what is emitted behind them goes where the task says. -/
theorem output_emit (arguments : List String) {header : Path} (target : Path) (base : Option Path)
    (hh : header.isAbsolute) :
    (ofArguments (Task.arguments arguments (.emit header target base))).output =
      some (.ofString target.display) := by
  obtain ⟨front, -, hread⟩ :=
    exists_read_emit (Expectation.read .argument arguments).1 target base hh
  rw [ofArguments, Task.arguments, Expectation.read_append, hread]
  simp [ofList, pathsOf]

/-- The arguments of an emitting task say what those in front of them say, besides what is emitted,
    where to and on top of what. -/
theorem ofArguments_emit {header target : Path} {base : Option Path} (h : IsComplete xs)
    (hh : header.isAbsolute) (hht : header.IsText) (htt : target.IsText)
    (hbt : ∀ b ∈ base, b.IsText) :
    ofArguments (Task.arguments xs (.emit header target base)) =
      { ofArguments xs with
        bases := (ofArguments xs).bases ++ base.toList
        output := some target
        emits := true
        inputs := (ofArguments xs).inputs ++ [header] } := by
  rw [ofArguments, Task.arguments, read_append h, read_emit hh hht htt hbt]
  cases base with
  | none => simp [ofArguments, ofList, pathsOf]
  | some b => simp [ofArguments, ofList, pathsOf]

/-- Whether arguments take an input behind them: they name none, and leave no flag waiting for its
    value. -/
structure TakesInput (arguments : List String) : Prop where
  complete : IsComplete arguments
  inputs : (ofArguments arguments).inputs = []

theorem takesInput_nil : TakesInput [] := ⟨rfl, rfl⟩

theorem TakesInput.append (hx : TakesInput xs) (hy : TakesInput ys) : TakesInput (xs ++ ys) := by
  refine ⟨(congrArg Prod.fst (read_append hx.complete ys)).trans hy.complete, ?_⟩
  rw [inputs_append hx.complete, hx.inputs, hy.inputs, List.append_nil]

theorem TakesInput.flatMap {α : Type} {f : α → List String} {l : List α}
    (h : ∀ a ∈ l, TakesInput (f a)) : TakesInput (l.flatMap f) := by
  induction l with
  | nil => exact takesInput_nil
  | cons a l ih =>
    rw [List.flatMap_cons]
    exact (h a List.mem_cons_self).append (ih fun b hb => h b (List.mem_cons_of_mem _ hb))

/-- Whether arguments are such that an input may come behind them: they name none, and no
    precompiled header, and leave no flag waiting for its value. -/
structure IsOpenEnded (arguments : List String) : Prop where
  complete : IsComplete arguments
  inputs : (ofArguments arguments).inputs = []
  bases : (ofArguments arguments).bases = []

theorem IsOpenEnded.takesInput (h : IsOpenEnded xs) : TakesInput xs := ⟨h.complete, h.inputs⟩

theorem isOpenEnded_nil : IsOpenEnded [] := ⟨rfl, rfl, rfl⟩

theorem IsOpenEnded.append (hx : IsOpenEnded xs) (hy : IsOpenEnded ys) :
    IsOpenEnded (xs ++ ys) := by
  have htakes := hx.takesInput.append hy.takesInput
  refine ⟨htakes.complete, htakes.inputs, ?_⟩
  rw [bases_append hx.complete, hx.bases, hy.bases, List.append_nil]

theorem IsOpenEnded.flatMap {α : Type} {f : α → List String} {l : List α}
    (h : ∀ a ∈ l, IsOpenEnded (f a)) : IsOpenEnded (l.flatMap f) := by
  induction l with
  | nil => exact isOpenEnded_nil
  | cons a l ih =>
    rw [List.flatMap_cons]
    exact (h a List.mem_cons_self).append (ih fun b hb => h b (List.mem_cons_of_mem _ hb))

/-- Whether arguments are such that an input may come behind them, and force no includes in front of
    it. -/
structure IsBare (arguments : List String) : Prop where
  openEnded : IsOpenEnded arguments
  unforced : (ofArguments arguments).forcedIncludes = []

theorem isBare_nil : IsBare [] := ⟨isOpenEnded_nil, rfl⟩

theorem IsBare.append (hx : IsBare xs) (hy : IsBare ys) : IsBare (xs ++ ys) := by
  refine ⟨hx.openEnded.append hy.openEnded, ?_⟩
  rw [forcedIncludes_append hx.openEnded.complete, hx.unforced, hy.unforced, List.append_nil]

theorem IsBare.flatMap {α : Type} {f : α → List String} {l : List α}
    (h : ∀ a ∈ l, IsBare (f a)) : IsBare (l.flatMap f) := by
  induction l with
  | nil => exact isBare_nil
  | cons a l ih =>
    rw [List.flatMap_cons]
    exact (h a List.mem_cons_self).append (ih fun b hb => h b (List.mem_cons_of_mem _ hb))

end Settings

end PrecompiledHeaders

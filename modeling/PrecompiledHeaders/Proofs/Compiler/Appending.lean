import PrecompiledHeaders.Frontend.Scan
import PrecompiledHeaders.Generation.Generator
import PrecompiledHeaders.Proofs.Compiler.Settings
import Mathlib.Data.List.Induction

/-!
# Arguments that are put together

Arguments are read one after the other, but some are read in the light of those in front of them:
a flag may wait for its value, and up to three arguments may go by before the value comes. Arguments
leave something waiting only if they end with one of a few patterns (`Expectation.LeftBy`), behind
arguments that leave nothing waiting (`Settings.not_isComplete_iff`).

Whatever comes behind arguments that leave nothing waiting is read as if it stood alone, and only
those arguments have that property (`Settings.isComplete_iff_append`). So what the arguments of all
parts of a project say is what those of each part say, put together in the order of the parts
(`Settings.arguments_are_read_apart`).
-/

namespace PrecompiledHeaders

/-! ### Flags that wait -/

/-- A flag that an argument starts with, and nothing behind it, is the argument. -/
theorem PathFlag.eq_text_of_split? {flag : PathFlag} {text : String}
    (h : split? text = some (flag, "")) : text = flag.text := by
  obtain ⟨other, -, hvalue⟩ := List.exists_of_findSome?_eq_some h
  obtain ⟨value, hvalue, heq⟩ := Option.map_eq_some_iff.1 hvalue
  cases heq
  simp only [value?] at hvalue
  split at hvalue
  · next hleading =>
    have hbehind := Option.some.inj hvalue
    rw [String.ofList_eq_empty_iff] at hbehind
    have htext := List.prefix_iff_eq_append.1 (List.isPrefixOf_iff_prefix.1 hleading)
    rw [hbehind, List.append_nil] at htext
    exact String.toList_injective htext.symm
  · cases hvalue

namespace Expectation

variable {expectation : Expectation} {text : String} {waiting : List String}

theorem read_singleton (expectation : Expectation) (text : String) :
    expectation.read [text] = expectation.next text := by
  simp [read]

/-- The arguments that something is expected behind, and what that is. -/
inductive LeftBy : Expectation → List String → Prop
  /-- A flag with a path for a value, which is to come. -/
  | value (flag : PathFlag) : LeftBy (.value flag) [flag.text]
  /-- A flag with a value that says nothing about includes. -/
  | skipped {flag : String} : flag ∈ skippedFlags → LeftBy .skipped [flag]
  /-- The mark of an argument that is passed through. -/
  | passed : LeftBy .passed ["-Xclang"]
  /-- The flag of a precompiled header. -/
  | base : LeftBy .base ["-include-pch"]
  /-- The flag of a precompiled header, passed through. -/
  | passedBase : LeftBy .passedBase ["-Xclang", "-include-pch"]
  /-- The flag of a precompiled header and the mark of its value, both passed through. -/
  | passedMark : LeftBy .base ["-Xclang", "-include-pch", "-Xclang"]

/-- An argument of its own leaves nothing expected, or does so alone. -/
theorem leftBy_start (text : String) :
    (start text).1 = .argument ∨ LeftBy (start text).1 [text] := by
  unfold start
  split
  · next hmark => exact .inr (hmark ▸ .passed)
  split
  · next hbase => exact .inr (hbase ▸ .base)
  split
  · next hskipped => exact .inr (.skipped hskipped)
  split
  · split
    · exact .inl rfl
    · next flag path hsplit =>
      split
      · next hnone => exact .inr (PathFlag.eq_text_of_split? (hnone ▸ hsplit) ▸ .value flag)
      · exact .inl rfl
  · exact .inl rfl

/-- Where something is expected, an argument leaves nothing expected, or does so with those in front
    of it. -/
theorem LeftBy.next (h : LeftBy expectation waiting) (text : String) :
    (expectation.next text).1 = .argument ∨
      LeftBy (expectation.next text).1 (waiting ++ [text]) := by
  cases h with
  | value flag | skipped | base | passedMark => exact .inl rfl
  | passed =>
    unfold Expectation.next
    dsimp only
    split
    · exact .inl rfl
    split
    · next hbase => exact .inr (hbase ▸ .passedBase)
    · exact .inl rfl
  | passedBase =>
    unfold Expectation.next
    dsimp only
    split
    · next hmark => exact .inr (hmark ▸ .passedMark)
    · exact .inl rfl

/-- Something is expected behind these arguments. -/
theorem LeftBy.read_eq (h : LeftBy expectation waiting) :
    (read .argument waiting).1 = expectation ∧ expectation ≠ .argument := by
  cases h with
  | value flag => cases flag <;> decide
  | skipped hflag =>
    have hskipped : ∀ flag ∈ skippedFlags, (read .argument [flag]).1 = .skipped := by decide
    exact ⟨hskipped _ hflag, by decide⟩
  | passed | base | passedBase | passedMark => decide

/-- Where something is expected, an argument makes no input. -/
theorem inputs_next (h : expectation ≠ .argument) (text : String) :
    (Settings.ofList (expectation.next text).2).inputs = [] := by
  cases expectation with
  | argument => exact absurd rfl h
  | value flag | skipped | base => rfl
  | passed =>
    unfold next
    dsimp only
    split
    · rfl
    split <;> rfl
  | passedBase =>
    unfold next
    dsimp only
    split <;> rfl

/-- Only one argument asks for a precompiled header, and only where it is passed through. -/
theorem eq_passed_of_mem_next (h : .emit ∈ (expectation.next text).2) :
    expectation = .passed ∧ text = "-emit-pch" := by
  cases expectation with
  | argument =>
    rw [next, start] at h
    split at h
    · simp at h
    split at h
    · simp at h
    split at h
    · simp at h
    split at h
    · split at h
      · simp at h
      · split at h <;> simp at h
    · simp at h
  | value flag | skipped | base => simp [next] at h
  | passed =>
    rw [next] at h
    split at h
    · next hemit => exact ⟨rfl, hemit⟩
    · split at h <;> simp at h
  | passedBase =>
    rw [next] at h
    split at h <;> simp at h

end Expectation

namespace Settings

variable {xs : List String}

/-! ### Arguments that leave nothing waiting -/

/-- Arguments leave something waiting if they end with a flag that waits. -/
theorem not_isComplete_iff : ¬IsComplete xs ↔ ∃ front waiting expectation, IsComplete front ∧
    Expectation.LeftBy expectation waiting ∧ xs = front ++ waiting := by
  constructor
  · intro h
    suffices ∃ front waiting, IsComplete front ∧
        Expectation.LeftBy (Expectation.read .argument xs).1 waiting ∧ xs = front ++ waiting by
      obtain ⟨front, waiting, hfront, hleft, rfl⟩ := this
      exact ⟨front, waiting, _, hfront, hleft, rfl⟩
    -- What is expected at the end is up to the last argument and what was expected before it.
    induction xs using List.reverseRecOn with
    | nil => exact absurd rfl h
    | append_singleton xs text ih =>
      have hlast : (Expectation.read .argument (xs ++ [text])).1 =
          ((Expectation.read .argument xs).1.next text).1 := by
        rw [Expectation.read_append, Expectation.read_singleton]
      rw [IsComplete, hlast] at h
      rw [hlast]
      by_cases hxs : IsComplete xs
      · rw [show (Expectation.read .argument xs).1 = .argument from hxs] at h ⊢
        exact ⟨xs, [text], hxs, (Expectation.leftBy_start text).resolve_left h, rfl⟩
      · obtain ⟨front, waiting, hfront, hleft, rfl⟩ := ih hxs
        exact ⟨front, waiting ++ [text], hfront, (hleft.next text).resolve_left h,
          List.append_assoc front waiting [text]⟩
  · rintro ⟨front, waiting, expectation, hfront, hleft, rfl⟩ h
    obtain ⟨hread, hne⟩ := hleft.read_eq
    rw [IsComplete, read_append hfront, hread] at h
    exact hne h

/-- Arguments that others can stand behind are those that leave nothing waiting. -/
theorem isComplete_iff_append : IsComplete xs ↔
    ∀ ys, ofArguments (xs ++ ys) = (ofArguments xs).append (ofArguments ys) := by
  refine ⟨fun h ys => ofArguments_append h ys, fun h => ?_⟩
  refine Classical.byContradiction fun hnot => ?_
  -- An input behind a flag that waits is lost.
  have hinput := congrArg inputs (h ["a"])
  rw [ofArguments, Expectation.read_append, Expectation.read_singleton, ofList_append] at hinput
  have hlost := List.append_cancel_left hinput
  rw [Expectation.inputs_next hnot] at hlost
  exact absurd hlost (by decide)

/-- What is expected last is left by what stands last. -/
theorem exists_leftBy_passed (h : (Expectation.read .argument xs).1 = .passed) :
    ∃ front, IsComplete front ∧ xs = front ++ ["-Xclang"] := by
  have hnot : ¬IsComplete xs := fun hxs => by cases h.symm.trans hxs
  obtain ⟨front, waiting, expectation, hfront, hleft, rfl⟩ := not_isComplete_iff.1 hnot
  rw [read_append hfront, hleft.read_eq.1] at h
  cases h
  cases hleft
  exact ⟨front, hfront, rfl⟩

/-- Whether arguments ask for a precompiled header, where no flag waits. -/
def AskToEmit (arguments : List String) : Prop :=
  ∃ front behind, IsComplete front ∧ arguments = front ++ "-Xclang" :: "-emit-pch" :: behind

/-- A precompiled header is asked for in this one way. -/
theorem emits_iff : (ofArguments xs).emits = true ↔ AskToEmit xs := by
  constructor
  · intro h
    have hmem : .emit ∈ (Expectation.read .argument xs).2 := List.contains_iff_mem.1 h
    -- It is asked for by the last argument, or by those in front of it.
    clear h
    induction xs using List.reverseRecOn with
    | nil => exact absurd hmem List.not_mem_nil
    | append_singleton xs text ih =>
      rw [Expectation.read_append, Expectation.read_singleton] at hmem
      rcases List.mem_append.1 hmem with hmem | hmem
      · obtain ⟨front, behind, hfront, rfl⟩ := ih hmem
        exact ⟨front, behind ++ [text], hfront, List.append_assoc ..⟩
      · obtain ⟨hpassed, rfl⟩ := Expectation.eq_passed_of_mem_next hmem
        obtain ⟨front, hfront, rfl⟩ := exists_leftBy_passed hpassed
        exact ⟨front, [], hfront, List.append_assoc ..⟩
  · rintro ⟨front, behind, hfront, rfl⟩
    have hpair : IsComplete ["-Xclang", "-emit-pch"] := by decide
    have hasks : (ofArguments ["-Xclang", "-emit-pch"]).emits = true := by decide
    have hbehind := ofArguments_append hpair behind
    rw [ofArguments_append hfront]
    refine (congrArg (_ || ·) (congrArg emits hbehind)).trans ?_
    rw [append, hasks, Bool.true_or, Bool.or_true]

theorem ofArguments_flatMap {α : Type} {f : α → List String} {l : List α}
    (h : ∀ a ∈ l, IsComplete (f a)) : ofArguments (l.flatMap f) =
      (l.map fun a => ofArguments (f a)).foldr append (ofArguments []) := by
  induction l with
  | nil => rfl
  | cons a l ih =>
    rw [List.flatMap_cons, ofArguments_append (h a List.mem_cons_self),
      ih fun b hb => h b (List.mem_cons_of_mem _ hb)]
    rfl

/-! ### Parts of a project -/

/-- **Arguments are read apart.** Arguments leave a flag waiting exactly if they end with one that
    waits. If and only if they do not, others can be put behind them without a change in what either
    say. So the arguments of all parts of a project say what those of the parts say, one part behind
    the other, if those of no part leave a flag waiting. -/
theorem arguments_are_read_apart :
    (∀ xs, IsComplete xs ↔ ¬∃ front waiting expectation, IsComplete front ∧
      Expectation.LeftBy expectation waiting ∧ xs = front ++ waiting) ∧
    (∀ xs, IsComplete xs ↔
      ∀ ys, ofArguments (xs ++ ys) = (ofArguments xs).append (ofArguments ys)) ∧
    ∀ g : Generator, (∀ part ∈ g.parts, IsComplete part.arguments) →
      ofArguments g.arguments =
        (g.parts.map fun part => ofArguments part.arguments).foldr append (ofArguments []) := by
  refine ⟨fun xs => ?_, fun xs => isComplete_iff_append, fun g hparts => ?_⟩
  · rw [← not_isComplete_iff, not_not]
  · exact ofArguments_flatMap hparts

/-- Two parts, each with an output of its own. The value of a flag that is skipped looks like an
    input. -/
def mixed : Generator where
  parts := [
    ⟨"front", ["-I", "inc", "-o", "a.pch", "-Xclang", "-include-pch", "-Xclang", "base.pch",
      "-D", "a.cpp"], [], []⟩,
    ⟨"back", ["-Iother", "-iquoteq", "-ob.pch", "-Xclang", "-emit-pch", "b.cpp"], [], []⟩]
  environment := default
  frontend := .scan
  workspace := ⟨default, .empty, .empty⟩

theorem arguments_are_read_apart_mixed :
    (∀ part ∈ mixed.parts, IsComplete part.arguments) ∧
    ofArguments mixed.arguments =
      { quoteDirectories := [.ofString "q"]
        includeDirectories := [.ofString "inc", .ofString "other"]
        systemDirectories := []
        afterDirectories := []
        forcedIncludes := []
        bases := [.ofString "base.pch"]
        output := some (.ofString "b.pch")
        emits := true
        inputs := [.ofString "b.cpp"] } := by
  have hcomplete : ∀ part ∈ mixed.parts, IsComplete part.arguments :=
    List.forall_mem_cons.2 ⟨by decide +kernel, List.forall_mem_singleton.2 (by decide +kernel)⟩
  refine ⟨hcomplete, (arguments_are_read_apart.2.2 mixed hcomplete).trans ?_⟩
  decide +kernel

end Settings

end PrecompiledHeaders

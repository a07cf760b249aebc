import PrecompiledHeaders.Compiler.Settings
import PrecompiledHeaders.Config.Basic
import PrecompiledHeaders.Proofs.Path.Cancelling

/-!
# Resolving in stages

A path is taken from a directory, which may itself be taken from another one. It makes no difference
whether what is joined is normal already (`Path.normalizeFrom_normalize`), nor in how many stages it is
joined (`Path.normalizes_early_or_late`): joining is associative (`Path.join_join`), and what the stack
makes of components is the same to any stack as the components themselves
(`Path.foldl_fold_reverse`).
-/

namespace PrecompiledHeaders.Path

variable {base p q : Path}

/-! ### Stacks -/

/-- Whatever is on the stack already, it makes no difference whether components have cancelled. -/
theorem foldl_fold_reverse (components stack : List Component) :
    (components.foldl fold []).reverse.foldl fold stack = components.foldl fold stack := by
  have hcurrent : .current ∉ components.filter (· ≠ .current) := by simp
  rw [← foldl_fold_filter components [], ← foldl_fold_filter components stack,
    foldl_fold_eq_of_cancels (cancels_foldl_fold hcurrent) stack]

/-- A dot in front does not count. -/
theorem foldl_fold_components (p : Path) (stack : List Component) :
    p.components.foldl fold stack = p.said.foldl fold (p.ground.foldl fold stack) := by
  rw [components_eq, List.foldl_append, List.foldl_append]
  congr 1
  split
  · rw [List.foldl_cons, fold]
    rfl
  · rfl

/-- What is joined is put on the stack of the directory. -/
theorem foldl_fold_join (base : Path) (hp : p.isAbsolute = false) :
    (base.join p).components.foldl fold [] =
      p.components.foldl fold (base.components.foldl fold []) := by
  have hground : p.ground = [] := by rw [ground, hp, if_neg Bool.false_ne_true]
  rw [foldl_fold_components, foldl_fold_components p, foldl_fold_components base, said_join base hp,
    ground_join base hp, hground, List.foldl_append]
  rfl

/-! ### Joining -/

theorem normalizeFrom_normalize (base p : Path) :
    base.normalize.normalizeFrom p.normalize = base.normalizeFrom p := by
  cases hp : p.isAbsolute with
  | true =>
    rw [normalizeFrom_of_isAbsolute hp, normalizeFrom_of_isAbsolute (p.isAbsolute_normalize.trans hp),
      normalize_normalize]
  | false =>
    have hstack : (base.normalize.join p.normalize).components.foldl fold [] =
        (base.join p).components.foldl fold [] := by
      rw [foldl_fold_join _ (p.isAbsolute_normalize.trans hp), foldl_fold_join _ hp,
        components_normalize, components_normalize, foldl_fold_reverse, foldl_fold_reverse]
    exact congrArg (fun stack => ofComponents stack.reverse) hstack

theorem normalizeFrom_normalize_left (base p : Path) :
    base.normalize.normalizeFrom p = base.normalizeFrom p := by
  rw [← normalizeFrom_normalize, normalize_normalize, normalizeFrom_normalize]

theorem normalizeFrom_normalize_right (base p : Path) :
    base.normalizeFrom p.normalize = base.normalizeFrom p := by
  rw [← normalizeFrom_normalize, normalize_normalize, normalizeFrom_normalize]

/-- What goes between the text of a directory and what is joined to it. -/
def slash (base : Path) : Bytes :=
  if base.bytes = [] ∨ base.bytes.getLast? = some separator then [] else [separator]

theorem join_of_isAbsolute (base : Path) (hp : p.isAbsolute = true) : base.join p = p := if_pos hp

theorem bytes_join (base : Path) (hp : p.isAbsolute = false) :
    (base.join p).bytes = base.bytes ++ (base.slash ++ p.bytes) := by
  rw [join, hp, if_neg Bool.false_ne_true, slash]
  split <;> rfl

/-- What goes behind a path that was joined is what goes behind the path, unless it is empty: then the
    directory has its slash already. -/
theorem slash_join (base : Path) (hp : p.isAbsolute = false) :
    (base.join p).slash = if p.bytes = [] then [] else p.slash := by
  by_cases hnil : p.bytes = []
  · rw [if_pos hnil, slash, bytes_join base hp, hnil, List.append_nil]
    refine if_pos ?_
    unfold slash
    split
    · next h => rwa [List.append_nil]
    · exact .inr List.getLast?_concat
  · have hne : base.bytes ++ (base.slash ++ p.bytes) ≠ [] := by simp [hnil]
    rw [if_neg hnil, slash, slash, bytes_join base hp, ← List.append_assoc,
      List.getLast?_append_of_ne_nil _ hnil, List.append_assoc]
    simp only [hne, hnil, false_or]

/-- Joining is associative. -/
theorem join_join (base p q : Path) : (base.join p).join q = base.join (p.join q) := by
  cases hq : q.isAbsolute with
  | true =>
    rw [join_of_isAbsolute _ hq, join_of_isAbsolute _ hq, join_of_isAbsolute _ hq]
  | false =>
    have hjoin : (p.join q).isAbsolute = p.isAbsolute := isAbsolute_join_eq p hq
    cases hp : p.isAbsolute with
    | true => rw [join_of_isAbsolute _ hp, join_of_isAbsolute _ (hjoin.trans hp)]
    | false =>
      suffices hbytes : ((base.join p).join q).bytes = (base.join (p.join q)).bytes from
        congrArg Path.mk hbytes
      rw [bytes_join _ hq, bytes_join _ hp, bytes_join _ (hjoin.trans hp), bytes_join _ hq,
        slash_join base hp]
      split
      · next hnil =>
        have hslash : p.slash = [] := if_pos (.inl hnil)
        simp only [hnil, hslash, List.append_assoc, List.nil_append]
      · simp only [List.append_assoc]

/-- A path that is taken from a directory in two stages is taken from where the first one leads. -/
theorem normalizeFrom_normalizeFrom (base p q : Path) :
    (base.normalizeFrom p).normalizeFrom q = base.normalizeFrom (p.join q) :=
  (normalizeFrom_normalize_left (base.join p) q).trans (congrArg normalize (join_join base p q))

theorem normalizeFrom_comp (base p : Path) :
    base.normalizeFrom ∘ p.normalizeFrom = (base.normalizeFrom p).normalizeFrom := by
  funext q
  exact (normalizeFrom_normalize_right base (p.join q)).trans (normalizeFrom_normalizeFrom base p q).symm

/-- **Early or late.** Whether directories and paths are normal already makes no difference where one is
    taken from the other; nor does it make one whether this is done in one stage or in two. So the
    settings of a compiler, taken from its directory and then from where that stands, are those taken
    from where the directory leads, and a configuration is resolved alike from all paths of its
    directory that have one normal form. -/
theorem normalizes_early_or_late (base p q : Path) :
    base.normalizeFrom p = base.normalize.normalizeFrom p.normalize ∧
    (base.normalizeFrom p).normalizeFrom q = base.normalizeFrom (p.join q) ∧
    (∀ settings : Settings,
      (settings.absolute p).absolute base = settings.absolute (base.normalizeFrom p)) ∧
    (∀ config : Config, config.resolve base = config.resolve base.normalize) := by
  have hleft : base.normalize.normalizeFrom = base.normalizeFrom :=
    funext fun p => normalizeFrom_normalize_left base p
  refine ⟨(normalizeFrom_normalize base p).symm, normalizeFrom_normalizeFrom base p q,
    fun settings => ?_, fun config => ?_⟩
  · simp only [Settings.absolute, List.map_map, Option.map_map, normalizeFrom_comp]
  · have hpart : Config.resolvePart base.normalize = Config.resolvePart base := by
      funext part
      rw [Config.resolvePart, Config.resolvePart, hleft]
    rw [Config.resolve, Config.resolve, hleft, hpart]

end PrecompiledHeaders.Path

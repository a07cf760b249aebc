import PrecompiledHeaders.Proofs.Path.Forms
import Mathlib.Data.List.Induction
import Mathlib.Logic.Relation

/-!
# Cancelling

A name and a `..` behind it cancel, and a `..` directly under the root is dropped (`Path.Cancels`).
Wherever one starts, components get fewer, and what the stack makes of them stays the same
(`Path.Cancels.foldl_fold_eq`). As it is reached by cancelling (`Path.cancels_foldl_fold`), it is what
remains in the end, in whatever order one cancels (`Path.normalize_is_what_remains`).
-/

namespace PrecompiledHeaders.Path

open Relation

variable {components next : List Component}

/-- One step of cancelling. -/
inductive Cancels : List Component → List Component → Prop
  /-- A name and a `..` behind it. -/
  | name (front : List Component) (name : Bytes) (behind : List Component) :
      Cancels (front ++ .name name :: .parent :: behind) (front ++ behind)
  /-- A `..` directly under the root. -/
  | root (front behind : List Component) :
      Cancels (front ++ .root :: .parent :: behind) (front ++ .root :: behind)

theorem Cancels.length_lt (h : Cancels components next) : next.length < components.length := by
  cases h with
  | name | root =>
    simp only [List.length_append, List.length_cons]
    omega

theorem Cancels.subset (h : Cancels components next) : next ⊆ components := by
  cases h with
  | name front name behind =>
    have hbehind : behind.Sublist (.name name :: .parent :: behind) :=
      (List.sublist_cons_self _ _).trans (List.sublist_cons_self _ _)
    exact (hbehind.append_left front).subset
  | root front behind =>
    have hbehind : (.root :: behind).Sublist (.root :: .parent :: behind) :=
      (List.sublist_cons_self _ behind).cons_cons .root
    exact (hbehind.append_left front).subset

theorem Cancels.append (h : Cancels components next) (rest : List Component) :
    Cancels (components ++ rest) (next ++ rest) := by
  cases h with
  | name front name behind =>
    rw [List.append_assoc, List.append_assoc]
    exact .name front name (behind ++ rest)
  | root front behind =>
    rw [List.append_assoc, List.append_assoc]
    exact .root front (behind ++ rest)

/-- Whatever is on the stack already, components that cancel make no difference to it. -/
theorem Cancels.foldl_fold_eq (h : Cancels components next) (stack : List Component) :
    components.foldl fold stack = next.foldl fold stack := by
  cases h with
  | name front name behind =>
    have hfold (stack : List Component) : fold (fold stack (.name name)) .parent = stack := by
      cases stack <;> rfl
    rw [List.foldl_append, List.foldl_append, List.foldl_cons, List.foldl_cons, hfold]
  | root front behind =>
    have hfold (stack : List Component) : fold (fold stack .root) .parent = fold stack .root := by
      cases stack <;> rfl
    rw [List.foldl_append, List.foldl_append, List.foldl_cons, List.foldl_cons, hfold,
      List.foldl_cons]

theorem foldl_fold_eq_of_cancels (h : ReflTransGen Cancels components next) (stack : List Component) :
    components.foldl fold stack = next.foldl fold stack := by
  induction h with
  | refl => rfl
  | tail _ hstep ih => rw [ih, hstep.foldl_fold_eq]

theorem length_le_of_cancels (h : ReflTransGen Cancels components next) :
    next.length ≤ components.length := by
  induction h with
  | refl => exact Nat.le_refl _
  | tail _ hstep ih => exact Nat.le_trans (Nat.le_of_lt hstep.length_lt) ih

theorem subset_of_cancels (h : ReflTransGen Cancels components next) : next ⊆ components := by
  induction h with
  | refl => exact List.Subset.refl _
  | tail _ hstep ih => exact List.Subset.trans hstep.subset ih

/-- What is put on the stack cancels with what is on top of it, or with nothing. -/
theorem cancels_fold {c : Component} (hc : c ≠ .current) (stack : List Component) :
    ReflTransGen Cancels (stack.reverse ++ [c]) (fold stack c).reverse := by
  fun_cases fold stack c with
  | case1 => exact absurd rfl hc
  | case2 name below =>
    rw [List.reverse_cons, List.append_assoc]
    have hstep := Cancels.name below.reverse name []
    rw [List.append_nil] at hstep
    exact .single hstep
  | case3 below =>
    rw [List.reverse_cons, List.append_assoc]
    exact .single (.root below.reverse [])
  | case4 => rw [List.reverse_cons]

/-- What the stack makes of components is reached by cancelling. -/
theorem cancels_foldl_fold (h : .current ∉ components) :
    ReflTransGen Cancels components (components.foldl fold []).reverse := by
  -- Components are put on the stack from the front, so the induction goes to the end.
  induction components using List.reverseRecOn with
  | nil => exact .refl
  | append_singleton front last ih =>
    rw [List.mem_append, List.mem_singleton, not_or] at h
    have hfront : ReflTransGen Cancels (front ++ [last]) ((front.foldl fold []).reverse ++ [last]) :=
      (ih h.1).lift (· ++ [last]) fun _ _ hstep => hstep.append [last]
    rw [List.foldl_append, List.foldl_cons, List.foldl_nil]
    exact hfront.trans (cancels_fold (Ne.symm h.2) _)

/-- What the stack makes of components is what nothing cancels in any more. -/
theorem forall_not_cancels_iff (h : .current ∉ components) :
    (∀ next, ¬Cancels components next) ↔ components = (components.foldl fold []).reverse := by
  constructor
  · intro hend
    rcases (cancels_foldl_fold h).cases_head with heq | ⟨next, hnext, -⟩
    · exact heq
    · exact absurd hnext (hend next)
  · intro heq next hnext
    -- From there one would come back, with fewer components.
    have hback := cancels_foldl_fold fun hin => h (hnext.subset hin)
    rw [← hnext.foldl_fold_eq, ← heq] at hback
    exact absurd (length_le_of_cancels hback) (Nat.not_le.2 hnext.length_lt)

theorem foldl_fold_filter (components stack : List Component) :
    (components.filter (· ≠ .current)).foldl fold stack = components.foldl fold stack := by
  induction components generalizing stack with
  | nil => rfl
  | cons c components ih =>
    by_cases hc : c = .current
    · rw [hc, List.filter_cons_of_neg (by simp), List.foldl_cons, fold, ih]
    · rw [List.filter_cons_of_pos (by simpa using hc), List.foldl_cons, List.foldl_cons, ih]

/-- **Normal forms are what remains.** The normal form of a path is an optional root, for a relative
    path some `..`, and then names, and it can be written piece by piece. It is its own normal form, and
    that of all paths with the same components. And it is what remains of the components in the end,
    dots apart, in whatever order one cancels. -/
theorem normalize_is_what_remains (p : Path) :
    (∃ form : NormalForm, form.isRooted = p.isAbsolute ∧ p.normalize = form.path ∧
      p.normalize.components = form.components) ∧
    p.normalize = p.components.foldl extend ⟨[]⟩ ∧
    p.normalize.normalize = p.normalize ∧
    (∀ q, Same p q → q.normalize = p.normalize) ∧
    ∀ left, ReflTransGen Cancels (p.components.filter (· ≠ .current)) left →
      (∀ next, Cancels left next → next.length < left.length) ∧
      ReflTransGen Cancels left p.normalize.components ∧
      ((∀ next, ¬Cancels left next) ↔ left = p.normalize.components) := by
  obtain ⟨form, hrooted, hnormal, hcomponents, -⟩ := p.exists_normalForm
  refine ⟨⟨form, hrooted, hnormal, hcomponents⟩, p.normalize_eq_foldl_extend, p.normalize_normalize,
    fun q h => h.normalize_eq.symm, fun left hleft => ?_⟩
  have hcurrent : .current ∉ left := fun h => by
    have := subset_of_cancels hleft h
    simp at this
  -- What the stack makes of what is left is what it makes of the path.
  have hstack : (left.foldl fold []).reverse = p.normalize.components := by
    rw [← foldl_fold_eq_of_cancels hleft, foldl_fold_filter, components_normalize]
  refine ⟨fun next h => h.length_lt, ?_, ?_⟩
  · exact hstack ▸ cancels_foldl_fold hcurrent
  · rw [forall_not_cancels_iff hcurrent, hstack]

/-- Slashes at the end, repeated ones and dots between them say nothing. -/
example : ["a//b", "a/./b", "a/b/", "a/c/../b", "x/../a/b"].map (fun p => (ofString p).normalize) =
    List.replicate 5 (ofString "a/b") := by decide +kernel

end PrecompiledHeaders.Path

import Mathlib.Data.List.Basic
import Mathlib.Data.List.Forall2
import Mathlib.Data.List.Induction

/-!
# The order of first sight

`List.eraseDups` leaves each element of a list where it comes first. Elements come in from the front,
so what it does is told by one more element at the end (`eraseDups_concat`). It goes together with
filters (`eraseDups_filter`), and with whatever keeps elements apart (`forall₂_eraseDups`).
-/

namespace PrecompiledHeaders

variable {α β : Type} [DecidableEq α] [DecidableEq β] {l : List α}

theorem eraseDups_concat (l : List α) (a : α) :
    (l ++ [a]).eraseDups = if a ∈ l then l.eraseDups else l.eraseDups ++ [a] := by
  rw [List.eraseDups_append]
  split
  · next hseen => simp [List.removeAll, hseen]
  · next hnew => simp [List.removeAll, hnew, List.eraseDups_cons]

theorem nodup_eraseDups (l : List α) : l.eraseDups.Nodup := by
  induction l using List.reverseRecOn with
  | nil => exact .nil
  | append_singleton l a ih =>
    rw [eraseDups_concat]
    split
    · exact ih
    · next hnew =>
      rw [List.nodup_append]
      refine ⟨ih, List.pairwise_singleton _ a, fun b hb c hc heq => ?_⟩
      rw [List.mem_eraseDups, heq, List.mem_singleton.1 hc] at hb
      exact hnew hb

/-- A list that repeats nothing stays as it is. -/
theorem eraseDups_of_nodup (h : l.Nodup) : l.eraseDups = l := by
  induction l using List.reverseRecOn with
  | nil => rfl
  | append_singleton l a ih =>
    obtain ⟨hl, -, hne⟩ := List.nodup_append.1 h
    have hnew : a ∉ l := fun ha => hne a ha a List.mem_cons_self rfl
    rw [eraseDups_concat, if_neg hnew, ih hl]

theorem eraseDups_filter (keep : α → Bool) (l : List α) :
    (l.filter keep).eraseDups = l.eraseDups.filter keep := by
  induction l using List.reverseRecOn with
  | nil => rfl
  | append_singleton l a ih =>
    rw [List.filter_append, eraseDups_concat]
    cases hkeep : keep a with
    | false =>
      have hlast : [a].filter keep = [] := by simp [hkeep]
      rw [hlast, List.append_nil, ih]
      split
      · rfl
      · rw [List.filter_append, hlast, List.append_nil]
    | true =>
      have hlast : [a].filter keep = [a] := by simp [hkeep]
      rw [hlast, eraseDups_concat, ih]
      by_cases hseen : a ∈ l
      · rw [if_pos hseen, if_pos (List.mem_filter.2 ⟨hseen, hkeep⟩)]
      · rw [if_neg hseen, if_neg fun h => hseen (List.mem_filter.1 h).1, List.filter_append, hlast]

/-- If elements correspond to each other one to one, so do those that come first. -/
theorem forall₂_eraseDups {R : α → β → Prop} (hR : Relator.BiUnique R) {l' : List β}
    (h : List.Forall₂ R l l') : List.Forall₂ R l.eraseDups l'.eraseDups := by
  -- What follows a first element is taken without it, so the induction is on the length.
  induction hn : l.length using Nat.strongRecOn generalizing l l' with
  | ind n ih =>
    cases h with
    | nil => exact .nil
    | @cons a b rest rest' hab hrest =>
      have hothers : List.Forall₂ R (rest.filter fun c => !c == a) (rest'.filter fun c => !c == b) :=
        List.rel_filter (fun c d hcd => by simp [Relator.rel_eq hR hcd hab]) hrest
      have hshorter : (rest.filter fun c => !c == a).length < n := by
        rw [← hn, List.length_cons]
        exact Nat.lt_succ_of_le (List.length_filter_le _ _)
      rw [List.eraseDups_cons, List.eraseDups_cons]
      exact .cons hab (ih _ hshorter hothers rfl)

end PrecompiledHeaders

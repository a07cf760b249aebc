import PrecompiledHeaders.Proofs.Generation.IncludeSet

/-!
# The two halves of include sets

An include set holds its ids twice, in order and as a set, and each operation changes the two halves
by different means: ids that are not retained leave the set one by one, while the order is gone
through. Still the halves never drift apart. Whatever set is made by the operations
(`IncludeSet.IsMade`), in any order and with predicates that remember what they were asked, is
coherent (`IncludeSet.IsMade.isCoherent`). So all that can be asked of it is told by its order, and
what the operations make of it is told by what they do to the order
(`IncludeSet.IsMade.order_tells_all`).
-/

namespace PrecompiledHeaders.IncludeSet

variable {s s' : IncludeSet} {id : PathId} {ids : List PathId} {members : Std.HashSet PathId}
  {σ : Type} {keep : PathId → σ → Bool × σ} {state : σ}

/-! ### What is retained -/

/-- What a predicate says of the ids of a list, if it is asked for them in order. -/
def verdicts (keep : PathId → σ → Bool × σ) (state : σ) : List PathId → List Bool
  | [] => []
  | id :: rest => (keep id state).1 :: verdicts keep (keep id state).2 rest

/-- The ids of a list that a predicate keeps. -/
def survivors (keep : PathId → σ → Bool × σ) (state : σ) (ids : List PathId) : List PathId :=
  ((ids.zip (verdicts keep state ids)).filter Prod.snd).map Prod.fst

theorem survivors_cons (id : PathId) (rest : List PathId) : survivors keep state (id :: rest) =
    if (keep id state).1 then id :: survivors keep (keep id state).2 rest
    else survivors keep (keep id state).2 rest := by
  rw [survivors, verdicts, List.zip_cons_cons, List.filter_cons]
  split <;> rfl

/-- A predicate that forgets what it was asked keeps the ids that have the property. -/
theorem survivors_of_forgetful (keep : PathId → Bool) (ids : List PathId) :
    survivors (fun id (_ : Unit) => (keep id, ())) () ids = ids.filter keep := by
  induction ids with
  | nil => rfl
  | cons id rest ih => rw [survivors_cons, List.filter_cons, ih]

theorem survivors_sublist : (survivors keep state ids).Sublist ids := by
  induction ids generalizing state with
  | nil => exact .slnil
  | cons id rest ih =>
    rw [survivors_cons]
    split
    · exact ih.cons_cons id
    · exact ih.cons id

theorem retainFrom_of_kept {rest : List PathId} (hkeep : (keep id state).1 = true) :
    retainFrom keep state members (id :: rest) =
      (id :: (retainFrom keep (keep id state).2 members rest).1,
        (retainFrom keep (keep id state).2 members rest).2) := by
  rw [retainFrom]
  split
  next kept next heq =>
  rw [heq] at hkeep ⊢
  exact if_pos hkeep

theorem retainFrom_of_dropped {rest : List PathId} (hkeep : ¬(keep id state).1 = true) :
    retainFrom keep state members (id :: rest) =
      retainFrom keep (keep id state).2 (members.erase id) rest := by
  rw [retainFrom]
  split
  next kept next heq =>
  rw [heq] at hkeep ⊢
  exact if_neg hkeep

/-- The order that is left is that of the ids that are kept. -/
theorem retainFrom_fst : (retainFrom keep state members ids).1 = survivors keep state ids := by
  induction ids generalizing state members with
  | nil => rfl
  | cons id rest ih =>
    rw [survivors_cons]
    split
    · next hkeep => rw [retainFrom_of_kept hkeep, ih]
    · next hdrop => rw [retainFrom_of_dropped hdrop, ih]

/-- A member is left if it is kept, or does not stand in the order. -/
theorem mem_retainFrom_snd (hids : ids.Nodup) : id ∈ (retainFrom keep state members ids).2 ↔
    id ∈ members ∧ (id ∈ ids → id ∈ survivors keep state ids) := by
  induction ids generalizing state members with
  | nil => simp [retainFrom]
  | cons first rest ih =>
    obtain ⟨hfirst, hrest⟩ := List.nodup_cons.1 hids
    -- No id that comes later is the first one.
    have hlater : first ∉ survivors keep (keep first state).2 rest := fun hmem =>
      hfirst (survivors_sublist.subset hmem)
    rw [survivors_cons]
    by_cases heq : id = first
    · subst heq
      split
      · next hkeep => simp [retainFrom_of_kept hkeep, ih hrest, hfirst]
      · next hdrop => simp [retainFrom_of_dropped hdrop, ih hrest, hlater]
    · split
      · next hkeep => simp [retainFrom_of_kept hkeep, ih hrest, heq]
      · next hdrop => simp [retainFrom_of_dropped hdrop, ih hrest, heq, Ne.symm heq]

theorem order_retain : (s.retain keep state).order = survivors keep state s.order := retainFrom_fst

theorem order_filter (keep : PathId → Bool) : (s.filter keep).order = s.order.filter keep := by
  rw [filter, order_retain, survivors_of_forgetful]

/-! ### Coherence -/

theorem mem_members_iff (hs : s.IsCoherent) : id ∈ s.members ↔ id ∈ s.order := by
  rw [← hs.contains_iff, contains, Std.HashSet.mem_iff_contains]

theorem IsCoherent.retain (hs : s.IsCoherent) (keep : PathId → σ → Bool × σ) (state : σ) :
    (s.retain keep state).IsCoherent := by
  refine ⟨?_, fun id => ?_⟩
  · rw [order_retain]
    exact hs.nodup.sublist survivors_sublist
  · rw [order_retain, contains, ← Std.HashSet.mem_iff_contains]
    refine (mem_retainFrom_snd hs.nodup).trans ?_
    rw [mem_members_iff hs]
    exact ⟨fun h => h.2 h.1, fun h => ⟨survivors_sublist.subset h, fun _ => h⟩⟩

theorem add_eq (s : IncludeSet) (id : PathId) : s.add id = (!s.contains id, s.insert id) := by
  have hknown : s.contains id = (s.members.containsThenInsert id).1 :=
    Std.HashSet.containsThenInsert_fst.symm
  rw [add, insert, hknown, ← Std.HashSet.containsThenInsert_snd]
  split
  next known members heq =>
  rw [heq]
  cases known <;> rfl

/-- Whether a set is made by the operations. What is kept may depend on a state of any type, and so on
    all that was asked before. -/
inductive IsMade : IncludeSet → Prop
  | empty : IsMade empty
  | ofList (ids : List PathId) : IsMade (ofList ids)
  | add {s : IncludeSet} (hs : IsMade s) (id : PathId) : IsMade (s.add id).2
  | retain {s : IncludeSet} {σ : Type} (hs : IsMade s) (keep : PathId → σ → Bool × σ) (state : σ) :
    IsMade (s.retain keep state)
  | intersect {s s' : IncludeSet} (hs : IsMade s) (hs' : IsMade s') : IsMade (s.intersect s')

theorem IsMade.isCoherent (hs : s.IsMade) : s.IsCoherent := by
  induction hs with
  | empty => exact .empty
  | ofList ids => exact .ofList ids
  | add _ id ih =>
    rw [add_eq]
    exact ih.insert id
  | retain _ keep state ih => exact ih.retain keep state
  | intersect => exact .ofList _

/-! ### What the order tells -/

theorem contains_eq (hs : s.IsCoherent) (id : PathId) : s.contains id = decide (id ∈ s.order) := by
  rw [Bool.eq_iff_iff, hs.contains_iff, decide_eq_true_iff]

theorem add_fst (hs : s.IsCoherent) (id : PathId) : (s.add id).1 = decide (id ∉ s.order) := by
  rw [add_eq, contains_eq hs, decide_not]

theorem order_add (hs : s.IsCoherent) (id : PathId) :
    (s.add id).2.order = if id ∈ s.order then s.order else s.order ++ [id] := by
  rw [add_eq, insert, contains_eq hs]
  split <;> simp_all

theorem order_intersect_eq (hs : s.IsCoherent) (hs' : s'.IsCoherent) :
    (s.intersect s').order = s.order.filter (· ∈ s'.order) := by
  rw [order_intersect hs]
  exact List.filter_congr fun id _ => contains_eq hs' id

/-- There are as many members as there are ids in the order. -/
theorem size_toSet (hs : s.IsCoherent) : s.toSet.size = s.order.length := by
  have hnodup : s.members.toList.Nodup :=
    Std.HashSet.distinct_toList.imp fun hne heq => by simp [heq] at hne
  have hperm : s.members.toList.Perm s.order :=
    (List.perm_ext_iff_of_nodup hnodup hs.nodup).2 fun id =>
      Std.HashSet.mem_toList.trans (mem_members_iff hs)
  rw [toSet, ← Std.HashSet.length_toList, hperm.length_eq]

theorem same_iff (hs : s.IsCoherent) (hs' : s'.IsCoherent) :
    s.same s' = true ↔ s.order = s'.order := by
  have hall {s s' : IncludeSet} (hs : s.IsCoherent) (hs' : s'.IsCoherent)
      (heq : s.order = s'.order) : s.members.all s'.members.contains = true := by
    refine Std.HashSet.all_eq_true_iff_forall_mem.2 fun id hid => ?_
    rw [← Std.HashSet.mem_iff_contains, mem_members_iff hs', ← heq]
    exact (mem_members_iff hs).1 hid
  rw [same, Bool.and_eq_true, Bool.and_eq_true, decide_eq_true_iff]
  exact ⟨fun h => h.1.1, fun h => ⟨⟨h, hall hs hs' h⟩, hall hs' hs h.symm⟩⟩

/-- The order of a set has no id twice and holds just the members, and it tells all that can be asked:
    whether an id is new, and is put last then; which ids stay when some are retained or two sets are
    intersected, in the order in which they were; and whether two sets are the same. -/
theorem IsMade.order_tells_all (hs : s.IsMade) :
    s.order.Nodup ∧ (∀ id, id ∈ s.members ↔ id ∈ s.order) ∧
    (∀ id, ((s.add id).1 = true ↔ id ∉ s.order) ∧
      (s.add id).2.order = if id ∈ s.order then s.order else s.order ++ [id]) ∧
    (∀ (σ : Type) (keep : PathId → σ → Bool × σ) (state : σ),
      (s.retain keep state).order = survivors keep state s.order ∧
      (s.retain keep state).order.Sublist s.order) ∧
    (∀ keep, (s.filter keep).order = s.order.filter keep) ∧
    (∀ s', s'.IsMade → (s.intersect s').order = s.order.filter (· ∈ s'.order)) ∧
    (∀ id, s.contains id = true ↔ id ∈ s.order) ∧
    s.size = s.order.length ∧ (s.isEmpty = true ↔ s.order = []) ∧ s.toList = s.order ∧
    (∀ id, id ∈ s.toSet ↔ id ∈ s.order) ∧ s.toSet.size = s.order.length ∧
    (∀ s', s'.IsMade → (s.same s' = true ↔ s.order = s'.order)) := by
  have hcoherent := hs.isCoherent
  refine ⟨hcoherent.nodup, fun id => mem_members_iff hcoherent, fun id => ⟨?_, order_add hcoherent id⟩,
    fun σ keep state => ⟨order_retain, order_retain ▸ survivors_sublist⟩, order_filter,
    fun s' hs' => order_intersect_eq hcoherent hs'.isCoherent, hcoherent.contains_iff, rfl,
    List.isEmpty_iff, rfl, fun id => mem_members_iff hcoherent, size_toSet hcoherent,
    fun s' hs' => same_iff hcoherent hs'.isCoherent⟩
  rw [add_fst hcoherent, decide_eq_true_iff]

/-- Five ids, of which one comes twice: every other one is kept, the repeated one is not new, and what
    is in another set stays in the order of the first. -/
theorem order_tells_all_repeating :
    (ofList [⟨3⟩, ⟨1⟩, ⟨4⟩, ⟨1⟩, ⟨5⟩]).IsMade ∧
    ((ofList [⟨3⟩, ⟨1⟩, ⟨4⟩, ⟨1⟩, ⟨5⟩]).retain (fun _ turn => (turn, !turn)) true).order = [⟨3⟩, ⟨4⟩] ∧
    ((ofList [⟨3⟩, ⟨1⟩, ⟨4⟩, ⟨1⟩, ⟨5⟩]).add ⟨1⟩).1 ≠ true ∧
    ((ofList [⟨3⟩, ⟨1⟩, ⟨4⟩, ⟨1⟩, ⟨5⟩]).intersect (ofList [⟨5⟩, ⟨3⟩])).order = [⟨3⟩, ⟨5⟩] := by
  have hmade := IsMade.ofList [⟨3⟩, ⟨1⟩, ⟨4⟩, ⟨1⟩, ⟨5⟩]
  obtain ⟨-, -, hadd, hretain, -, hintersect, -⟩ := hmade.order_tells_all
  simp only [order_ofList] at hadd hretain hintersect
  refine ⟨hmade, (hretain _ _ _).1.trans (by decide), fun hnew => (hadd ⟨1⟩).1.1 hnew (by decide), ?_⟩
  rw [hintersect _ (.ofList _), order_ofList]
  decide

end PrecompiledHeaders.IncludeSet

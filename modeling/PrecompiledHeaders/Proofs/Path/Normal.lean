import PrecompiledHeaders.Proofs.Path.Lists
import PrecompiledHeaders.Proofs.Text.Distinct

/-!
# Normal forms

What the normal form of a path depends on is what the pieces of the path say (`Path.said`) and whether
it is absolute (`Path.normalize_eq_fold`). A path that is taken from a directory says what the directory
says and then what it says itself (`Path.said_join`), so paths that are the same have the same normal
form from everywhere (`Path.Same.normalizeFrom_eq`).

The normal form of an absolute path is the path of a location. That of a relative one is some `..` and
then names (`Path.exists_normalize_eq`). Either way, normalising once is enough
(`Path.normalize_normalize`), so normal forms are the same only if they are equal
(`Path.same_normalize_iff`).
-/

namespace PrecompiledHeaders.Path

variable {base p q : Path} {paths : List Path} {names : List Bytes} {ups : Nat}

/-- What the pieces of a path say, wherever it is taken from. -/
def said (p : Path) : List Component := p.segments.filterMap Component.ofSegment?

/-- What the components of a path are put on: the root, if it is absolute. -/
def ground (p : Path) : List Component := if p.isAbsolute then [.root] else []

theorem components_eq (p : Path) : p.components = p.ground ++
    (if p.isAbsolute = false ∧ p.segments.head? = some dot then [.current] else []) ++ p.said := by
  unfold components ground said
  cases p.isAbsolute <;> simp

/-- A dot in front does not count. -/
theorem normalize_eq_fold (p : Path) :
    p.normalize = ofComponents (p.said.foldl fold p.ground).reverse := by
  rw [normalize, components_eq, List.foldl_append, List.foldl_append]
  congr 3
  unfold ground
  split <;> split <;> rfl

theorem not_mem_said {c : Component} (hc : ∀ segment, Component.ofSegment? segment ≠ some c) :
    c ∉ p.said := by
  intro h
  obtain ⟨segment, -, hof⟩ := List.mem_filterMap.1 h
  exact hc segment hof

theorem ofSegment?_ne_current (segment : Bytes) : Component.ofSegment? segment ≠ some .current := by
  unfold Component.ofSegment?
  split
  · simp
  · split <;> simp

theorem ofSegment?_ne_root (segment : Bytes) : Component.ofSegment? segment ≠ some .root := by
  unfold Component.ofSegment?
  split
  · simp
  · split <;> simp

theorem isAbsolute_iff_root_mem : p.isAbsolute = true ↔ .root ∈ p.components := by
  have hsaid : Component.root ∉ p.said := not_mem_said ofSegment?_ne_root
  rw [components_eq, ground]
  cases p.isAbsolute with
  | true => simp
  | false =>
    simp only [Bool.false_eq_true, if_false, List.nil_append, List.mem_append, hsaid, or_false,
      false_iff]
    split <;> simp

/-- What a path says is what is left of its components behind the root or a dot in front. -/
theorem said_eq_filter (p : Path) :
    p.said = p.components.filter fun c => c ≠ .root ∧ c ≠ .current := by
  have hsaid : p.said.filter (fun c => c ≠ .root ∧ c ≠ .current) = p.said := by
    refine List.filter_eq_self.2 fun c hc => decide_eq_true ⟨?_, ?_⟩
    · rintro rfl
      exact not_mem_said ofSegment?_ne_root hc
    · rintro rfl
      exact not_mem_said ofSegment?_ne_current hc
  rw [components_eq, List.filter_append, List.filter_append, hsaid, ground]
  split <;> split <;> rfl

theorem Same.said_eq (h : Same p q) : p.said = q.said := by
  rw [said_eq_filter, said_eq_filter, show p.components = q.components from h]

theorem Same.isAbsolute_eq (h : Same p q) : p.isAbsolute = q.isAbsolute := by
  rw [Bool.eq_iff_iff, isAbsolute_iff_root_mem, isAbsolute_iff_root_mem,
    show p.components = q.components from h]

/-! ### Paths taken from a directory -/

/-- What is said in front of a slash is said apart from what is said behind it. -/
theorem said_append_separator (front behind : Bytes) :
    said ⟨front ++ separator :: behind⟩ = said ⟨front⟩ ++ said ⟨behind⟩ := by
  rw [said, segments, split_append_cons, List.filterMap_append]
  rfl

theorem said_join (base : Path) (hp : p.isAbsolute = false) :
    (base.join p).said = base.said ++ p.said := by
  rw [join, hp, if_neg Bool.false_ne_true]
  split
  · next h =>
    rcases h with hnil | hlast
    · have hsaid : base.said = [] := by
        rw [said, segments, hnil]
        rfl
      rw [hnil, hsaid]
      rfl
    · -- Nothing is said behind the last slash of the directory.
      obtain ⟨front, hfront⟩ := List.getLast?_eq_some_iff.1 hlast
      have hbase : base = ⟨front ++ separator :: []⟩ := congrArg Path.mk hfront
      rw [hfront, List.append_assoc, List.singleton_append, said_append_separator, hbase,
        said_append_separator, List.append_assoc]
      rfl
  · exact said_append_separator base.bytes p.bytes

theorem isAbsolute_join_eq (base : Path) (hp : p.isAbsolute = false) :
    (base.join p).isAbsolute = base.isAbsolute := by
  rw [join, hp, if_neg Bool.false_ne_true]
  cases hb : base.bytes with
  | nil =>
    rw [if_pos (.inl rfl), List.nil_append]
    exact hp.trans (by rw [isAbsolute, hb]; rfl)
  | cons b bytes => split <;> simp [isAbsolute, hb]

theorem ground_join (base : Path) (hp : p.isAbsolute = false) :
    (base.join p).ground = base.ground := by
  rw [ground, isAbsolute_join_eq base hp, ground]

/-- Paths that are the same lead to the same normal form from everywhere. -/
theorem Same.normalizeFrom_eq (h : Same p q) (base : Path) :
    base.normalizeFrom p = base.normalizeFrom q := by
  cases hp : p.isAbsolute with
  | true =>
    rw [normalizeFrom_of_isAbsolute hp, normalizeFrom_of_isAbsolute (h.isAbsolute_eq ▸ hp),
      h.normalize_eq]
  | false =>
    have hq : q.isAbsolute = false := h.isAbsolute_eq ▸ hp
    rw [normalizeFrom, normalizeFrom, normalize_eq_fold, normalize_eq_fold, said_join base hp,
      said_join base hq, ground_join base hp, ground_join base hq, h.said_eq]

/-! ### Relative normal forms -/

/-- The components of some `..` and then names. -/
def climb (ups : Nat) (names : List Bytes) : List Component :=
  List.replicate ups .parent ++ names.map .name

/-- With nothing below but `..`, another one adds to them. -/
theorem fold_replicate_parent (ups : Nat) : fold (List.replicate ups .parent) .parent =
    List.replicate (ups + 1) .parent := by
  cases ups <;> rfl

/-- Nothing cancels in some `..` and then names. -/
theorem foldl_climb (ups : Nat) (names : List Bytes) :
    (climb ups names).foldl fold [] = (climb ups names).reverse := by
  have hups : (List.replicate ups Component.parent).foldl fold [] =
      List.replicate ups .parent := by
    induction ups with
    | zero => rfl
    | succ ups ih =>
      rw [List.replicate_succ', List.foldl_append, ih, ← List.replicate_succ']
      exact fold_replicate_parent ups
  rw [climb, List.foldl_append, hups, Location.foldl_names, List.reverse_append,
    List.reverse_replicate, List.map_reverse]

/-- Folding what a relative path says leaves some `..` at the bottom and names on top. -/
theorem exists_foldl_eq {components : List Component}
    (hroot : .root ∉ components) (hnames : ∀ name, .name name ∈ components → IsName name) :
    ∃ ups names, (∀ n ∈ names, IsName n) ∧
      components.foldl fold [] = (climb ups names).reverse := by
  -- Components are put on the stack from the front, so the induction goes to the end.
  induction components using List.reverseRecOn with
  | nil => exact ⟨0, [], by simp, rfl⟩
  | append_singleton front last ih =>
    obtain ⟨ups, names, hproper, hfold⟩ := ih (fun h => hroot (List.mem_append_left _ h))
      fun name h => hnames name (List.mem_append_left _ h)
    rw [List.foldl_append, hfold, List.foldl_cons, List.foldl_nil]
    cases last with
    | root => exact absurd (List.mem_append_right _ List.mem_cons_self) hroot
    | current => exact ⟨ups, names, hproper, by unfold fold; rfl⟩
    | name last =>
      have hlast : IsName last := hnames last (List.mem_append_right _ List.mem_cons_self)
      refine ⟨ups, names ++ [last], fun n hn => ?_, ?_⟩
      · rcases List.mem_append.1 hn with hn | hn
        · exact hproper n hn
        · rw [List.mem_singleton.1 hn]
          exact hlast
      · rw [climb, climb, List.map_append, ← List.append_assoc, List.reverse_append]
        rw [fold] <;> simp
    | parent =>
      -- It cancels the last name, or adds to what is at the bottom.
      rcases List.eq_nil_or_concat names with rfl | ⟨others, name, rfl⟩
      · refine ⟨ups + 1, [], hproper, ?_⟩
        simp only [climb, List.map_nil, List.append_nil, List.reverse_replicate]
        exact fold_replicate_parent ups
      · refine ⟨ups, others, fun n hn => hproper n (by simp [hn]), ?_⟩
        simp [climb, fold]

theorem isName_of_mem_said {name : Bytes} (h : .name name ∈ p.said) : IsName name := by
  obtain ⟨segment, hsegment, hof⟩ := List.mem_filterMap.1 h
  unfold Component.ofSegment? at hof
  split at hof
  · cases hof
  next hne =>
  split at hof
  · cases hof
  next hnot =>
  cases hof
  exact ⟨(not_or.1 hne).1, (not_or.1 hne).2, hnot, not_mem_of_mem_split hsegment⟩

/-- The normal form of a relative path is some `..` and then names. -/
theorem exists_normalize_eq (hp : p.isAbsolute = false) : ∃ ups names,
    (∀ n ∈ names, IsName n) ∧ p.normalize = ofComponents (climb ups names) := by
  obtain ⟨ups, names, hproper, hfold⟩ :=
    exists_foldl_eq (not_mem_said (p := p) ofSegment?_ne_root) fun _ => isName_of_mem_said
  refine ⟨ups, names, hproper, ?_⟩
  rw [normalize_eq_fold, ground, hp, if_neg Bool.false_ne_true, hfold, List.reverse_reverse]

theorem ofComponents_climb (ups : Nat) (names : List Bytes) : ofComponents (climb ups names) =
    ⟨PrecompiledHeaders.join separator (List.replicate ups dotDot ++ names)⟩ := by
  have hbytes : (climb ups names).map Component.bytes = List.replicate ups dotDot ++ names := by
    rw [climb, List.map_append, List.map_replicate, List.map_map]
    exact congrArg _ (List.map_id names)
  rw [ofComponents, hbytes]
  rintro hroot
  have hmem : Component.root ∈ climb ups names := hroot ▸ List.mem_cons_self
  simp [climb, List.mem_replicate] at hmem

/-- What is written with some `..` and then names says that again. -/
theorem said_ofComponents_climb (ups : Nat) (hnames : ∀ n ∈ names, IsName n) :
    (ofComponents (climb ups names)).isAbsolute = false ∧
      (ofComponents (climb ups names)).said = climb ups names := by
  have hups : ∀ n ∈ List.replicate ups dotDot, n ≠ [] ∧ separator ∉ n := fun n hn =>
    List.eq_of_mem_replicate hn ▸ by decide
  have hpieces : ∀ n ∈ List.replicate ups dotDot ++ names, n ≠ [] ∧ separator ∉ n := fun n hn =>
    (List.mem_append.1 hn).elim (hups n) fun hn => ⟨(hnames n hn).ne_nil, (hnames n hn).not_mem⟩
  have hsaid : (List.replicate ups dotDot ++ names).filterMap Component.ofSegment? =
      climb ups names := by
    rw [List.filterMap_append, climb]
    congr 1
    · rw [List.filterMap_replicate]
      rfl
    · exact List.filterMap_eq_map_iff_forall_eq_some.2 fun n hn => (hnames n hn).ofSegment?
  rw [ofComponents_climb, said, segments]
  cases hall : List.replicate ups dotDot ++ names with
  | nil =>
    rw [hall] at hsaid
    exact ⟨rfl, hsaid⟩
  | cons first others =>
    rw [hall] at hpieces hsaid
    have hfirst := hpieces first List.mem_cons_self
    refine ⟨?_, ?_⟩
    · obtain ⟨b, bytes, rfl⟩ := List.exists_cons_of_ne_nil hfirst.1
      rw [isAbsolute, join_cons]
      exact decide_eq_false fun h => hfirst.2 (Option.some.inj h ▸ List.mem_cons_self)
    · rw [split_join (List.cons_ne_nil _ _) fun n hn => (hpieces n hn).2, hsaid]

/-- Normalising once is enough. -/
theorem normalize_normalize (p : Path) : p.normalize.normalize = p.normalize := by
  cases hp : p.isAbsolute with
  | true => exact (isNormal_normalize hp).normalize_eq
  | false =>
    obtain ⟨ups, names, hproper, heq⟩ := exists_normalize_eq hp
    obtain ⟨hrelative, hsaid⟩ := said_ofComponents_climb ups hproper
    rw [heq, normalize_eq_fold, hsaid, ground, hrelative, if_neg Bool.false_ne_true, foldl_climb,
      List.reverse_reverse]

theorem normalize_normalizeFrom (base p : Path) :
    (base.normalizeFrom p).normalize = base.normalizeFrom p :=
  normalize_normalize (base.join p)

/-- Normal forms are the same only if they are equal. -/
theorem same_normalize_iff (hp : p.normalize = p) (hq : q.normalize = q) : Same p q ↔ p = q :=
  ⟨fun h => by rw [← hp, ← hq, h.normalize_eq], fun h => h ▸ rfl⟩

theorem isAmong_iff_mem (hp : p.normalize = p) (h : ∀ q ∈ paths, q.normalize = q) :
    p.isAmong paths = true ↔ p ∈ paths := by
  rw [isAmong_iff]
  constructor
  · rintro ⟨q, hq, hsame⟩
    exact (same_normalize_iff (h q hq) hp).1 hsame ▸ hq
  · exact fun hmem => ⟨p, hmem, rfl⟩

/-- Among normal forms, those that are repeated are the ones that are equal. -/
theorem dedup_eq_eraseDups (h : ∀ p ∈ paths, p.normalize = p) : dedup paths = paths.eraseDups := by
  induction paths using List.reverseRecOn with
  | nil => rfl
  | append_singleton front last ih =>
    have hfront : ∀ p ∈ front, p.normalize = p := fun p hp => h p (List.mem_append_left _ hp)
    have hiff : last.isAmong front.eraseDups = true ↔ last ∈ front := by
      rw [isAmong_iff_mem (h last (by simp)) fun p hp => hfront p (List.mem_eraseDups.1 hp),
        List.mem_eraseDups]
    rw [dedup_append_singleton, eraseDups_concat, ih hfront]
    by_cases hseen : last ∈ front
    · rw [if_pos hseen, if_pos (hiff.2 hseen)]
    · rw [if_neg hseen, if_neg (mt hiff.1 hseen)]

end PrecompiledHeaders.Path

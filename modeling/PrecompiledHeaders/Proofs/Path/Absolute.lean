import PrecompiledHeaders.FileTree.Basic
import PrecompiledHeaders.Path.Normal
import PrecompiledHeaders.Proofs.Text.Split
import PrecompiledHeaders.Proofs.Text.Utf8

/-!
# Absolute paths

An absolute path leads to a location (`Path.location`), piece by piece (`Location.descend`), and its
normal form is the path of that location (`Path.normalize_eq_path`), whose names are proper. On
the paths of locations, normalisation does nothing (`Location.normalize_path`), and paths in normal
form are the same only if they are equal (`Path.IsNormal.same_iff`).
-/

namespace PrecompiledHeaders

open PrecompiledHeaders.Path

/-- Whether bytes are a name that stands for itself in a path. -/
structure Path.IsName (bytes : Bytes) : Prop where
  ne_nil : bytes ≠ []
  ne_dot : bytes ≠ dot
  ne_dotDot : bytes ≠ dotDot
  not_mem : separator ∉ bytes

instance (bytes : Bytes) : Decidable (Path.IsName bytes) :=
  decidable_of_iff (bytes ≠ [] ∧ bytes ≠ dot ∧ bytes ≠ dotDot ∧ separator ∉ bytes)
    ⟨fun ⟨hnil, hdot, hdotDot, hmem⟩ => ⟨hnil, hdot, hdotDot, hmem⟩,
      fun ⟨hnil, hdot, hdotDot, hmem⟩ => ⟨hnil, hdot, hdotDot, hmem⟩⟩

/-- Whether all names on the way to a location stand for themselves. -/
def Location.IsProper (location : Location) : Prop := ∀ name ∈ location, IsName name

theorem Path.IsName.ofSegment? {name : Bytes} (h : IsName name) :
    Component.ofSegment? name = some (.name name) := by
  rw [Component.ofSegment?, if_neg (not_or.2 ⟨h.ne_nil, h.ne_dot⟩), if_neg h.ne_dotDot]

theorem Path.components_of_isAbsolute {p : Path} (h : p.isAbsolute) :
    p.components = .root :: p.segments.filterMap Component.ofSegment? := by
  rw [components, if_pos h]
  rfl

namespace Location

variable {location : Location}

theorem path_cons (name : Bytes) (above : Location) : path (name :: above) =
    ⟨(name :: above).reverse.flatMap fun name => separator :: name⟩ := rfl

theorem isAbsolute_path (location : Location) : location.path.isAbsolute := by
  cases location with
  | nil => rfl
  | cons name above =>
    rw [isAbsolute, path_cons, List.reverse_cons, List.flatMap_append]
    cases above.reverse <;> simp

/-- The path of a location is cut into its names. -/
theorem segments_path (h : location.IsProper) (hne : location ≠ []) :
    location.path.segments = [] :: location.reverse := by
  obtain ⟨name, above, rfl⟩ := List.exists_cons_of_ne_nil hne
  rw [segments, path_cons]
  exact split_flatMap fun n hn => (h n (List.mem_reverse.1 hn)).not_mem

/-- The components on the way to a location, the last one first. -/
def stack (location : Location) : List Component := location.map .name ++ [.root]

theorem reverse_stack (location : Location) :
    location.stack.reverse = .root :: location.reverse.map .name := by
  rw [stack, List.reverse_append, List.map_reverse]
  rfl

theorem ofComponents_stack (location : Location) :
    ofComponents location.stack.reverse = location.path := by
  rw [reverse_stack]
  cases hl : location.reverse with
  | nil =>
    rw [List.reverse_eq_nil_iff.1 hl]
    rfl
  | cons name names =>
    -- Joining the names puts a slash between them, and the root one in front.
    have hne : location ≠ [] := fun h => by simp [h] at hl
    have hmap : ((name :: names).map Component.name).map Component.bytes = name :: names := by
      rw [List.map_map]
      exact List.map_id _
    rw [List.map_cons, ofComponents, ← List.map_cons, List.map_cons, hmap, join_cons]
    · cases location with
      | nil => exact absurd rfl hne
      | cons => rw [path_cons, hl]; rfl
    · simp

theorem components_path (h : location.IsProper) :
    location.path.components = .root :: location.reverse.map .name := by
  rw [components_of_isAbsolute location.isAbsolute_path]
  congr 1
  cases location with
  | nil => rfl
  | cons name above =>
    have hproper : ∀ n ∈ (name :: above).reverse, Component.ofSegment? n = some (.name n) :=
      fun n hn => (h n (List.mem_reverse.1 hn)).ofSegment?
    rw [segments_path h (List.cons_ne_nil name above), List.filterMap_cons_none (by rfl)]
    generalize (name :: above).reverse = names at hproper
    induction names with
    | nil => rfl
    | cons n names ih =>
      rw [List.filterMap_cons_some (hproper n List.mem_cons_self), List.map_cons,
        ih fun m hm => hproper m (List.mem_cons_of_mem _ hm)]

/-- Names go on top of one another. -/
theorem foldl_names (names : List Bytes) (below : List Component) :
    (names.map Component.name).foldl fold below = names.reverse.map .name ++ below := by
  induction names generalizing below with
  | nil => rfl
  | cons name names ih =>
    rw [List.map_cons, List.foldl_cons, ih, fold, List.reverse_cons, List.map_append,
      List.append_assoc]
    · rfl
    all_goals simp

theorem normalize_path (h : location.IsProper) : location.path.normalize = location.path := by
  rw [Path.normalize, components_path h, List.foldl_cons, foldl_names, List.reverse_reverse,
    ← ofComponents_stack location]
  rfl

end Location

/-! ### Where absolute paths lead -/

namespace Location

variable {location : Location} {segments : List Bytes} {name : Bytes}

/-- Where a piece of a path leads from a location: it says nothing, or leads up, or leads down. -/
def descend (location : Location) (segment : Bytes) : Location :=
  if segment = [] ∨ segment = dot then location
  else if segment = dotDot then location.tail
  else segment :: location

theorem descend_of_isName (location : Location) (h : IsName name) :
    location.descend name = name :: location := by
  rw [descend, if_neg (not_or.2 ⟨h.ne_nil, h.ne_dot⟩), if_neg h.ne_dotDot]

theorem foldl_descend_names (location : Location) (h : ∀ name ∈ segments, IsName name) :
    segments.foldl descend location = segments.reverse ++ location := by
  induction segments generalizing location with
  | nil => rfl
  | cons name names ih =>
    rw [List.foldl_cons, descend_of_isName location (h name List.mem_cons_self),
      ih _ fun other ho => h other (List.mem_cons_of_mem _ ho), List.reverse_cons,
      List.append_assoc]
    rfl

theorem mem_descend {segment : Bytes} (h : name ∈ location.descend segment) :
    name ∈ location ∨ name = segment := by
  unfold descend at h
  split at h
  · exact .inl h
  split at h
  · exact .inl (List.mem_of_mem_tail h)
  · exact (List.mem_cons.1 h).symm

theorem IsProper.descend (h : location.IsProper) {segment : Bytes} (hs : separator ∉ segment) :
    (location.descend segment).IsProper := by
  unfold Location.descend
  split
  · exact h
  · next hskip =>
    rw [not_or] at hskip
    split
    · exact fun name hn => h name (List.mem_of_mem_tail hn)
    · next hparent =>
      intro name hn
      rcases List.mem_cons.1 hn with rfl | hn
      · exact ⟨hskip.1, hskip.2, hparent, hs⟩
      · exact h name hn

theorem mem_foldl_descend (h : name ∈ segments.foldl descend location) :
    name ∈ location ∨ name ∈ segments := by
  induction segments generalizing location with
  | nil => exact .inl h
  | cons segment segments ih =>
    rcases ih h with hin | hin
    · rcases mem_descend hin with hin | rfl
      · exact .inl hin
      · exact .inr List.mem_cons_self
    · exact .inr (List.mem_cons_of_mem _ hin)

theorem IsProper.foldl_descend (h : location.IsProper) (hs : ∀ s ∈ segments, separator ∉ s) :
    IsProper (segments.foldl Location.descend location) := by
  induction segments generalizing location with
  | nil => exact h
  | cons segment segments ih =>
    exact ih (h.descend (hs segment List.mem_cons_self)) fun s hs' =>
      hs s (List.mem_cons_of_mem _ hs')

/-- The components of pieces lead where the pieces lead. -/
theorem foldl_stack (location : Location) (segments : List Bytes) :
    (segments.filterMap Component.ofSegment?).foldl fold location.stack =
      stack (segments.foldl descend location) := by
  induction segments generalizing location with
  | nil => rfl
  | cons segment segments ih =>
    rw [List.foldl_cons, ← ih, descend]
    by_cases hskip : segment = [] ∨ segment = dot
    · have hnone : Component.ofSegment? segment = none := if_pos hskip
      rw [List.filterMap_cons_none hnone, if_pos hskip]
    have hsome : Component.ofSegment? segment =
        some (if segment = dotDot then .parent else .name segment) := by
      rw [Component.ofSegment?, if_neg hskip]
      split <;> rfl
    rw [List.filterMap_cons_some hsome, List.foldl_cons, if_neg hskip]
    -- Whether up or down, the stack has the same names as the location.
    split <;> cases location <;> rfl

end Location

namespace Path

/-- The location that an absolute path leads to when there are no links on the way. -/
def location (p : Path) : Location := p.segments.foldl Location.descend []

theorem isProper_location (p : Path) : p.location.IsProper :=
  Location.IsProper.foldl_descend (fun _ hn => absurd hn List.not_mem_nil) fun _ hs =>
    not_mem_of_mem_split hs

theorem mem_segments_of_mem_location {p : Path} {name : Bytes} (h : name ∈ p.location) :
    name ∈ p.segments :=
  (Location.mem_foldl_descend h).resolve_left List.not_mem_nil

/-- The normal form of an absolute path is the path of its location. -/
theorem normalize_eq_path {p : Path} (h : p.isAbsolute) : p.normalize = p.location.path := by
  rw [normalize, components_of_isAbsolute h, ← Location.ofComponents_stack, location,
    ← Location.foldl_stack]
  rfl

/-- A location is that of its path. -/
theorem location_path {location : Location} (h : location.IsProper) :
    location.path.location = location := by
  cases location with
  | nil => rfl
  | cons name above =>
    have hnames : ∀ n ∈ (name :: above).reverse, IsName n := fun n hn =>
      h n (List.mem_reverse.1 hn)
    have hnil : Location.descend [] [] = [] := rfl
    rw [Path.location, Location.segments_path h (List.cons_ne_nil name above), List.foldl_cons, hnil,
      Location.foldl_descend_names [] hnames, List.reverse_reverse, List.append_nil]

theorem location_normalize {p : Path} (h : p.isAbsolute) : p.normalize.location = p.location := by
  rw [normalize_eq_path h, location_path p.isProper_location]

/-! ### Normal paths -/

/-- Whether a path is absolute and its own normal form. -/
structure IsNormal (p : Path) : Prop where
  isAbsolute : p.isAbsolute = true
  normalize_eq : p.normalize = p

theorem Location.isNormal_path {location : Location} (h : location.IsProper) :
    IsNormal location.path :=
  ⟨location.isAbsolute_path, Location.normalize_path h⟩

variable {p q base : Path}

theorem IsNormal.exists_location (h : IsNormal p) :
    ∃ location : Location, location.IsProper ∧ p = location.path := by
  exact ⟨p.location, p.isProper_location, h.normalize_eq.symm.trans (normalize_eq_path h.isAbsolute)⟩

/-- A normal path is known by its location. -/
theorem IsNormal.eq_of_location_eq (hp : IsNormal p) (hq : IsNormal q)
    (h : p.location = q.location) : p = q := by
  rw [← hp.normalize_eq, ← hq.normalize_eq, normalize_eq_path hp.isAbsolute,
    normalize_eq_path hq.isAbsolute, h]

theorem isNormal_normalize (h : p.isAbsolute) : IsNormal p.normalize := by
  exact normalize_eq_path h ▸ Location.isNormal_path p.isProper_location

/-- Paths that are the same have one normal form. -/
theorem Same.normalize_eq (h : Same p q) : p.normalize = q.normalize := by
  rw [normalize, normalize, show p.components = q.components from h]

/-- Normal paths are the same only if they are equal. -/
theorem IsNormal.same_iff (hp : IsNormal p) (hq : IsNormal q) : Same p q ↔ p = q :=
  ⟨fun h => by rw [← hp.normalize_eq, ← hq.normalize_eq, h.normalize_eq], fun h => h ▸ rfl⟩

theorem isAbsolute_join (h : base.isAbsolute) (p : Path) : (base.join p).isAbsolute := by
  unfold join
  split
  · assumption
  · cases hb : base.bytes with
    | nil => simp [isAbsolute, hb] at h
    | cons b bytes =>
      rw [isAbsolute, hb] at h
      split <;> exact h

theorem isNormal_normalizeFrom (h : base.isAbsolute) (p : Path) :
    IsNormal (base.normalizeFrom p) :=
  isNormal_normalize (isAbsolute_join h p)

/-- A normal path is the same from everywhere. -/
theorem IsNormal.normalizeFrom_eq (h : IsNormal p) (base : Path) : base.normalizeFrom p = p := by
  rw [normalizeFrom_of_isAbsolute h.isAbsolute, h.normalize_eq]

/-- The directory of an absolute path is absolute. -/
theorem isAbsolute_parent (h : p.isAbsolute) : (p.parent?.getD root).isAbsolute := by
  have hfront : p.front = [separator] := if_pos h
  simp only [parent?, hfront]
  split
  · rw [if_neg (by decide)]
    rfl
  · rfl

/-! ### Relative paths -/

/-- Adding a component leaves no component that was not there. -/
theorem mem_of_mem_fold {stack : List Component} {c d : Component} (h : d ∈ fold stack c) :
    d ∈ c :: stack := by
  unfold fold at h
  split at h
  · exact List.mem_cons_of_mem _ h
  · exact List.mem_cons_of_mem _ (List.mem_cons_of_mem _ h)
  · exact List.mem_cons_of_mem _ h
  · exact h

theorem mem_of_mem_foldl_fold {stack components : List Component} {c : Component}
    (h : c ∈ components.foldl fold stack) : c ∈ components ++ stack := by
  induction components generalizing stack with
  | nil => exact h
  | cons first rest ih =>
    rcases List.mem_append.1 (ih h) with hrest | hfold
    · exact List.mem_cons_of_mem _ (List.mem_append_left _ hrest)
    · rcases List.mem_cons.1 (mem_of_mem_fold hfold) with rfl | hstack
      · exact List.mem_cons_self
      · exact List.mem_cons_of_mem _ (List.mem_append_right _ hstack)

/-- The components of a relative path do not start with a slash. -/
theorem head?_bytes_of_mem_components (h : p.isAbsolute = false) {c : Component}
    (hc : c ∈ p.components) : ∃ b bytes, c.bytes = b :: bytes ∧ b ≠ separator := by
  rw [components, if_neg (by simp [h]), List.mem_append] at hc
  rcases hc with hc | hc
  · split at hc
    · cases List.mem_singleton.1 hc
      exact ⟨0x2E, [], rfl, by decide⟩
    · exact absurd hc List.not_mem_nil
  · obtain ⟨segment, hsegment, hof⟩ := List.mem_filterMap.1 hc
    have hnot : separator ∉ segment := not_mem_of_mem_split hsegment
    unfold Component.ofSegment? at hof
    split at hof
    · cases hof
    next hne =>
    split at hof
    · cases hof
      exact ⟨0x2E, [0x2E], rfl, by decide⟩
    · cases hof
      obtain ⟨b, bytes, hbytes⟩ := List.exists_cons_of_ne_nil (not_or.1 hne).1
      exact ⟨b, bytes, hbytes, fun heq => hnot (hbytes ▸ heq ▸ List.mem_cons_self)⟩

/-- Only absolute paths have absolute normal forms. -/
theorem isAbsolute_of_normalize (h : p.normalize.isAbsolute = true) :
    p.isAbsolute = true := by
  refine Bool.of_not_eq_false fun hrelative => ?_
  have hmem : ∀ c ∈ (p.components.foldl fold []).reverse, c ∈ p.components := fun c hc => by
    simpa using mem_of_mem_foldl_fold (List.mem_reverse.1 hc)
  rw [normalize] at h
  generalize (p.components.foldl fold []).reverse = components at h hmem
  cases components with
  | nil => cases h
  | cons first rest =>
    obtain ⟨b, bytes, hbytes, hb⟩ :=
      head?_bytes_of_mem_components hrelative (hmem first List.mem_cons_self)
    have hof : ofComponents (first :: rest) =
        ⟨PrecompiledHeaders.join separator ((first :: rest).map Component.bytes)⟩ := by
      unfold ofComponents
      split
      · next heq =>
        cases heq
        cases hbytes
      · rfl
    rw [hof, isAbsolute] at h
    cases rest with
    | nil => simp [PrecompiledHeaders.join, hbytes, hb] at h
    | cons second others => simp [PrecompiledHeaders.join, hbytes, hb] at h

/-! ### Text -/

/-- Whether a path is text. -/
def IsText (p : Path) : Prop := Utf8.IsText p.bytes

theorem isText_ofString (text : String) : IsText (ofString text) := Utf8.isText_encode _

/-- A path that is text can be read back as it is shown. -/
theorem IsText.ofString_display (h : IsText p) : ofString p.display = p := by
  obtain ⟨text, ht⟩ := h
  rw [ofString, display, ht, Utf8.decodeLossy_encode, String.toList_ofList, ← ht]

/-- The normal form of a path is made of its names. -/
theorem IsText.normalize (h : p.isAbsolute) (ht : IsText p) : IsText p.normalize := by
  have hsep : Utf8.IsText [separator] := Utf8.isText_encode ['/']
  have hmem : ∀ n ∈ p.location, n ∈ p.segments := fun n => mem_segments_of_mem_location
  rw [normalize_eq_path h]
  cases hl : p.location with
  | nil => exact hsep
  | cons name above =>
    refine Utf8.IsText.flatMap fun n hn => hsep.append ?_
    exact ht.of_mem_split (by decide) (hmem n (hl ▸ List.mem_reverse.1 hn))

end Path

end PrecompiledHeaders

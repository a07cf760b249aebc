import PrecompiledHeaders.Proofs.Path.Join
import PrecompiledHeaders.Proofs.Path.Normal

/-!
# Parents

The parent of a path says what the path says, without the last component, however many slashes and
dots stand in the text; the root and what says nothing have none (`Path.map_components_parent?`). So
a name that is joined to a directory is an entry of it (`Path.isEntryOf_join`).

A path is a front and a body of pieces (`Path.cut_body`), and it starts in one of three ways
(`Path.Start`). A path that has the same front and lacks the last pieces says what the front and the
other pieces say (`Path.components_cut`), and a parent is such a path.
-/

namespace PrecompiledHeaders.Path

variable {directory p : Path} {name : Bytes} {kept : List Bytes}

/-! ### Fronts and bodies -/

/-- What the front of a path says. -/
def lead (p : Path) : List Component :=
  if p.isAbsolute then [.root] else if p.segments.head? = some dot then [.current] else []

/-- What stands behind the front of a path, cut at the slashes. -/
def body (p : Path) : List Bytes := split separator (p.bytes.drop p.front.length)

/-- The front of the path with some of its pieces. -/
def cut (p : Path) (kept : List Bytes) : Path := ⟨p.front ++ PrecompiledHeaders.join separator kept⟩

theorem components_eq_lead_append (p : Path) : p.components = p.lead ++ p.said := rfl

/-- How a path starts: what its front is, what that says, and which pieces stand behind it. -/
inductive Start (p : Path) : Prop
  /-- The path starts at the root. -/
  | root : p.front = [separator] → p.lead = [.root] →
    p.bytes = separator :: PrecompiledHeaders.join separator p.body → Start p
  /-- There is a dot in front. Behind it stands a slash, if anything does, so that the first piece
      of the body is empty. -/
  | dot {others : List Bytes} : p.front = dot → p.lead = [.current] → p.segments = dot :: others →
    p.body = [] :: others → Start p
  /-- Nothing stands in front of the pieces. -/
  | pieces : p.front = [] → p.lead = [] → p.body = p.segments → p.isAbsolute = false →
    p.segments.head? ≠ some dot → Start p

theorem start (p : Path) : p.Start := by
  cases hp : p.isAbsolute with
  | true =>
    have hfront : p.front = [separator] := by rw [front, if_pos hp]
    refine .root hfront (by rw [lead, if_pos hp]) ?_
    obtain ⟨rest, hrest⟩ := List.head?_eq_some_iff.1 (of_decide_eq_true hp)
    rw [body, hfront, join_split, hrest]
    rfl
  | false =>
    by_cases hdot : p.segments.head? = some dot
    · have hfront : p.front = dot := by rw [front, hp, if_neg Bool.false_ne_true, if_pos hdot]
      have hlead : p.lead = [.current] := by rw [lead, hp, if_neg Bool.false_ne_true, if_pos hdot]
      obtain ⟨others, hothers⟩ := List.head?_eq_some_iff.1 hdot
      have hbytes : p.bytes = dot ++ others.flatMap (separator :: ·) := by
        rw [← join_cons, ← hothers, segments, join_split]
      have hpieces : ∀ piece ∈ others, separator ∉ piece := fun piece hpiece =>
        not_mem_of_mem_split (hothers ▸ List.mem_cons_of_mem _ hpiece)
      refine .dot hfront hlead hothers ?_
      rw [body, hfront, hbytes, List.drop_left, split_flatMap hpieces]
    · have hfront : p.front = [] := by rw [front, hp, if_neg Bool.false_ne_true, if_neg hdot]
      have hlead : p.lead = [] := by rw [lead, hp, if_neg Bool.false_ne_true, if_neg hdot]
      refine .pieces hfront hlead ?_ hp hdot
      rw [body, hfront]
      rfl

theorem cut_body (p : Path) : p.cut p.body = p := by
  refine congrArg Path.mk ?_
  cases p.start with
  | root hfront _ hbytes => rw [hfront, hbytes, List.singleton_append]
  | dot hfront _ hsegments hbody =>
    have hbytes : p.bytes = PrecompiledHeaders.join separator p.segments := (join_split _ _).symm
    rw [hfront, hbody, hbytes, hsegments, join_cons, join_cons, List.nil_append]
  | pieces hfront _ hbody => rw [hfront, hbody, segments, join_split, List.nil_append]

/-! ### Paths without their last pieces -/

theorem join_leads {pieces : List Bytes} (h : kept <+: pieces) :
    PrecompiledHeaders.join separator kept <+: PrecompiledHeaders.join separator pieces := by
  obtain ⟨others, rfl⟩ := h
  cases kept with
  | nil => exact List.nil_prefix
  | cons piece kept =>
    rw [List.cons_append, join_cons, join_cons, List.flatMap_append, ← List.append_assoc]
    exact List.prefix_append _ _

theorem head?_of_leads {α : Type} {front whole : List α} {a : α} (h : front <+: whole)
    (hhead : front.head? = some a) : whole.head? = some a := by
  obtain ⟨rest, rfl⟩ := h
  rw [List.head?_append, hhead]
  rfl

/-! ### What is said behind each front -/

theorem components_separator_cons (h : ∀ piece ∈ kept, separator ∉ piece) :
    components ⟨separator :: PrecompiledHeaders.join separator kept⟩ =
      .root :: kept.filterMap Component.ofSegment? := by
  rw [components_of_isAbsolute rfl, segments, split_separator_cons]
  by_cases hnil : kept = []
  · rw [hnil]
    rfl
  · rw [split_join hnil h]
    rfl

theorem components_dot_append (h : ∀ piece ∈ kept, separator ∉ piece) :
    components ⟨dot ++ kept.flatMap (separator :: ·)⟩ =
      .current :: kept.filterMap Component.ofSegment? := by
  have hall : ∀ piece ∈ dot :: kept, separator ∉ piece := by
    intro piece hpiece
    rcases List.mem_cons.1 hpiece with rfl | hpiece
    · decide
    · exact h piece hpiece
  have hsegments : segments ⟨dot ++ kept.flatMap (separator :: ·)⟩ = dot :: kept := by
    rw [segments, ← join_cons, split_join (List.cons_ne_nil _ _) hall]
  rw [components, hsegments]
  rfl

theorem components_join_pieces (h : ∀ piece ∈ kept, separator ∉ piece)
    (hp : isAbsolute ⟨PrecompiledHeaders.join separator kept⟩ = false)
    (hdot : kept.head? ≠ some dot) :
    components ⟨PrecompiledHeaders.join separator kept⟩ = kept.filterMap Component.ofSegment? := by
  by_cases hnil : kept = []
  · rw [hnil]
    rfl
  · have hsegments : segments ⟨PrecompiledHeaders.join separator kept⟩ = kept := split_join hnil h
    rw [components, hsegments, hp, if_neg Bool.false_ne_true, if_neg hdot]
    rfl

/-- The front says what it said, and so do the pieces that are kept. -/
theorem components_cut (h : kept <+: p.body) :
    (p.cut kept).components = p.lead ++ kept.filterMap Component.ofSegment? := by
  have hkept : ∀ piece ∈ kept, separator ∉ piece := fun piece hpiece =>
    not_mem_of_mem_split (h.subset hpiece)
  cases p.start with
  | root hfront hlead =>
    rw [cut, hfront, hlead]
    exact components_separator_cons hkept
  | dot hfront hlead _ hbody =>
    rw [cut, hfront, hlead]
    -- The first piece is the empty one behind the dot, if one is kept.
    rcases kept with _ | ⟨piece, kept⟩
    · rfl
    · rw [hbody, List.cons_prefix_cons] at h
      rw [h.1, join_cons]
      exact components_dot_append fun piece hpiece => hkept piece (List.mem_cons_of_mem _ hpiece)
  | pieces hfront hlead hbody hp hdot =>
    rw [hbody] at h
    rw [cut, hfront, hlead]
    refine components_join_pieces hkept ?_ fun hhead => hdot (head?_of_leads h hhead)
    have hleads := join_leads h
    rw [segments, join_split] at hleads
    exact decide_eq_false fun hhead => of_decide_eq_false hp (head?_of_leads hleads hhead)

theorem said_eq_filterMap_body (p : Path) : p.said = p.body.filterMap Component.ofSegment? := by
  have hwhole := components_cut (p := p) List.prefix_rfl
  rw [cut_body, components_eq_lead_append] at hwhole
  exact List.append_cancel_left hwhole

/-! ### The last component -/

/-- What is left out at the end of a path says nothing. -/
theorem filterMap_trailing (pieces : List Bytes) :
    (trailing pieces).reverse.filterMap Component.ofSegment? =
      pieces.reverse.filterMap Component.ofSegment? := by
  induction pieces with
  | nil => rfl
  | cons piece pieces ih =>
    by_cases hsilent : piece = [] ∨ piece = dot
    · have hnone : Component.ofSegment? piece = none := if_pos hsilent
      have hdrop : trailing (piece :: pieces) = trailing pieces :=
        List.dropWhile_cons_of_pos (decide_eq_true hsilent)
      rw [hdrop, ih, List.reverse_cons, List.filterMap_append, List.filterMap_cons, hnone]
      exact (List.append_nil _).symm
    · have hkeep : trailing (piece :: pieces) = piece :: pieces :=
        List.dropWhile_cons_of_neg (by simpa using hsilent)
      rw [hkeep]

theorem trailing_leads (pieces : List Bytes) :
    (trailing pieces).reverse <+: pieces.reverse :=
  List.reverse_prefix.2 (List.dropWhile_suffix _)

/-- The first piece that is not left out is a component. -/
theorem exists_ofSegment?_of_trailing {pieces below : List Bytes} {last : Bytes}
    (h : trailing pieces = last :: below) : ∃ c, Component.ofSegment? last = some c := by
  have hsays := tells_of_trailing h
  by_cases hup : last = dotDot
  · exact ⟨.parent, by rw [Component.ofSegment?, if_neg hsays, if_pos hup]⟩
  · exact ⟨.name last, by rw [Component.ofSegment?, if_neg hsays, if_neg hup]⟩

theorem concat_ne_root {components : List Component} {c : Component} (hc : c ≠ .root) :
    ¬(components ++ [c] = [] ∨ components ++ [c] = [.root]) := by
  rintro (hnil | hroot)
  · exact List.append_ne_nil_of_right_ne_nil _ (List.cons_ne_nil _ _) hnil
  · have hlast := congrArg List.getLast? hroot
    rw [List.getLast?_concat] at hlast
    exact hc (Option.some.inj hlast)

/-- A path with nothing but a front has a parent if there is a dot in front. -/
theorem parent?_of_nil (h : trailing p.body.reverse = []) :
    p.parent? = if p.front = dot then some ⟨[]⟩ else none := by
  rw [body] at h
  rw [parent?, h]

theorem parent?_of_cons {last : Bytes} {below : List Bytes}
    (h : trailing p.body.reverse = last :: below) :
    p.parent? = some (p.cut (trailing below).reverse) := by
  rw [body] at h
  rw [parent?, h]
  rfl

/-- The parent says all but the last component. -/
theorem map_components_parent? (p : Path) : p.parent?.map components =
    if p.components = [] ∨ p.components = [.root] then none else some p.components.dropLast := by
  have hsaid : p.said = (trailing p.body.reverse).reverse.filterMap Component.ofSegment? := by
    rw [filterMap_trailing, List.reverse_reverse, said_eq_filterMap_body]
  cases htrailing : trailing p.body.reverse with
  | nil =>
    -- There is nothing but the front.
    rw [htrailing] at hsaid
    have hcomponents : p.components = p.lead := by
      rw [components_eq_lead_append, hsaid]
      exact List.append_nil _
    rw [parent?_of_nil htrailing, hcomponents]
    cases p.start with
    | root hfront hlead =>
      rw [hfront, hlead]
      rfl
    | dot hfront hlead =>
      rw [hfront, hlead]
      rfl
    | pieces hfront hlead =>
      rw [hfront, hlead]
      rfl
  | cons last below =>
    obtain ⟨c, hc⟩ := exists_ofSegment?_of_trailing htrailing
    have hbelow : (trailing below).reverse <+: p.body := by
      have hwhole := trailing_leads p.body.reverse
      rw [htrailing, List.reverse_reverse, List.reverse_cons] at hwhole
      exact (trailing_leads below).trans ((List.prefix_append _ _).trans hwhole)
    have hcomponents : p.components =
        (p.lead ++ below.reverse.filterMap Component.ofSegment?) ++ [c] := by
      rw [components_eq_lead_append, hsaid, htrailing, List.reverse_cons, List.filterMap_append,
        List.filterMap_cons, hc, List.append_assoc]
      rfl
    have hroot : c ≠ .root := by
      rintro rfl
      exact ofSegment?_ne_root last hc
    rw [parent?_of_cons htrailing, Option.map_some, components_cut hbelow, filterMap_trailing, hcomponents,
      if_neg (concat_ne_root hroot), List.dropLast_concat]

/-! ### Names that are joined -/

/-- A name that is joined does not change whether there is a dot in front. -/
theorem head?_segments_join (directory : Path) (h : IsName name) :
    (directory.join ⟨name⟩).segments.head? = some dot ↔ directory.segments.head? = some dot := by
  have hfront {front others : List Bytes} (hne : front ≠ []) :
      (front ++ others).head? = front.head? := by
    obtain ⟨first, rest, rfl⟩ := List.exists_cons_of_ne_nil hne
    rfl
  rw [join_of_not_mem h.not_mem]
  split
  · next hends =>
    rcases hends with hnil | hlast
    · have hname : segments ⟨[] ++ name⟩ = [name] := split_of_not_mem h.not_mem
      have hnone : directory.segments = [[]] := by
        rw [segments, hnil]
        rfl
      rw [hnil, hname, hnone]
      exact iff_of_false (fun hdot => h.ne_dot (Option.some.inj hdot)) (by decide)
    · obtain ⟨front, hends⟩ := List.getLast?_eq_some_iff.1 hlast
      rw [segments, segments, hends, List.append_assoc, List.singleton_append, split_append_cons,
        split_append_cons, hfront (split_ne_nil _ _), hfront (split_ne_nil _ _)]
  · rw [segments, segments, split_append_cons, hfront (split_ne_nil _ _)]

theorem components_join (directory : Path) (h : IsName name) :
    (directory.join ⟨name⟩).components = directory.components ++ [.name name] := by
  have hrelative : isAbsolute ⟨name⟩ = false := isAbsolute_of_not_mem h.not_mem
  have hname : said ⟨name⟩ = [.name name] := by
    rw [said, segments, split_of_not_mem h.not_mem, List.filterMap_cons, h.ofSegment?]
    rfl
  have hlead : (directory.join ⟨name⟩).lead = directory.lead := by
    rw [lead, lead, isAbsolute_join_eq directory hrelative]
    simp only [head?_segments_join directory h]
  rw [components_eq_lead_append, components_eq_lead_append, hlead, said_join directory hrelative,
    hname, List.append_assoc]

/-- Different names lead to different paths. -/
theorem same_join_iff {name' : Bytes} (directory : Path) (h : IsName name) (h' : IsName name') :
    Same (directory.join ⟨name⟩) (directory.join ⟨name'⟩) ↔ name = name' := by
  rw [Same, components_join directory h, components_join directory h', List.append_cancel_left_eq,
    List.singleton_inj, Component.name.injEq]

/-- Whether a path is that of an entry of the directory, with nothing in between. -/
structure IsEntryOf (p directory : Path) : Prop where
  components : ∃ name, IsName name ∧ p.components = directory.components ++ [.name name]
  parent : ∃ above, p.parent? = some above ∧ Same above directory

theorem isEntryOf_join (directory : Path) (h : IsName name) :
    (directory.join ⟨name⟩).IsEntryOf directory := by
  have hparent := map_components_parent? (directory.join ⟨name⟩)
  rw [components_join directory h, if_neg (concat_ne_root Component.noConfusion),
    List.dropLast_concat] at hparent
  exact ⟨⟨name, h, components_join directory h⟩, Option.map_eq_some_iff.1 hparent⟩

end PrecompiledHeaders.Path

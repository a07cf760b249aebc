import PrecompiledHeaders.Proofs.Path.Join
import PrecompiledHeaders.Proofs.Path.Normal

/-!
# Normal forms as they are written

A normal form is an optional root, for a relative path some `..`, and then names, with one slash between
each two (`Path.NormalForm`). Its text says just that (`Path.NormalForm.components_path`); joining a name
puts the name behind it, and its parent lacks the last name.

So the normal form of a path can be written piece by piece: each component is joined to what is written
already, or takes the last name away (`Path.extend`). This comes to the same as putting the components
on a stack and writing what remains (`Path.normalize_eq_foldl_extend`).
-/

namespace PrecompiledHeaders.Path

variable {isRooted : Bool} {pieces : List Bytes} {piece : Bytes}

/-! ### Pieces -/

/-- Whether bytes say something between slashes. -/
structure IsPiece (bytes : Bytes) : Prop where
  ne_nil : bytes ≠ []
  ne_dot : bytes ≠ dot
  not_mem : separator ∉ bytes

theorem IsName.isPiece (h : IsName piece) : IsPiece piece := ⟨h.ne_nil, h.ne_dot, h.not_mem⟩

theorem isPiece_dotDot : IsPiece dotDot := ⟨by decide, by decide, by decide⟩

/-- The path of an optional root and some pieces, with one slash between each two. -/
def ofPieces (isRooted : Bool) (pieces : List Bytes) : Path :=
  ⟨(if isRooted then [separator] else []) ++ PrecompiledHeaders.join separator pieces⟩

theorem head?_join (h : ∀ piece ∈ pieces, IsPiece piece) :
    (PrecompiledHeaders.join separator pieces).head? ≠ some separator := by
  cases pieces with
  | nil => simp [PrecompiledHeaders.join]
  | cons piece pieces =>
    have hpiece := h piece List.mem_cons_self
    obtain ⟨b, bytes, rfl⟩ := List.exists_cons_of_ne_nil hpiece.ne_nil
    rw [join_cons]
    rintro hb
    exact hpiece.not_mem (Option.some.inj hb ▸ List.mem_cons_self)

theorem isAbsolute_ofPieces (h : ∀ piece ∈ pieces, IsPiece piece) :
    (ofPieces isRooted pieces).isAbsolute = isRooted := by
  cases isRooted with
  | true => rfl
  | false => exact decide_eq_false (head?_join h)

theorem segments_ofPieces (h : ∀ piece ∈ pieces, IsPiece piece) : (ofPieces isRooted pieces).segments =
    (if isRooted then [[]] else []) ++ if pieces = [] then [[]] else pieces := by
  have hsplit : split separator (PrecompiledHeaders.join separator pieces) =
      if pieces = [] then [[]] else pieces := by
    split
    · next hnil => rw [hnil]; rfl
    · next hne => exact split_join hne fun piece hp => (h piece hp).not_mem
  rw [segments, ofPieces]
  cases isRooted with
  | true => exact (split_separator_cons _).trans (congrArg _ hsplit)
  | false => exact hsplit

theorem said_ofPieces (h : ∀ piece ∈ pieces, IsPiece piece) :
    (ofPieces isRooted pieces).said = pieces.filterMap Component.ofSegment? := by
  have hnone : Component.ofSegment? [] = none := rfl
  rw [said, segments_ofPieces h]
  cases isRooted <;> cases pieces <;> simp [hnone]

/-- No piece is a dot in front. -/
theorem head?_segments_ofPieces (h : ∀ piece ∈ pieces, IsPiece piece) :
    (ofPieces isRooted pieces).segments.head? ≠ some dot := by
  rw [segments_ofPieces h]
  have hnil : some [] ≠ some dot := by decide
  cases isRooted with
  | true => exact hnil
  | false =>
    cases pieces with
    | nil => exact hnil
    | cons piece pieces =>
      exact fun hhead => (h piece List.mem_cons_self).ne_dot (Option.some.inj hhead)

/-- What is written says just that. -/
theorem components_ofPieces (h : ∀ piece ∈ pieces, IsPiece piece) :
    (ofPieces isRooted pieces).components =
      (if isRooted then [.root] else []) ++ pieces.filterMap Component.ofSegment? := by
  have hdot : ¬((ofPieces isRooted pieces).isAbsolute = false ∧
      (ofPieces isRooted pieces).segments.head? = some dot) :=
    fun hhead => head?_segments_ofPieces h hhead.2
  rw [components_eq, ground, if_neg hdot, isAbsolute_ofPieces h, said_ofPieces h, List.append_nil]

theorem getLast?_ofPieces (isRooted : Bool) (pieces : List Bytes) (hpiece : IsPiece piece) :
    (ofPieces isRooted (pieces ++ [piece])).bytes.getLast? = piece.getLast? := by
  obtain ⟨front, hfront⟩ := exists_join_concat separator pieces piece
  rw [ofPieces, hfront, ← List.append_assoc, List.getLast?_append_of_ne_nil _ hpiece.ne_nil]

/-- A piece that is joined is the last one. -/
theorem join_ofPieces (h : ∀ piece ∈ pieces, IsPiece piece) (hpiece : IsPiece piece) :
    (ofPieces isRooted pieces).join ⟨piece⟩ = ofPieces isRooted (pieces ++ [piece]) := by
  rw [join_of_not_mem hpiece.not_mem]
  rcases pieces.eq_nil_or_concat' with rfl | ⟨others, last, rfl⟩
  · cases isRooted <;> rfl
  · have hlast : IsPiece last := h last (by simp)
    have hend := getLast?_ofPieces isRooted others hlast
    rw [if_neg, ofPieces, ofPieces, join_concat (by simp) piece, List.append_assoc]
    rw [hend]
    rintro (hnil | hseparator)
    · rw [hnil, List.getLast?_nil] at hend
      exact hlast.ne_nil (List.getLast?_eq_none_iff.1 hend.symm)
    · exact hlast.not_mem (List.mem_of_getLast? hseparator)

/-- Above the last piece stands what is in front of it. -/
theorem parent?_ofPieces (h : ∀ piece ∈ pieces, IsPiece piece) (hpiece : IsPiece piece) :
    (ofPieces isRooted (pieces ++ [piece])).parent? = some (ofPieces isRooted pieces) := by
  have hall : ∀ p ∈ pieces ++ [piece], IsPiece p := fun p hp =>
    (List.mem_append.1 hp).elim (h p) fun hp => List.mem_singleton.1 hp ▸ hpiece
  have hfront : (ofPieces isRooted (pieces ++ [piece])).front =
      if isRooted then [separator] else [] := by
    rw [front, isAbsolute_ofPieces hall, if_neg (head?_segments_ofPieces hall)]
  have hbody : split separator ((ofPieces isRooted (pieces ++ [piece])).bytes.drop
      (ofPieces isRooted (pieces ++ [piece])).front.length) = pieces ++ [piece] := by
    rw [hfront, ofPieces, List.drop_left, split_join (by simp) fun p hp => (hall p hp).not_mem]
  have htrailing {pieces : List Bytes} (h : ∀ piece ∈ pieces, IsPiece piece) :
      trailing pieces = pieces := by
    cases pieces with
    | nil => rfl
    | cons piece pieces =>
      have hpiece := h piece List.mem_cons_self
      rw [trailing, List.dropWhile_cons_of_neg (by simp [hpiece.ne_nil, hpiece.ne_dot])]
  have hreverse : trailing (pieces ++ [piece]).reverse = piece :: pieces.reverse := by
    rw [htrailing fun p hp => hall p (List.mem_reverse.1 hp), List.reverse_concat]
  have hbelow : trailing pieces.reverse = pieces.reverse :=
    htrailing fun p hp => h p (List.mem_reverse.1 hp)
  simp only [parent?, hbody, hreverse, hbelow, List.reverse_reverse]
  rw [hfront, ofPieces]

/-! ### Normal forms -/

/-- What a normal form consists of. -/
structure NormalForm where
  /-- Whether it starts at the root. -/
  isRooted : Bool
  /-- The number of `..` in front of the names. -/
  ups : Nat
  /-- The names. -/
  names : List Bytes
  /-- Nothing is above the root. -/
  ups_eq_zero : isRooted = true → ups = 0
  /-- Names stand for themselves. -/
  isName : ∀ name ∈ names, IsName name

namespace NormalForm

variable {form : NormalForm} {c : Component}

/-- The normal form as a path. -/
def path (form : NormalForm) : Path :=
  ofPieces form.isRooted (List.replicate form.ups dotDot ++ form.names)

/-- What the normal form says. -/
def components (form : NormalForm) : List Component :=
  (if form.isRooted then [.root] else []) ++ climb form.ups form.names

theorem isPiece_of_mem (form : NormalForm) :
    ∀ piece ∈ List.replicate form.ups dotDot ++ form.names, IsPiece piece := fun _ hpiece =>
  (List.mem_append.1 hpiece).elim (fun h => List.eq_of_mem_replicate h ▸ isPiece_dotDot)
    fun h => (form.isName _ h).isPiece

theorem isAbsolute_path (form : NormalForm) : form.path.isAbsolute = form.isRooted :=
  isAbsolute_ofPieces form.isPiece_of_mem

theorem components_path (form : NormalForm) : form.path.components = form.components := by
  have hups : (List.replicate form.ups dotDot).filterMap Component.ofSegment? =
      List.replicate form.ups .parent := by
    rw [List.filterMap_replicate]
    rfl
  have hnames : form.names.filterMap Component.ofSegment? = form.names.map .name :=
    List.filterMap_eq_map_iff_forall_eq_some.2 fun n hn => (form.isName n hn).ofSegment?
  rw [path, components_ofPieces form.isPiece_of_mem, List.filterMap_append, hups, hnames]
  rfl

theorem ofComponents_components (form : NormalForm) : ofComponents form.components = form.path := by
  obtain ⟨isRooted, ups, names, hups, hnames⟩ := form
  cases isRooted with
  | false => exact ofComponents_climb ups names
  | true =>
    obtain rfl : ups = 0 := hups rfl
    cases names with
    | nil => rfl
    | cons name names =>
      have hbytes : (climb 0 (name :: names)).map Component.bytes = name :: names := by
        rw [climb, List.replicate_zero, List.nil_append, List.map_map]
        exact List.map_id _
      rw [components, if_pos rfl, List.singleton_append, ofComponents, List.map_cons, hbytes]
      · rfl
      · exact fun h => List.cons_ne_nil _ _ (List.cons.inj h).2

/-- With another name at its end. -/
def descend (form : NormalForm) (name : Bytes) (h : IsName name) : NormalForm where
  isRooted := form.isRooted
  ups := form.ups
  names := form.names ++ [name]
  ups_eq_zero := form.ups_eq_zero
  isName other hother := (List.mem_append.1 hother).elim (form.isName other)
    fun hother => List.mem_singleton.1 hother ▸ h

theorem components_descend (form : NormalForm) {name : Bytes} (h : IsName name) :
    (form.descend name h).components = form.components ++ [.name name] := by
  rw [components, components, climb, climb, descend, List.map_append, List.append_assoc,
    List.append_assoc]
  rfl

theorem path_descend (form : NormalForm) {name : Bytes} (h : IsName name) :
    (form.descend name h).path = form.path.join ⟨name⟩ := by
  rw [path, path, join_ofPieces form.isPiece_of_mem h.isPiece, List.append_assoc]
  rfl

/-- A normal form ends with a name, or it has none. -/
theorem eq_descend_or (form : NormalForm) : form.names = [] ∨
    ∃ (above : NormalForm) (name : Bytes) (h : IsName name), form = above.descend name h := by
  obtain ⟨isRooted, ups, names, hups, hnames⟩ := form
  rcases names.eq_nil_or_concat' with rfl | ⟨others, last, rfl⟩
  · exact .inl rfl
  · exact .inr ⟨⟨isRooted, ups, others, hups, fun n hn => hnames n (List.mem_append_left _ hn)⟩, last,
      hnames last (by simp), rfl⟩

end NormalForm

/-- Adds a component to a path as it is written. A name or `..` is joined to it; but `..` takes away a
    name that it stands behind, and does nothing at the root. -/
def extend (p : Path) : Component → Path
  | .root => p.join root
  | .current => p
  | .name name => p.join ⟨name⟩
  | .parent =>
    match p.components.getLast? with
    | some (.name _) => p.parent?.getD p
    | some .root => p
    | _ => p.join ⟨dotDot⟩

namespace NormalForm

/-- Without names there is nothing to take away: `..` does nothing at the root, and else stays. -/
theorem exists_up (form : NormalForm) (hnil : form.names = []) :
    ∃ next : NormalForm, next.isRooted = form.isRooted ∧
      fold form.components.reverse .parent = next.components.reverse ∧
      form.path.extend .parent = next.path := by
  obtain ⟨isRooted, ups, names, hups, hnames⟩ := form
  obtain rfl : names = [] := hnil
  cases isRooted with
  | true =>
    obtain rfl : ups = 0 := hups rfl
    exact ⟨_, rfl, rfl, rfl⟩
  | false =>
    have hcomponents (ups : Nat) (h : false = true → ups = 0) :
        components ⟨false, ups, [], h, hnames⟩ = List.replicate ups .parent :=
      List.append_nil _
    have hlast : (List.replicate ups Component.parent).getLast? = none ∨
        (List.replicate ups Component.parent).getLast? = some .parent := by
      cases ups with
      | zero => exact .inl rfl
      | succ ups => exact .inr (by rw [List.replicate_succ', List.getLast?_concat])
    refine ⟨⟨false, ups + 1, [], by simp, hnames⟩, rfl, ?_, ?_⟩
    · rw [hcomponents, hcomponents, List.reverse_replicate, List.reverse_replicate,
        fold_replicate_parent]
    · have hjoin : path ⟨false, ups + 1, [], by simp, hnames⟩ =
          (path ⟨false, ups, [], hups, hnames⟩).join ⟨dotDot⟩ := by
        rw [path, path, join_ofPieces (isPiece_of_mem _) isPiece_dotDot, List.append_nil,
          List.append_nil, List.replicate_succ']
      rw [extend, components_path, hcomponents, hjoin]
      rcases hlast with h | h <;> rw [h]

/-- The last name is taken away again. -/
theorem extend_parent_descend (form : NormalForm) {name : Bytes} (h : IsName name) :
    (form.descend name h).path.extend .parent = form.path := by
  have hparent : (form.descend name h).path.parent? = some form.path := by
    rw [path_descend, path, join_ofPieces form.isPiece_of_mem h.isPiece,
      parent?_ofPieces form.isPiece_of_mem h.isPiece]
  rw [extend, components_path, components_descend, List.getLast?_concat, hparent]
  rfl

/-- A component leads from one normal form to another, on the stack and in writing alike. -/
theorem exists_add (form : NormalForm) {c : Component} (hroot : c ≠ .root)
    (hname : ∀ name, c = .name name → IsName name) :
    ∃ next : NormalForm, next.isRooted = form.isRooted ∧
      fold form.components.reverse c = next.components.reverse ∧ form.path.extend c = next.path := by
  cases c with
  | root => exact absurd rfl hroot
  | current => exact ⟨form, rfl, by rw [fold], rfl⟩
  | name name =>
    have h : IsName name := hname name rfl
    refine ⟨form.descend name h, rfl, ?_, (form.path_descend h).symm⟩
    rw [components_descend, List.reverse_concat, fold] <;> simp
  | parent =>
    rcases form.eq_descend_or with hnil | ⟨above, name, h, rfl⟩
    · exact form.exists_up hnil
    · refine ⟨above, rfl, ?_, above.extend_parent_descend h⟩
      rw [components_descend, List.reverse_concat, fold]

theorem exists_foldl (form : NormalForm) {components : List Component} (hroot : .root ∉ components)
    (hnames : ∀ name, .name name ∈ components → IsName name) :
    ∃ last : NormalForm, last.isRooted = form.isRooted ∧
      components.foldl fold form.components.reverse = last.components.reverse ∧
      components.foldl extend form.path = last.path := by
  induction components generalizing form with
  | nil => exact ⟨form, rfl, rfl, rfl⟩
  | cons c components ih =>
    rw [List.mem_cons, not_or] at hroot
    obtain ⟨next, hrooted, hfold, hextend⟩ := form.exists_add (Ne.symm hroot.1)
      fun name hc => hnames name (hc ▸ List.mem_cons_self)
    obtain ⟨last, hlast, hfolds, hextends⟩ := ih next hroot.2 fun name hn =>
      hnames name (List.mem_cons_of_mem c hn)
    exact ⟨last, hlast.trans hrooted, by rw [List.foldl_cons, hfold, hfolds],
      by rw [List.foldl_cons, hextend, hextends]⟩

end NormalForm

theorem isName_of_mem_components {p : Path} {name : Bytes} (h : .name name ∈ p.components) :
    IsName name := by
  rw [components_eq, ground, List.mem_append, List.mem_append] at h
  rcases h with (h | h) | h
  · split at h <;> simp at h
  · split at h <;> simp at h
  · exact isName_of_mem_said h

/-- What the stack makes of a path is a normal form, and so is what is written piece by piece. -/
theorem exists_foldl_normalForm (p : Path) : ∃ form : NormalForm, form.isRooted = p.isAbsolute ∧
    p.components.foldl fold [] = form.components.reverse ∧
    p.components.foldl extend ⟨[]⟩ = form.path := by
  cases hp : p.isAbsolute with
  | true =>
    have hcomponents : p.components = .root :: p.said := components_of_isAbsolute hp
    rw [hcomponents]
    exact NormalForm.exists_foldl ⟨true, 0, [], fun _ => rfl, by simp⟩ (not_mem_said ofSegment?_ne_root)
      fun _ => isName_of_mem_said
  | false =>
    have hroot : .root ∉ p.components := fun h => by
      rw [isAbsolute_iff_root_mem.2 h] at hp
      cases hp
    exact NormalForm.exists_foldl ⟨false, 0, [], fun _ => rfl, by simp⟩ hroot
      fun _ => isName_of_mem_components

/-- What the normal form of a path consists of, and what that says. -/
theorem exists_normalForm (p : Path) : ∃ form : NormalForm, form.isRooted = p.isAbsolute ∧
    p.normalize = form.path ∧ p.normalize.components = form.components ∧
    form.components = (p.components.foldl fold []).reverse := by
  obtain ⟨form, hrooted, hfold, -⟩ := p.exists_foldl_normalForm
  have hstack : form.components = (p.components.foldl fold []).reverse := by
    rw [hfold, List.reverse_reverse]
  have hnormal : p.normalize = form.path := by
    rw [normalize, ← hstack, form.ofComponents_components]
  exact ⟨form, hrooted, hnormal, hnormal ▸ form.components_path, hstack⟩

theorem isAbsolute_normalize (p : Path) : p.normalize.isAbsolute = p.isAbsolute := by
  obtain ⟨form, hrooted, hnormal, -⟩ := p.exists_normalForm
  rw [hnormal, form.isAbsolute_path, hrooted]

theorem components_normalize (p : Path) :
    p.normalize.components = (p.components.foldl fold []).reverse := by
  obtain ⟨form, -, -, hcomponents, hstack⟩ := p.exists_normalForm
  rw [hcomponents, hstack]

theorem normalize_eq_foldl_extend (p : Path) : p.normalize = p.components.foldl extend ⟨[]⟩ := by
  obtain ⟨form, -, hfold, hextend⟩ := p.exists_foldl_normalForm
  rw [normalize, hfold, List.reverse_reverse, form.ofComponents_components, hextend]

end PrecompiledHeaders.Path

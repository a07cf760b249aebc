import PrecompiledHeaders.Proofs.Path.Absolute

/-!
# Entries of a directory

A name that is joined to a directory is the last piece of the path, whatever the directory is written
like (`Path.exists_segments_join`), and so it stands on top of the directory's location
(`Path.location_join`). What stands there is in the directory (`Path.IsBelow`).

Slashes at the end of a directory (`Path.withSlashes`) make a path longer, and change nothing else.
-/

namespace PrecompiledHeaders.Path

variable {directory p q : Path} {name : Bytes} {count : Nat}

theorem isAbsolute_of_not_mem (h : separator ∉ name) : isAbsolute ⟨name⟩ = false := by
  rw [isAbsolute, decide_eq_false_iff_not]
  exact fun hhead => h (List.mem_of_head? hhead)

/-- A name goes behind the text of the directory, with a slash in between if it takes one. -/
theorem join_of_not_mem (h : separator ∉ name) : directory.join ⟨name⟩ =
    if directory.bytes = [] ∨ directory.bytes.getLast? = some separator then
      ⟨directory.bytes ++ name⟩
    else ⟨directory.bytes ++ separator :: name⟩ := by
  rw [join, isAbsolute_of_not_mem h, if_neg Bool.false_ne_true]

/-- All names that are joined to a directory have the same way to go, which is that of the
    directory. -/
theorem exists_segments_join (directory : Path) : ∃ way,
    way.foldl Location.descend [] = directory.location ∧
      ∀ name, separator ∉ name → (directory.join ⟨name⟩).segments = way ++ [name] := by
  by_cases hnil : directory.bytes = []
  · refine ⟨[], ?_, fun name hname => ?_⟩
    · rw [location, segments, hnil]
      rfl
    · rw [join_of_not_mem hname, if_pos (.inl hnil), hnil, segments]
      exact split_of_not_mem hname
  by_cases hlast : directory.bytes.getLast? = some separator
  · -- The piece behind the last slash is empty, and the name takes its place.
    obtain ⟨front, hfront⟩ := List.getLast?_eq_some_iff.1 hlast
    refine ⟨split separator front, ?_, fun name hname => ?_⟩
    · rw [location, segments, hfront, split_append_cons, List.foldl_append]
      rfl
    · rw [join_of_not_mem hname, if_pos (.inr hlast), segments, hfront, List.append_assoc,
        List.singleton_append, split_append_cons, split_of_not_mem hname]
  · refine ⟨directory.segments, rfl, fun name hname => ?_⟩
    rw [join_of_not_mem hname, if_neg (not_or.2 ⟨hnil, hlast⟩), segments, split_append_cons,
      split_of_not_mem hname]
    rfl

theorem location_join (directory : Path) (h : IsName name) :
    (directory.join ⟨name⟩).location = name :: directory.location := by
  obtain ⟨way, hway, hsegments⟩ := directory.exists_segments_join
  rw [location, hsegments name h.not_mem, List.foldl_append, hway, List.foldl_cons, List.foldl_nil,
    Location.descend_of_isName _ h]

theorem mem_bytes_join {b : UInt8} (h : separator ∉ name) (hb : b ∈ (directory.join ⟨name⟩).bytes) :
    b ∈ directory.bytes ∨ b = separator ∨ b ∈ name := by
  rw [join_of_not_mem h] at hb
  split at hb
  · exact (List.mem_append.1 hb).imp_right .inr
  · exact (List.mem_append.1 hb).imp_right List.mem_cons.1

theorem mem_bytes_join_left {b : UInt8} (h : separator ∉ name) (hb : b ∈ directory.bytes) :
    b ∈ (directory.join ⟨name⟩).bytes := by
  rw [join_of_not_mem h]
  split <;> exact List.mem_append_left _ hb

theorem IsText.join (hd : directory.IsText) (h : separator ∉ name) (hn : Utf8.IsText name) :
    IsText (directory.join ⟨name⟩) := by
  have hseparator : Utf8.IsText [separator] := Utf8.isText_encode ['/']
  rw [join_of_not_mem h]
  split
  · exact hd.append hn
  · exact hd.append (hseparator.append hn)

/-- Whether an absolute path leads into a directory. -/
def IsBelow (directory p : Path) : Prop := directory.location <:+ p.location

theorem isBelow_join (directory : Path) (h : IsName name) :
    directory.IsBelow (directory.join ⟨name⟩) := by
  rw [IsBelow, location_join directory h]
  exact List.suffix_cons name _

theorem IsBelow.of_location_eq (h : directory.IsBelow q) (heq : p.location = q.location) :
    directory.IsBelow p := by
  rw [IsBelow, heq]
  exact h

/-! ### Slashes at the end of a directory -/

/-- A directory, written with slashes at its end. -/
def withSlashes (directory : Path) (count : Nat) : Path :=
  ⟨directory.bytes ++ List.replicate (count + 1) separator⟩

theorem isAbsolute_withSlashes (h : directory.isAbsolute) (count : Nat) :
    (directory.withSlashes count).isAbsolute := by
  unfold isAbsolute at h ⊢
  rw [decide_eq_true_iff] at h ⊢
  rw [withSlashes, List.head?_append, h]
  rfl

theorem IsText.withSlashes (h : directory.IsText) (count : Nat) :
    (directory.withSlashes count).IsText := by
  refine Utf8.IsText.append h ?_
  have hslash : Utf8.IsText [separator] := Utf8.isText_encode ['/']
  induction count with
  | zero => exact hslash
  | succ count ih => exact hslash.append ih

theorem join_withSlashes (h : separator ∉ name) : (directory.withSlashes count).join ⟨name⟩ =
    ⟨directory.bytes ++ separator :: (List.replicate count separator ++ name)⟩ := by
  have hlast : (directory.withSlashes count).bytes.getLast? = some separator := by
    rw [withSlashes, List.replicate_succ', ← List.append_assoc, List.getLast?_concat]
  rw [join_of_not_mem h, if_pos (.inr hlast), withSlashes, List.replicate_succ, List.append_assoc,
    List.cons_append]

/-- One slash at the end of a directory is the one that a name would take. -/
theorem join_withSlashes_zero (h : separator ∉ name) (hne : directory.bytes ≠ [])
    (hlast : directory.bytes.getLast? ≠ some separator) :
    (directory.withSlashes 0).join ⟨name⟩ = directory.join ⟨name⟩ := by
  rw [join_withSlashes h, join_of_not_mem h, if_neg (not_or.2 ⟨hne, hlast⟩)]
  rfl

theorem length_join_withSlashes (h : separator ∉ name) :
    ((directory.withSlashes count).join ⟨name⟩).bytes.length =
      directory.bytes.length + 1 + count + name.length := by
  rw [join_withSlashes h]
  simp only [List.length_append, List.length_cons, List.length_replicate]
  omega

theorem contains_join_withSlashes (h : separator ∉ name) (hd : directory.bytes.contains 0 = false)
    (hn : 0 ∉ name) : ((directory.withSlashes count).join ⟨name⟩).bytes.contains 0 = false := by
  rw [List.contains_eq_mem, decide_eq_false_iff_not] at hd ⊢
  rw [join_withSlashes h]
  simp only [List.mem_append, List.mem_cons, not_or]
  exact ⟨hd, by decide, fun hmem => absurd (List.eq_of_mem_replicate hmem) (by decide), hn⟩

theorem segments_join_withSlashes (h : separator ∉ name) :
    ((directory.withSlashes count).join ⟨name⟩).segments =
      directory.segments ++ List.replicate count [] ++ [name] := by
  rw [join_withSlashes h, segments, split_append_cons, split_replicate_append, split_of_not_mem h,
    List.append_assoc]
  rfl

/-- The slashes say nothing. -/
theorem location_withSlashes (directory : Path) (count : Nat) :
    (directory.withSlashes count).location = directory.location := by
  have hskip (location : Location) :
      (List.replicate count []).foldl Location.descend location = location := by
    induction count with
    | zero => rfl
    | succ count ih => exact ih
  have hsplit :
      split separator (List.replicate count separator) = List.replicate count [] ++ [[]] := by
    rw [← List.append_nil (List.replicate count separator), split_replicate_append]
    rfl
  rw [location, segments, withSlashes, List.replicate_succ, split_append_cons, hsplit,
    List.foldl_append, List.foldl_append, hskip]
  rfl

/-- A path whose first piece is empty starts with a slash. -/
theorem exists_bytes_of_segments {pieces : List Bytes} (hne : pieces ≠ [])
    (h : directory.segments = [] :: pieces) :
    ∃ rest, directory.bytes = separator :: rest ∧ split separator rest = pieces := by
  rw [segments] at h
  cases hbytes : directory.bytes with
  | nil =>
    rw [hbytes] at h
    exact absurd (List.cons.inj h).2.symm hne
  | cons b rest =>
    rw [hbytes] at h
    by_cases hb : b = separator
    · rw [hb, split_separator_cons] at h
      exact ⟨rest, by rw [hb], (List.cons.inj h).2⟩
    · obtain ⟨first, others, -, hcons⟩ := split_cons_of_ne hb rest
      exact absurd (List.cons.inj (hcons.symm.trans h)).1 (by simp)

/-- The first piece that is not left out says something. -/
theorem tells_of_trailing {pieces below : List Bytes} {last : Bytes}
    (h : trailing pieces = last :: below) : ¬(last = [] ∨ last = dot) := by
  have hlast := List.head?_dropWhile_not (fun s : Bytes => decide (s = [] ∨ s = dot)) pieces
  rw [← trailing, h] at hlast
  simpa using hlast

theorem mem_of_mem_trailing {pieces : List Bytes} {piece : Bytes} (h : piece ∈ trailing pieces) :
    piece ∈ pieces :=
  (List.dropWhile_sublist _).subset h

theorem trailing_cons_of_isName {segment : Bytes} (h : IsName segment) (others : List Bytes) :
    trailing (segment :: others) = segment :: others := by
  rw [trailing, List.dropWhile_cons_of_neg (by simp [h.ne_nil, h.ne_dot])]

theorem trailing_replicate_append (count : Nat) (others : List Bytes) :
    trailing (List.replicate count [] ++ others) = trailing others := by
  rw [trailing, List.dropWhile_append_of_pos fun s hs => by simp [List.eq_of_mem_replicate hs]]
  rfl

/-- Above an entry stands the directory without the slashes. -/
theorem parent?_join_withSlashes {above : List Bytes} {last : Bytes}
    (hsegments : directory.segments = [] :: (above ++ [last])) (hlast : IsName last)
    (h : IsName name) : ((directory.withSlashes count).join ⟨name⟩).parent? = some directory := by
  obtain ⟨rest, hrest, hsplit⟩ := exists_bytes_of_segments (by simp) hsegments
  have hbytes : ((directory.withSlashes count).join ⟨name⟩).bytes =
      separator :: (rest ++ separator :: (List.replicate count separator ++ name)) := by
    rw [join_withSlashes h.not_mem, hrest]
    rfl
  have hfront : ((directory.withSlashes count).join ⟨name⟩).front = [separator] := by
    rw [front, isAbsolute, hbytes]
    rfl
  have hbody : split separator (rest ++ separator :: (List.replicate count separator ++ name)) =
      split separator rest ++ (List.replicate count [] ++ [name]) := by
    rw [split_append_cons, split_replicate_append, split_of_not_mem h.not_mem]
  -- What says something are the name and, in front of the slashes, the last name of the directory.
  have hreverse : (split separator rest ++ (List.replicate count [] ++ [name])).reverse =
      name :: (List.replicate count [] ++ last :: above.reverse) := by simp [hsplit]
  have hback : (last :: above.reverse).reverse = split separator rest := by simp [hsplit]
  simp only [parent?, hfront, hbytes, List.length_singleton, List.drop_one, List.tail_cons, hbody,
    hreverse, trailing_cons_of_isName h, trailing_replicate_append, trailing_cons_of_isName hlast,
    hback, join_split]
  rw [List.singleton_append, ← hrest]

end PrecompiledHeaders.Path

import PrecompiledHeaders.FileTree.System
import PrecompiledHeaders.Generation.Names
import PrecompiledHeaders.Proofs.Path.Join

/-!
# Generated files are kept apart

The names of generated files are proper names that are text (`isName_fileName`), so the files stand
in the output directory, whatever the names of the parts are (`location_headerFile`,
`location_precompiledFile`), and none of them in place of the device that holds nothing. Files with
different endings or different stems have different names (`fileName_header_ne`,
`fileName_injective`). The stem of a part is never that of the files for all parts
(`partStem_ne_globalStem`).
-/

namespace PrecompiledHeaders

open PrecompiledHeaders.Path

variable {directory : Path} {stem stem' : List Char} {ending ending' : String}

/-- Whether characters do in a file name, and are some. -/
structure IsStem (stem : List Char) : Prop where
  ne_nil : stem ≠ []
  safe : ∀ c ∈ stem, isSafe c = true

theorem isStem_globalStem : IsStem globalStem := ⟨by decide, List.all_eq_true.1 (by decide)⟩

theorem isSafe_ofValue {n : Nat} (h : n < 16) : isSafe (Digits.ofValue n) = true :=
  (by decide : ∀ n : Fin 16, isSafe (Digits.ofValue n) = true) ⟨n, h⟩

theorem isSafe_of_mem_hexadecimal {c : Char} {width n : Nat}
    (h : c ∈ Digits.hexadecimal width n) : isSafe c = true := by
  induction width generalizing n with
  | zero => exact absurd h List.not_mem_nil
  | succ width ih =>
    rcases List.mem_append.1 h with h | h
    · exact ih h
    · rw [List.mem_singleton.1 h]
      exact isSafe_ofValue (Nat.mod_lt n (by decide))

theorem isSafe_of_mem_sanitised {c : Char} {id : String} (h : c ∈ sanitised id) :
    isSafe c = true := by
  obtain ⟨d, -, rfl⟩ := List.mem_map.1 h
  split
  · assumption
  · rfl

theorem isStem_partStem (id : String) : IsStem (partStem id) := by
  refine ⟨by simp [partStem], fun c hc => ?_⟩
  rcases List.mem_append.1 hc with hc | hc
  · exact isSafe_of_mem_sanitised hc
  rcases List.mem_cons.1 hc with rfl | hc
  · rfl
  · exact isSafe_of_mem_hexadecimal hc

/-- The digits alone make the stem of a part longer. -/
theorem partStem_ne_globalStem (id : String) : partStem id ≠ globalStem := by
  intro heq
  have hlength := congrArg List.length heq
  have hglobal : globalStem.length = 10 := by decide
  rw [hglobal, partStem, List.length_append, List.length_cons,
    ContentHash.length_shortDigits] at hlength
  omega

/-! ### Names -/

/-- The name of a file with a stem and an ending. -/
def fileName (stem : List Char) (ending : String) : Bytes :=
  Utf8.encode (stem ++ ending.toList)

/-- Whether the names of generated files may end so. -/
structure IsEnding (ending : String) : Prop where
  length : 2 ≤ ending.toList.length
  safe : ∀ c ∈ ending.toList, c = '.' ∨ isSafe c = true

theorem isEnding_header : IsEnding ".h" := ⟨by decide, by simp [isSafe]⟩

theorem isEnding_precompiled : IsEnding ".pch" := ⟨by decide, by simp [isSafe]⟩

theorem not_mem_fileName (hs : IsStem stem) (he : IsEnding ending) {b : UInt8} {c : Char}
    (hb : b.toNat < 0x80) (hc : c.val.toNat = b.toNat) (hdot : c ≠ '.')
    (hsafe : isSafe c = false) : b ∉ fileName stem ending := by
  refine Utf8.not_mem_encode hb fun d hd heq => ?_
  have hcd : d = c := Char.ext (UInt32.toNat_inj.1 (heq.trans hc.symm))
  rcases List.mem_append.1 hd with hd | hd
  · exact Bool.false_ne_true (hsafe.symm.trans (hcd ▸ hs.safe d hd))
  · rcases he.safe d hd with hdot' | hsafe'
    · exact hdot (hcd.symm.trans hdot')
    · exact Bool.false_ne_true (hsafe.symm.trans (hcd ▸ hsafe'))

theorem zero_not_mem_fileName (hs : IsStem stem) (he : IsEnding ending) :
    0 ∉ fileName stem ending :=
  not_mem_fileName (c := '\x00') hs he (by decide) rfl (by decide) (by decide)

theorem isText_fileName (stem : List Char) (ending : String) :
    Utf8.IsText (fileName stem ending) := Utf8.isText_encode _

theorem isName_fileName (hs : IsStem stem) (he : IsEnding ending) :
    IsName (fileName stem ending) := by
  have hlength : 2 < (stem ++ ending.toList).length := by
    have hstem := List.length_pos_iff.2 hs.ne_nil
    have hending := he.length
    rw [List.length_append]
    omega
  -- The names that say something else are shorter.
  have hne (text : List Char) (h : text.length ≤ 2) : fileName stem ending ≠ Utf8.encode text := by
    intro heq
    have htext := Utf8.encode_injective heq
    rw [htext] at hlength
    omega
  exact ⟨hne [] (by decide), hne ['.'] (by decide), hne ['.', '.'] (by decide),
    not_mem_fileName (c := '/') hs he (by decide) rfl (by decide) (by decide)⟩

/-! ### Locations -/

theorem location_headerFile (directory : Path) (h : IsStem stem) :
    (headerFile directory stem).location = fileName stem ".h" :: directory.location :=
  location_join directory (isName_fileName h isEnding_header)

theorem location_precompiledFile (directory : Path) (h : IsStem stem) :
    (precompiledFile directory stem).location = fileName stem ".pch" :: directory.location :=
  location_join directory (isName_fileName h isEnding_precompiled)

theorem location_headerFile_ne_null (directory : Path) (h : IsStem stem) :
    (headerFile directory stem).location ≠ FileTree.locationOf ["dev", "null"] := by
  rw [location_headerFile directory h]
  intro heq
  have hname : stem ++ ".h".toList = "null".toList :=
    Utf8.encode_injective (List.cons.inj heq).1
  have hchars := congrArg List.reverse hname
  simp at hchars

theorem location_precompiledFile_ne_null (directory : Path) (h : IsStem stem) :
    (precompiledFile directory stem).location ≠ FileTree.locationOf ["dev", "null"] := by
  rw [location_precompiledFile directory h]
  intro heq
  have hname : stem ++ ".pch".toList = "null".toList :=
    Utf8.encode_injective (List.cons.inj heq).1
  have hchars := congrArg List.reverse hname
  simp at hchars

/-- A header file and a precompiled header never share a name. -/
theorem fileName_header_ne (stem stem' : List Char) :
    fileName stem ".h" ≠ fileName stem' ".pch" := by
  intro heq
  have hchars := congrArg List.reverse (Utf8.encode_injective heq)
  simp at hchars

theorem location_headerFile_ne_precompiledFile (directory : Path) (h : IsStem stem) :
    (headerFile directory stem).location ≠ (precompiledFile directory stem).location := by
  rw [location_headerFile directory h, location_precompiledFile directory h]
  exact fun heq => fileName_header_ne stem stem (List.cons.inj heq).1

theorem fileName_injective (h : fileName stem ending = fileName stem' ending) : stem = stem' :=
  List.append_cancel_right (Utf8.encode_injective h)

/-- Whether a location is that of one of the two files with a stem. -/
def IsFileOf (directory : Path) (stem : List Char) (location : Location) : Prop :=
  location = (headerFile directory stem).location ∨
    location = (precompiledFile directory stem).location

theorem IsFileOf.isBelow {p : Path} (hs : IsStem stem) (h : IsFileOf directory stem p.location) :
    directory.IsBelow p := by
  rcases h with h | h
  · exact (isBelow_join directory (isName_fileName hs isEnding_header)).of_location_eq h
  · exact (isBelow_join directory (isName_fileName hs isEnding_precompiled)).of_location_eq h

/-- A precompiled header is no file of another stem. -/
theorem not_isFileOf_precompiledFile (hs : IsStem stem) (hs' : IsStem stem') (hne : stem ≠ stem') :
    ¬IsFileOf directory stem' (precompiledFile directory stem).location := by
  rintro (h | h)
  · rw [location_precompiledFile _ hs, location_headerFile _ hs'] at h
    exact fileName_header_ne stem' stem (List.cons.inj h).1.symm
  · rw [location_precompiledFile _ hs, location_precompiledFile _ hs'] at h
    exact hne (fileName_injective (List.cons.inj h).1)

end PrecompiledHeaders

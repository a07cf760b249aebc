import PrecompiledHeaders.Generation.Generator
import PrecompiledHeaders.Proofs.Generation.Names
import PrecompiledHeaders.Proofs.Path.Parent

/-!
# Paths of generated files

Whatever the name of a part is, its files are entries of the output directory
(`isEntryOf_headerFile`, `isEntryOf_precompiledFile`). The stem of a part consists of what its name
looks like and of the digits of a hash. There are always as many digits, so the stem says where they
start, although the sign in front of them may stand in the name too: two parts share a stem only if they
look alike and have the same digits (`partStem_eq_iff`). No part has a file in common with another stem
(`same_headerFile_iff`, `same_precompiledFile_iff`), and no header file is a precompiled header
(`not_same_headerFile_precompiledFile`).
-/

namespace PrecompiledHeaders

open PrecompiledHeaders.Path

variable {directory : Path} {stem stem' : List Char}

/-! ### Files with a stem -/

theorem isEntryOf_headerFile (directory : Path) (h : IsStem stem) :
    (headerFile directory stem).IsEntryOf directory :=
  isEntryOf_join directory (isName_fileName h isEnding_header)

theorem isEntryOf_precompiledFile (directory : Path) (h : IsStem stem) :
    (precompiledFile directory stem).IsEntryOf directory :=
  isEntryOf_join directory (isName_fileName h isEnding_precompiled)

theorem same_headerFile_iff (h : IsStem stem) (h' : IsStem stem') :
    Same (headerFile directory stem) (headerFile directory stem') ↔ stem = stem' :=
  (same_join_iff directory (isName_fileName h isEnding_header)
    (isName_fileName h' isEnding_header)).trans ⟨fileName_injective, congrArg (fileName · ".h")⟩

theorem same_precompiledFile_iff (h : IsStem stem) (h' : IsStem stem') :
    Same (precompiledFile directory stem) (precompiledFile directory stem') ↔ stem = stem' :=
  (same_join_iff directory (isName_fileName h isEnding_precompiled)
    (isName_fileName h' isEnding_precompiled)).trans ⟨fileName_injective, congrArg (fileName · ".pch")⟩

theorem not_same_headerFile_precompiledFile (h : IsStem stem) (h' : IsStem stem') :
    ¬Same (headerFile directory stem) (precompiledFile directory stem') := fun hsame =>
  fileName_header_ne stem stem' ((same_join_iff directory (isName_fileName h isEnding_header)
    (isName_fileName h' isEnding_precompiled)).1 hsame)

/-! ### Stems of parts -/

/-- The stem of a part is read back: the digits of the hash are the last sixteen characters. -/
theorem partStem_eq_iff (id id' : String) : partStem id = partStem id' ↔
    (ContentHash.ofBytes (Utf8.encode id.toList)).shortHex =
        (ContentHash.ofBytes (Utf8.encode id'.toList)).shortHex ∧
      sanitised id = sanitised id' := by
  constructor
  · intro hstem
    obtain ⟨hsanitised, hdigits⟩ := List.append_inj' hstem (by
      rw [List.length_cons, List.length_cons, ContentHash.length_shortDigits,
        ContentHash.length_shortDigits])
    exact ⟨congrArg String.ofList (List.cons.inj hdigits).2, hsanitised⟩
  · rintro ⟨hhex, hsanitised⟩
    rw [partStem, partStem, hsanitised, String.ofList_injective hhex]

/-- Only the hash keeps these apart. -/
example : sanitised ".." = sanitised "/\x00" := by decide

/-! ### Files of a generator -/

namespace Generator

/-- **Paths of generated files.** For any two parts, whatever their names are:

    * the stem of the files of a part consists of ASCII letters, digits, `-` and `_`;
    * both files of a part are entries of the output directory itself;
    * the two have the same stem if and only if the hashes of their names have the same sixteen digits
      and their names are the same where every other character is replaced;
    * and then, and only then, they have the same header file or the same precompiled header;
    * no file of a part is one of the files for all parts, and a header file of one part is no
      precompiled header of any. -/
theorem file_paths_are_apart (g : Generator) (part other : ProjectPart) :
    (∀ c ∈ partStem part.id, c.isAlphanum = true ∨ c = '-' ∨ c = '_') ∧
      (g.partHeaderFile part).IsEntryOf g.environment.outputDirectory ∧
      (g.partFile part).IsEntryOf g.environment.outputDirectory ∧
      (partStem part.id = partStem other.id ↔
        (ContentHash.ofBytes (Utf8.encode part.id.toList)).shortHex =
            (ContentHash.ofBytes (Utf8.encode other.id.toList)).shortHex ∧
          sanitised part.id = sanitised other.id) ∧
      (Same (g.partHeaderFile part) (g.partHeaderFile other) ↔
        partStem part.id = partStem other.id) ∧
      (Same (g.partFile part) (g.partFile other) ↔ partStem part.id = partStem other.id) ∧
      (∀ file ∈ [g.partHeaderFile part, g.partFile part],
        ¬Same file g.globalHeaderFile ∧ ¬Same file g.globalFile) ∧
      ¬Same (g.partHeaderFile part) (g.partFile other) := by
  have hpart : IsStem (partStem part.id) := isStem_partStem part.id
  have hother : IsStem (partStem other.id) := isStem_partStem other.id
  have hglobal : partStem part.id ≠ globalStem := partStem_ne_globalStem part.id
  refine ⟨fun c hc => of_decide_eq_true (hpart.safe c hc), isEntryOf_headerFile _ hpart,
    isEntryOf_precompiledFile _ hpart, partStem_eq_iff part.id other.id,
    same_headerFile_iff hpart hother, same_precompiledFile_iff hpart hother, ?_,
    not_same_headerFile_precompiledFile hpart hother⟩
  intro file hfile
  rcases List.mem_cons.1 hfile with rfl | hfile
  · exact ⟨fun hsame => hglobal ((same_headerFile_iff hpart isStem_globalStem).1 hsame),
      not_same_headerFile_precompiledFile hpart isStem_globalStem⟩
  · rw [List.mem_singleton.1 hfile]
    refine ⟨fun hsame => ?_, fun hsame => ?_⟩
    · exact not_same_headerFile_precompiledFile isStem_globalStem hpart hsame.symm
    · exact hglobal ((same_precompiledFile_iff hpart isStem_globalStem).1 hsame)

end Generator

end PrecompiledHeaders

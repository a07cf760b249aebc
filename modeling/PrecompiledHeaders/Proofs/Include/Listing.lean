import PrecompiledHeaders.Generation.Generator
import PrecompiledHeaders.Include.Directive
import PrecompiledHeaders.Proofs.Compiler.Settings
import PrecompiledHeaders.Proofs.Include.Lines
import PrecompiledHeaders.Proofs.Include.Reach
import PrecompiledHeaders.Proofs.Path.Table
import Mathlib.Data.List.Basic

/-!
# Listings of headers

A generated header file lists headers, one directive on a line. When a source is taken apart into
its directives, lines without comment marks that do not go on in the next line stay as they are
(`Directive.IsPlain`), so a listing is read as what it lists (`directives_listing`).
-/

namespace PrecompiledHeaders

namespace Directive

variable {line rest word : List Char}

/-- Whether a line has no comment mark, and does not go on in the next one. -/
structure IsPlain (line : List Char) : Prop where
  newline : '\n' ∉ line
  lineComment : ¬['/', '/'] <:+: line
  blockComment : ¬['/', '*'] <:+: line
  continued : line.getLast? ≠ some '\\'
  carriageReturn : line.getLast? ≠ some '\r'

/-! ### Lines that go on -/

/-- A word at the end of a line is taken out only where the line ends with it. -/
theorem without_line (hw : '\n' ∉ word) (hline : '\n' ∉ line) (h : ¬word <:+ line)
    (rest : List Char) : without (word ++ ['\n']) (line ++ '\n' :: rest) =
      line ++ '\n' :: without (word ++ ['\n']) rest := by
  have hne : word ≠ [] := fun hnil => h (hnil ▸ line.nil_suffix)
  -- Line feeds are where lines end, so the word could only be the whole line.
  have hnot {line : List Char} (hline : '\n' ∉ line) (hword : word ≠ line) :
      ¬(word ++ ['\n']) <+: (line ++ '\n' :: rest) := by
    rintro ⟨behind, heq⟩
    rw [List.append_assoc, List.singleton_append] at heq
    have hsplit := congrArg (split '\n') heq
    rw [split_append_separator hw, split_append_separator hline] at hsplit
    exact hword (List.cons.inj hsplit).1
  induction line with
  | nil =>
    have hleading := hnot List.not_mem_nil hne
    rw [List.nil_append, without, if_neg fun hp => hleading (List.isPrefixOf_iff_prefix.1 hp.2)]
    rfl
  | cons c line ih =>
    have hleading := hnot hline fun heq => h (heq ▸ List.suffix_rfl)
    have htail := ih (fun hn => hline (List.mem_cons_of_mem _ hn)) fun hs =>
      h (hs.trans (List.suffix_cons c line))
    rw [List.cons_append] at hleading
    rw [List.cons_append, without, if_neg fun hp => hleading (List.isPrefixOf_iff_prefix.1 hp.2),
      htail]
    rfl

theorem joinLines_line (h : IsPlain line) (rest : List Char) :
    joinLines (line ++ '\n' :: rest) = line ++ '\n' :: joinLines rest := by
  have hsuffix {c : Char} {word : List Char} (hlast : line.getLast? ≠ some c)
      (hword : word.getLast? = some c) : ¬word <:+ line := by
    rintro ⟨front, rfl⟩
    rw [List.getLast?_append, hword] at hlast
    exact hlast rfl
  have hcarriage : ¬['\\', '\r'] <:+ line := hsuffix h.carriageReturn rfl
  have hbackslash : ¬['\\'] <:+ line := hsuffix h.continued rfl
  rw [joinLines, joinLines]
  rw [show ['\\', '\r', '\n'] = ['\\', '\r'] ++ ['\n'] from rfl,
    show ['\\', '\n'] = ['\\'] ++ ['\n'] from rfl,
    without_line (by decide) h.newline hcarriage, without_line (by decide) h.newline hbackslash]

/-! ### Comments -/

theorem IsPlain.not_opensComment (h : IsPlain line) : ¬Region.code.OpensComment line := by
  rintro ⟨front, mark, behind, rfl, rfl | rfl, -⟩
  · exact h.lineComment ⟨front, behind, by simp⟩
  · exact h.blockComment ⟨front, behind, by simp⟩

/-! ### Lists of lines -/

/-- Lines with a line feed behind each. -/
def unlines (lines : List (List Char)) : List Char := lines.flatMap (· ++ ['\n'])

theorem unlines_cons (line : List Char) (lines : List (List Char)) :
    unlines (line :: lines) = line ++ '\n' :: unlines lines := by
  rw [unlines, List.flatMap_cons, List.append_assoc]
  rfl

variable {plain : List (List Char)}

theorem joinLines_unlines (h : ∀ line ∈ plain, IsPlain line) :
    joinLines (unlines plain) = unlines plain := by
  induction plain with
  | nil => exact joinLines_nil
  | cons line plain ih =>
    rw [unlines_cons, joinLines_line (h line List.mem_cons_self),
      ih fun other ho => h other (List.mem_cons_of_mem _ ho)]

theorem stripComments_unlines (h : ∀ line ∈ plain, IsPlain line) :
    stripComments (unlines plain) = unlines plain := by
  induction plain with
  | nil => rfl
  | cons line plain ih =>
    have hline := h line List.mem_cons_self
    rw [stripComments] at ih ⊢
    rw [unlines_cons, stripFrom_line hline.not_opensComment hline.continued,
      ih fun other ho => h other (List.mem_cons_of_mem _ ho)]

theorem lines_unlines (h : ∀ line ∈ plain, IsPlain line) : lines (unlines plain) = plain := by
  induction plain with
  | nil => rfl
  | cons line plain ih =>
    have hline := h line List.mem_cons_self
    rw [unlines_cons, lines_line hline.newline, dropCarriageReturn, if_neg hline.carriageReturn,
      ih fun other ho => h other (List.mem_cons_of_mem _ ho)]

/-- A source of plain lines has the directives that are on its lines. -/
theorem directives_unlines (h : ∀ line ∈ plain, IsPlain line) :
    directives (unlines plain) = plain.filterMap directive? := by
  rw [directives, joinLines_unlines h, stripComments_unlines h, lines_unlines h]

/-! ### Lines that include -/

theorem directive?_angled {name : List Char} (hne : name ≠ []) (hname : '>' ∉ name) :
    directive? ("#include <".toList ++ name ++ ['>']) = some ⟨.angled, name⟩ := by
  rw [List.append_assoc]
  exact (directive?_asLine hne hname : directive? (asLine ⟨.angled, name⟩) = some ⟨.angled, name⟩)

end Directive

/-! ### Paths in listings -/

theorem infix_append_iff {α : Type} {a b : α} {front l : List α} (ha : a ∉ front) :
    [a, b] <:+: front ++ l ↔ [a, b] <:+: l := by
  induction front with
  | nil => rfl
  | cons c front ih =>
    rw [List.mem_cons, not_or] at ha
    rw [List.cons_append, List.infix_cons_iff, ih ha.2, or_iff_right]
    exact fun hleading => ha.1 (List.cons_prefix_cons.1 hleading).1

theorem append_infix_iff {α : Type} {a b : α} {l back : List α} (hb : b ∉ back) :
    [a, b] <:+: l ++ back ↔ [a, b] <:+: l := by
  have hreverse : [b, a] <:+: back.reverse ++ l.reverse ↔ [b, a] <:+: l.reverse :=
    infix_append_iff fun hin => hb (List.mem_reverse.1 hin)
  have hback (l : List α) : [b, a] <:+: l.reverse ↔ [a, b] <:+: l :=
    (List.reverse_infix : [a, b].reverse <:+: l.reverse ↔ _)
  rwa [← List.reverse_append, hback, hback] at hreverse

open PrecompiledHeaders.Path in
/-- In a normal path no two slashes stand together. -/
theorem Path.IsNormal.not_infix {p : Path} (h : p.IsNormal) :
    ¬[separator, separator] <:+: p.bytes := by
  obtain ⟨location, hproper, rfl⟩ := h.exists_location
  cases location with
  | nil => decide
  | cons name above =>
    have hnames : ∀ n ∈ (name :: above).reverse, IsName n := fun n hn =>
      hproper n (List.mem_reverse.1 hn)
    rw [Location.path_cons]
    generalize (name :: above).reverse = names at hnames
    induction names with
    | nil => simp
    | cons n names ih =>
      have hn := hnames n List.mem_cons_self
      rw [List.flatMap_cons, List.cons_append, List.infix_cons_iff, infix_append_iff hn.not_mem]
      rintro (hleading | hinfix)
      · -- The first slash is followed by a name.
        obtain ⟨b, bytes, hbytes⟩ := List.exists_cons_of_ne_nil hn.ne_nil
        rw [hbytes, List.cons_append, List.cons_prefix_cons, List.cons_prefix_cons] at hleading
        exact hn.not_mem (by rw [hbytes, ← hleading.2.1]; exact List.mem_cons_self)
      · exact ih (fun m hm => hnames m (List.mem_cons_of_mem _ hm)) hinfix

/-- Whether a path can stand in a listing of headers. -/
structure Path.IsListable (p : Path) : Prop where
  isText : p.IsText
  newline : '\n' ∉ p.display.toList
  close : '>' ∉ p.display.toList
  comment : ¬['/', '*'] <:+: p.display.toList

theorem Path.isListable_ofString {text : String}
    (h : '\n' ∉ text.toList ∧ '>' ∉ text.toList ∧ ¬['/', '*'] <:+: text.toList) :
    (ofString text).IsListable := by
  have hdisplay : (ofString text).display.toList = text.toList := by
    rw [display, String.toList_ofList, ofString, Utf8.decodeLossy_encode]
  exact ⟨isText_ofString text, hdisplay ▸ h.1, hdisplay ▸ h.2.1, hdisplay ▸ h.2.2⟩

open PrecompiledHeaders.Path in
theorem Path.IsNormal.not_infix_display {p : Path} (h : p.IsNormal) (ht : p.IsText) :
    ¬['/', '/'] <:+: p.display.toList := by
  obtain ⟨text, htext⟩ := ht
  rw [display, String.toList_ofList, htext, Utf8.decodeLossy_encode]
  rintro ⟨front, behind, rfl⟩
  -- A slash is one byte, the one between names.
  have hslashes : Utf8.encode ['/', '/'] = [separator, separator] := rfl
  refine h.not_infix ⟨Utf8.encode front, Utf8.encode behind, ?_⟩
  rw [htext, ← hslashes, Utf8.encode, Utf8.encode, Utf8.encode, Utf8.encode, List.flatMap_append,
    List.flatMap_append]

open PrecompiledHeaders.Path in
/-- The path of a file ends with a slash and the name, behind the path of the directory unless that is
    the root. -/
theorem Path.IsText.exists_front {p directory : Path} (h : directory.normalize.IsText)
    (hd : directory.isAbsolute) (hp : p.IsNormal) {name : List Char}
    (hlocation : p.location = Utf8.encode name :: directory.location) :
    ∃ front, (front = [] ∨ front = directory.normalize.display.toList) ∧
      p.bytes = Utf8.encode (front ++ '/' :: name) := by
  have hend : [Utf8.encode name].flatMap (fun name => separator :: name) =
      Utf8.encode ('/' :: name) := by
    rw [List.flatMap_singleton, Utf8.encode, Utf8.encode, List.flatMap_cons]
    rfl
  have hpath : p = p.location.path := hp.normalize_eq.symm.trans (normalize_eq_path hp.isAbsolute)
  rw [hlocation, Location.path_cons] at hpath
  cases hl : directory.location with
  | nil =>
    rw [hl] at hpath
    exact ⟨[], .inl rfl, (congrArg Path.bytes hpath).trans hend⟩
  | cons above rest =>
    refine ⟨directory.normalize.display.toList, .inr rfl, ?_⟩
    obtain ⟨text, htext⟩ := h
    rw [display, String.toList_ofList, htext, Utf8.decodeLossy_encode, Utf8.encode,
      List.flatMap_append]
    rw [normalize_eq_path hd, hl, Location.path_cons] at htext
    rw [hl, List.reverse_cons, List.flatMap_append] at hpath
    rw [hpath]
    exact congrArg₂ (· ++ ·) htext hend

/-- A file can be listed if its directory can, and its name has no characters that matter. -/
theorem Path.IsListable.of_location {p directory : Path} (h : directory.normalize.IsListable)
    (hd : directory.isAbsolute) (hp : p.IsNormal) {name : List Char}
    (hlocation : p.location = Utf8.encode name :: directory.location)
    (hname : ∀ c ∈ name, c ≠ '\n' ∧ c ≠ '>' ∧ c ≠ '*') : p.IsListable := by
  obtain ⟨front, hfront, hbytes⟩ := h.isText.exists_front hd hp hlocation
  have hdisplay : p.display.toList = front ++ '/' :: name := by
    rw [display, String.toList_ofList, hbytes, Utf8.decodeLossy_encode]
  have hnot {c : Char} (hc : c ∉ directory.normalize.display.toList) (hslash : c ≠ '/')
      (hname : c ∉ name) : c ∉ front ++ '/' :: name := by
    rw [List.mem_append, List.mem_cons, not_or, not_or]
    refine ⟨?_, hslash, hname⟩
    rcases hfront with rfl | rfl
    · exact List.not_mem_nil
    · exact hc
  refine ⟨⟨_, hbytes⟩, ?_, ?_, ?_⟩
  · rw [hdisplay]
    exact hnot h.newline (by decide) fun hin => (hname _ hin).1 rfl
  · rw [hdisplay]
    exact hnot h.close (by decide) fun hin => (hname _ hin).2.1 rfl
  · rw [hdisplay, append_infix_iff]
    · rcases hfront with rfl | rfl
      · simp
      · exact h.comment
    · rw [List.mem_cons, not_or]
      exact ⟨by decide, fun hin => (hname _ hin).2.2 rfl⟩

/-- The line that includes a header. -/
def listingLine (p : Path) : List Char := "#include <".toList ++ p.display.toList ++ ['>']

variable {p : Path} {paths : List Path}

theorem isPlain_listingLine (hp : p.IsNormal) (hl : p.IsListable) :
    Directive.IsPlain (listingLine p) := by
  have hfront : '/' ∉ "#include <".toList := by simp
  have hinfix {c : Char} (hc : c ≠ '>') (h : ¬['/', c] <:+: p.display.toList) :
      ¬['/', c] <:+: listingLine p := fun hin =>
    h ((infix_append_iff hfront).1 ((append_infix_iff (by simpa using hc)).1 hin))
  have hlast : (listingLine p).getLast? = some '>' := List.getLast?_concat
  refine ⟨fun hmem => ?_, hinfix (by decide) (hp.not_infix_display hl.isText),
    hinfix (by decide) hl.comment, by rw [hlast]; decide, by rw [hlast]; decide⟩
  rcases List.mem_append.1 hmem with hmem | hmem
  · rcases List.mem_append.1 hmem with hmem | hmem
    · simp at hmem
    · exact hl.newline hmem
  · simp at hmem

theorem toList_includeLine (p : Path) :
    (Generator.includeLine p).toList = listingLine p ++ ['\n'] := by
  have hline : Generator.includeLine p = "#include <" ++ p.display ++ ">\n" := rfl
  have hend : ">\n".toList = ['>'] ++ ['\n'] := by simp
  rw [hline, String.toList_append, String.toList_append, hend, ← List.append_assoc]
  rfl

theorem toList_listing (paths : List Path) :
    (String.join (paths.map Generator.includeLine)).toList =
      Directive.unlines (paths.map listingLine) := by
  rw [String.toList_join, Directive.unlines, List.flatMap_map, List.flatMap_map]
  exact List.flatMap_congr fun p _ => toList_includeLine p

/-- A listing has one directive for each path, in order, which names the path in angle brackets. -/
theorem directives_listing (h : ∀ p ∈ paths, p.IsNormal ∧ p.IsListable) :
    directives (String.join (paths.map Generator.includeLine)).toList =
      paths.map fun p => ⟨.angled, p.display.toList⟩ := by
  have hplain : ∀ line ∈ paths.map listingLine, Directive.IsPlain line := by
    intro line hline
    obtain ⟨p, hp, rfl⟩ := List.mem_map.1 hline
    exact isPlain_listingLine (h p hp).1 (h p hp).2
  have hdirective : ∀ p ∈ paths, Directive.directive? (listingLine p) =
      some ⟨.angled, p.display.toList⟩ := by
    intro p hp
    refine Directive.directive?_angled (fun hnil => ?_) (h p hp).2.close
    have hhead := Path.head?_display (h p hp).1.isAbsolute
    rw [hnil] at hhead
    cases hhead
  rw [toList_listing, Directive.directives_unlines hplain, List.filterMap_map,
    ← List.filterMap_eq_map]
  exact List.filterMap_congr hdirective

/-! ### Where listings lead -/

namespace Include

variable {search : Search} {tree : FileTree}

theorem ofFile_listing (h : ∀ p ∈ paths, p.IsNormal ∧ p.IsListable) (file : Path) :
    ofFile file (Utf8.encode (String.join (paths.map Generator.includeLine)).toList) =
      paths.map fun p => ⟨file, file.parent?.getD Path.root, ⟨.angled, p.display.toList⟩⟩ := by
  rw [ofFile, Utf8.decodeLossy_encode, directives_listing h, List.map_map]
  rfl

/-- An empty file includes nothing. -/
theorem ofFile_nil (file : Path) : ofFile file [] = [] :=
  ofFile_listing (fun _ hp => absurd hp List.not_mem_nil) file

/-- Nothing comes up in a walk from an empty file. -/
theorem walk_ofFile_nil (visited : List Path) (file : Path) :
    walk search tree visited (ofFile file []) = [] := by
  rw [ofFile_nil, walk]

/-- A listed path is looked for where it says. -/
theorem target?_listed (hp : p.IsNormal) (ht : p.IsText) (file directory : Path) :
    target? search tree ⟨file, directory, ⟨.angled, p.display.toList⟩⟩ =
      if tree.isFile p then some p else none := by
  have hspelled : (⟨Utf8.encode p.display.toList⟩ : Path) = p := ht.ofString_display
  have hcandidates : search.candidates directory ⟨.angled, p.display.toList⟩ = [p] := by
    simp only [Search.candidates, hspelled, hp.isAbsolute, if_true, hp.normalize_eq]
  rw [target?, Search.resolve?, hcandidates, List.find?_singleton]

end Include

/-! ### Header files -/

namespace Generator

variable {t : PathTable} {ids : List PathId}

/-- The text of a header file lists the headers with the given ids. -/
theorem headerText_eq (h : t.resolve ids = .ok paths) :
    headerText t ids = .ok (String.join (paths.map includeLine)) := by
  rw [headerText, h]
  rfl

/-- **Reading a generated header.** Whatever the paths of ids are spelled like, as long as nothing
    in them ends a line, a name or the code, the text for the ids is read as one directive for each
    id, in order, that names its path in angle brackets. Wherever the text stands and whatever is
    searched, the directives lead to those paths that are files. -/
theorem directives_of_headerText
    (h : ∀ id ∈ ids, ∃ p, t.get? p = some id ∧ p.normalize.isAbsolute ∧ p.normalize.IsListable) :
    ∃ paths text, t.resolve ids = .ok paths ∧ headerText t ids = .ok text ∧
      directives text.toList = paths.map (fun p => ⟨.angled, p.display.toList⟩) ∧
      (∀ p ∈ paths, Path.ofString p.display = p) ∧
      ∀ (search : Search) (tree : FileTree) (directory : Path),
        (directives text.toList).filterMap (search.resolve? tree directory) =
          paths.filter tree.isFile := by
  obtain ⟨paths, hpaths, hall⟩ := PathTable.exists_resolve_of_forall
    (P := fun p => p.IsNormal ∧ p.IsListable) fun id hid =>
      have ⟨p, hp, habsolute, hlistable⟩ := h id hid
      ⟨p, hp, Path.isNormal_normalize (Path.isAbsolute_of_normalize habsolute), hlistable⟩
  have hread := directives_listing hall
  refine ⟨paths, _, hpaths, headerText_eq hpaths, hread,
    fun p hp => (hall p hp).2.isText.ofString_display, fun search tree directory => ?_⟩
  rw [hread, List.filterMap_map, ← List.filterMap_eq_filter]
  refine List.filterMap_congr fun p hp => ?_
  have htarget : search.resolve? tree directory ⟨.angled, p.display.toList⟩ =
      if tree.isFile p then some p else none :=
    Include.target?_listed (hall p hp).1 (hall p hp).2.isText Path.root directory
  rw [Function.comp_apply, htarget, Option.guard]

/-- The ids of paths with quotes that do not end, and with a backslash in front of the bracket. -/
def oddlySpelled : PathTable :=
  (PathTable.empty.ids [.ofString "/it's/\"#include.h", .ofString "/a b\\"]).2

theorem directives_of_oddlySpelled :
    (∀ id ∈ [PathId.mk 1, ⟨0⟩], ∃ p, oddlySpelled.get? p = some id ∧ p.normalize.isAbsolute ∧
      p.normalize.IsListable) ∧
    ∃ text, headerText oddlySpelled [⟨1⟩, ⟨0⟩] = .ok text ∧
      directives text.toList =
        [⟨.angled, "/a b\\".toList⟩, ⟨.angled, "/it's/\"#include.h".toList⟩] := by
  have hids : ∀ id ∈ [PathId.mk 1, ⟨0⟩], ∃ p, oddlySpelled.get? p = some id ∧
      p.normalize.isAbsolute ∧ p.normalize.IsListable := by
    refine List.forall_mem_cons.2 ⟨⟨.ofString "/a b\\", by decide +kernel, by decide +kernel, ?_⟩,
      List.forall_mem_singleton.2
        ⟨.ofString "/it's/\"#include.h", by decide +kernel, by decide +kernel, ?_⟩⟩
    · have hnormal : (Path.ofString "/a b\\").normalize = .ofString "/a b\\" := by decide +kernel
      exact hnormal ▸ Path.isListable_ofString (by decide +kernel)
    · have hnormal : (Path.ofString "/it's/\"#include.h").normalize =
          .ofString "/it's/\"#include.h" := by decide +kernel
      exact hnormal ▸ Path.isListable_ofString (by decide +kernel)
  obtain ⟨paths, text, hpaths, htext, hread, -⟩ := directives_of_headerText hids
  refine ⟨hids, text, htext, ?_⟩
  have hfound : oddlySpelled.resolve [⟨1⟩, ⟨0⟩] =
      .ok [.ofString "/a b\\", .ofString "/it's/\"#include.h"] := by decide +kernel
  cases hpaths.symm.trans hfound
  rw [hread]
  decide +kernel

end Generator

end PrecompiledHeaders

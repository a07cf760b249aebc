import PrecompiledHeaders.Proofs.Include.Regions
import PrecompiledHeaders.Proofs.Text.Split

/-!
# Sources line by line

A line of a source can be read on its own if it starts outside of comments
(`Directive.StartsLine`), and neither goes on in the next line nor opens a comment
(`Directive.StandsAlone`). The directives of the source are then those in front of the line, the one
on it, and those behind it (`Directive.directives_around`). On the line of a directive
(`Directive.asLine`) this directive is found, if its name ends where it is meant to
(`Directive.directive?_asLine`).
-/

namespace PrecompiledHeaders

/-- The mark in front of a name. -/
def Quotation.opening : Quotation → Char
  | .quoted => '"'
  | .angled => '<'

/-- The mark behind a name. -/
def Quotation.closing : Quotation → Char
  | .quoted => '"'
  | .angled => '>'

/-! ### Lines -/

section Lines

variable {front line : List Char} {pieces others : List (List Char)}

theorem linesOfPieces_append (h : others ≠ []) :
    linesOfPieces (pieces ++ others) = pieces.map dropCarriageReturn ++ linesOfPieces others := by
  induction pieces with
  | nil => rfl
  | cons piece pieces ih =>
    rw [List.cons_append, linesOfPieces, ih]
    · rfl
    · exact List.append_ne_nil_of_right_ne_nil pieces h

theorem lines_append_newline (front rest : List Char) :
    lines (front ++ '\n' :: rest) = (split '\n' front).map dropCarriageReturn ++ lines rest := by
  rw [lines, split_append_cons, linesOfPieces_append (split_ne_nil _ _), lines]

/-- Behind the end of a line, lines are those of the rest. -/
theorem lines_append (h : ∀ c ∈ front.getLast?, c = '\n') (rest : List Char) :
    lines (front ++ rest) = lines front ++ lines rest := by
  rcases front.eq_nil_or_concat' with rfl | ⟨front, c, rfl⟩
  · rfl
  · cases h c List.getLast?_concat
    have hnil : lines [] = [] := rfl
    rw [List.append_assoc, List.singleton_append, lines_append_newline,
      lines_append_newline, hnil, List.append_nil]

theorem lines_line (h : '\n' ∉ line) (rest : List Char) :
    lines (line ++ '\n' :: rest) = dropCarriageReturn line :: lines rest := by
  rw [lines_append_newline, split_of_not_mem h]
  rfl

theorem lines_of_not_mem (h : '\n' ∉ line) (hne : line ≠ []) : lines line = [line] := by
  rw [lines, split_of_not_mem h, linesOfPieces, if_neg hne]

end Lines

namespace Directive

variable {c d : Char} {word front text before line rest after name : List Char}

/-! ### Lines that go on -/

/-- A word without a character ends in front of it. -/
theorem prefix_of_not_mem (hc : c ∉ word) (h : word <+: front ++ c :: rest) : word <+: front := by
  rcases List.prefix_or_prefix_of_prefix h (List.prefix_append front _) with hword | ⟨behind, rfl⟩
  · exact hword
  · cases behind with
    | nil => simp
    | cons d behind =>
      obtain ⟨rfl, -⟩ := List.cons_prefix_cons.1 ((List.prefix_append_right_inj front).1 h)
      simp at hc

theorem without_append (hc : c ∉ word) (front rest : List Char) :
    without word (front ++ c :: rest) = without word front ++ without word (c :: rest) := by
  fun_induction without word front with
  | case1 => rfl
  | case2 d front hword ih =>
    have hleading := List.isPrefixOf_iff_prefix.1 hword.2
    rw [List.cons_append, without, if_pos ⟨hword.1, List.isPrefixOf_iff_prefix.2
      (hleading.trans (List.prefix_append (d :: front) _))⟩, ← ih, ← List.cons_append,
      List.drop_append_of_le_length hleading.length_le]
  | case3 d front hword ih =>
    rw [List.cons_append, without, if_neg, ih]
    · rfl
    · rintro ⟨hne, hleading⟩
      exact hword ⟨hne, List.isPrefixOf_iff_prefix.2
        (prefix_of_not_mem hc (List.isPrefixOf_iff_prefix.1 hleading))⟩

theorem without_append_of_not_mem (hc : c ∉ front) (rest : List Char) :
    without (c :: word) (front ++ rest) = front ++ without (c :: word) rest := by
  induction front with
  | nil => rfl
  | cons d front ih =>
    rw [List.mem_cons, not_or] at hc
    rw [List.cons_append, without, if_neg, ih hc.2]
    · rfl
    · rintro ⟨-, hleading⟩
      exact hc.1 (List.cons_prefix_cons.1 (List.isPrefixOf_iff_prefix.1 hleading)).1

theorem joinLines_nil : joinLines [] = [] := by
  rw [joinLines, without, without]

/-- Where no backslash stands, no line goes on. -/
theorem joinLines_append_of_not_mem (h : '\\' ∉ front) (rest : List Char) :
    joinLines (front ++ rest) = front ++ joinLines rest := by
  rw [joinLines, without_append_of_not_mem h, without_append_of_not_mem h, joinLines]

theorem joinLines_append (hc : c ≠ '\\' ∧ c ≠ '\r' ∧ c ≠ '\n') (front rest : List Char) :
    joinLines (front ++ c :: rest) = joinLines front ++ joinLines (c :: rest) := by
  obtain ⟨hbackslash, hcarriage, hnewline⟩ := hc
  have hsingle : '\\' ∉ [c] := by simpa using Ne.symm hbackslash
  -- The character is still there when the second of the two words is taken out.
  have hfirst : without ['\\', '\r', '\n'] (c :: rest) = c :: without ['\\', '\r', '\n'] rest :=
    without_append_of_not_mem hsingle rest
  rw [joinLines, joinLines, joinLines, without_append (by simp [*]), hfirst,
    without_append (by simp [*])]

/-! ### A line among others -/

/-- Whether a line that is no part of a comment starts behind a text. -/
structure StartsLine (before : List Char) : Prop where
  newline : ∀ c ∈ (joinLines before).getLast?, c = '\n'
  code : Region.code.after (joinLines before) = .code

/-- What can stand behind a line, and the lines that follow it: the source may be at its end. -/
inductive EndsLine : List Char → List Char → Prop
  | source : EndsLine [] []
  | newline (after : List Char) : EndsLine ('\n' :: after) after
  | carriageReturn (after : List Char) : EndsLine ('\r' :: '\n' :: after) after

/-- Whether a line says nothing about how other lines are to be read. -/
structure StandsAlone (line : List Char) : Prop where
  start : line.head? = some '#'
  newline : '\n' ∉ line
  backslash : '\\' ∉ line
  carriageReturn : line.getLast? ≠ some '\r'
  comment : ¬Region.code.OpensComment line

theorem startsLine_nil : StartsLine [] where
  newline := by simp [joinLines_nil]
  code := by rw [joinLines_nil, Region.after]

theorem lines_of_standsAlone (hline : StandsAlone line) (hrest : EndsLine rest after) :
    lines (stripComments (line ++ joinLines rest)) =
      line :: lines (stripComments (joinLines after)) := by
  have hlast : line.getLast? ≠ some '\\' := fun h => hline.backslash (List.mem_of_getLast? h)
  cases hrest with
  | source =>
    have hne : line ≠ [] := by
      rintro rfl
      cases hline.start
    rw [joinLines_nil, List.append_nil, stripComments, stripFrom_eq_self .code hline.comment,
      lines_of_not_mem hline.newline hne]
    rfl
  | newline =>
    have hend : '\\' ∉ ['\n'] := by decide
    have hjoin : joinLines ('\n' :: after) = '\n' :: joinLines after :=
      joinLines_append_of_not_mem hend after
    rw [hjoin, stripComments, stripFrom_line hline.comment hlast, lines_line hline.newline,
      dropCarriageReturn, if_neg hline.carriageReturn, stripComments]
  | carriageReturn =>
    have hend : '\\' ∉ ['\r', '\n'] := by decide
    have hjoin : joinLines ('\r' :: '\n' :: after) = '\r' :: '\n' :: joinLines after :=
      joinLines_append_of_not_mem hend after
    have hcomment : ¬Region.code.OpensComment (line ++ ['\r']) := by
      rw [Region.opensComment_append .code hline.comment (Region.apart_of_head? hlast (by simp))]
      exact Region.not_opensComment_of_not_mem (by decide)
    have hassoc (text : List Char) :
        line ++ '\r' :: '\n' :: text = (line ++ ['\r']) ++ '\n' :: text := by
      rw [List.append_assoc]
      rfl
    rw [hjoin, stripComments, hassoc, stripFrom_line hcomment (by simp), lines_line,
      dropCarriageReturn, if_pos List.getLast?_concat, List.dropLast_concat, stripComments]
    simpa using hline.newline

/-- A line that can be read on its own is read on its own, wherever it starts. -/
theorem directives_around (hbefore : StartsLine before) (hline : StandsAlone line)
    (hrest : EndsLine rest after) :
    directives (before ++ (line ++ rest)) =
      directives before ++ ((directive? line).toList ++ directives after) := by
  have hjoin : joinLines (before ++ (line ++ rest)) =
      joinLines before ++ (line ++ joinLines rest) := by
    rw [← joinLines_append_of_not_mem hline.backslash]
    obtain ⟨line, rfl⟩ := List.head?_eq_some_iff.1 hline.start
    exact joinLines_append (by decide) before (line ++ rest)
  have hstrip : stripComments (joinLines before ++ (line ++ joinLines rest)) =
      stripComments (joinLines before) ++ stripComments (line ++ joinLines rest) := by
    have hapart : Region.Apart (joinLines before) (line ++ joinLines rest) :=
      Region.apart_of_getLast? (fun c hc => hbefore.newline c hc ▸ by decide) _
    rw [stripComments, stripFrom_append hapart, hbefore.code]
    rfl
  have hlast : ∀ c ∈ (stripComments (joinLines before)).getLast?, c = '\n' := by
    intro c hc
    cases hjoined : (joinLines before).getLast? with
    | none =>
      rw [List.getLast?_eq_none_iff.1 hjoined] at hc
      cases hc
    | some e =>
      cases hbefore.newline e hjoined
      cases (getLast?_stripFrom .code hjoined).symm.trans hc
      rfl
  rw [directives, hjoin, hstrip, lines_append hlast, lines_of_standsAlone hline hrest,
    List.filterMap_append, List.filterMap_cons, directives, directives]
  cases directive? line <;> rfl

/-! ### Lines that include -/

/-- What a line says in front of a name. -/
def lead (quotation : Quotation) : List Char := "#include ".toList ++ [quotation.opening]

/-- The line that says a directive. -/
def asLine (directive : Directive) : List Char :=
  lead directive.quotation ++ (directive.spelling ++ [directive.quotation.closing])

theorem name?_append (hne : name ≠ []) (hname : c ∉ name) : name? c (name ++ [c]) = some name := by
  have htake : (name ++ [c]).takeWhile (· ≠ c) = name := by
    rw [List.takeWhile_append_of_pos fun d hd => by
      simpa using fun heq : d = c => hname (heq ▸ hd)]
    simp
  rw [name?, htake, if_neg]
  simp [hne]

theorem length_lt_of_name? (h : name? c text = some name) : name.length < text.length := by
  have hleading : text.takeWhile (· ≠ c) <+: text := List.takeWhile_prefix _
  rw [name?] at h
  split at h
  · cases h
  · next hname =>
    cases h
    exact Nat.lt_of_le_of_ne hleading.length_le fun hlength =>
      hname (.inr (hleading.eq_of_length hlength))

theorem directive?_lead (quotation : Quotation) (text : List Char) :
    directive? (lead quotation ++ text) =
      (name? quotation.closing text).bind fun name => some ⟨quotation, name⟩ := by
  cases quotation <;> rfl

theorem directive?_asLine {directive : Directive} (hne : directive.spelling ≠ [])
    (hclosing : directive.quotation.closing ∉ directive.spelling) :
    directive? directive.asLine = some directive := by
  rw [asLine, directive?_lead, name?_append hne hclosing]
  rfl

end Directive

end PrecompiledHeaders

import PrecompiledHeaders.Proofs.Include.Lines
import PrecompiledHeaders.Proofs.Include.Tokens

/-!
# Line ends

Lines may end with a line feed alone or with a carriage return in front of it
(`Directive.withReturns`). Lines that go on are put together in both forms alike
(`Directive.joinLines_withReturns`). Where comments are taken out, the carriage returns at the ends of
some lines go with them, so what is left has them in front of some line feeds only
(`Directive.AddsReturns`), which makes no difference to its lines (`Directive.AddsReturns.lines_eq`).

But a backslash in quotes takes only one character with it, so it keeps a line feed from ending the
text in quotes, but not a carriage return and a line feed. The directives are the same in both forms if
no text in quotes has such an end of a line in it (`Directive.directives_withReturns`); otherwise they
may differ (`Directive.directives_depend_on_returns`).
-/

namespace PrecompiledHeaders.Directive

variable {c d quote : Char} {source text more front rest word closing : List Char} {token : Token}
  {tokens : List Token}

/-- A source with a carriage return in front of each line feed. -/
def withReturns (source : List Char) : List Char :=
  source.flatMap fun c => if c = '\n' then ['\r', '\n'] else [c]

theorem withReturns_append (front rest : List Char) :
    withReturns (front ++ rest) = withReturns front ++ withReturns rest :=
  List.flatMap_append ..

theorem withReturns_newline (rest : List Char) :
    withReturns ('\n' :: rest) = '\r' :: '\n' :: withReturns rest := rfl

theorem withReturns_cons (hc : c ≠ '\n') (rest : List Char) :
    withReturns (c :: rest) = c :: withReturns rest := by
  rw [withReturns, List.flatMap_cons, if_neg hc]
  rfl

theorem withReturns_of_not_mem (h : '\n' ∉ text) : withReturns text = text := by
  induction text with
  | nil => rfl
  | cons c text ih =>
    rw [List.mem_cons, not_or] at h
    rw [withReturns_cons (Ne.symm h.1), ih h.2]

/-- A source starts as it did, unless a line ends there. -/
theorem head?_withReturns (source : List Char) :
    (withReturns source).head? = source.head?.map fun c => if c = '\n' then '\r' else c := by
  cases source with
  | nil => rfl
  | cons c rest =>
    by_cases hc : c = '\n'
    · rw [hc]
      rfl
    · rw [withReturns_cons hc, List.head?_cons, List.head?_cons, Option.map_some, if_neg hc]

/-- Two characters stand side by side only where they did, and no line feed follows anything but a
    carriage return. -/
theorem infix_of_infix_withReturns (hc : c ≠ '\r' ∧ c ≠ '\n') (hd : d ≠ '\r')
    (h : [c, d] <:+: withReturns text) : d ≠ '\n' ∧ [c, d] <:+: text := by
  induction text with
  | nil => exact absurd (List.eq_nil_of_infix_nil h) (List.cons_ne_nil _ _)
  | cons e text ih =>
    by_cases he : e = '\n'
    · rw [he, withReturns_newline, List.infix_cons_iff, List.infix_cons_iff] at h
      rcases h with h | h | h
      · exact absurd (List.cons_prefix_cons.1 h).1 hc.1
      · exact absurd (List.cons_prefix_cons.1 h).1 hc.2
      · exact (ih h).imp_right List.infix_cons
    · rw [withReturns_cons he, List.infix_cons_iff] at h
      rcases h with h | h
      · obtain ⟨rfl, behind, hbehind⟩ := List.cons_prefix_cons.1 h
        have hhead := head?_withReturns text
        rw [← hbehind] at hhead
        obtain ⟨x, hx, hxd⟩ := Option.map_eq_some_iff.1 hhead.symm
        split at hxd
        · exact absurd hxd.symm hd
        · next hne =>
          obtain ⟨rest, rfl⟩ := List.head?_eq_some_iff.1 hx
          exact hxd ▸ ⟨hne, [], rest, rfl⟩
      · exact (ih h).imp_right List.infix_cons

/-! ### Lines that go on -/

theorem without_eq_self (h : ¬word <:+: text) : without word text = text := by
  fun_induction without word text with
  | case1 => rfl
  | case2 c text hword =>
    exact absurd (List.isPrefixOf_iff_prefix.1 hword.2).isInfix h
  | case3 c text hword ih =>
    rw [List.infix_cons_iff, not_or] at h
    rw [ih h.2]

theorem mem_of_mem_without (h : c ∈ without word text) : c ∈ text := by
  fun_induction without word text with
  | case1 => exact h
  | case2 d text hword ih => exact List.mem_of_mem_drop (ih h)
  | case3 d text hword ih =>
    rcases List.mem_cons.1 h with rfl | h
    · exact List.mem_cons_self
    · exact List.mem_cons_of_mem d (ih h)

theorem mem_of_mem_joinLines (h : c ∈ joinLines source) : c ∈ source :=
  mem_of_mem_without (mem_of_mem_without h)

theorem without_withReturns (h : '\r' ∉ source) :
    without ['\\', '\r', '\n'] (withReturns source) =
      withReturns (without ['\\', '\n'] source) := by
  fun_induction without ['\\', '\n'] source with
  | case1 => exact without_eq_self (by decide)
  | case2 c rest hleads ih =>
    obtain ⟨behind, hbehind⟩ := List.isPrefixOf_iff_prefix.1 hleads.2
    obtain ⟨rfl, rfl⟩ := List.cons.inj hbehind
    have hrest := ih fun hin => h (List.mem_of_mem_drop hin)
    have hreturned : withReturns ('\\' :: ['\n'].append behind) =
        ['\\', '\r', '\n'] ++ withReturns behind := rfl
    have hword : ['\\', '\r', '\n'].isPrefixOf ('\\' :: (['\r', '\n'] ++ withReturns behind)) :=
      List.isPrefixOf_iff_prefix.2 (List.prefix_append ['\\', '\r', '\n'] _)
    rw [hreturned, List.cons_append, without, if_pos ⟨by decide, hword⟩]
    exact hrest
  | case3 c rest hleads ih =>
    rw [List.mem_cons, not_or] at h
    by_cases hc : c = '\n'
    · have hend : '\\' ∉ ['\r', '\n'] := by decide
      have hskip : without ['\\', '\r', '\n'] (['\r', '\n'] ++ withReturns rest) =
          ['\r', '\n'] ++ without ['\\', '\r', '\n'] (withReturns rest) :=
        without_append_of_not_mem hend _
      rw [hc, withReturns_newline, withReturns_newline]
      exact hskip.trans (congrArg _ (ih h.2))
    · rw [withReturns_cons hc, withReturns_cons hc, without, if_neg, ih h.2]
      rintro ⟨-, hword⟩
      refine hleads ⟨by decide, List.isPrefixOf_iff_prefix.2 ?_⟩
      -- The carriage return behind the backslash is none of the source.
      obtain ⟨rfl, behind, hbehind⟩ := List.cons_prefix_cons.1 (List.isPrefixOf_iff_prefix.1 hword)
      cases rest with
      | nil => cases hbehind
      | cons d rest =>
        by_cases hd : d = '\n'
        · exact hd ▸ ⟨rest, rfl⟩
        · rw [withReturns_cons hd] at hbehind
          exact absurd ((List.cons.inj hbehind).1 ▸ List.mem_cons_self) h.2

theorem joinLines_withReturns (h : '\r' ∉ source) :
    joinLines (withReturns source) = withReturns (joinLines source) := by
  have hsource : without ['\\', '\r', '\n'] source = source :=
    without_eq_self fun hword => h (hword.subset (by simp))
  rw [joinLines, joinLines, hsource, without_withReturns h, without_eq_self fun hword => ?_]
  exact (infix_of_infix_withReturns (by decide) (by decide) hword).1 rfl

/-! ### Lines -/

/-- Whether a text has the carriage returns of another, and more in front of some line feeds. -/
inductive AddsReturns : List Char → List Char → Prop
  | nil : AddsReturns [] []
  | char {c : Char} {text more : List Char} (hc : c ≠ '\n') (h : AddsReturns text more) :
      AddsReturns (c :: text) (c :: more)
  | newline {text more : List Char} (h : AddsReturns text more) :
      AddsReturns ('\n' :: text) ('\n' :: more)
  | returned {text more : List Char} (h : AddsReturns text more) :
      AddsReturns ('\n' :: text) ('\r' :: '\n' :: more)

namespace AddsReturns

theorem append {text' more' : List Char} (h : AddsReturns text more) (h' : AddsReturns text' more') :
    AddsReturns (text ++ text') (more ++ more') := by
  induction h with
  | nil => exact h'
  | char hc _ ih => exact .char hc ih
  | newline _ ih => exact .newline ih
  | returned _ ih => exact .returned ih

theorem refl (text : List Char) : AddsReturns text text := by
  induction text with
  | nil => exact .nil
  | cons c text ih =>
    by_cases hc : c = '\n'
    · exact hc ▸ .newline ih
    · exact .char hc ih

/-- In front of a line feed, a carriage return may be left out. -/
theorem of_returned (h : AddsReturns ('\n' :: text) ('\r' :: more)) :
    AddsReturns ('\n' :: text) more := by
  cases h with
  | returned h => exact .newline h

theorem lines_append_eq (h : AddsReturns text more) (htext : '\r' ∉ text)
    (hnewline : '\n' ∉ front) (hreturn : '\r' ∉ front) :
    lines (front ++ text) = lines (front ++ more) := by
  induction h generalizing front with
  | nil => rfl
  | @char c text more hc _ ih =>
    rw [List.mem_cons, not_or] at htext
    rw [List.append_cons front c text, List.append_cons front c more]
    refine ih htext.2 ?_ ?_
    · rw [List.mem_append, List.mem_singleton, not_or]
      exact ⟨hnewline, Ne.symm hc⟩
    · rw [List.mem_append, List.mem_singleton, not_or]
      exact ⟨hreturn, htext.1⟩
  | @newline text more _ ih =>
    rw [List.mem_cons, not_or] at htext
    have hrest : lines ([] ++ text) = lines ([] ++ more) :=
      ih htext.2 List.not_mem_nil List.not_mem_nil
    rw [lines_line hnewline, lines_line hnewline]
    exact congrArg _ hrest
  | @returned text more _ ih =>
    rw [List.mem_cons, not_or] at htext
    have hrest : lines ([] ++ text) = lines ([] ++ more) :=
      ih htext.2 List.not_mem_nil List.not_mem_nil
    have hfront : '\n' ∉ front ++ ['\r'] := by
      rw [List.mem_append, List.mem_singleton, not_or]
      exact ⟨hnewline, by decide⟩
    rw [List.append_cons front '\r', lines_line hnewline, lines_line hfront, dropCarriageReturn,
      dropCarriageReturn, if_neg fun h => hreturn (List.mem_of_getLast? h),
      if_pos List.getLast?_concat, List.dropLast_concat]
    exact congrArg _ hrest

/-- The lines are the same. -/
theorem lines_eq (h : AddsReturns text more) (htext : '\r' ∉ text) : lines text = lines more := by
  have hnil : ∀ c : Char, c ∉ [] := fun _ => List.not_mem_nil
  exact h.lines_append_eq htext (hnil '\n') (hnil '\r')

end AddsReturns

/-! ### Comments -/

/-- Whether a token is no text in quotes that goes on in the next line. -/
def Token.StaysOnLine : Token → Prop
  | literal _ text _ => '\n' ∉ text
  | _ => True

theorem filter_withReturns (text : List Char) :
    (withReturns text).filter (· = '\n') = text.filter (· = '\n') := by
  induction text with
  | nil => rfl
  | cons c text ih =>
    by_cases hc : c = '\n'
    · rw [hc, withReturns_newline, List.filter_cons_of_neg (by simp), List.filter_cons,
        List.filter_cons, ih]
    · rw [withReturns_cons hc, List.filter_cons, List.filter_cons, ih]

namespace Token

theorem single_precedes_withReturns (h : (single c).Precedes rest) :
    (single c).Precedes (withReturns rest) := by
  cases h with
  | single hquote hmark =>
    refine .single hquote fun d hd hopens => ?_
    rw [head?_withReturns] at hd
    obtain ⟨e, he, hde⟩ := Option.map_eq_some_iff.1 hd
    split at hde
    · rw [← hde] at hopens
      exact absurd hopens.2 (by decide)
    · exact hmark e he (hde ▸ hopens)

theorem blockComment_precedes_withReturns (h : (blockComment text closing).Precedes rest) :
    (blockComment (withReturns text) closing).Precedes (withReturns rest) := by
  cases h with
  | blockComment htext hclosing =>
    have hend : withReturns closing.dropLast = closing.dropLast := by cases hclosing <;> rfl
    refine .blockComment (fun h => htext ?_) ?_
    · rw [← hend, ← withReturns_append] at h
      exact (infix_of_infix_withReturns (by decide) (by decide) h).2
    · cases hclosing with
      | mark => exact .mark _
      | source => exact .source

theorem GoesOn.concat (h : GoesOn quote text) (hc : c ≠ quote ∧ c ≠ '\n' ∧ c ≠ '\\') :
    GoesOn quote (text ++ [c]) := by
  induction h with
  | nil => exact .plain hc .nil
  | plain hd _ ih => exact .plain hd ih
  | escaped d _ ih => exact .escaped d ih

/-- A token on one line is read as it was. -/
theorem addsReturns_of_not_mem (h : token.Precedes (withReturns rest))
    (hnot : '\n' ∉ token.written)
    (hrest : AddsReturns (stripFrom .code rest) (stripFrom .code (withReturns rest))) :
    AddsReturns (token.kept ++ stripFrom .code rest)
      (stripFrom .code (withReturns token.written ++ withReturns rest)) := by
  rw [withReturns_of_not_mem hnot, stripFrom_written h]
  exact (AddsReturns.refl token.kept).append hrest

/-- The carriage return behind a comment is taken for a part of it. -/
theorem lineComment_addsReturns (htext : '\n' ∉ text)
    (hrest : AddsReturns (stripFrom .code ('\n' :: rest))
      (stripFrom .code (withReturns ('\n' :: rest)))) :
    AddsReturns ((lineComment text).kept ++ stripFrom .code ('\n' :: rest))
      (stripFrom .code (withReturns (lineComment text).written ++ withReturns ('\n' :: rest))) := by
  have hnot : '\n' ∉ (lineComment text).written := by simp [written, htext]
  have hlonger : (lineComment (text ++ ['\r'])).Precedes ('\n' :: withReturns rest) :=
    .lineComment (by simp [htext]) fun c hc => (Option.some.inj hc).symm
  have hwritten : withReturns (lineComment text).written ++ withReturns ('\n' :: rest) =
      (lineComment (text ++ ['\r'])).written ++ '\n' :: withReturns rest := by
    rw [withReturns_of_not_mem hnot, withReturns_newline, written, written]
    simp
  rw [hwritten, stripFrom_written hlonger]
  exact hrest.of_returned

/-- A comment between marks is left out with its carriage returns. -/
theorem blockComment_addsReturns (h : (blockComment text closing).Precedes rest)
    (hrest : AddsReturns (stripFrom .code rest) (stripFrom .code (withReturns rest))) :
    AddsReturns ((blockComment text closing).kept ++ stripFrom .code rest)
      (stripFrom .code (withReturns (blockComment text closing).written ++ withReturns rest)) := by
  have hreturned := blockComment_precedes_withReturns h
  have hmark : withReturns closing = closing := by
    cases h with
    | blockComment _ hclosing => cases hclosing <;> rfl
  have hwritten : withReturns (blockComment text closing).written =
      (blockComment (withReturns text) closing).written := by
    rw [written, withReturns_cons (by decide), withReturns_cons (by decide), withReturns_append,
      hmark, written]
  rw [hwritten, stripFrom_written hreturned, kept, kept, filter_withReturns]
  exact (AddsReturns.refl _).append hrest

/-- A text that its line ends has the carriage return in it. -/
theorem literal_addsReturns (hquote : quote = '"' ∨ quote = '\'') (htext : GoesOn quote text)
    (hnot : '\n' ∉ text)
    (hrest : AddsReturns (stripFrom .code rest) (stripFrom .code (withReturns rest))) :
    AddsReturns ((literal quote text ['\n']).kept ++ stripFrom .code rest)
      (stripFrom .code (withReturns (literal quote text ['\n']).written ++ withReturns rest)) := by
  have hne : quote ≠ '\n' := by rcases hquote with rfl | rfl <;> decide
  have hreturned : (literal quote (text ++ ['\r']) ['\n']).Precedes (withReturns rest) :=
    .literal hquote (htext.concat (by rcases hquote with rfl | rfl <;> decide)) (.newline _)
  have hwritten : withReturns (literal quote text ['\n']).written =
      (literal quote (text ++ ['\r']) ['\n']).written := by
    rw [written, withReturns_cons hne, withReturns_append, withReturns_of_not_mem hnot, written]
    simp [withReturns]
  have hkept : AddsReturns (quote :: text ++ ['\n']) (quote :: text ++ ['\r', '\n']) :=
    (AddsReturns.refl _).append (.returned .nil)
  rw [hwritten, stripFrom_written hreturned, kept, kept, List.append_assoc]
  exact hkept.append hrest

/-- Comments leave the same of a token, but for carriage returns. -/
theorem Precedes.addsReturns (h : token.Precedes rest) (hstays : token.StaysOnLine)
    (hrest : AddsReturns (stripFrom .code rest) (stripFrom .code (withReturns rest))) :
    AddsReturns (stripFrom .code (token.written ++ rest))
      (stripFrom .code (withReturns (token.written ++ rest))) := by
  rw [stripFrom_written h, withReturns_append]
  cases h with
  | lineComment htext hend =>
    cases rest with
    | nil =>
      exact addsReturns_of_not_mem (.lineComment htext hend) (by simp [written, htext]) hrest
    | cons c rest =>
      cases hend c rfl
      exact lineComment_addsReturns htext hrest
  | blockComment htext hclosing =>
    exact blockComment_addsReturns (.blockComment htext hclosing) hrest
  | @literal quote text closing _ hquote htext hclosing =>
    have hne : '\n' ≠ quote := by rcases hquote with rfl | rfl <;> decide
    have hnot : '\n' ∉ text := hstays
    cases hclosing with
    | newline => exact literal_addsReturns hquote htext hnot hrest
    | quote =>
      exact addsReturns_of_not_mem (.literal hquote htext (.quote _))
        (by simp [written, hnot, hne]) hrest
    | source =>
      exact addsReturns_of_not_mem (.literal hquote htext .source)
        (by simp [written, hnot, hne]) hrest
    | backslash =>
      exact addsReturns_of_not_mem (.literal hquote htext .backslash)
        (by simp [written, hnot, hne]) hrest
  | @single c _ hquote hmark =>
    by_cases hc : c = '\n'
    · subst hc
      exact hrest.returned
    · exact addsReturns_of_not_mem (single_precedes_withReturns (.single hquote hmark))
        (fun h => hc (List.mem_singleton.1 h).symm) hrest

end Token

theorem Splits.addsReturns (h : Splits tokens source) (hstays : ∀ token ∈ tokens, token.StaysOnLine) :
    AddsReturns (stripComments source) (stripComments (withReturns source)) := by
  induction h with
  | nil => exact .refl _
  | cons h hrest ih =>
    exact h.addsReturns (hstays _ List.mem_cons_self)
      (ih fun token htoken => hstays token (List.mem_cons_of_mem _ htoken))

/-- **Line ends do not matter**, if no text in quotes goes on behind the end of its line: with a
    carriage return in front of each line feed, a source has the same directives. -/
theorem directives_withReturns (h : '\r' ∉ source)
    (hstays : ∀ token ∈ tokenize (joinLines source), token.StaysOnLine) :
    directives (withReturns source) = directives source := by
  have hadds := (splits_iff.2 rfl).addsReturns hstays
  have hreturn : '\r' ∉ stripComments (joinLines source) := fun hin =>
    (mem_of_mem_stripFrom hin).elim (fun hin => h (mem_of_mem_joinLines hin)) (by decide)
  rw [directives, directives, joinLines_withReturns h, hadds.lines_eq hreturn]

instance : DecidablePred Token.StaysOnLine
  | .literal _ text _ => inferInstanceAs (Decidable ('\n' ∉ text))
  | .lineComment _ | .blockComment _ _ | .single _ => isTrue trivial

/-- A source with lines that end everywhere they can: in comments of both kinds, in quotes, behind the
    name in a directive and, after a backslash that goes on in the next line, between two words. -/
def broken : List Char :=
  "/* \"\n**//*\\\\\n\n*/#inc\\\nlude \"a.h\"// '\n\"it's\\\"/*\n#import <b.h>".toList

theorem directives_withReturns_broken :
    '\r' ∉ broken ∧ (∀ token ∈ tokenize (joinLines broken), token.StaysOnLine) ∧
    directives (withReturns broken) = [⟨.quoted, "a.h".toList⟩, ⟨.angled, "b.h".toList⟩] := by
  have hreturn : '\r' ∉ broken := by decide
  have hstays : ∀ token ∈ tokenize (joinLines broken), token.StaysOnLine := by decide +kernel
  refine ⟨hreturn, hstays, ?_⟩
  rw [directives_withReturns hreturn hstays]
  decide +kernel

/-- A text in quotes with two backslashes at the end of its line, and an empty line behind it. The
    first backslash keeps the text open where lines end with a line feed, so the mark on the next line
    opens no comment. -/
def leftOpen : List Char := "char *s = \"\\\\\n\n/*\n#include \"a.h\"\n".toList

/-- With a carriage return in front of each line feed, the directive is lost. -/
theorem directives_depend_on_returns :
    '\r' ∉ leftOpen ∧ directives leftOpen = [⟨.quoted, "a.h".toList⟩] ∧
      directives (withReturns leftOpen) = [] :=
  ⟨by decide, by decide +kernel, by decide +kernel⟩

end PrecompiledHeaders.Directive

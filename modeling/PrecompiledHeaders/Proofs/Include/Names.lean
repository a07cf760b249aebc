import PrecompiledHeaders.Proofs.Include.Lines

/-!
# Names of headers

A directive on a line of its own is to be read as it is written, if its name has no character that
ends the name or the line. This holds of all names in quotes, whatever marks of comments they have.
But where comments are taken out, angle brackets are not known, so a name in them is taken for code:
the directive is read if and only if no comment opens in its name
(`Directive.names_are_read_literally`).
-/

namespace PrecompiledHeaders

open Directive

/-- What names are taken for where comments are taken out. -/
def Quotation.region : Quotation → Region
  | .quoted => .literal '"'
  | .angled => .code

theorem Quotation.isOutside_region (quotation : Quotation) : quotation.region.IsOutside := by
  cases quotation with
  | quoted => exact .literal (.inl rfl)
  | angled => exact .code

namespace Directive

variable {directive : Directive} {c : Char} {name : List Char}

/-- Whether a directive on a line of its own is read, and all else is read as without the line. -/
def IsRead (directive : Directive) : Prop :=
  ∀ before rest after, StartsLine before → EndsLine rest after →
    directives (before ++ (directive.asLine ++ rest)) =
      directives before ++ directive :: directives after

/-- Whether nothing in a name ends the name or the line. -/
structure IsSpelled (directive : Directive) : Prop where
  ne_nil : directive.spelling ≠ []
  closing : directive.quotation.closing ∉ directive.spelling
  newline : '\n' ∉ directive.spelling
  backslash : '\\' ∉ directive.spelling

/-! ### Regions of names -/

theorem after_lead (quotation : Quotation) :
    Region.code.after (lead quotation) = quotation.region := by
  cases quotation <;> rfl

theorem apart_lead (quotation : Quotation) (text : List Char) :
    Region.Apart (lead quotation) text := by
  have hlast : (lead quotation).getLast? = some quotation.opening := List.getLast?_concat
  refine Region.apart_of_getLast? (fun c hc => ?_) text
  obtain rfl : quotation.opening = c := Option.some.inj (hlast.symm.trans hc)
  cases quotation <;> decide

theorem not_opensComment_lead (quotation : Quotation) :
    ¬Region.code.OpensComment (lead quotation) := by
  apply Region.not_opensComment_of_not_mem
  cases quotation <;> decide

/-- In code, a comment opens on the line of a directive if it opens in the name. -/
theorem opensComment_asLine (h : '\\' ∉ directive.spelling) :
    Region.code.OpensComment directive.asLine ↔
      directive.quotation.region.OpensComment directive.spelling := by
  have hname : Region.Apart directive.spelling [directive.quotation.closing] := by
    refine Region.apart_of_head? (fun hlast => h (List.mem_of_getLast? hlast)) fun d hd => ?_
    cases hd
    cases directive.quotation <;> decide
  rw [asLine, Region.opensComment_append .code (not_opensComment_lead _) (apart_lead _ _),
    after_lead]
  refine ⟨fun hopens => ?_, fun hopens => hopens.append _⟩
  by_contra hnot
  rw [Region.opensComment_append (Quotation.isOutside_region _) hnot hname] at hopens
  refine Region.not_opensComment_of_not_mem ?_ hopens
  cases directive.quotation <;> decide

/-! ### Reading names -/

theorem not_mem_asLine (hlead : c ∉ lead directive.quotation) (hname : c ∉ directive.spelling)
    (hclosing : c ≠ directive.quotation.closing) : c ∉ directive.asLine := by
  rw [asLine, List.mem_append, List.mem_append, List.mem_singleton, not_or, not_or]
  exact ⟨hlead, hname, hclosing⟩

theorem IsSpelled.newline_not_mem (h : directive.IsSpelled) : '\n' ∉ directive.asLine := by
  refine not_mem_asLine ?_ h.newline ?_ <;> cases directive.quotation <;> decide

theorem IsSpelled.backslash_not_mem (h : directive.IsSpelled) : '\\' ∉ directive.asLine := by
  refine not_mem_asLine ?_ h.backslash ?_ <;> cases directive.quotation <;> decide

theorem standsAlone_asLine (h : directive.IsSpelled)
    (hcomment : ¬directive.quotation.region.OpensComment directive.spelling) :
    StandsAlone directive.asLine where
  start := rfl
  newline := h.newline_not_mem
  backslash := h.backslash_not_mem
  carriageReturn := by
    rw [asLine, ← List.append_assoc, List.getLast?_concat]
    cases directive.quotation <;> decide
  comment := by rwa [opensComment_asLine h.backslash]

/-- A name that is read is shorter than what comments leave of the line behind its lead. -/
theorem length_spelling_lt {found : Directive} (h : directive.IsSpelled)
    (hfound : found ∈ directives directive.asLine) : found.spelling.length <
      (stripFrom directive.quotation.region
        (directive.spelling ++ [directive.quotation.closing])).length := by
  have hjoin : joinLines directive.asLine = directive.asLine := by
    have hline := joinLines_append_of_not_mem h.backslash_not_mem []
    rwa [joinLines_nil, List.append_nil] at hline
  have hnewline : '\n' ∉ stripFrom .code directive.asLine := fun hin =>
    (mem_of_mem_stripFrom hin).elim h.newline_not_mem (by decide)
  have hstrip : stripFrom .code directive.asLine = lead directive.quotation ++
      stripFrom directive.quotation.region
        (directive.spelling ++ [directive.quotation.closing]) := by
    rw [asLine, stripFrom_append (apart_lead _ _),
      stripFrom_eq_self .code (not_opensComment_lead _), after_lead]
  have hne : stripFrom .code directive.asLine ≠ [] := by
    rw [hstrip]
    refine List.append_ne_nil_of_left_ne_nil ?_ _
    cases directive.quotation <;> decide
  rw [directives, hjoin, stripComments, lines_of_not_mem hnewline hne, List.mem_filterMap] at hfound
  obtain ⟨line, hline, hread⟩ := hfound
  rw [List.mem_singleton.1 hline, hstrip, directive?_lead, Option.bind_eq_some_iff] at hread
  obtain ⟨name, hname, hread⟩ := hread
  cases hread
  exact length_lt_of_name? hname

/-- The names that are read are those in which no comment opens. -/
theorem isRead_iff (h : directive.IsSpelled) :
    directive.IsRead ↔ ¬directive.quotation.region.OpensComment directive.spelling := by
  constructor
  · intro hread hopens
    have hline := hread [] [] [] startsLine_nil .source
    rw [List.nil_append, List.append_nil] at hline
    have hname := length_spelling_lt h (hline ▸ List.mem_append_right _ List.mem_cons_self)
    have hshorter := length_stripFrom_lt directive.quotation.isOutside_region
      (hopens.append [directive.quotation.closing])
    rw [List.length_append, List.length_singleton] at hshorter
    omega
  · intro hcomment before rest after hbefore hrest
    rw [directives_around hbefore (standsAlone_asLine h hcomment) hrest,
      directive?_asLine h.ne_nil h.closing]
    rfl

/-- **Names are read literally.** On a line of its own, wherever lines start outside of comments and
    however they end, a directive is read with its name in quotes, and all else is read as without
    it. A name in angle brackets is read so if and only if no comment opens in it. -/
theorem names_are_read_literally (hne : name ≠ []) (hnewline : '\n' ∉ name)
    (hbackslash : '\\' ∉ name) :
    ('"' ∉ name → (Directive.mk .quoted name).IsRead) ∧
    ('>' ∉ name → ((Directive.mk .angled name).IsRead ↔ ¬Region.code.OpensComment name)) :=
  ⟨fun hclosing => (isRead_iff ⟨hne, hclosing, hnewline, hbackslash⟩).2
    (Region.not_opensComment_literal hclosing hnewline hbackslash),
    fun hclosing => isRead_iff ⟨hne, hclosing, hnewline, hbackslash⟩⟩

/-- A name with all marks of comments behind a quote that does not end. -/
def quoting : List Char := "it's//a/*.h".toList

/-- The name is read in both forms, here behind a comment and with a line of its own behind it. -/
theorem names_are_read_literally_quoting :
    quoting ≠ [] ∧ '\n' ∉ quoting ∧ '\\' ∉ quoting ∧ '"' ∉ quoting ∧ '>' ∉ quoting ∧
    (Directive.mk .quoted quoting).IsRead ∧ (Directive.mk .angled quoting).IsRead ∧
    directives ("/* \"\n */ int\n".toList ++ ((Directive.mk .angled quoting).asLine ++
        '\r' :: '\n' :: "#include \"c.h\"".toList)) =
      [⟨.angled, quoting⟩, ⟨.quoted, "c.h".toList⟩] := by
  have hne : quoting ≠ [] := by decide
  have hread := names_are_read_literally hne (by decide) (by decide)
  have hangled := (hread.2 (by decide)).2 (by decide +kernel)
  have hlast : (joinLines "/* \"\n */ int\n".toList).getLast? = some '\n' := by decide +kernel
  have hbefore : StartsLine "/* \"\n */ int\n".toList :=
    ⟨fun c hc => (Option.some.inj (hlast.symm.trans hc)).symm, by decide +kernel⟩
  refine ⟨hne, by decide, by decide, by decide, by decide, hread.1 (by decide), hangled, ?_⟩
  rw [hangled _ _ _ hbefore (.carriageReturn _)]
  decide +kernel

/-- In angle brackets, two slashes take the directive away, and a slash and a star take the next
    line along. Lines with these names in quotes are read. -/
theorem name_in_brackets_is_lost :
    '>' ∉ "a//b.h".toList ∧ '>' ∉ "a/*.h".toList ∧
    directives "#include <a//b.h>\n#include \"c.h\"\n".toList = [⟨.quoted, "c.h".toList⟩] ∧
    directives "#include <a/*.h>\n#include \"c.h\"\n".toList = [] ∧
    directives "#include \"a//b.h\"\n#include \"a/*.h\"\n#include \"c.h\"\n".toList =
      [⟨.quoted, "a//b.h".toList⟩, ⟨.quoted, "a/*.h".toList⟩, ⟨.quoted, "c.h".toList⟩] ∧
    ¬(Directive.mk .angled "a//b.h".toList).IsRead ∧
    ¬(Directive.mk .angled "a/*.h".toList).IsRead := by
  have hlost (name : List Char) (h : (Directive.mk .angled name).IsSpelled)
      (hopens : Region.code.OpensComment name) : ¬(Directive.mk .angled name).IsRead :=
    fun hread => (isRead_iff h).1 hread hopens
  exact ⟨by decide, by decide, by decide +kernel, by decide +kernel, by decide +kernel,
    hlost _ ⟨by decide, by decide, by decide, by decide⟩ (by decide +kernel),
    hlost _ ⟨by decide, by decide, by decide, by decide⟩ (by decide +kernel)⟩

end Directive

end PrecompiledHeaders

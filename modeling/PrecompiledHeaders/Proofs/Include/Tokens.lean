import PrecompiledHeaders.Proofs.Include.Regions
import Mathlib.Data.List.TakeWhile

/-!
# Tokens

A source is made of comments, texts in quotes and other characters, its *tokens*. The grammar says
which tokens can stand in front of which text (`Token.Precedes`), and leaves no choice: each source is
split in one way (`Directive.splits_iff`), which a reader finds from left to right (`Directive.tokenize`).

Comments are taken out token by token (`Directive.Splits.stripComments_eq`). What is left has tokens of
its own, none of which is a comment (`Directive.Splits.remains`), so nothing is left to be taken out a
second time.
-/

namespace PrecompiledHeaders.Directive

/-- A part of a source that is read as a whole. -/
inductive Token
  /-- Two slashes, and what stands behind them on the line. -/
  | lineComment (text : List Char)
  /-- A slash and a star, what stands behind them, and the mark that ends it. -/
  | blockComment (text closing : List Char)
  /-- A quote, what stands behind it, and what ends it. -/
  | literal (quote : Char) (text closing : List Char)
  /-- Any other character. -/
  | single (c : Char)

namespace Token

/-- The token as it is written. -/
def written : Token → List Char
  | lineComment text => '/' :: '/' :: text
  | blockComment text closing => '/' :: '*' :: (text ++ closing)
  | literal quote text closing => quote :: (text ++ closing)
  | single c => [c]

/-- What is left of the token without comments: of a comment between marks, a blank and the line
    feeds in it. -/
def kept : Token → List Char
  | lineComment _ => []
  | blockComment text _ => ' ' :: text.filter (· = '\n')
  | literal quote text closing => quote :: (text ++ closing)
  | single c => [c]

/-! ### The grammar -/

/-- Whether a text in quotes goes on to the end of a text. A backslash takes the next character with
    it, whatever that is. -/
inductive GoesOn (quote : Char) : List Char → Prop
  | nil : GoesOn quote []
  | plain {c : Char} {text : List Char} (hc : c ≠ quote ∧ c ≠ '\n' ∧ c ≠ '\\')
      (h : GoesOn quote text) : GoesOn quote (c :: text)
  | escaped (c : Char) {text : List Char} (h : GoesOn quote text) : GoesOn quote ('\\' :: c :: text)

/-- What ends a text in quotes in front of a rest: the same quote, a line feed, or the end of the
    source, where a backslash has nothing to take. -/
inductive EndsLiteral (quote : Char) : List Char → List Char → Prop
  | quote (rest : List Char) : EndsLiteral quote [quote] rest
  | newline (rest : List Char) : EndsLiteral quote ['\n'] rest
  | source : EndsLiteral quote [] []
  | backslash : EndsLiteral quote ['\\'] []

/-- What ends a comment between marks in front of a rest: the mark, or the end of the source. -/
inductive EndsComment : List Char → List Char → Prop
  | mark (rest : List Char) : EndsComment ['*', '/'] rest
  | source : EndsComment [] []

/-- Whether a token stands in front of a rest. Comments and texts in quotes end where they can end
    first. -/
inductive Precedes : Token → List Char → Prop
  | lineComment {text rest : List Char} (htext : '\n' ∉ text) (hrest : ∀ c ∈ rest.head?, c = '\n') :
      Precedes (lineComment text) rest
  | blockComment {text closing rest : List Char} (htext : ¬['*', '/'] <:+: text ++ closing.dropLast)
      (hclosing : EndsComment closing rest) : Precedes (blockComment text closing) rest
  | literal {quote : Char} {text closing rest : List Char} (hquote : quote = '"' ∨ quote = '\'')
      (htext : GoesOn quote text) (hclosing : EndsLiteral quote closing rest) :
      Precedes (literal quote text closing) rest
  | single {c : Char} {rest : List Char} (hquote : ¬(c = '"' ∨ c = '\''))
      (hmark : ∀ d ∈ rest.head?, ¬(c = '/' ∧ (d = '/' ∨ d = '*'))) : Precedes (single c) rest

end Token

/-- Whether a source is split into tokens. -/
inductive Splits : List Token → List Char → Prop
  | nil : Splits [] []
  | cons {token : Token} {tokens : List Token} {rest : List Char} (h : token.Precedes rest)
      (hrest : Splits tokens rest) : Splits (token :: tokens) (token.written ++ rest)

/-! ### Reading tokens -/

/-- What stands in front of the mark that ends a comment, that mark, and the rest. -/
def upToMark : List Char → List Char × List Char × List Char
  | [] => ([], [], [])
  | '*' :: '/' :: rest => ([], ['*', '/'], rest)
  | c :: rest => (c :: (upToMark rest).1, (upToMark rest).2)

/-- What stands in front of the end of a text in quotes, that end, and the rest. -/
def upToQuote (quote : Char) : List Char → List Char × List Char × List Char
  | [] => ([], [], [])
  | ['\\'] => ([], ['\\'], [])
  | '\\' :: c :: rest => ('\\' :: c :: (upToQuote quote rest).1, (upToQuote quote rest).2)
  | c :: rest =>
    if c = quote ∨ c = '\n' then ([], [c], rest)
    else (c :: (upToQuote quote rest).1, (upToQuote quote rest).2)

/-- The first token of a source, and the rest. -/
def first? : List Char → Option (Token × List Char)
  | [] => none
  | '/' :: '/' :: rest =>
    some (.lineComment (rest.takeWhile (· ≠ '\n')), rest.dropWhile (· ≠ '\n'))
  | '/' :: '*' :: rest =>
    some (.blockComment (upToMark rest).1 (upToMark rest).2.1, (upToMark rest).2.2)
  | c :: rest =>
    if c = '"' ∨ c = '\'' then
      some (.literal c (upToQuote c rest).1 (upToQuote c rest).2.1, (upToQuote c rest).2.2)
    else some (.single c, rest)

variable {c quote : Char} {text closing rest source : List Char} {token : Token}
  {tokens : List Token}

open Token

/-- Where a comment goes on, its mark does not stand. -/
theorem not_mark_of_infix (htext : ¬['*', '/'] <:+: c :: (text ++ closing.dropLast))
    (hclosing : EndsComment closing rest) (behind : List Char) (hc : c = '*') :
    text ++ (closing ++ rest) ≠ '/' :: behind := by
  intro hslash
  cases text with
  | nil => cases hclosing <;> cases hslash
  | cons d text =>
    cases (List.cons.inj hslash).1
    exact htext (hc ▸ ⟨[], text ++ closing.dropLast, rfl⟩)

theorem upToMark_append (htext : ¬['*', '/'] <:+: text ++ closing.dropLast)
    (hclosing : EndsComment closing rest) :
    upToMark (text ++ (closing ++ rest)) = (text, closing, rest) := by
  induction text with
  | nil => cases hclosing <;> rfl
  | cons c text ih =>
    have hmark := not_mark_of_infix htext hclosing
    rw [List.cons_append, List.infix_cons_iff, not_or] at htext
    rw [List.cons_append, upToMark, ih htext.2]
    exact hmark

/-- What is read up to a mark is what the grammar makes of it. -/
theorem upToMark_spec (source : List Char) : ∃ text closing rest,
    upToMark source = (text, closing, rest) ∧ source = text ++ (closing ++ rest) ∧
      ¬['*', '/'] <:+: text ++ closing.dropLast ∧ EndsComment closing rest := by
  fun_induction upToMark source with
  | case1 => exact ⟨[], [], [], rfl, rfl, by simp, .source⟩
  | case2 rest => exact ⟨[], ['*', '/'], rest, rfl, rfl, by simp [List.infix_cons_iff], .mark rest⟩
  | case3 c source hmark ih =>
    obtain ⟨text, closing, rest, hread, rfl, htext, hclosing⟩ := ih
    refine ⟨c :: text, closing, rest, by rw [hread], rfl, ?_, hclosing⟩
    rw [List.cons_append, List.infix_cons_iff, not_or]
    refine ⟨fun hleads => ?_, htext⟩
    obtain ⟨rfl, hslash⟩ := List.cons_prefix_cons.1 hleads
    have hclosed : closing.dropLast <+: closing ++ rest :=
      (List.dropLast_prefix closing).trans (List.prefix_append closing rest)
    obtain ⟨behind, hbehind⟩ := hslash.trans ((List.prefix_append_right_inj text).2 hclosed)
    exact hmark behind rfl hbehind.symm

/-- What ends a text in quotes takes no next character with it. -/
theorem ne_backslash_of_ends (hquote : quote = '"' ∨ quote = '\'') (hc : c = quote ∨ c = '\n') :
    c ≠ '\\' := by
  rcases hc with rfl | rfl
  · rcases hquote with rfl | rfl <;> decide
  · decide

theorem upToQuote_closing (hquote : quote = '"' ∨ quote = '\'') (hc : c = quote ∨ c = '\n')
    (rest : List Char) : upToQuote quote (c :: rest) = ([], [c], rest) := by
  have hne := ne_backslash_of_ends hquote hc
  rw [upToQuote, if_pos hc]
  · exact fun h _ => hne h
  · exact fun _ _ h _ => hne h

theorem upToQuote_append (hquote : quote = '"' ∨ quote = '\'') (htext : GoesOn quote text)
    (hclosing : EndsLiteral quote closing rest) :
    upToQuote quote (text ++ (closing ++ rest)) = (text, closing, rest) := by
  induction htext with
  | nil =>
    cases hclosing with
    | quote => exact upToQuote_closing hquote (.inl rfl) rest
    | newline => exact upToQuote_closing hquote (.inr rfl) rest
    | source | backslash => rfl
  | @plain c text hc h ih =>
    rw [List.cons_append, upToQuote, if_neg (not_or.2 ⟨hc.1, hc.2.1⟩), ih]
    · exact fun h _ => hc.2.2 h
    · exact fun _ _ h _ => hc.2.2 h
  | escaped c h ih => rw [List.cons_append, List.cons_append, upToQuote, ih]

theorem upToQuote_spec (quote : Char) (source : List Char) : ∃ text closing rest,
    upToQuote quote source = (text, closing, rest) ∧ source = text ++ (closing ++ rest) ∧
      GoesOn quote text ∧ EndsLiteral quote closing rest := by
  fun_induction upToQuote quote source with
  | case1 => exact ⟨[], [], [], rfl, rfl, .nil, .source⟩
  | case2 => exact ⟨[], ['\\'], [], rfl, rfl, .nil, .backslash⟩
  | case3 c source ih =>
    obtain ⟨text, closing, rest, hread, rfl, htext, hclosing⟩ := ih
    exact ⟨'\\' :: c :: text, closing, rest, by rw [hread], rfl, .escaped c htext, hclosing⟩
  | case4 c rest hsingle hescape hends =>
    refine ⟨[], [c], rest, rfl, rfl, .nil, ?_⟩
    rcases hends with rfl | rfl
    · exact .quote rest
    · exact .newline rest
  | case5 c source hsingle hescape hends ih =>
    have hc : c ≠ '\\' := by
      rintro rfl
      cases source with
      | nil => exact hsingle rfl rfl
      | cons d source => exact hescape d source rfl rfl
    obtain ⟨text, closing, rest, hread, rfl, htext, hclosing⟩ := ih
    rw [not_or] at hends
    exact ⟨c :: text, closing, rest, by rw [hread], rfl, .plain ⟨hends.1, hends.2, hc⟩ htext, hclosing⟩

theorem first?_written (h : token.Precedes rest) :
    first? (token.written ++ rest) = some (token, rest) := by
  cases h with
  | @lineComment text _ htext hrest =>
    have hin : ∀ c ∈ text, decide (c ≠ '\n') := fun c hc =>
      decide_eq_true fun heq => htext (heq ▸ hc)
    have hout : rest.takeWhile (· ≠ '\n') = [] ∧ rest.dropWhile (· ≠ '\n') = rest := by
      cases rest with
      | nil => exact ⟨rfl, rfl⟩
      | cons c rest =>
        cases hrest c rfl
        exact ⟨rfl, rfl⟩
    rw [written, List.cons_append, List.cons_append, first?, List.takeWhile_append_of_pos hin,
      List.dropWhile_append_of_pos hin, hout.1, hout.2, List.append_nil]
  | @blockComment text closing _ htext hclosing =>
    rw [written, List.cons_append, List.cons_append, List.append_assoc, first?,
      upToMark_append htext hclosing]
  | @literal quote text closing _ hquote htext hclosing =>
    have hslash : quote ≠ '/' := by rcases hquote with rfl | rfl <;> decide
    rw [written, List.cons_append, List.append_assoc, first?, if_pos hquote,
      upToQuote_append hquote htext hclosing]
    · exact fun _ h _ => hslash h
    · exact fun _ h _ => hslash h
  | @single c _ hquote hmark =>
    rw [written, List.singleton_append, first?, if_neg hquote]
    · rintro _ rfl rfl
      exact hmark '/' rfl ⟨rfl, .inl rfl⟩
    · rintro _ rfl rfl
      exact hmark '*' rfl ⟨rfl, .inr rfl⟩

/-- What is read first is what the grammar allows in front of the rest. -/
theorem first?_eq_some_iff :
    first? source = some (token, rest) ↔ token.Precedes rest ∧ source = token.written ++ rest := by
  refine ⟨fun h => ?_, fun ⟨hrest, hsource⟩ => hsource ▸ first?_written hrest⟩
  fun_cases first? source with
  | case1 => cases h
  | case2 behind =>
    rw [first?, Option.some.injEq, Prod.mk.injEq] at h
    obtain ⟨rfl, rfl⟩ := h
    have hhead := List.head?_dropWhile_not (fun c => decide (c ≠ '\n')) behind
    refine ⟨.lineComment (fun hin => ?_) fun c hc => ?_, ?_⟩
    · exact absurd (List.mem_takeWhile_imp hin) (by decide)
    · rw [Option.mem_def.1 hc] at hhead
      simpa using hhead
    · rw [written, List.cons_append, List.cons_append, List.takeWhile_append_dropWhile]
  | case3 behind =>
    obtain ⟨text, closing, others, hread, rfl, htext, hclosing⟩ := upToMark_spec behind
    rw [first?, hread] at h
    cases h
    refine ⟨.blockComment htext hclosing, ?_⟩
    rw [written, List.cons_append, List.cons_append, List.append_assoc]
  | case4 c behind hline hblock hquote =>
    obtain ⟨text, closing, others, hread, rfl, htext, hclosing⟩ := upToQuote_spec c behind
    rw [first?, if_pos hquote, hread] at h
    · cases h
      refine ⟨.literal hquote htext hclosing, ?_⟩
      rw [written, List.cons_append, List.append_assoc]
    · exact hline
    · exact hblock
  | case5 c behind hline hblock hquote =>
    rw [first?, if_neg hquote] at h
    · cases h
      refine ⟨.single hquote fun d hd => ?_, rfl⟩
      obtain ⟨others, rfl⟩ := List.head?_eq_some_iff.1 hd
      rintro ⟨rfl, rfl | rfl⟩
      · exact hline others rfl rfl
      · exact hblock others rfl rfl
    · exact hline
    · exact hblock

theorem first?_eq_none_iff : first? source = none ↔ source = [] := by
  fun_cases first? source <;> simp_all

theorem Token.length_written_pos (token : Token) : 0 < token.written.length := by
  cases token <;> exact Nat.succ_pos _

/-- The tokens of a source. -/
def tokenize (source : List Char) : List Token :=
  match _h : first? source with
  | none => []
  | some (token, rest) => token :: tokenize rest
termination_by source.length
decreasing_by
  obtain ⟨-, rfl⟩ := first?_eq_some_iff.1 _h
  have := token.length_written_pos
  rw [List.length_append]
  omega

/-- A source is split in one way. -/
theorem splits_iff : Splits tokens source ↔ tokenize source = tokens := by
  constructor
  · intro h
    induction h with
    | nil =>
      rw [tokenize]
      rfl
    | cons h hrest ih =>
      rw [tokenize]
      split
      · next heq => cases heq.symm.trans (first?_written h)
      · next heq =>
        cases heq.symm.trans (first?_written h)
        rw [ih]
  · rintro rfl
    fun_induction tokenize source with
    | case1 source h =>
      rw [first?_eq_none_iff.1 h]
      exact .nil
    | case2 source token rest h ih =>
      obtain ⟨hrest, rfl⟩ := first?_eq_some_iff.1 h
      exact .cons hrest ih

theorem Splits.flatMap_written (h : Splits tokens source) : tokens.flatMap written = source := by
  induction h with
  | nil => rfl
  | cons h hrest ih => rw [List.flatMap_cons, ih]

/-! ### Taking comments out -/

theorem stripFrom_lineComment (htext : '\n' ∉ text) (hrest : ∀ c ∈ rest.head?, c = '\n') :
    stripFrom .lineComment (text ++ rest) = stripFrom .code rest := by
  induction text with
  | nil =>
    cases rest with
    | nil => rw [List.nil_append, stripFrom, stripFrom]
    | cons c rest =>
      cases hrest c rfl
      rfl
  | cons c text ih =>
    rw [List.mem_cons, not_or] at htext
    rw [List.cons_append, stripFrom, if_neg (Ne.symm htext.1), ih htext.2]

theorem stripFrom_blockComment (htext : ¬['*', '/'] <:+: text ++ closing.dropLast)
    (hclosing : EndsComment closing rest) : stripFrom .blockComment (text ++ (closing ++ rest)) =
      text.filter (· = '\n') ++ stripFrom .code rest := by
  induction text with
  | nil =>
    cases hclosing with
    | mark => rfl
    | source =>
      rw [List.nil_append, List.nil_append, stripFrom, stripFrom]
      rfl
  | cons c text ih =>
    have hmark := not_mark_of_infix htext hclosing
    rw [List.cons_append, List.infix_cons_iff, not_or] at htext
    rw [List.cons_append, stripFrom, ih htext.2, List.filter_cons]
    · simp only [decide_eq_true_eq]
      split
      · next hc => rw [hc, List.cons_append]
      · rfl
    · exact hmark

theorem stripFrom_goesOn (htext : GoesOn quote text) (rest : List Char) :
    stripFrom (.literal quote) (text ++ rest) = text ++ stripFrom (.literal quote) rest := by
  induction htext with
  | nil => rfl
  | @plain c text hc h ih =>
    have halone : ∀ d, (Region.literal quote).pair? c d = none := fun d => if_neg hc.2.2
    rw [List.cons_append, stripFrom_single fun d _ => halone d, Region.next,
      if_neg (not_or.2 ⟨hc.1, hc.2.1⟩), ih]
    rfl
  | escaped c h ih =>
    rw [List.cons_append, List.cons_append, stripFrom, ih]
    rfl

theorem stripFrom_closing (hquote : quote = '"' ∨ quote = '\'')
    (hclosing : EndsLiteral quote closing rest) :
    stripFrom (.literal quote) (closing ++ rest) = closing ++ stripFrom .code rest := by
  have hends (c : Char) (hc : c = quote ∨ c = '\n') (rest : List Char) :
      stripFrom (.literal quote) (c :: rest) = c :: stripFrom .code rest := by
    have halone (d : Char) : (Region.literal quote).pair? c d = none :=
      if_neg (ne_backslash_of_ends hquote hc)
    rw [stripFrom_single fun d _ => halone d, Region.next, if_pos hc]
    rfl
  cases hclosing with
  | quote => exact hends quote (.inl rfl) rest
  | newline => exact hends '\n' (.inr rfl) rest
  | source =>
    rw [List.nil_append, stripFrom, stripFrom]
    rfl
  | backslash =>
    rw [List.append_nil, stripFrom_single (by simp), stripFrom, stripFrom]
    rfl

/-- Comments are taken out token by token. -/
theorem stripFrom_written (h : token.Precedes rest) :
    stripFrom .code (token.written ++ rest) = token.kept ++ stripFrom .code rest := by
  cases h with
  | lineComment htext hrest => exact stripFrom_lineComment htext hrest
  | blockComment htext hclosing =>
    rw [written, List.cons_append, List.cons_append, List.append_assoc, stripFrom,
      stripFrom_blockComment htext hclosing]
    rfl
  | @literal quote text closing _ hquote htext hclosing =>
    have halone (d : Char) : Region.code.pair? quote d = none := by
      rcases hquote with rfl | rfl <;> rfl
    rw [written, List.cons_append, List.append_assoc, stripFrom_single fun d _ => halone d,
      Region.next, if_pos hquote, stripFrom_goesOn htext, stripFrom_closing hquote hclosing,
      kept, List.cons_append, List.append_assoc]
    rfl
  | @single c _ hquote hmark =>
    have halone : ∀ d ∈ rest.head?, Region.code.pair? c d = none := fun d hd => by
      have hnot := hmark d hd
      simp only [Region.pair?]
      grind
    rw [written, List.singleton_append, stripFrom_single halone, Region.next, if_neg hquote]
    rfl

theorem Splits.stripComments_eq (h : Splits tokens source) :
    stripComments source = tokens.flatMap kept := by
  induction h with
  | nil =>
    rw [stripComments, stripFrom]
    rfl
  | cons h hrest ih =>
    rw [stripComments, stripFrom_written h, List.flatMap_cons, ← ih, stripComments]

/-! ### What is left -/

/-- No line feed is lost. -/
theorem Token.Precedes.count_kept (h : token.Precedes rest) :
    token.kept.count '\n' = token.written.count '\n' := by
  cases h with
  | lineComment htext =>
    rw [kept, written, List.count_cons_of_ne (by decide), List.count_cons_of_ne (by decide),
      List.count_eq_zero_of_not_mem htext]
    rfl
  | @blockComment text closing _ htext hclosing =>
    have hmark : closing.count '\n' = 0 := by cases hclosing <;> rfl
    rw [kept, written, List.count_cons_of_ne (by decide), List.count_cons_of_ne (by decide),
      List.count_cons_of_ne (by decide), List.count_filter (by decide), List.count_append, hmark,
      Nat.add_zero]
  | literal | single => rfl

theorem Splits.count_flatMap_kept (h : Splits tokens source) :
    (tokens.flatMap kept).count '\n' = source.count '\n' := by
  induction h with
  | nil => rfl
  | cons h hrest ih => rw [List.flatMap_cons, List.count_append, List.count_append, ih, h.count_kept]

/-- What is left of the token, as tokens. -/
def Token.remains : Token → List Token
  | lineComment _ => []
  | blockComment text closing => (blockComment text closing).kept.map single
  | token => [token]

theorem Token.flatMap_remains (token : Token) : token.remains.flatMap kept = token.kept := by
  have hsingle : (fun c => kept (single c)) = fun c => [c] := rfl
  cases token with
  | lineComment => rfl
  | blockComment text closing =>
    rw [remains, List.flatMap_map, hsingle, List.flatMap_singleton']
  | literal | single => exact List.flatMap_singleton ..

/-- What is left starts with what the source starts with, if that is no comment. -/
theorem head?_stripFrom (h : ∀ c ∈ source.head?, c ≠ '/') :
    (stripFrom .code source).head? = source.head? := by
  cases source with
  | nil => rw [stripFrom]
  | cons c rest =>
    have halone (d : Char) : Region.code.pair? c d = none := by
      simp [Region.pair?, h c rfl]
    rw [stripFrom_single fun d _ => halone d]
    rfl

theorem Token.EndsLiteral.stripFrom (h : EndsLiteral quote closing rest) :
    EndsLiteral quote closing (stripFrom .code rest) := by
  cases h with
  | quote => exact .quote _
  | newline => exact .newline _
  | source =>
    rw [Directive.stripFrom]
    exact .source
  | backslash =>
    rw [Directive.stripFrom]
    exact .backslash

theorem Splits.singles {front : List Char} (hfront : ∀ c ∈ front, c = ' ' ∨ c = '\n')
    (h : Splits tokens source) : Splits (front.map single ++ tokens) (front ++ source) := by
  induction front with
  | nil => exact h
  | cons c front ih =>
    have hsingle : (single c).Precedes (front ++ source) := by
      rcases hfront c List.mem_cons_self with rfl | rfl
      · exact .single (by decide) fun _ _ h => absurd h.1 (by decide)
      · exact .single (by decide) fun _ _ h => absurd h.1 (by decide)
    exact .cons hsingle (ih fun d hd => hfront d (List.mem_cons_of_mem c hd))

/-- What is left has no comments: none is opened by characters that a comment kept apart. -/
theorem Splits.remains (h : Splits tokens source) :
    Splits (tokens.flatMap Token.remains) (stripComments source) := by
  induction h with
  | nil =>
    rw [stripComments, stripFrom]
    exact .nil
  | @cons token tokens rest h hrest ih =>
    rw [stripComments, stripFrom_written h, List.flatMap_cons]
    cases h with
    | lineComment => exact ih
    | blockComment =>
      refine ih.singles fun c hc => ?_
      rcases List.mem_cons.1 hc with rfl | hc
      · exact .inl rfl
      · exact .inr (of_decide_eq_true (List.mem_filter.1 hc).2)
    | literal hquote htext hclosing =>
      exact .cons (.literal hquote htext hclosing.stripFrom) ih
    | @single c _ hquote hmark =>
      refine .cons (.single hquote fun d hd hopens => ?_) ih
      have hrest : ∀ e ∈ rest.head?, e ≠ '/' := fun e he heq => hmark e he ⟨hopens.1, .inl heq⟩
      rw [head?_stripFrom hrest] at hd
      exact hmark d hd hopens

/-- **Comments are taken out by the grammar.** A source is split into tokens in one way. What is left of
    it is what is left of its tokens, with all its line feeds, and nothing is taken out a second time. -/
theorem comments_follow_grammar (source : List Char) :
    (∃! tokens, Splits tokens source) ∧
    (∀ tokens, Splits tokens source → tokens.flatMap written = source ∧
      stripComments source = tokens.flatMap kept) ∧
    (stripComments source).count '\n' = source.count '\n' ∧
    stripComments (stripComments source) = stripComments source := by
  have hsplits : Splits (tokenize source) source := splits_iff.2 rfl
  refine ⟨⟨tokenize source, hsplits, fun tokens h => (splits_iff.1 h).symm⟩,
    fun tokens h => ⟨h.flatMap_written, h.stripComments_eq⟩, ?_, ?_⟩
  · rw [hsplits.stripComments_eq, hsplits.count_flatMap_kept]
  · rw [hsplits.remains.stripComments_eq, hsplits.stripComments_eq, List.flatMap_assoc]
    exact List.flatMap_congr fun token _ => token.flatMap_remains

/-- A mark that opens a comment does not close it, and a quote behind a backslash closes nothing. -/
example : stripComments "a/*/\n*/b// c\n\"//\\\"/*\"/ /**/".toList =
    "a \nb\n\"//\\\"/*\"/  ".toList := by decide +kernel

end PrecompiledHeaders.Directive

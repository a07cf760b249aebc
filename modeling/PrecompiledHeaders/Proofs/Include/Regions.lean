import PrecompiledHeaders.Include.Directive
import Mathlib.Data.List.Basic

/-!
# Where comments begin and end

Comments are taken out of a source character by character, but some characters are read together
with the next one: those of the marks around comments, and a backslash in a text in quotes
(`Region.pair?`). So the region in which a text ends (`Region.after`) says what to make of the text
behind it, if no two characters are read together across the border (`stripFrom_append`).

Outside of comments, all is kept until a comment opens (`Region.OpensComment`): a text without one
stays as it is (`stripFrom_eq_self`), and a text with one gets shorter (`length_stripFrom_lt`).
-/

namespace PrecompiledHeaders.Directive

namespace Region

/-- Two characters that are read together: what is kept of them, and the region behind them. -/
def pair? : Region → Char → Char → Option (List Char × Region)
  | .code, c, d =>
    if c = '/' ∧ d = '/' then some ([], .lineComment)
    else if c = '/' ∧ d = '*' then some ([' '], .blockComment)
    else none
  | .lineComment, _, _ => none
  | .blockComment, c, d => if c = '*' ∧ d = '/' then some ([], .code) else none
  | .literal quote, c, d => if c = '\\' then some (['\\', d], .literal quote) else none

/-- The region behind a character that is read alone. -/
def next : Region → Char → Region
  | .code, c => if c = '"' ∨ c = '\'' then .literal c else .code
  | .lineComment, c => if c = '\n' then .code else .lineComment
  | .blockComment, _ => .blockComment
  | .literal quote, c => if c = quote ∨ c = '\n' then .code else .literal quote

/-- What is kept of a character that is read alone. -/
def keep : Region → Char → List Char
  | .code, c | .literal _, c => [c]
  | .lineComment, c | .blockComment, c => if c = '\n' then ['\n'] else []

/-- The region in which a text ends. -/
def after : Region → List Char → Region
  | region, [] => region
  | region, [c] => region.next c
  | region, c :: d :: rest =>
    match region.pair? c d with
    | some (_, behind) => behind.after rest
    | none => (region.next c).after (d :: rest)

/-- Whether the mark of a comment stands in a text where code is read. -/
def OpensComment (region : Region) (text : List Char) : Prop :=
  ∃ front mark behind, text = front ++ '/' :: mark :: behind ∧ (mark = '/' ∨ mark = '*') ∧
    region.after front = .code

/-- Whether a region is outside of comments. -/
inductive IsOutside : Region → Prop
  | code : IsOutside .code
  | literal {quote : Char} (h : quote = '"' ∨ quote = '\'') : IsOutside (.literal quote)

/-- Whether no two characters are read together across a border. -/
def Apart (front rest : List Char) : Prop :=
  ∀ c ∈ front.getLast?, ∀ d ∈ rest.head?, ∀ region : Region, region.pair? c d = none

end Region

variable {region behind : Region} {c d quote : Char} {front text rest line kept : List Char}

/-! ### One step -/

/-- The characters that are read together are two slashes or a slash and a star in code, a star and
    a slash in a comment between marks, and a backslash and anything in quotes. -/
theorem Region.pair?_cases (h : region.pair? c d = some (kept, behind)) :
    (region = .code ∧ c = '/' ∧ d = '/' ∧ kept = [] ∧ behind = .lineComment) ∨
    (region = .code ∧ c = '/' ∧ d = '*' ∧ kept = [' '] ∧ behind = .blockComment) ∨
    (region = .blockComment ∧ c = '*' ∧ d = '/' ∧ kept = [] ∧ behind = .code) ∨
    ∃ quote, region = .literal quote ∧ c = '\\' ∧ kept = ['\\', d] ∧ behind = .literal quote := by
  cases region with
  | code =>
    rw [pair?] at h
    split at h
    · next hmark =>
      cases h
      exact .inl ⟨rfl, hmark.1, hmark.2, rfl, rfl⟩
    · split at h
      · next hmark =>
        cases h
        exact .inr (.inl ⟨rfl, hmark.1, hmark.2, rfl, rfl⟩)
      · cases h
  | lineComment => cases h
  | blockComment =>
    rw [pair?] at h
    split at h
    · next hmark =>
      cases h
      exact .inr (.inr (.inl ⟨rfl, hmark.1, hmark.2, rfl, rfl⟩))
    · cases h
  | literal quote =>
    rw [pair?] at h
    split at h
    · next hc =>
      cases h
      exact .inr (.inr (.inr ⟨quote, rfl, hc, rfl, rfl⟩))
    · cases h

theorem stripFrom_pair (h : region.pair? c d = some (kept, behind)) (rest : List Char) :
    stripFrom region (c :: d :: rest) = kept ++ stripFrom behind rest := by
  rcases Region.pair?_cases h with ⟨rfl, rfl, rfl, rfl, rfl⟩ | ⟨rfl, rfl, rfl, rfl, rfl⟩ |
    ⟨rfl, rfl, rfl, rfl, rfl⟩ | ⟨quote, rfl, rfl, rfl, rfl⟩ <;> rw [stripFrom] <;> rfl

theorem stripFrom_single (h : ∀ d ∈ rest.head?, region.pair? c d = none) :
    stripFrom region (c :: rest) = region.keep c ++ stripFrom (region.next c) rest := by
  cases region with
  | code =>
    rw [stripFrom]
    · rfl
    · rintro rest rfl rfl
      cases h '/' rfl
    · rintro rest rfl rfl
      cases h '*' rfl
  | lineComment =>
    rw [stripFrom, Region.keep, Region.next]
    split <;> rfl
  | blockComment =>
    rw [stripFrom, Region.keep, Region.next]
    · split <;> rfl
    · rintro rest rfl rfl
      cases h '/' rfl
  | literal quote =>
    rw [stripFrom]
    · rfl
    · rintro d rest rfl rfl
      cases h d rfl

namespace Region

theorem after_pair (h : region.pair? c d = some (kept, behind)) (rest : List Char) :
    region.after (c :: d :: rest) = behind.after rest := by
  rw [after, h]

theorem after_single (h : ∀ d ∈ rest.head?, region.pair? c d = none) :
    region.after (c :: rest) = (region.next c).after rest := by
  cases rest with
  | nil => rfl
  | cons d rest => rw [after, h d rfl]

theorem pair?_eq_none (h : c ≠ '/' ∧ c ≠ '*' ∧ c ≠ '\\') (d : Char) : region.pair? c d = none := by
  cases region <;> simp [pair?, h]

theorem pair?_eq_none_of_right (hc : c ≠ '\\') (hd : d ≠ '/' ∧ d ≠ '*') :
    region.pair? c d = none := by
  cases region <;> simp [pair?, hc, hd]

theorem alone_of_eq_none (h : region.pair? c d = none) (hd : rest.head? = some d) :
    ∀ e ∈ rest.head?, region.pair? c e = none := by
  intro e he
  cases hd.symm.trans he
  exact h

/-! ### Borders -/

theorem apart_of_getLast? (h : ∀ c ∈ front.getLast?, c ≠ '/' ∧ c ≠ '*' ∧ c ≠ '\\')
    (rest : List Char) : Apart front rest :=
  fun c hc d _ _ => pair?_eq_none (h c hc) d

theorem apart_of_head? (h : front.getLast? ≠ some '\\')
    (hrest : ∀ d ∈ rest.head?, d ≠ '/' ∧ d ≠ '*') : Apart front rest :=
  fun _ hc d hd _ => pair?_eq_none_of_right (fun heq => h (heq ▸ hc)) (hrest d hd)

theorem Apart.tail (h : Apart (c :: front) rest) : Apart front rest := by
  cases front with
  | nil => exact fun e he => absurd he (by simp)
  | cons d front => exact fun e he => h e (by rwa [List.getLast?_cons_cons])

/-- What is read alone is so in front of more, too. -/
theorem Apart.alone_append (h : Apart (c :: front) rest)
    (halone : ∀ d ∈ front.head?, region.pair? c d = none) :
    ∀ d ∈ (front ++ rest).head?, region.pair? c d = none := by
  cases front with
  | nil => exact fun d hd => h c rfl d hd region
  | cons e front => exact halone

end Region

/-- What comments leave of a text, and what they leave of the text behind it. -/
theorem stripFrom_append (h : Region.Apart front rest) :
    stripFrom region (front ++ rest) =
      stripFrom region front ++ stripFrom (region.after front) rest := by
  fun_induction Region.after region front with
  | case1 region => rw [stripFrom]; rfl
  | case2 region c =>
    rw [List.singleton_append, stripFrom_single fun d hd => h c rfl d hd region,
      stripFrom_single (by simp), stripFrom, List.append_nil]
  | case3 region c d front kept behind hpair ih =>
    rw [List.cons_append, List.cons_append, stripFrom_pair hpair, stripFrom_pair hpair,
      ih h.tail.tail, List.append_assoc]
  | case4 region c d front hpair ih =>
    rw [List.cons_append, stripFrom_single (Region.alone_of_eq_none hpair rfl),
      stripFrom_single (Region.alone_of_eq_none hpair rfl), ih h.tail, List.append_assoc]

/-! ### Opening a comment -/

namespace Region

/-- In code, only the marks of comments are read together. -/
theorem code_pair (h : Region.code.pair? c d = some (kept, behind)) :
    c = '/' ∧ (d = '/' ∨ d = '*') ∧ kept.length ≤ 1 := by
  rcases pair?_cases h with ⟨-, rfl, rfl, rfl, rfl⟩ | ⟨-, rfl, rfl, rfl, rfl⟩ | ⟨h, -⟩ | ⟨_, h, -⟩
  · exact ⟨rfl, .inl rfl, Nat.zero_le 1⟩
  · exact ⟨rfl, .inr rfl, Nat.le_refl 1⟩
  · cases h
  · cases h

/-- In quotes, a backslash is read together with anything. -/
theorem literal_pair (h : (Region.literal quote).pair? c d = some (kept, behind)) :
    c = '\\' ∧ kept = ['\\', d] ∧ behind = .literal quote := by
  rcases pair?_cases h with ⟨h, -⟩ | ⟨h, -⟩ | ⟨h, -⟩ | ⟨_, h, rfl, rfl, rfl⟩ <;> cases h
  exact ⟨rfl, rfl, rfl⟩

/-- Of two characters, one or both may be lost, and what is new is a blank. -/
theorem kept_of_pair (h : region.pair? c d = some (kept, behind)) :
    kept.length ≤ 2 ∧ ∀ e ∈ kept, e ∈ [c, d] ∨ e = ' ' := by
  rcases pair?_cases h with ⟨-, rfl, rfl, rfl, -⟩ | ⟨-, rfl, rfl, rfl, -⟩ |
    ⟨-, rfl, rfl, rfl, -⟩ | ⟨_, -, rfl, rfl, -⟩ <;> simp

theorem eq_of_mem_keep {region : Region} (h : d ∈ region.keep c) : d = c := by
  cases region with
  | code | literal => exact List.mem_singleton.1 h
  | lineComment | blockComment =>
    rw [keep] at h
    split at h <;> simp_all

theorem length_keep_le (region : Region) (c : Char) : (region.keep c).length ≤ 1 := by
  cases region with
  | code | literal => exact Nat.le_refl 1
  | lineComment | blockComment =>
    rw [keep]
    split <;> decide

theorem IsOutside.keep_eq (h : region.IsOutside) (c : Char) : region.keep c = [c] := by
  cases h <;> rfl

theorem IsOutside.next (h : region.IsOutside) (c : Char) : (region.next c).IsOutside := by
  cases h with
  | code =>
    rw [Region.next]
    split
    · exact .literal ‹_›
    · exact .code
  | literal hq =>
    rw [Region.next]
    split
    · exact .code
    · exact .literal hq

/-- A text in quotes ends with its line. -/
theorem IsOutside.next_newline (h : region.IsOutside) : region.next '\n' = .code := by
  cases h with
  | code => rfl
  | literal => rw [Region.next, if_pos (.inr rfl)]

theorem opensComment_of_pair (h : Region.code.pair? c d = some (kept, behind)) (rest : List Char) :
    Region.code.OpensComment (c :: d :: rest) := by
  obtain ⟨rfl, hmark, -⟩ := code_pair h
  exact ⟨[], d, rest, rfl, hmark, rfl⟩

theorem opensComment_escaped (h : (Region.literal quote).IsOutside) (d : Char)
    (rest : List Char) : (Region.literal quote).OpensComment ('\\' :: d :: rest) ↔
      (Region.literal quote).OpensComment rest := by
  have hpair : (Region.literal quote).pair? '\\' d = some (['\\', d], .literal quote) := rfl
  constructor
  · rintro ⟨front, mark, text, htext, hmark, hfront⟩
    match front with
    | [] => cases hfront
    | [c] =>
      -- Behind the backslash alone, the text in quotes would go on.
      cases htext
      rw [after, Region.next, if_neg] at hfront
      · cases hfront
      · cases h with
        | literal hq => rcases hq with rfl | rfl <;> decide
    | c :: e :: front =>
      cases htext
      rw [after_pair hpair] at hfront
      exact ⟨front, mark, text, rfl, hmark, hfront⟩
  · rintro ⟨front, mark, text, rfl, hmark, hfront⟩
    exact ⟨'\\' :: d :: front, mark, text, rfl, hmark, hfront⟩

theorem opensComment_single (h : ∀ d ∈ rest.head?, region.pair? c d = none) :
    region.OpensComment (c :: rest) ↔ (region.next c).OpensComment rest := by
  -- In front of a mark, the next character is still the one behind the first.
  have halone {front text : List Char} {mark : Char} (heq : rest = front ++ '/' :: mark :: text) :
      region.after (c :: front) = (region.next c).after front := by
    refine after_single fun d hd => h d ?_
    rw [heq, List.head?_append, hd]
    rfl
  constructor
  · rintro ⟨front, mark, text, htext, hmark, hfront⟩
    cases front with
    | nil =>
      cases htext
      cases hfront
      rcases hmark with rfl | rfl <;> cases h _ rfl
    | cons e front =>
      cases htext
      exact ⟨front, mark, text, rfl, hmark, halone rfl ▸ hfront⟩
  · rintro ⟨front, mark, text, htext, hmark, hfront⟩
    exact ⟨c :: front, mark, text, by rw [htext]; rfl, hmark, (halone htext).trans hfront⟩

theorem not_opensComment_of_not_mem (h : '/' ∉ text) : ¬region.OpensComment text := by
  rintro ⟨front, mark, behind, rfl, -, -⟩
  simp at h

theorem OpensComment.append (h : region.OpensComment front) (rest : List Char) :
    region.OpensComment (front ++ rest) := by
  obtain ⟨text, mark, behind, rfl, hmark, htext⟩ := h
  exact ⟨text, mark, behind ++ rest, by simp, hmark, htext⟩

/-- A text outside of comments, in which none opens, is read one character at a time, but for a
    backslash in quotes, which is read together with the next one. -/
theorem IsOutside.induction {motive : Region → List Char → Prop}
    (nil : ∀ region : Region, region.IsOutside → motive region [])
    (escaped : ∀ quote d text, (Region.literal quote).IsOutside → motive (.literal quote) text →
      motive (.literal quote) ('\\' :: d :: text))
    (single : ∀ (region : Region) c text, region.IsOutside →
      (∀ d ∈ text.head?, region.pair? c d = none) → motive (region.next c) text →
      motive region (c :: text))
    (hr : region.IsOutside) (h : ¬region.OpensComment text) : motive region text := by
  fun_induction after region text with
  | case1 region => exact nil region hr
  | case2 region c => exact single region c [] hr (by simp) (nil _ (hr.next c))
  | case3 region c d text kept behind hpair ih =>
    cases hr with
    | code => exact absurd (opensComment_of_pair hpair text) h
    | literal hq =>
      obtain ⟨rfl, rfl, rfl⟩ := literal_pair hpair
      rw [opensComment_escaped (.literal hq)] at h
      exact escaped _ d text (.literal hq) (ih (.literal hq) h)
  | case4 region c d text hpair ih =>
    have halone : ∀ e ∈ (d :: text).head?, region.pair? c e = none := alone_of_eq_none hpair rfl
    rw [opensComment_single halone] at h
    exact single region c (d :: text) hr halone (ih (hr.next c) h)

theorem IsOutside.after (hr : region.IsOutside) (h : ¬region.OpensComment text) :
    (region.after text).IsOutside := by
  refine IsOutside.induction (motive := fun region text => (region.after text).IsOutside)
    (fun _ hr => hr) (fun quote d text _ ih => ?_) (fun region c text _ halone ih => ?_) hr h
  · exact ih
  · rwa [after_single halone]

/-- Behind a text that opens no comment, one is opened in the rest or not at all. -/
theorem opensComment_append (hr : region.IsOutside) (h : ¬region.OpensComment front)
    (hapart : Apart front rest) :
    region.OpensComment (front ++ rest) ↔ (region.after front).OpensComment rest := by
  refine IsOutside.induction (motive := fun region front => Apart front rest →
      (region.OpensComment (front ++ rest) ↔ (region.after front).OpensComment rest))
    (fun _ _ _ => Iff.rfl) (fun quote d front hq ih hapart => ?_)
    (fun region c front _ halone ih hapart => ?_) hr h hapart
  · exact (opensComment_escaped hq d _).trans (ih hapart.tail.tail)
  · rw [after_single halone]
    exact (opensComment_single (hapart.alone_append halone)).trans (ih hapart.tail)

end Region

/-- Outside of comments, a text in which none opens is kept. -/
theorem stripFrom_eq_self (hr : region.IsOutside) (h : ¬region.OpensComment text) :
    stripFrom region text = text := by
  refine Region.IsOutside.induction (motive := fun region text => stripFrom region text = text)
    (fun _ _ => by rw [stripFrom]) (fun quote d text _ ih => ?_)
    (fun region c text hr halone ih => ?_) hr h
  · rw [stripFrom, ih]
  · rw [stripFrom_single halone, hr.keep_eq, ih]
    rfl

theorem length_stripFrom_le (region : Region) (text : List Char) :
    (stripFrom region text).length ≤ text.length := by
  fun_induction Region.after region text with
  | case1 => simp [stripFrom]
  | case2 region c =>
    rw [stripFrom_single (by simp), stripFrom, List.append_nil]
    exact region.length_keep_le c
  | case3 region c d text kept behind hpair ih =>
    have hkept := (Region.kept_of_pair hpair).1
    rw [stripFrom_pair hpair, List.length_append, List.length_cons, List.length_cons]
    omega
  | case4 region c d text hpair ih =>
    have hkeep := region.length_keep_le c
    rw [stripFrom_single (Region.alone_of_eq_none hpair rfl), List.length_append, List.length_cons]
    omega

/-- Comments leave nothing new but blanks. -/
theorem mem_of_mem_stripFrom (h : c ∈ stripFrom region text) : c ∈ text ∨ c = ' ' := by
  fun_induction Region.after region text with
  | case1 =>
    rw [stripFrom] at h
    cases h
  | case2 region d =>
    rw [stripFrom_single (by simp), stripFrom, List.append_nil] at h
    exact .inl (List.mem_singleton.2 (Region.eq_of_mem_keep h))
  | case3 region d e text kept behind hpair ih =>
    rw [stripFrom_pair hpair, List.mem_append] at h
    rcases h with h | h
    · exact ((Region.kept_of_pair hpair).2 c h).imp_left (List.mem_append_left text)
    · exact (ih h).imp_left fun hin => List.mem_cons_of_mem _ (List.mem_cons_of_mem _ hin)
  | case4 region d e text hpair ih =>
    rw [stripFrom_single (Region.alone_of_eq_none hpair rfl), List.mem_append] at h
    rcases h with h | h
    · exact .inl (Region.eq_of_mem_keep h ▸ List.mem_cons_self)
    · exact (ih h).imp_left (List.mem_cons_of_mem _)

/-- Where a comment opens, its mark at least is lost. -/
theorem length_stripFrom_lt (hr : region.IsOutside) (h : region.OpensComment text) :
    (stripFrom region text).length < text.length := by
  fun_induction Region.after region text with
  | case1 => exact absurd h (Region.not_opensComment_of_not_mem List.not_mem_nil)
  | case2 region c =>
    obtain ⟨front, mark, behind, htext, -, -⟩ := h
    have hlength := congrArg List.length htext
    simp only [List.length_append, List.length_cons, List.length_nil] at hlength
    omega
  | case3 region c d text kept behind hpair ih =>
    have hkept : (stripFrom behind text).length ≤ text.length := length_stripFrom_le behind text
    rw [stripFrom_pair hpair, List.length_append, List.length_cons, List.length_cons]
    cases hr with
    | code =>
      have hmark := (Region.code_pair hpair).2.2
      omega
    | literal hq =>
      obtain ⟨rfl, rfl, rfl⟩ := Region.literal_pair hpair
      rw [Region.opensComment_escaped (.literal hq)] at h
      have hrest := ih (.literal hq) h
      rw [List.length_cons, List.length_singleton]
      omega
  | case4 region c d text hpair ih =>
    have halone : ∀ e ∈ (d :: text).head?, region.pair? c e = none :=
      Region.alone_of_eq_none hpair rfl
    rw [Region.opensComment_single halone] at h
    have hrest := ih (hr.next c) h
    rw [stripFrom_single halone, hr.keep_eq]
    simp only [List.singleton_append, List.length_cons] at hrest ⊢
    omega

/-- A comment opens where something is lost. -/
theorem opensComment_iff (hr : region.IsOutside) :
    region.OpensComment text ↔ stripFrom region text ≠ text := by
  constructor
  · intro h heq
    exact absurd (length_stripFrom_lt hr h) (by rw [heq]; exact Nat.lt_irrefl _)
  · intro hne
    by_contra h
    exact hne (stripFrom_eq_self hr h)

instance (text : List Char) : Decidable (Region.code.OpensComment text) :=
  decidable_of_iff _ (opensComment_iff .code).symm

/-! ### Quotes -/

/-- What neither ends a text in quotes nor has a backslash belongs to it. -/
theorem Region.after_literal (hquote : quote ∉ text) (hnewline : '\n' ∉ text)
    (hbackslash : '\\' ∉ text) : (Region.literal quote).after text = .literal quote := by
  induction text with
  | nil => rfl
  | cons c text ih =>
    rw [List.mem_cons, not_or] at hquote hnewline hbackslash
    have halone (d : Char) : (Region.literal quote).pair? c d = none :=
      if_neg (Ne.symm hbackslash.1)
    rw [after_single fun d _ => halone d, Region.next,
      if_neg (not_or.2 ⟨Ne.symm hquote.1, Ne.symm hnewline.1⟩),
      ih hquote.2 hnewline.2 hbackslash.2]

theorem Region.not_opensComment_literal (hquote : quote ∉ text) (hnewline : '\n' ∉ text)
    (hbackslash : '\\' ∉ text) : ¬(Region.literal quote).OpensComment text := by
  rintro ⟨front, mark, behind, rfl, -, hfront⟩
  rw [List.mem_append, not_or] at hquote hnewline hbackslash
  rw [after_literal hquote.1 hnewline.1 hbackslash.1] at hfront
  cases hfront

/-! ### Lines -/

/-- A line in which no comment opens is kept, and behind it texts in quotes are at an end. -/
theorem stripFrom_line (h : ¬Region.code.OpensComment line) (hlast : line.getLast? ≠ some '\\')
    (rest : List Char) :
    stripFrom .code (line ++ '\n' :: rest) = line ++ '\n' :: stripFrom .code rest := by
  have hline := Region.IsOutside.code.after h
  rw [stripFrom_append (Region.apart_of_head? hlast (by simp)), stripFrom_eq_self .code h,
    stripFrom_single fun d _ => ?_, hline.keep_eq, hline.next_newline]
  · rfl
  · exact Region.pair?_eq_none (by decide) d

theorem Region.keep_newline (region : Region) : region.keep '\n' = ['\n'] := by
  cases region <;> rfl

/-- A line feed is read together with a backslash only, in quotes, and is kept. -/
theorem Region.getLast?_kept (h : region.pair? c '\n' = some (kept, behind)) :
    kept.getLast? = some '\n' := by
  obtain rfl : c = '\\' := by_contra fun hc => by
    rw [pair?_eq_none_of_right hc (by decide)] at h
    cases h
  cases region with
  | literal quote =>
    cases h
    rfl
  | code | lineComment | blockComment => cases h

/-- Lines end where they ended, in comments too. -/
theorem getLast?_stripFrom (region : Region) (h : text.getLast? = some '\n') :
    (stripFrom region text).getLast? = some '\n' := by
  fun_induction Region.after region text with
  | case1 => cases h
  | case2 region c =>
    obtain rfl : c = '\n' := Option.some.inj h
    rw [stripFrom_single (by simp), stripFrom, region.keep_newline]
    rfl
  | case3 region c d text kept behind hpair ih =>
    rw [stripFrom_pair hpair, List.getLast?_append]
    cases text with
    | nil =>
      obtain rfl : d = '\n' := Option.some.inj h
      rw [stripFrom, Region.getLast?_kept hpair]
      rfl
    | cons e text =>
      rw [List.getLast?_cons_cons, List.getLast?_cons_cons] at h
      rw [ih h]
      rfl
  | case4 region c d text hpair ih =>
    rw [stripFrom_single (Region.alone_of_eq_none hpair rfl), List.getLast?_append,
      ih (by rwa [List.getLast?_cons_cons] at h)]
    rfl

end PrecompiledHeaders.Directive

import Mathlib.Data.List.Induction
import Mathlib.Data.List.TakeWhile
import PrecompiledHeaders.Include.Trace

/-!
# What header traces list

A header is hidden by an excluded one in front of it if that is less deep, and every header between
the two is deeper than that one too (`HeaderTrace.IsHidden`). Excluded headers may be nested, and
still one depth is enough to remember when a trace is read line by line: whatever an excluded header
would hide that is hidden itself is hidden by the outer one as well (`isHidden_iff`).

So the headers that are listed are those that are neither excluded nor hidden, in the order of the
lines, and of each file the first one (`lists_shown_lines`).
-/

namespace PrecompiledHeaders.HeaderTrace

/-! ### Lines -/

/-- The lines of a trace in front of its trailer. -/
def body (trace : List Char) : List (List Char) :=
  (lines trace).takeWhile fun line => !trailer.isPrefixOf line

/-- Whether the line with a number consists of as many dots as the depth says, one blank, and a
    text that, from a directory on, leads to a path. -/
def Mentions (directory : Path) (lines : List (List Char)) (n depth : Nat) (p : Path) : Prop :=
  ∃ text, lines[n]? = some (List.replicate depth '.' ++ ' ' :: text) ∧ 0 < depth ∧
    p = directory.normalizeFrom ⟨Utf8.encode (trimEnd text)⟩

/-- Whether a line in front of the one with a number mentions an excluded header that is less deep
    than a depth, and than whatever the lines between the two mention. -/
def IsHidden (isExcluded : Path → Bool) (directory : Path) (lines : List (List Char))
    (n depth : Nat) : Prop :=
  ∃ m < n, ∃ limit < depth, ∃ q, Mentions directory lines m limit q ∧ isExcluded q ∧
    ∀ k depth' q', m < k → k < n → Mentions directory lines k depth' q' → limit < depth'

/-- Whether the line with a number mentions a header that is neither excluded nor hidden. -/
def IsShown (isExcluded : Path → Bool) (directory : Path) (lines : List (List Char)) (n : Nat)
    (p : Path) : Prop :=
  ∃ depth, Mentions directory lines n depth p ∧ isExcluded p = false ∧
    ¬IsHidden isExcluded directory lines n depth

variable {tree : FileTree} {directory : Path} {isExcluded : Path → Bool} {excluded seen : List Path}
  {line : List Char} {lines : List (List Char)} {n depth limit : Nat} {p q : Path}
  {hidden : Option Nat} {row : Nat × Path}

/-- A line mentions what stands behind its dots and one blank. -/
theorem ofLine?_eq_some_iff {spelling : List Char} :
    Mention.ofLine? line = some ⟨depth, spelling⟩ ↔ ∃ text,
      line = List.replicate depth '.' ++ ' ' :: text ∧ 0 < depth ∧ spelling = trimEnd text := by
  constructor
  · intro h
    rw [Mention.ofLine?] at h
    have hdots : line.takeWhile (· = '.') =
        List.replicate (line.takeWhile (· = '.')).length '.' :=
      List.eq_replicate_of_mem fun c hc => by simpa using List.mem_takeWhile_imp hc
    have hline := List.prefix_iff_eq_append.1 (List.takeWhile_prefix (l := line) (· = '.'))
    split at h
    · next text htext =>
      split at h
      · cases h
      · next hne =>
        cases h
        rw [htext, hdots] at hline
        exact ⟨text, hline.symm, List.length_pos_iff.2 hne, rfl⟩
    · cases h
  · rintro ⟨text, rfl, hpos, rfl⟩
    have hdots : (List.replicate depth '.' ++ ' ' :: text).takeWhile (· = '.') =
        List.replicate depth '.' := by
      rw [List.takeWhile_append_of_pos fun c hc => by simpa using List.eq_of_mem_replicate hc]
      simp
    have hne : List.replicate depth '.' ≠ [] := by simp; omega
    simp [Mention.ofLine?, hdots, hne, List.length_replicate]

/-- What a line mentions, as it is listed. -/
def row? (directory : Path) (line : List Char) : Option (Nat × Path) :=
  (Mention.ofLine? line).map fun mention =>
    (mention.depth, directory.normalizeFrom ⟨Utf8.encode mention.spelling⟩)

theorem mentions_iff :
    Mentions directory lines n depth p ↔
      ∃ line, lines[n]? = some line ∧ row? directory line = some (depth, p) := by
  constructor
  · rintro ⟨text, hline, hpos, rfl⟩
    exact ⟨_, hline, by rw [row?, ofLine?_eq_some_iff.2 ⟨text, rfl, hpos, rfl⟩]; rfl⟩
  · rintro ⟨line, hline, hrow⟩
    obtain ⟨⟨depth, spelling⟩, hmention, heq⟩ := Option.map_eq_some_iff.1 hrow
    cases heq
    obtain ⟨text, rfl, hpos, rfl⟩ := ofLine?_eq_some_iff.1 hmention
    exact ⟨text, hline, hpos, rfl⟩

/-- The headers that lines mention. -/
def rows (directory : Path) (lines : List (List Char)) : List (Nat × Path) :=
  lines.filterMap (row? directory)

theorem rows_append (directory : Path) (lines : List (List Char)) (line : List Char) :
    rows directory (lines ++ [line]) = rows directory lines ++ (row? directory line).toList := by
  rw [rows, List.filterMap_append, rows]
  cases h : row? directory line <;> simp [h]

theorem headers_eq (tree : FileTree) (directory : Path) (excluded : List Path) (trace : List Char) :
    headers tree directory excluded trace = distinct tree []
      (visible (fun p => tree.identity p ∈ excluded) none (rows directory (body trace))) := by
  rw [headers, mentions, List.map_filterMap]
  rfl

theorem Mentions.lt_length (h : Mentions directory lines n depth p) : n < lines.length := by
  obtain ⟨text, hline, -⟩ := h
  exact (List.getElem?_eq_some_iff.1 hline).1

theorem IsShown.lt_length (h : IsShown isExcluded directory lines n p) : n < lines.length := by
  obtain ⟨depth, hmentions, -⟩ := h
  exact hmentions.lt_length

/-! Behind other lines, a line changes nothing about them. -/

theorem mentions_append_of_lt (line : List Char) (h : n < lines.length) :
    Mentions directory (lines ++ [line]) n depth p ↔ Mentions directory lines n depth p := by
  rw [Mentions, Mentions, List.getElem?_append_left h]

theorem mentions_append_last :
    Mentions directory (lines ++ [line]) lines.length depth p ↔
      row? directory line = some (depth, p) := by
  simp [mentions_iff]

theorem isHidden_append_of_le (line : List Char) (h : n ≤ lines.length) :
    IsHidden isExcluded directory (lines ++ [line]) n depth ↔
      IsHidden isExcluded directory lines n depth := by
  have hmentions {k depth : Nat} {q : Path} (hk : k < n) :
      Mentions directory (lines ++ [line]) k depth q ↔ Mentions directory lines k depth q :=
    mentions_append_of_lt line (by omega)
  constructor
  · rintro ⟨m, hm, limit, hlimit, q, hq, hexcluded, hbetween⟩
    exact ⟨m, hm, limit, hlimit, q, (hmentions hm).1 hq, hexcluded, fun k depth' q' hmk hkn hk =>
      hbetween k depth' q' hmk hkn ((hmentions hkn).2 hk)⟩
  · rintro ⟨m, hm, limit, hlimit, q, hq, hexcluded, hbetween⟩
    exact ⟨m, hm, limit, hlimit, q, (hmentions hm).2 hq, hexcluded, fun k depth' q' hmk hkn hk =>
      hbetween k depth' q' hmk hkn ((hmentions hkn).1 hk)⟩

theorem isShown_append_of_lt (line : List Char) (h : n < lines.length) :
    IsShown isExcluded directory (lines ++ [line]) n p ↔ IsShown isExcluded directory lines n p := by
  simp only [IsShown, mentions_append_of_lt line h, isHidden_append_of_le line h.le]

/-! ### Hidden headers -/

/-- The depths above which something is hidden behind a line too: those above a depth and above what
    the line mentions. -/
def above (row : Option (Nat × Path)) (depth : Nat) : Nat :=
  row.elim depth fun row => min row.1 depth

theorem lt_above_iff {row : Option (Nat × Path)} : limit < above row depth ↔
    limit < depth ∧ ∀ depth' q', row = some (depth', q') → limit < depth' := by
  cases row with
  | none => simp [above]
  | some row =>
    rw [above, Option.elim_some, Nat.lt_min, and_comm]
    refine and_congr_right fun _ => ⟨?_, fun h => h row.1 row.2 rfl⟩
    rintro h depth' q' heq
    cases heq
    exact h

/-- What a header hides is deeper than it is. What headers in front of it hide goes on behind it
    only if it is hidden itself. -/
theorem isHidden_append (isExcluded : Path → Bool) (directory : Path) (lines : List (List Char))
    (line : List Char) (depth : Nat) :
    IsHidden isExcluded directory (lines ++ [line]) (lines.length + 1) depth ↔
      (∃ limit < depth, ∃ q, row? directory line = some (limit, q) ∧ isExcluded q) ∨
        IsHidden isExcluded directory lines lines.length (above (row? directory line) depth) := by
  rw [← isHidden_append_of_le line le_rfl]
  constructor
  · rintro ⟨m, hm, limit, hlimit, q, hq, hexcluded, hbetween⟩
    rcases Nat.lt_succ_iff_lt_or_eq.1 hm with hm | rfl
    · have hdeeper : ∀ depth' q', row? directory line = some (depth', q') → limit < depth' :=
        fun depth' q' hrow =>
          hbetween _ depth' q' hm (Nat.lt_succ_self _) (mentions_append_last.2 hrow)
      exact .inr ⟨m, hm, limit, lt_above_iff.2 ⟨hlimit, hdeeper⟩, q, hq, hexcluded,
        fun k depth' q' hmk hkn => hbetween k depth' q' hmk (Nat.lt_succ_of_lt hkn)⟩
    · exact .inl ⟨limit, hlimit, q, mentions_append_last.1 hq, hexcluded⟩
  · rintro (⟨limit, hlimit, q, hrow, hexcluded⟩ |
      ⟨m, hm, limit, hlimit, q, hq, hexcluded, hbetween⟩)
    · refine ⟨lines.length, Nat.lt_succ_self _, limit, hlimit, q, mentions_append_last.2 hrow,
        hexcluded, fun k depth' q' hmk hkn => ?_⟩
      omega
    · obtain ⟨hlimit, hdeeper⟩ := lt_above_iff.1 hlimit
      refine ⟨m, Nat.lt_succ_of_lt hm, limit, hlimit, q, hq, hexcluded, ?_⟩
      intro k depth' q' hmk hkn hk
      rcases Nat.lt_succ_iff_lt_or_eq.1 hkn with hkn | rfl
      · exact hbetween k depth' q' hmk hkn hk
      · exact hdeeper depth' q' (mentions_append_last.1 hk)

/-- The depth that is remembered behind one more header. -/
def hiddenBehind (isExcluded : Path → Bool) (hidden : Option Nat) (row : Nat × Path) : Option Nat :=
  if hidden.any (· < row.1) then hidden else if isExcluded row.2 then some row.1 else none

theorem visible_append (isExcluded : Path → Bool) (hidden : Option Nat)
    (front behind : List (Nat × Path)) : visible isExcluded hidden (front ++ behind) =
      visible isExcluded hidden front ++
        visible isExcluded (front.foldl (hiddenBehind isExcluded) hidden) behind := by
  induction front generalizing hidden with
  | nil => rfl
  | cons first rest ih =>
    obtain ⟨depth, path⟩ := first
    rw [List.cons_append, visible, visible, List.foldl_cons, hiddenBehind]
    split
    · exact ih hidden
    split
    · exact ih (some depth)
    · rw [ih none, List.cons_append]

/-- The depth that is remembered goes on as what is hidden does. -/
theorem any_hiddenBehind : (hiddenBehind isExcluded hidden (limit, q)).any (· < depth) ↔
    (limit < depth ∧ isExcluded q) ∨ hidden.any (· < min limit depth) := by
  cases hidden with
  | none => cases hexcluded : isExcluded q <;> simp [hiddenBehind, hexcluded]
  | some outer =>
    simp only [hiddenBehind, Option.any_some, decide_eq_true_eq]
    by_cases houter : outer < limit
    · rw [if_pos houter, Option.any_some, decide_eq_true_eq]
      constructor
      · exact fun h => .inr (Nat.lt_min.2 ⟨houter, h⟩)
      · rintro (⟨h, -⟩ | h)
        · exact houter.trans h
        · exact (Nat.lt_min.1 h).2
    · rw [if_neg houter, or_iff_left fun h => houter (Nat.lt_min.1 h).1]
      cases isExcluded q <;> simp

/-- One depth is enough to remember. -/
theorem isHidden_iff (isExcluded : Path → Bool) (directory : Path) (lines : List (List Char))
    (depth : Nat) : IsHidden isExcluded directory lines lines.length depth ↔
      ((rows directory lines).foldl (hiddenBehind isExcluded) none).any (· < depth) := by
  induction lines using List.reverseRecOn generalizing depth with
  | nil =>
    refine iff_of_false ?_ Bool.false_ne_true
    rintro ⟨m, hm, -⟩
    exact Nat.not_lt_zero m hm
  | append_singleton lines line ih =>
    rw [List.length_append, List.length_singleton, isHidden_append, ih, rows_append]
    cases row? directory line with
    | none =>
      rw [Option.toList_none, List.append_nil]
      refine or_iff_right ?_
      rintro ⟨limit, -, q, hrow, -⟩
      cases hrow
    | some row =>
      rw [Option.toList_some, List.foldl_append, List.foldl_cons, List.foldl_nil,
        any_hiddenBehind, above, Option.elim_some]
      refine or_congr_left ⟨?_, fun h => ⟨row.1, h.1, row.2, rfl, h.2⟩⟩
      rintro ⟨limit, hlimit, q, hrow, hexcluded⟩
      cases hrow
      exact ⟨hlimit, hexcluded⟩

/-! ### Headers that are shown -/

/-- Of one line, at most one header is visible. -/
theorem exists_visible_toList (isExcluded : Path → Bool) (hidden : Option Nat)
    (row : Option (Nat × Path)) : ∃ new : Option Path,
      visible isExcluded hidden row.toList = new.toList ∧
      ∀ p, new = some p ↔ ∃ depth, row = some (depth, p) ∧ isExcluded p = false ∧
        ¬hidden.any (· < depth) := by
  cases row with
  | none => exact ⟨none, rfl, by simp⟩
  | some row =>
    obtain ⟨depth, q⟩ := row
    rw [Option.toList_some, visible]
    split
    · next hhidden => exact ⟨none, rfl, by simp_all⟩
    split
    · next hexcluded => exact ⟨none, rfl, by simp_all⟩
    · next hhidden hexcluded =>
      refine ⟨some q, rfl, fun p => ⟨?_, ?_⟩⟩
      · rintro ⟨⟩
        exact ⟨depth, rfl, Bool.eq_false_iff.2 hexcluded, hhidden⟩
      · rintro ⟨depth', heq, -⟩
        cases heq
        rfl

/-- Of one line more, what the depth that is remembered does not hide is shown as well. -/
theorem isShown_append (isExcluded : Path → Bool) (directory : Path) (lines : List (List Char))
    (line : List Char) (n : Nat) (p : Path) :
    IsShown isExcluded directory (lines ++ [line]) n p ↔
      IsShown isExcluded directory lines n p ∨ n = lines.length ∧ ∃ depth,
        row? directory line = some (depth, p) ∧ isExcluded p = false ∧
          ¬((rows directory lines).foldl (hiddenBehind isExcluded) none).any (· < depth) := by
  rcases lt_trichotomy n lines.length with hn | rfl | hn
  · rw [isShown_append_of_lt line hn, or_iff_left fun h => hn.ne h.1]
  · rw [or_iff_right fun h => Nat.lt_irrefl _ h.lt_length]
    simp only [IsShown, mentions_append_last, isHidden_append_of_le line le_rfl, isHidden_iff,
      true_and]
  · refine iff_of_false (fun h => ?_) fun h => h.elim (fun h => ?_) fun h => hn.ne' h.1
    · have hlength := h.lt_length
      rw [List.length_append, List.length_singleton] at hlength
      omega
    · exact Nat.lt_asymm hn h.lt_length

/-- What is visible are the headers that are shown, in the order of their lines. -/
theorem exists_shown (isExcluded : Path → Bool) (directory : Path) (lines : List (List Char)) :
    ∃ shown : List (Nat × Path),
      visible isExcluded none (rows directory lines) = shown.map Prod.snd ∧
      shown.Pairwise (fun a b => a.1 < b.1) ∧
      ∀ n p, (n, p) ∈ shown ↔ IsShown isExcluded directory lines n p := by
  induction lines using List.reverseRecOn with
  | nil =>
    refine ⟨[], rfl, .nil, fun n p => iff_of_false List.not_mem_nil fun h => ?_⟩
    exact Nat.not_lt_zero n h.lt_length
  | append_singleton lines line ih =>
    obtain ⟨shown, hvisible, hsorted, hmem⟩ := ih
    obtain ⟨new, hnew, hmemnew⟩ := exists_visible_toList isExcluded
      ((rows directory lines).foldl (hiddenBehind isExcluded) none) (row? directory line)
    refine ⟨shown ++ new.toList.map (lines.length, ·), ?_, ?_, fun n p => ?_⟩
    · rw [rows_append, visible_append, hvisible, hnew, List.map_append, List.map_map]
      exact congrArg _ (List.map_id _).symm
    · refine List.pairwise_append.2 ⟨hsorted, ?_, fun row hrow other hother => ?_⟩
      · cases new <;> simp
      · obtain ⟨p, -, rfl⟩ := List.mem_map.1 hother
        exact ((hmem row.1 row.2).1 hrow).lt_length
    · rw [List.mem_append, hmem, isShown_append, ← hmemnew]
      simp [and_comm, eq_comm]

/-! ### Files that are listed -/

/-- Whether a row is the first one of its file, and the file has not been seen. -/
def IsFirst (tree : FileTree) (seen : List Path) (shown : List (Nat × Path)) (n : Nat) (p : Path) :
    Prop :=
  (n, p) ∈ shown ∧ tree.identity p ∉ seen ∧
    ∀ m q, m < n → (m, q) ∈ shown → tree.identity q ≠ tree.identity p

/-- The row of a file that has been seen makes no difference. -/
theorem isFirst_cons_of_seen {tree : FileTree} {seen : List Path} {shown : List (Nat × Path)}
    {number : Nat} {path : Path} (hseen : tree.identity path ∈ seen) (n : Nat) (p : Path) :
    IsFirst tree seen ((number, path) :: shown) n p ↔ IsFirst tree seen shown n p := by
  constructor
  · rintro ⟨hin, hnot, hearlier⟩
    rcases List.mem_cons.1 hin with hin | hin
    · cases hin
      exact absurd hseen hnot
    · exact ⟨hin, hnot, fun m q hm hq => hearlier m q hm (List.mem_cons_of_mem _ hq)⟩
  · rintro ⟨hin, hnot, hearlier⟩
    refine ⟨List.mem_cons_of_mem _ hin, hnot, fun m q hm hq heq => ?_⟩
    rcases List.mem_cons.1 hq with hq | hq
    · cases hq
      exact hnot (heq ▸ hseen)
    · exact hearlier m q hm hq heq

/-- A row in front of the others is the first one of its file, which is then seen. -/
theorem isFirst_cons_of_new {tree : FileTree} {seen : List Path} {shown : List (Nat × Path)}
    {number : Nat} {path : Path} (hnew : tree.identity path ∉ seen)
    (hfront : ∀ row ∈ shown, number < row.1) (n : Nat) (p : Path) :
    IsFirst tree seen ((number, path) :: shown) n p ↔
      (n, p) = (number, path) ∨ IsFirst tree (tree.identity path :: seen) shown n p := by
  constructor
  · rintro ⟨hin, hnot, hearlier⟩
    refine (List.mem_cons.1 hin).imp_right fun hin => ?_
    have hne := hearlier number path (hfront _ hin) List.mem_cons_self
    exact ⟨hin, fun h => (List.mem_cons.1 h).elim (fun heq => hne heq.symm) hnot,
      fun m q hm hq => hearlier m q hm (List.mem_cons_of_mem _ hq)⟩
  · rintro (hin | ⟨hin, hnot, hearlier⟩)
    · cases hin
      refine ⟨List.mem_cons_self, hnew, fun m q hm hq => ?_⟩
      rcases List.mem_cons.1 hq with hq | hq
      · cases hq
        exact absurd hm (Nat.lt_irrefl _)
      · exact absurd hm (Nat.lt_asymm (hfront _ hq))
    · obtain ⟨hne, hnot⟩ := not_or.1 (List.mem_cons.not.1 hnot)
      refine ⟨List.mem_cons_of_mem _ hin, hnot, fun m q hm hq => ?_⟩
      rcases List.mem_cons.1 hq with hq | hq
      · cases hq
        exact Ne.symm hne
      · exact hearlier m q hm hq

/-- Of rows in order, the first one of each file is kept, unless the file has been seen. -/
theorem exists_distinct (tree : FileTree) (seen : List Path) {shown : List (Nat × Path)}
    (hsorted : shown.Pairwise fun a b => a.1 < b.1) :
    ∃ found : List (Nat × Path), distinct tree seen (shown.map Prod.snd) = found.map Prod.snd ∧
      found.Sublist shown ∧ ∀ n p, (n, p) ∈ found ↔ IsFirst tree seen shown n p := by
  induction shown generalizing seen with
  | nil => exact ⟨[], rfl, .slnil, by simp [IsFirst]⟩
  | cons first rest ih =>
    obtain ⟨number, path⟩ := first
    obtain ⟨hfront, hrest⟩ := List.pairwise_cons.1 hsorted
    rw [List.map_cons, distinct]
    split
    · next hseen =>
      obtain ⟨found, hfound, hsublist, hmem⟩ := ih seen hrest
      exact ⟨found, hfound, hsublist.cons _, fun n p =>
        (hmem n p).trans (isFirst_cons_of_seen hseen n p).symm⟩
    · next hnew =>
      obtain ⟨found, hfound, hsublist, hmem⟩ := ih (tree.identity path :: seen) hrest
      refine ⟨(number, path) :: found, by rw [hfound]; rfl, hsublist.cons_cons _, fun n p => ?_⟩
      rw [List.mem_cons, hmem, isFirst_cons_of_new hnew hfront]

/-- A trace lists the headers of those lines in front of its trailer that are shown: in the order of
    the lines, and of each file the first one. -/
theorem lists_shown_lines (tree : FileTree) (directory : Path) (excluded : List Path)
    (trace : List Char) : ∃ found : List (Nat × Path),
      headers tree directory excluded trace = found.map Prod.snd ∧
      found.Pairwise (fun a b => a.1 < b.1) ∧
      ∀ n p, (n, p) ∈ found ↔
        IsShown (fun p => tree.identity p ∈ excluded) directory (body trace) n p ∧
        ∀ m q, m < n → IsShown (fun p => tree.identity p ∈ excluded) directory (body trace) m q →
          tree.identity q ≠ tree.identity p := by
  obtain ⟨shown, hvisible, hsorted, hshown⟩ := exists_shown
    (fun p => tree.identity p ∈ excluded) directory (body trace)
  obtain ⟨found, hfound, hsublist, hmem⟩ := exists_distinct tree [] hsorted
  refine ⟨found, ?_, hsorted.sublist hsublist, fun n p => ?_⟩
  · rw [headers_eq, hvisible, hfound]
  · rw [hmem]
    simp only [IsFirst, hshown, List.not_mem_nil, not_false_eq_true, true_and]

end PrecompiledHeaders.HeaderTrace

import PrecompiledHeaders.Text.Reader

/-!
# What readers take

A reader takes characters off a text if it gives their value and leaves the rest as it was
(`Reader.Takes`). How much it takes may depend on the rest, so that goes into the statement. For readers
that are put together the characters are, too: what is taken by one after the other is appended
(`Reader.Takes.bind`), and a repetition takes what the reader takes again and again, until the rest makes
it fail (`Reader.Takes.many_cons`, `Reader.Takes.many_nil`).
-/

namespace PrecompiledHeaders

theorem Source.drop_ofList (xs rest : List Char) :
    (ofList (xs ++ rest)).drop xs.length = ofList rest := by
  rw [← ofList_chars ((ofList (xs ++ rest)).drop xs.length), chars_drop]
  exact congrArg ofList List.drop_left

namespace Reader

variable {α β : Type} {r r' : Reader α} {f : α → Reader β} {xs ys rest : List Char} {a : α} {b : β}
  {values : List α} {c : Char} {kind : Char → Bool}

/-- Whether a reader takes exactly some characters off a text, in front of the rest, and they stand for
    a value. -/
def Takes (r : Reader α) (xs : List Char) (a : α) (rest : List Char) : Prop :=
  r (.ofList (xs ++ rest)) = some (a, .ofList rest)

/-! ### One reader after the other -/

theorem Takes.pure (a : α) (rest : List Char) : Takes (Pure.pure a) [] a rest := rfl

theorem Takes.bind (h : Takes r xs a (ys ++ rest)) (h' : Takes (f a) ys b rest) :
    Takes (r >>= f) (xs ++ ys) b rest := by
  have hbind : (r >>= f) (.ofList (xs ++ ys ++ rest)) =
      (r (.ofList (xs ++ ys ++ rest))).bind fun taken => f taken.1 taken.2 := rfl
  rw [Takes, hbind, List.append_assoc, h]
  exact h'

/-- A reader that takes nothing leaves everything to the next one. -/
theorem Takes.followed (h : Takes r [] a (xs ++ rest)) (h' : Takes (f a) xs b rest) :
    Takes (r >>= f) xs b rest := h.bind h'

theorem Takes.map {g : α → β} (h : Takes r xs a rest) : Takes (do return g (← r)) xs (g a) rest := by
  have hbind : Takes (r >>= fun a => Pure.pure (g a)) (xs ++ []) (g a) rest := h.bind (.pure (g a) rest)
  rwa [List.append_nil] at hbind

theorem bind_eq_none {s : Source} (h : r s = none) : (r >>= f) s = none := by
  have hbind : (r >>= f) s = (r s).bind fun taken => f taken.1 taken.2 := rfl
  rw [hbind, h]
  rfl

theorem Takes.orElse_left (h : Takes r xs a rest) : Takes (r <|> r') xs a rest := by
  have horElse : (r <|> r') (.ofList (xs ++ rest)) =
      (r (.ofList (xs ++ rest))).orElse fun _ => r' (.ofList (xs ++ rest)) := rfl
  rw [Takes, horElse, h]
  rfl

theorem Takes.orElse_right (hnone : r (.ofList (xs ++ rest)) = none) (h : Takes r' xs a rest) :
    Takes (r <|> r') xs a rest := by
  have horElse : (r <|> r') (.ofList (xs ++ rest)) =
      (r (.ofList (xs ++ rest))).orElse fun _ => r' (.ofList (xs ++ rest)) := rfl
  rw [Takes, horElse, hnone]
  exact h

/-! ### Characters -/

/-- What is read may depend on its first character. -/
theorem Takes.of_peek {f : Option Char → Reader β} (h : Takes (f (some c)) (c :: xs) b rest) :
    Takes (peek >>= f) (c :: xs) b rest := h

theorem takes_next (c : Char) (rest : List Char) : Takes next [c] c rest := rfl

theorem takes_satisfy (h : kind c = true) (rest : List Char) : Takes (satisfy kind) [c] c rest :=
  if_pos h

theorem takes_exactly (c : Char) (rest : List Char) : Takes (exactly c) [c] () rest :=
  (takes_satisfy (decide_eq_true rfl) rest).map

theorem exactly_eq_none (h : rest.head? ≠ some c) : exactly c (.ofList rest) = none := by
  refine bind_eq_none ?_
  cases rest with
  | nil => rfl
  | cons other rest => exact if_neg fun heq => h (congrArg some (of_decide_eq_true heq))

theorem takes_word (xs rest : List Char) : Takes (word xs) xs () rest := by
  have hleads : xs.isPrefixOf (xs ++ rest) = true := List.isPrefixOf_iff_prefix.2 (xs.prefix_append rest)
  rw [Takes, ← Source.drop_ofList xs rest]
  exact if_pos hleads

theorem takes_take (xs rest : List Char) : Takes (take xs.length) xs xs rest := by
  have hsize : xs.length ≤ (Source.ofList (xs ++ rest)).size := by simp [Source.ofList]
  rw [Takes, take, if_pos hsize, Source.drop_ofList]
  exact congrArg (fun taken => some (taken, Source.ofList rest)) List.take_left

theorem takes_takeWhile (h : ∀ c ∈ xs, kind c = true) (hrest : ∀ c, rest.head? = some c → kind c = false) :
    Takes (takeWhile kind) xs xs rest := by
  have hstops : rest.takeWhile kind = [] := by
    cases rest with
    | nil => rfl
    | cons c rest => exact List.takeWhile_cons_of_neg (by simp [hrest c rfl])
  have htaken : (Source.ofList (xs ++ rest)).chars.takeWhile kind = xs := by
    rw [Source.ofList, List.takeWhile_append_of_pos h, hstops, List.append_nil]
  rw [Takes, takeWhile]
  simp only [htaken, Source.drop_ofList]

/-! ### Repetition -/

/-- A repetition ends where the reader fails. -/
theorem Takes.many_nil (h : r (.ofList rest) = none) : Takes (many r) [] [] rest := by
  rw [Takes, many, manyFrom, List.nil_append, h]

/-- A reader that takes something is used again. -/
theorem Takes.many_cons (h : Takes r xs a (ys ++ rest)) (hne : xs ≠ [])
    (h' : Takes (many r) ys values rest) : Takes (many r) (xs ++ ys) (a :: values) rest := by
  have hsize : (Source.ofList (ys ++ rest)).size < (Source.ofList (xs ++ ys ++ rest)).size := by
    have hpos := List.length_pos_iff.2 hne
    simp only [Source.ofList, List.length_append]
    omega
  have hothers : manyFrom r (.ofList (ys ++ rest)) = (values, .ofList rest) := Option.some.inj h'
  rw [Takes, many, manyFrom, List.append_assoc, h]
  simp only
  rw [← List.append_assoc, dif_pos hsize, hothers]

theorem Takes.separated {separator : Reader Unit} (h : Takes r xs a (ys ++ rest))
    (h' : Takes (many (do separator; r)) ys values rest) :
    Takes (separated r separator) (xs ++ ys) (a :: values) rest :=
  h.bind h'.map

/-- A reader of nested notations reads a text that it takes if it may go as deep as the text is long. -/
theorem Takes.parse?_eq {r : Nat → Reader α} (h : Takes (r (xs.length + 1)) xs a []) :
    Reader.parse? r xs = some a := by
  rw [Takes, List.append_nil] at h
  have hsize : (Source.ofList xs).size = xs.length := rfl
  rw [Reader.parse?]
  simp only [hsize, h]
  rfl

end Reader

end PrecompiledHeaders

import PrecompiledHeaders.Datum.Json
import PrecompiledHeaders.Proofs.Text.Reader

/-!
# JSON that is read back

What is written as JSON is read as what it was (`Json.parse?_compact`), as long as it is plain: without
numbers, and with nothing but texts where texts belong (`Datum.IsPlain`).

A character of a text may be written as an escape, but either way its code is read (`Json.takes_code`). No
character has the code of half of one, so the codes make up the text again
(`Json.characters?_map_toNat`). Items and fields are written alike, with a comma between each two, and one
lemma is about both (`Json.takes_separated`).
-/

namespace PrecompiledHeaders

/-- Whether a datum has neither numbers nor texts that are none. -/
inductive Datum.IsPlain : Datum → Prop
  | null : IsPlain .null
  | bool (value : Bool) : IsPlain (.bool value)
  | text (s : String) : IsPlain (.ofString s)
  | list {items : List Datum} : (∀ item ∈ items, IsPlain item) → IsPlain (.list items)
  | record {fields : List (String × Datum)} : (∀ field ∈ fields, IsPlain field.2) →
    IsPlain (.ofFields fields)

namespace Json

open Reader

variable {d : Datum} {rest xs : List Char} {c : Char} {depth : Nat}

/-! ### Texts -/

theorem number?_hexadecimal_of_lt_blank :
    ∀ n < 32, Digits.number? 16 (Digits.hexadecimal 4 n) = some n := by decide

theorem escape_ne_nil (c : Char) : escape c ≠ [] := by
  unfold escape
  split
  all_goals try exact List.cons_ne_nil _ _
  split <;> exact List.cons_ne_nil _ _

/-- However a character is written, its code is read. -/
theorem takes_code (c : Char) (rest : List Char) : Takes code (escape c) c.toNat rest := by
  unfold escape
  split
  all_goals try rfl
  -- What is left are the characters without a letter of their own.
  next hquote hbackslash _ _ _ _ _ =>
  split
  · next hcontrol =>
    have hcode : Digits.number? 16 (Digits.hexadecimal 4 c.toNat) = some c.toNat :=
      number?_hexadecimal_of_lt_blank c.toNat hcontrol
    have hdigits : Takes (take 4) (Digits.hexadecimal 4 c.toNat) (Digits.hexadecimal 4 c.toNat) rest := by
      have htake := takes_take (Digits.hexadecimal 4 c.toNat) rest
      rwa [Digits.length_hexadecimal] at htake
    have hlift : Takes (StateT.lift (Digits.number? 16 (Digits.hexadecimal 4 c.toNat))) [] c.toNat
        rest := by
      rw [hcode]
      rfl
    refine (takes_next '\\' _).bind ((takes_next 'u' _).bind ?_)
    have hbind : Takes (take 4 >>= fun digits => StateT.lift (Digits.number? 16 digits))
        (Digits.hexadecimal 4 c.toNat ++ []) c.toNat rest := hdigits.bind hlift
    rwa [List.append_nil] at hbind
  · next hcontrol =>
    refine (takes_next c _).bind ?_
    split
    · next heq => exact absurd rfl hbackslash
    · have hplain : ¬(c < ' ' ∨ c = '"') := not_or.2 ⟨hcontrol, hquote⟩
      rw [if_neg hplain]
      exact .pure _ _

theorem takes_codes (cs rest : List Char) :
    Takes (many code) (cs.flatMap escape) (cs.map Char.toNat) ('"' :: rest) := by
  induction cs with
  | nil => exact .many_nil rfl
  | cons c cs ih => exact (takes_code c _).many_cons (escape_ne_nil c) ih

/-- No character has the code of half of one. -/
theorem not_half (c : Char) : ¬(0xD800 ≤ c.toNat ∧ c.toNat < 0xE000) := by
  have hvalid : c.toNat < 0xD800 ∨ 0xDFFF < c.toNat ∧ c.toNat < 0x110000 := c.valid
  omega

theorem characters?_map_toNat (cs : List Char) : characters? (cs.map Char.toNat) = some cs := by
  induction cs with
  | nil => rfl
  | cons c cs ih =>
    have hhalf := not_half c
    cases cs with
    | nil => rw [List.map_cons, List.map_nil, characters?, if_neg hhalf, Char.ofNat_toNat]
    | cons c' cs =>
      rw [List.map_cons] at ih ⊢
      rw [List.map_cons, characters?, if_neg (by omega), if_neg hhalf, ih, Char.ofNat_toNat]
      rfl

theorem toList_quoted (s : String) : (quoted s).toList =
    ['"'] ++ (s.toList.flatMap escape ++ ['"']) := by
  rw [quoted, String.toList_ofList]
  rfl

theorem takes_text (s : String) (rest : List Char) : Takes text (quoted s).toList (some s) rest := by
  have hcharacters : (characters? (s.toList.map Char.toNat)).map String.ofList = some s := by
    rw [characters?_map_toNat, Option.map_some, String.ofList_toList]
  rw [toList_quoted]
  refine (takes_exactly '"' _).bind ((takes_codes s.toList rest).bind ?_)
  rw [← hcharacters]
  exact (takes_exactly '"' rest).map

/-! ### What stands between values -/

/-- The characters that may stand between values and mean nothing. -/
def blankCharacters : List Char := [' ', '\t', '\n', '\r']

/-- Blanks are not there in front of anything else. -/
theorem takes_blanks (h : ∀ c, rest.head? = some c → c ∉ blankCharacters) :
    Takes blanks [] () rest := by
  have hnone : Takes (takeWhile fun c => c = ' ' ∨ c = '\t' ∨ c = '\n' ∨ c = '\r') [] [] rest :=
    takes_takeWhile (by simp) fun c hc => by simpa [blankCharacters] using h c hc
  exact hnone.map

theorem intercalate_cons {α : Type} (separator first : List α) (others : List (List α)) :
    separator.intercalate (first :: others) = first ++ others.flatMap (separator ++ ·) := by
  induction others generalizing first with
  | nil => rw [List.intercalate_singleton, List.flatMap_nil, List.append_nil]
  | cons second others ih =>
    rw [List.intercalate_cons_cons, ih, List.flatMap_cons, List.append_assoc, List.append_assoc]

/-- What is between commas is no longer than the whole. -/
theorem length_le_intercalate {others : List (List Char)} (h : xs ∈ others) :
    xs.length ≤ ([','].intercalate others).length := by
  cases others with
  | nil => cases h
  | cons first others =>
    rw [intercalate_cons, List.length_append]
    rcases List.mem_cons.1 h with rfl | h
    · exact Nat.le_add_right _ _
    · have hsublist := (List.sublist_flatten_of_mem (List.mem_map_of_mem (f := ([','] ++ ·)) h)).length_le
      rw [List.length_append, ← List.flatMap_def] at hsublist
      omega

section Separated

variable {α β : Type} {item : Reader β} {write : α → List Char} {value : α → β} {closing : Char}
  {first : α} {others : List α}

theorem exists_following (write : α → List Char) (closing : Char) (others : List α) (rest : List Char) :
    ∃ c tail, (c = ',' ∨ c = closing) ∧
      (others.map write).flatMap ([','] ++ ·) ++ closing :: rest = c :: tail := by
  cases others with
  | nil => exact ⟨closing, rest, .inr rfl, rfl⟩
  | cons => exact ⟨',', _, .inl rfl, rfl⟩

/-- Values with a comma in front of each are taken if each is taken in front of a comma, or of what closes
    the list. -/
theorem takes_following (hclosing : closing ≠ ',')
    (h : ∀ a ∈ others, ∀ c tail, c = ',' ∨ c = closing → Takes item (write a) (value a) (c :: tail))
    (hhead : ∀ a ∈ others, ∃ c tail, write a = c :: tail ∧ c ∉ blankCharacters)
    (rest : List Char) :
    Takes (many (do (do exactly ','; blanks); item)) ((others.map write).flatMap ([','] ++ ·))
      (others.map value) (closing :: rest) := by
  induction others with
  | nil => exact .many_nil (bind_eq_none (bind_eq_none (exactly_eq_none (by simpa using hclosing))))
  | cons a others ih =>
    obtain ⟨ha, hothers⟩ := List.forall_mem_cons.1 h
    obtain ⟨⟨first, tail, hwrite, hfirst⟩, hheads⟩ := List.forall_mem_cons.1 hhead
    obtain ⟨c, behind, hc, hbehind⟩ := exists_following write closing others rest
    have hitem := ha c behind hc
    rw [← hbehind] at hitem
    have hseparator : Takes (do exactly ','; blanks) ([','] ++ []) ()
        (write a ++ ((others.map write).flatMap ([','] ++ ·) ++ closing :: rest)) := by
      refine (takes_exactly ',' _).bind (takes_blanks ?_)
      rw [hwrite]
      rintro c ⟨⟩
      exact hfirst
    exact (hseparator.bind hitem).many_cons (List.cons_ne_nil _ _) (ih hothers hheads)

theorem takes_separated (hclosing : closing ≠ ',')
    (h : ∀ a ∈ first :: others, ∀ c tail, c = ',' ∨ c = closing →
      Takes item (write a) (value a) (c :: tail))
    (hhead : ∀ a ∈ others, ∃ c tail, write a = c :: tail ∧ c ∉ blankCharacters)
    (rest : List Char) :
    Takes (separated item (do exactly ','; blanks)) ([','].intercalate ((first :: others).map write))
      ((first :: others).map value) (closing :: rest) := by
  obtain ⟨hfirst, hothers⟩ := List.forall_mem_cons.1 h
  obtain ⟨c, behind, hc, hbehind⟩ := exists_following write closing others rest
  have hitem := hfirst c behind hc
  rw [← hbehind] at hitem
  rw [List.map_cons, intercalate_cons]
  exact hitem.separated (takes_following hclosing hothers hhead rest)

/-- Values between brackets are taken if each of them is, and none starts with a blank or with what closes
    the list. -/
theorem takes_bracketed {items : List α} (make : List β → Datum) (opening : Char)
    (hclosing : closing ∉ ',' :: blankCharacters)
    (h : ∀ a ∈ items, ∀ c tail, c = ',' ∨ c = closing → Takes item (write a) (value a) (c :: tail))
    (hhead : ∀ a ∈ items, ∃ c tail, write a = c :: tail ∧ c ∉ closing :: blankCharacters)
    (rest : List Char) :
    Takes (do
        let _ ← next
        blanks
        (do exactly closing; return make []) <|> do
          let values ← separated item (do exactly ','; blanks)
          exactly closing
          return make values)
      ([opening] ++ ([','].intercalate (items.map write) ++ [closing])) (make (items.map value)) rest := by
  have hcomma := List.ne_of_not_mem_cons hclosing
  have hblank := List.not_mem_of_not_mem_cons hclosing
  refine (takes_next opening _).bind ?_
  cases items with
  | nil =>
    have hfront : Takes blanks [] () ([closing] ++ rest) := takes_blanks (by rintro c ⟨⟩; exact hblank)
    exact hfront.bind ((takes_exactly closing rest).map).orElse_left
  | cons a items =>
    obtain ⟨⟨c, tail, hwrite, hc⟩, hheads⟩ := List.forall_mem_cons.1 hhead
    have htext : [','].intercalate ((a :: items).map write) ++ [closing] ++ rest =
        c :: (tail ++ ((items.map write).flatMap ([','] ++ ·) ++ [closing] ++ rest)) := by
      rw [List.map_cons, intercalate_cons, hwrite]
      simp
    have hfront : Takes blanks [] () ([','].intercalate ((a :: items).map write) ++ [closing] ++ rest) :=
      takes_blanks (by rw [htext]; rintro c ⟨⟩; exact List.not_mem_of_not_mem_cons hc)
    have hvalues := takes_separated hcomma h (fun a ha => by
      obtain ⟨c, tail, hwrite, hc⟩ := hheads a ha
      exact ⟨c, tail, hwrite, List.not_mem_of_not_mem_cons hc⟩) rest
    refine hfront.bind (Takes.orElse_right ?_ (hvalues.bind (takes_exactly closing rest).map))
    rw [htext]
    exact bind_eq_none (exactly_eq_none fun heq => List.ne_of_not_mem_cons hc (Option.some.inj heq))

end Separated

/-! ### Values -/

theorem compactItems_eq_map (items : List Datum) : compactItems items = items.map compact := by
  induction items with
  | nil => rfl
  | cons item items ih => rw [compactItems, ih, List.map_cons]

/-- A field as it is written. -/
def writeField (field : String × Datum) : List Char :=
  (quoted field.1).toList ++ ([':'] ++ (compact field.2).toList)

theorem map_toList_compactFields (fields : List (String × Datum)) :
    (compactFields (fields.map fun (name, value) => (some name, value))).map String.toList =
      fields.map writeField := by
  induction fields with
  | nil => rfl
  | cons field fields ih =>
    rw [List.map_cons, compactFields, List.map_cons, ih, List.map_cons, writeField,
      String.toList_append, String.toList_append, List.append_assoc]
    rfl

theorem toList_compact_list (items : List Datum) : (compact (.list items)).toList =
    ['['] ++ ([','].intercalate (items.map fun item => (compact item).toList) ++ [']']) := by
  rw [compact, compactItems_eq_map, String.toList_append, String.toList_append,
    String.toList_intercalate, List.map_map, List.append_assoc]
  rfl

theorem toList_compact_ofFields (fields : List (String × Datum)) :
    (compact (.ofFields fields)).toList =
      ['\x7b'] ++ ([','].intercalate (fields.map writeField) ++ ['\x7d']) := by
  rw [Datum.ofFields, compact, String.toList_append, String.toList_append, String.toList_intercalate,
    map_toList_compactFields, List.append_assoc]
  rfl

/-- A plain datum starts neither with a blank nor with what closes a list. -/
theorem exists_toList_compact (h : d.IsPlain) :
    ∃ c tail, (compact d).toList = c :: tail ∧ c ∉ ']' :: blankCharacters := by
  cases h with
  | null => exact ⟨'n', _, rfl, by decide⟩
  | bool value =>
    cases value with
    | true => exact ⟨'t', _, rfl, by decide⟩
    | false => exact ⟨'f', _, rfl, by decide⟩
  | text s => exact ⟨'"', _, toList_quoted s, by decide⟩
  | list => exact ⟨'[', _, toList_compact_list _, by decide⟩
  | record => exact ⟨'\x7b', _, toList_compact_ofFields _, by decide⟩

theorem takes_word_then (xs : List Char) (d : Datum) (rest : List Char) :
    Takes (do word xs; return d) xs d rest := (takes_word xs rest).map

theorem takes_value_null (rest : List Char) :
    Takes (value (depth + 1)) (compact .null).toList .null rest := by
  have hcompact : (compact .null).toList = ['n', 'u', 'l', 'l'] := rfl
  rw [hcompact, value]
  exact .of_peek (takes_word_then _ _ rest)

theorem takes_value_bool (b : Bool) (rest : List Char) :
    Takes (value (depth + 1)) (compact (.bool b)).toList (.bool b) rest := by
  cases b with
  | true =>
    have hcompact : (compact (.bool true)).toList = ['t', 'r', 'u', 'e'] := rfl
    rw [hcompact, value]
    exact .of_peek (takes_word_then _ _ rest)
  | false =>
    have hcompact : (compact (.bool false)).toList = ['f', 'a', 'l', 's', 'e'] := rfl
    rw [hcompact, value]
    exact .of_peek (takes_word_then _ _ rest)

theorem takes_value_text (s : String) (rest : List Char) :
    Takes (value (depth + 1)) (quoted s).toList (.ofString s) rest := by
  have htext : Takes (do return Datum.text (← text)) (quoted s).toList (.text (some s)) rest :=
    (takes_text s rest).map
  rw [toList_quoted] at htext ⊢
  rw [value]
  exact .of_peek htext

/-- Blanks are looked for behind a value, but there are none. -/
theorem takes_value_then {β : Type} {g : Datum → β} (h : Takes (value depth) xs d (c :: rest))
    (hc : c ∉ blankCharacters) :
    Takes (do let d ← value depth; blanks; return g d) xs (g d) (c :: rest) := by
  have hblanks : Takes (do blanks; return g d) ([] ++ []) (g d) (c :: rest) :=
    (takes_blanks (by rintro c' ⟨⟩; exact hc)).bind (.pure _ _)
  have hvalue : Takes (do let d ← value depth; blanks; return g d) (xs ++ []) (g d) (c :: rest) :=
    h.bind hblanks
  rwa [List.append_nil] at hvalue

theorem takes_value_list {items : List Datum} (hplain : ∀ item ∈ items, item.IsPlain)
    (h : ∀ item ∈ items, ∀ rest, Takes (value depth) (compact item).toList item rest)
    (rest : List Char) :
    Takes (value (depth + 1)) (compact (.list items)).toList (.list items) rest := by
  have hitem : ∀ item ∈ items, ∀ c tail, c = ',' ∨ c = ']' →
      Takes (do let item ← value depth; blanks; return item) (compact item).toList item (c :: tail) :=
    fun item hitem c tail hc => takes_value_then (h item hitem _) (by rcases hc with rfl | rfl <;> decide)
  have hhead : ∀ item ∈ items, ∃ c tail, (compact item).toList = c :: tail ∧ c ∉ ']' :: blankCharacters :=
    fun item hitem => exists_toList_compact (hplain item hitem)
  have hitems := takes_bracketed Datum.list '[' (by decide) hitem hhead rest
  rw [List.map_id'] at hitems
  rw [toList_compact_list, value]
  exact .of_peek hitems

theorem takes_field {field : String × Datum} (hplain : field.2.IsPlain)
    (h : Takes (value depth) (compact field.2).toList field.2 (c :: rest)) (hc : c ∉ blankCharacters) :
    Takes (do
        let name? ← text
        blanks
        exactly ':'
        blanks
        let field ← value depth
        blanks
        return (name?, field))
      (writeField field) (some field.1, field.2) (c :: rest) := by
  obtain ⟨first, tail, hcompact, hfirst⟩ := exists_toList_compact hplain
  have hname : Takes blanks [] () ([':'] ++ (compact field.2).toList ++ c :: rest) :=
    takes_blanks (by rintro c ⟨⟩; decide)
  have hcolon : Takes blanks [] () ((compact field.2).toList ++ c :: rest) :=
    takes_blanks (by rw [hcompact]; rintro c ⟨⟩; exact List.not_mem_of_not_mem_cons hfirst)
  refine (takes_text field.1 _).bind (hname.followed ?_)
  exact (takes_exactly ':' _).bind (hcolon.followed (takes_value_then h hc))

theorem takes_value_ofFields {fields : List (String × Datum)} (hplain : ∀ field ∈ fields, field.2.IsPlain)
    (h : ∀ field ∈ fields, ∀ rest, Takes (value depth) (compact field.2).toList field.2 rest)
    (rest : List Char) :
    Takes (value (depth + 1)) (compact (.ofFields fields)).toList (.ofFields fields) rest := by
  have hhead : ∀ field ∈ fields, ∃ c tail, writeField field = c :: tail ∧ c ∉ '\x7d' :: blankCharacters :=
    fun field _ => ⟨'"', _, by rw [writeField, toList_quoted]; rfl, by decide⟩
  have hfields := takes_bracketed Datum.record '\x7b' (by decide)
    (fun field hfield c tail hc => takes_field (hplain field hfield) (h field hfield _)
      (by rcases hc with rfl | rfl <;> decide)) hhead rest
  rw [toList_compact_ofFields, value]
  exact .of_peek hfields

/-- A plain datum is taken by what reads values, if that may go as deep as the text is long. -/
theorem takes_value (h : d.IsPlain) (hdepth : (compact d).toList.length ≤ depth) (rest : List Char) :
    Takes (value (depth + 1)) (compact d).toList d rest := by
  induction h generalizing depth rest with
  | null => exact takes_value_null rest
  | bool b => exact takes_value_bool b rest
  | text s => exact takes_value_text s rest
  | @list items hplain ih =>
    rw [toList_compact_list, List.length_append, List.length_append, List.length_singleton] at hdepth
    obtain ⟨depth, rfl⟩ : ∃ n, depth = n + 1 := Nat.exists_eq_succ_of_ne_zero (by omega)
    refine takes_value_list hplain (fun item hitem => ih item hitem ?_) rest
    have hlength : (compact item).toList.length ≤ _ :=
      length_le_intercalate (List.mem_map_of_mem (f := fun item => (compact item).toList) hitem)
    omega
  | @record fields hplain ih =>
    rw [toList_compact_ofFields, List.length_append, List.length_append, List.length_singleton] at hdepth
    obtain ⟨depth, rfl⟩ : ∃ n, depth = n + 1 := Nat.exists_eq_succ_of_ne_zero (by omega)
    refine takes_value_ofFields hplain (fun field hfield => ih field hfield ?_) rest
    have hlength := length_le_intercalate (List.mem_map_of_mem (f := writeField) hfield)
    rw [writeField, List.length_append, List.length_append] at hlength
    omega

/-- What is written is read. -/
theorem parse?_compact (h : d.IsPlain) : parse? (compact d).toList = some d := by
  obtain ⟨c, tail, hcompact, hc⟩ := exists_toList_compact h
  have hfront : Takes blanks [] () ((compact d).toList ++ []) := takes_blanks fun other hother => by
    rw [hcompact] at hother
    cases hother
    exact List.not_mem_of_not_mem_cons hc
  have hback : Takes (do blanks; return d) ([] ++ []) d [] :=
    (takes_blanks (by rintro c ⟨⟩)).bind (.pure d _)
  have hvalue : Takes (do let d ← value ((compact d).toList.length + 1); blanks; return d)
      ((compact d).toList ++ []) d [] := (takes_value h (Nat.le_refl _) _).bind hback
  rw [List.append_nil] at hvalue
  exact Takes.parse?_eq (hfront.followed hvalue)

end Json

end PrecompiledHeaders

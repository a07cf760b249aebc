import PrecompiledHeaders.Proofs.Text.Split
import PrecompiledHeaders.Text.Utf8

/-!
# Reading back what was encoded

Text that is encoded in UTF-8 comes back when it is read, strictly (`decode?_encode`) or with
replacement (`decodeLossy_encode`): the encoding of a character is one piece (`piece_encode`), and
the pieces of a text are its characters. The other way round, text that is read strictly is encoded
in the bytes it was read from (`encode_of_decode?`), so there is only one way to write it. Small bytes
stand only for the characters with their codes (`toNat_of_mem_encode`), so text may be cut at such a
byte (`IsText.of_mem_split`).
-/

namespace PrecompiledHeaders.Utf8

theorem toNat_ofNat {n : Nat} (h : n < 256) : (UInt8.ofNat n).toNat = n := by
  simpa using h

/-- The code of a character is below the surrogates or above them. -/
theorem toNat_val (c : Char) :
    c.val.toNat < 0xD800 ∨ 0xDFFF < c.val.toNat ∧ c.val.toNat < 0x110000 := c.valid

theorem ofNat_val (c : Char) : Char.ofNat c.val.toNat = c := Char.ofNat_toNat c

/-- One step over a byte that continues a character. -/
theorem continuation_first {bits n : Nat} {taken : Bytes} {low high : UInt8} {count : Nat}
    {rest : Bytes} (hn : n < 64) (hl : low.toNat ≤ n + 128) (hh : n + 128 ≤ high.toNat) :
    continuation bits taken low high (count + 1) (UInt8.ofNat (n + 128) :: rest) =
      continuation (bits * 64 + n) (UInt8.ofNat (n + 128) :: taken) 0x80 0xBF count rest := by
  have hb : (UInt8.ofNat (n + 128)).toNat = n + 128 := toNat_ofNat (by omega)
  rw [continuation, if_pos (by simp only [UInt8.le_iff_toNat_le, hb]; exact ⟨hl, hh⟩), hb,
    Nat.add_sub_cancel]

theorem continuation_next {bits n : Nat} {taken : Bytes} {count : Nat} {rest : Bytes}
    (hn : n < 64) : continuation bits taken 0x80 0xBF (count + 1) (UInt8.ofNat (n + 128) :: rest) =
      continuation (bits * 64 + n) (UInt8.ofNat (n + 128) :: taken) 0x80 0xBF count rest :=
  continuation_first hn (Nat.le_add_left ..) (Nat.add_le_add_right (Nat.le_of_lt_succ hn) 128)

theorem lead_one {n : Nat} (h : n < 0x80) :
    Lead.ofByte? (UInt8.ofNat n) = some ⟨n, 0, 0x80, 0xBF⟩ := by
  have hn : (UInt8.ofNat n).toNat = n := toNat_ofNat (by omega)
  rw [Lead.ofByte?, if_pos (by rw [UInt8.lt_iff_toNat_lt, hn]; exact h), hn]

theorem lead_two {n : Nat} (hl : 0xC2 ≤ n) (hh : n < 0xE0) :
    Lead.ofByte? (UInt8.ofNat n) = some ⟨n - 0xC0, 1, 0x80, 0xBF⟩ := by
  have hn : (UInt8.ofNat n).toNat = n := toNat_ofNat (by omega)
  simp only [Lead.ofByte?, UInt8.lt_iff_toNat_lt, hn]
  rw [if_neg (by simp; omega), if_neg (by simp; omega), if_pos (by simp; omega)]

theorem lead_three {n : Nat} (hl : 0xE0 ≤ n) (hh : n < 0xF0) : ∃ low high,
    Lead.ofByte? (UInt8.ofNat n) = some ⟨n - 0xE0, 2, low, high⟩ ∧
      low.toNat = (if n = 0xE0 then 0xA0 else 0x80) ∧
      high.toNat = if n = 0xED then 0x9F else 0xBF := by
  have hn : (UInt8.ofNat n).toNat = n := toNat_ofNat (by omega)
  simp only [Lead.ofByte?, UInt8.lt_iff_toNat_lt, ← UInt8.toNat_inj, hn]
  rw [if_neg (by simp; omega), if_neg (by simp; omega), if_neg (by simp; omega),
    if_pos (by simp; omega)]
  exact ⟨_, _, rfl, by simp only [UInt8.toNat_ofNat]; split <;> rfl,
    by simp only [UInt8.toNat_ofNat]; split <;> rfl⟩

theorem lead_four {n : Nat} (hl : 0xF0 ≤ n) (hh : n < 0xF5) : ∃ low high,
    Lead.ofByte? (UInt8.ofNat n) = some ⟨n - 0xF0, 3, low, high⟩ ∧
      low.toNat = (if n = 0xF0 then 0x90 else 0x80) ∧
      high.toNat = if n = 0xF4 then 0x8F else 0xBF := by
  have hn : (UInt8.ofNat n).toNat = n := toNat_ofNat (by omega)
  simp only [Lead.ofByte?, UInt8.lt_iff_toNat_lt, ← UInt8.toNat_inj, hn]
  rw [if_neg (by simp; omega), if_neg (by simp; omega), if_neg (by simp; omega),
    if_neg (by simp; omega), if_pos (by simp; omega)]
  exact ⟨_, _, rfl, by simp only [UInt8.toNat_ofNat]; split <;> rfl,
    by simp only [UInt8.toNat_ofNat]; split <;> rfl⟩

/-- The encoding of a character is one piece. -/
theorem piece_encode (c : Char) (rest : Bytes) : ∃ b more,
    String.utf8EncodeChar c = b :: more ∧ piece b (more ++ rest) = (.char c, rest) := by
  have hc := toNat_val c
  have hof := ofNat_val c
  generalize hv : c.val.toNat = v at hc hof
  simp only [String.utf8EncodeChar, hv]
  split
  · refine ⟨_, _, rfl, ?_⟩
    rw [piece, lead_one (by omega)]
    simp [continuation, hof]
  split
  · refine ⟨_, _, rfl, ?_⟩
    have hbits : (v / 64 % 32 + 192 - 192) * 64 + v % 64 = v := by omega
    rw [piece, lead_two (by omega) (by omega)]
    simp only [List.cons_append, List.nil_append]
    rw [continuation_next (by omega), continuation, hbits, hof]
  split
  · refine ⟨_, _, rfl, ?_⟩
    have hbits : ((v / 4096 % 16 + 224 - 224) * 64 + v / 64 % 64) * 64 + v % 64 = v := by omega
    obtain ⟨low, high, hlead, hlow, hhigh⟩ :=
      @lead_three (v / 4096 % 16 + 224) (by omega) (by omega)
    -- Smaller codes are written in two bytes, and surrogates have none.
    have hl : low.toNat ≤ v / 64 % 64 + 128 := by rw [hlow]; split <;> omega
    have hh : v / 64 % 64 + 128 ≤ high.toNat := by rw [hhigh]; split <;> omega
    rw [piece, hlead]
    simp only [List.cons_append, List.nil_append]
    rw [continuation_first (by omega) hl hh, continuation_next (by omega), continuation, hbits, hof]
  · refine ⟨_, _, rfl, ?_⟩
    have hbits : (((v / 262144 % 8 + 240 - 240) * 64 + v / 4096 % 64) * 64 + v / 64 % 64) * 64 +
      v % 64 = v := by omega
    obtain ⟨low, high, hlead, hlow, hhigh⟩ :=
      @lead_four (v / 262144 % 8 + 240) (by omega) (by omega)
    have hl : low.toNat ≤ v / 4096 % 64 + 128 := by rw [hlow]; split <;> omega
    have hh : v / 4096 % 64 + 128 ≤ high.toNat := by rw [hhigh]; split <;> omega
    rw [piece, hlead]
    simp only [List.cons_append, List.nil_append]
    rw [continuation_first (by omega) hl hh, continuation_next (by omega),
      continuation_next (by omega), continuation, hbits, hof]

/-- The pieces of an encoded text are its characters. -/
theorem pieces_encode (text : List Char) : pieces (encode text) = text.map .char := by
  induction text with
  | nil => rw [encode, List.flatMap_nil, pieces, List.map_nil]
  | cons c text ih =>
    obtain ⟨b, more, hc, hpiece⟩ := piece_encode c (encode text)
    have : encode (c :: text) = b :: (more ++ encode text) := by
      rw [encode, List.flatMap_cons, hc]
      rfl
    rw [this, pieces, hpiece, ih, List.map_cons]

theorem decodeLossy_encode (text : List Char) : decodeLossy (encode text) = text := by
  rw [decodeLossy, pieces_encode, List.map_map]
  exact List.map_id text

theorem decode?_encode (text : List Char) : decode? (encode text) = some text := by
  rw [decode?, pieces_encode]
  induction text with
  | nil => rfl
  | cons c text ih => simp [List.mapM_cons, Piece.char?, ih]

theorem encode_injective {text text' : List Char} (h : encode text = encode text') :
    text = text' := by
  rw [← Option.some.injEq, ← decode?_encode, h, decode?_encode]

/-! ### Encoding what was read -/

section

variable {b : UInt8} {lead : Lead} {bits count v : Nat} {taken rest behind : Bytes}
  {low high : UInt8} {c : Char}

/-- A byte that continues a character is within the bounds. -/
theorem exists_of_continuation (hl : 0x80 ≤ low.toNat) (hh : high.toNat ≤ 0xBF)
    (h : continuation bits taken low high (count + 1) rest = (.char c, behind)) :
    ∃ n others taken', rest = UInt8.ofNat (n + 128) :: others ∧ n < 64 ∧
      low.toNat ≤ n + 128 ∧ n + 128 ≤ high.toNat ∧
      continuation (bits * 64 + n) taken' 0x80 0xBF count others = (.char c, behind) := by
  cases rest with
  | nil => cases h
  | cons b others =>
    rw [continuation] at h
    split at h
    · next hb =>
      simp only [UInt8.le_iff_toNat_le] at hb
      have hn : b.toNat - 128 + 128 = b.toNat := by omega
      refine ⟨b.toNat - 128, others, _, ?_, by omega, by omega, by omega, h⟩
      rw [hn, UInt8.ofNat_toNat]
    · cases h

theorem exists_of_continuation_next
    (h : continuation bits taken 0x80 0xBF (count + 1) rest = (.char c, behind)) :
    ∃ n others taken', rest = UInt8.ofNat (n + 128) :: others ∧ n < 64 ∧
      continuation (bits * 64 + n) taken' 0x80 0xBF count others = (.char c, behind) := by
  obtain ⟨n, others, taken', hrest, hn, -, -, h⟩ :=
    exists_of_continuation (by decide) (by decide) h
  exact ⟨n, others, taken', hrest, hn, h⟩

theorem of_continuation_zero (h : continuation bits taken low high 0 rest = (.char c, behind)) :
    c = Char.ofNat bits ∧ behind = rest := by
  cases h
  exact ⟨rfl, rfl⟩

/-- How the first byte of a character tells how many bytes follow. -/
theorem lead_cases (h : Lead.ofByte? b = some lead) :
    (b.toNat < 0x80 ∧ lead = ⟨b.toNat, 0, 0x80, 0xBF⟩) ∨
    (0xC2 ≤ b.toNat ∧ b.toNat < 0xE0 ∧ lead = ⟨b.toNat - 0xC0, 1, 0x80, 0xBF⟩) ∨
    (0xE0 ≤ b.toNat ∧ b.toNat < 0xF0 ∧ ∃ low high, lead = ⟨b.toNat - 0xE0, 2, low, high⟩ ∧
      low.toNat = (if b.toNat = 0xE0 then 0xA0 else 0x80) ∧
      high.toNat = if b.toNat = 0xED then 0x9F else 0xBF) ∨
    (0xF0 ≤ b.toNat ∧ b.toNat < 0xF5 ∧ ∃ low high, lead = ⟨b.toNat - 0xF0, 3, low, high⟩ ∧
      low.toNat = (if b.toNat = 0xF0 then 0x90 else 0x80) ∧
      high.toNat = if b.toNat = 0xF4 then 0x8F else 0xBF) := by
  have hb : UInt8.ofNat b.toNat = b := UInt8.ofNat_toNat
  have hlead {other : Lead} (hother : Lead.ofByte? (UInt8.ofNat b.toNat) = some other) :
      lead = other := by
    rw [hb, h] at hother
    exact Option.some.inj hother
  have hlt := b.toNat_lt
  by_cases hone : b.toNat < 0x80
  · exact .inl ⟨hone, hlead (lead_one hone)⟩
  by_cases hnone : b.toNat < 0xC2
  · -- Such a byte continues a character.
    simp only [Lead.ofByte?, UInt8.lt_iff_toNat_lt, UInt8.reduceToNat] at h
    rw [if_neg hone, if_pos hnone] at h
    cases h
  by_cases htwo : b.toNat < 0xE0
  · exact .inr (.inl ⟨Nat.le_of_not_lt hnone, htwo, hlead (lead_two (Nat.le_of_not_lt hnone) htwo)⟩)
  by_cases hthree : b.toNat < 0xF0
  · obtain ⟨low, high, hthree', hbounds⟩ := lead_three (Nat.le_of_not_lt htwo) hthree
    exact .inr (.inr (.inl ⟨Nat.le_of_not_lt htwo, hthree, low, high, hlead hthree', hbounds⟩))
  by_cases hfour : b.toNat < 0xF5
  · obtain ⟨low, high, hfour', hbounds⟩ := lead_four (Nat.le_of_not_lt hthree) hfour
    exact .inr (.inr (.inr ⟨Nat.le_of_not_lt hthree, hfour, low, high, hlead hfour', hbounds⟩))
  · simp only [Lead.ofByte?, UInt8.lt_iff_toNat_lt, UInt8.reduceToNat] at h
    rw [if_neg hone, if_neg hnone, if_neg htwo, if_neg hthree, if_neg hfour] at h
    cases h

theorem toNat_val_ofNat (h : v < 0xD800 ∨ 0xDFFF < v ∧ v < 0x110000) :
    (Char.ofNat v).val.toNat = v := by
  have hvalid : Nat.isValidChar v := h
  rw [Char.ofNat, dif_pos hvalid]
  exact UInt32.toNat_ofNatLT

/-- A piece that is a character is the encoding of that. -/
theorem encodeChar_of_piece (h : piece b rest = (.char c, behind)) :
    String.utf8EncodeChar c ++ behind = b :: rest := by
  unfold piece at h
  split at h
  · cases h
  next lead hlead =>
  have hb : UInt8.ofNat b.toNat = b := UInt8.ofNat_toNat
  rcases lead_cases hlead with ⟨hlt, rfl⟩ | ⟨hle, hlt, rfl⟩ |
    ⟨hle, hlt, low, high, rfl, hlow, hhigh⟩ | ⟨hle, hlt, low, high, rfl, hlow, hhigh⟩
  · obtain ⟨rfl, rfl⟩ := of_continuation_zero h
    have hv : (Char.ofNat b.toNat).val.toNat = b.toNat := toNat_val_ofNat (by omega)
    rw [String.utf8EncodeChar, hv, if_pos (by omega), hb]
    rfl
  · obtain ⟨n, others, _, rfl, hn, h⟩ := exists_of_continuation_next h
    obtain ⟨rfl, rfl⟩ := of_continuation_zero h
    have hv := toNat_val_ofNat (v := (b.toNat - 0xC0) * 64 + n) (by omega)
    simp only [String.utf8EncodeChar, hv]
    rw [if_neg (by omega), if_pos (by omega),
      show ((b.toNat - 0xC0) * 64 + n) / 64 % 32 + 192 = b.toNat by omega,
      show ((b.toNat - 0xC0) * 64 + n) % 64 + 128 = n + 128 by omega, hb]
    rfl
  · obtain ⟨n, others, _, rfl, hn, hl, hh, h⟩ := exists_of_continuation
      (by rw [hlow]; split <;> decide) (by rw [hhigh]; split <;> decide) h
    obtain ⟨m, others, _, rfl, hm, h⟩ := exists_of_continuation_next h
    obtain ⟨rfl, rfl⟩ := of_continuation_zero h
    -- The bounds on the second byte keep out what takes two bytes, and surrogates.
    have hl : b.toNat = 0xE0 → 32 ≤ n := fun heq => by rw [hlow, if_pos heq] at hl; omega
    have hh : b.toNat = 0xED → n < 32 := fun heq => by rw [hhigh, if_pos heq] at hh; omega
    have hv := toNat_val_ofNat (v := ((b.toNat - 0xE0) * 64 + n) * 64 + m) (by omega)
    simp only [String.utf8EncodeChar, hv]
    rw [if_neg (by omega), if_neg (by omega), if_pos (by omega),
      show (((b.toNat - 0xE0) * 64 + n) * 64 + m) / 4096 % 16 + 224 = b.toNat by omega,
      show (((b.toNat - 0xE0) * 64 + n) * 64 + m) / 64 % 64 + 128 = n + 128 by omega,
      show (((b.toNat - 0xE0) * 64 + n) * 64 + m) % 64 + 128 = m + 128 by omega, hb]
    rfl
  · obtain ⟨n, others, _, rfl, hn, hl, hh, h⟩ := exists_of_continuation
      (by rw [hlow]; split <;> decide) (by rw [hhigh]; split <;> decide) h
    obtain ⟨m, others, _, rfl, hm, h⟩ := exists_of_continuation_next h
    obtain ⟨l, others, _, rfl, hlt', h⟩ := exists_of_continuation_next h
    obtain ⟨rfl, rfl⟩ := of_continuation_zero h
    have hl : b.toNat = 0xF0 → 16 ≤ n := fun heq => by rw [hlow, if_pos heq] at hl; omega
    have hh : b.toNat = 0xF4 → n < 16 := fun heq => by rw [hhigh, if_pos heq] at hh; omega
    have hv := toNat_val_ofNat (v := (((b.toNat - 0xF0) * 64 + n) * 64 + m) * 64 + l) (by omega)
    simp only [String.utf8EncodeChar, hv]
    rw [if_neg (by omega), if_neg (by omega), if_neg (by omega),
      show ((((b.toNat - 0xF0) * 64 + n) * 64 + m) * 64 + l) / 262144 % 8 + 240 = b.toNat by omega,
      show ((((b.toNat - 0xF0) * 64 + n) * 64 + m) * 64 + l) / 4096 % 64 + 128 = n + 128 by omega,
      show ((((b.toNat - 0xF0) * 64 + n) * 64 + m) * 64 + l) / 64 % 64 + 128 = m + 128 by omega,
      show ((((b.toNat - 0xF0) * 64 + n) * 64 + m) * 64 + l) % 64 + 128 = l + 128 by omega, hb]
    rfl

/-- Text that is read from bytes is encoded in these. -/
theorem encode_of_decode? {bytes : Bytes} {text : List Char} (h : decode? bytes = some text) :
    encode text = bytes := by
  unfold decode? at h
  fun_induction pieces bytes generalizing text with
  | case1 =>
    cases h
    rfl
  | case2 b rest ih =>
    rw [List.mapM_cons] at h
    obtain ⟨c, hc, h⟩ := Option.bind_eq_some_iff.1 h
    obtain ⟨others, hothers, h⟩ := Option.bind_eq_some_iff.1 h
    cases h
    cases hpiece : piece b rest with
    | mk first behind =>
      rw [hpiece] at hc hothers ih
      cases first with
      | invalid bytes => cases hc
      | char d =>
        cases hc
        rw [encode, List.flatMap_cons, ← encode, ih hothers, encodeChar_of_piece hpiece]

end

/-! ### Text in bytes -/

/-- Whether bytes are text in UTF-8. -/
def IsText (bytes : Bytes) : Prop := ∃ text, bytes = encode text

theorem isText_iff {bytes : Bytes} : IsText bytes ↔ (decode? bytes).isSome := by
  constructor
  · rintro ⟨text, rfl⟩
    rw [decode?_encode]
    rfl
  · intro h
    obtain ⟨text, htext⟩ := Option.isSome_iff_exists.1 h
    exact ⟨text, (encode_of_decode? htext).symm⟩

theorem isText_encode (text : List Char) : IsText (encode text) := ⟨text, rfl⟩

theorem IsText.append {bytes bytes' : Bytes} (h : IsText bytes) (h' : IsText bytes') :
    IsText (bytes ++ bytes') := by
  obtain ⟨text, rfl⟩ := h
  obtain ⟨text', rfl⟩ := h'
  exact ⟨text ++ text', List.flatMap_append.symm⟩

theorem IsText.flatMap {α : Type} {f : α → Bytes} {l : List α} (h : ∀ a ∈ l, IsText (f a)) :
    IsText (l.flatMap f) := by
  induction l with
  | nil => exact isText_encode []
  | cons a l ih =>
    rw [List.flatMap_cons]
    exact (h a List.mem_cons_self).append (ih fun b hb => h b (List.mem_cons_of_mem _ hb))

/-- A small byte in the encoding of a character is the code of that character. -/
theorem toNat_of_mem_encode {c : Char} {b : UInt8} (hb : b.toNat < 0x80)
    (h : b ∈ String.utf8EncodeChar c) : c.val.toNat = b.toNat := by
  -- Characters that take several bytes are encoded in large ones only.
  have hlarge (n : Nat) (hl : 0x80 ≤ n) (hh : n < 256) : b ≠ UInt8.ofNat n := by
    rintro rfl
    rw [toNat_ofNat hh] at hb
    omega
  have hc := toNat_val c
  simp only [String.utf8EncodeChar] at h
  split at h
  · rw [List.mem_singleton.1 h, toNat_ofNat (by omega)]
  split at h
  · simp only [List.mem_cons, List.not_mem_nil, or_false] at h
    rcases h with h | h <;> exact absurd h (hlarge _ (by omega) (by omega))
  split at h
  · simp only [List.mem_cons, List.not_mem_nil, or_false] at h
    rcases h with h | h | h <;> exact absurd h (hlarge _ (by omega) (by omega))
  · simp only [List.mem_cons, List.not_mem_nil, or_false] at h
    rcases h with h | h | h | h <;> exact absurd h (hlarge _ (by omega) (by omega))

/-- A small byte stands in an encoding only for its own character. -/
theorem not_mem_encode {text : List Char} {b : UInt8} (hb : b.toNat < 0x80)
    (h : ∀ c ∈ text, c.val.toNat ≠ b.toNat) : b ∉ encode text := by
  intro hmem
  obtain ⟨c, hc, hin⟩ := List.mem_flatMap.1 hmem
  exact h c hc (toNat_of_mem_encode hb hin)

/-- Text that is cut at a small byte is cut into texts. -/
theorem IsText.of_mem_split {separator : UInt8} {bytes piece : Bytes}
    (hs : separator.toNat < 0x80) (h : IsText bytes) (hp : piece ∈ split separator bytes) :
    IsText piece := by
  obtain ⟨text, rfl⟩ := h
  induction text generalizing piece with
  | nil =>
    rw [List.mem_singleton.1 hp]
    exact isText_encode []
  | cons c text ih =>
    have hcons : encode (c :: text) = String.utf8EncodeChar c ++ encode text :=
      List.flatMap_cons
    rw [hcons] at hp
    by_cases hmem : separator ∈ String.utf8EncodeChar c
    · -- Such a character is encoded in one byte.
      have hone : String.utf8EncodeChar c = [separator] := by
        have hn := toNat_of_mem_encode hs hmem
        rw [String.utf8EncodeChar, hn, if_pos (by omega)]
        simp
      rw [hone, List.singleton_append, split_separator_cons, List.mem_cons] at hp
      rcases hp with rfl | hp
      · exact isText_encode []
      · exact ih hp
    · -- The whole encoding goes into the first piece.
      obtain ⟨first, others, hsplit, hfirst⟩ := split_append hmem (encode text)
      rw [hsplit] at ih
      rw [hfirst, List.mem_cons] at hp
      rcases hp with rfl | hp
      · have hc : IsText (String.utf8EncodeChar c) := ⟨[c], by simp [encode]⟩
        exact hc.append (ih List.mem_cons_self)
      · exact ih (List.mem_cons_of_mem _ hp)

end PrecompiledHeaders.Utf8

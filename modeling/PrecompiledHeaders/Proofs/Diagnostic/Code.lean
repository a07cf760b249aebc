import PrecompiledHeaders.Diagnostic.Code

/-!
# Diagnostic codes that are read back

Of all texts, the ones that are read as codes are those that are written for numbers of at most three digits
(`DiagnosticCode.ofText_eq_ok_iff`). Up to there a number is written as its hundreds, tens and ones
(`DiagnosticCode.threeDigits_eq`); a greater one takes more than three digits
(`DiagnosticCode.length_threeDigits_of_lt`), and reading wants no more.
-/

namespace PrecompiledHeaders

namespace Digits

theorem exists_digitChar {c : Char} (h : c.isDigit) : ∃ d < 10, c = d.digitChar := by
  have hc : 48 ≤ c.toNat ∧ c.toNat ≤ 57 := Char.isDigit_iff_toNat.1 h
  refine ⟨c.toNat - 48, by omega, Char.toNat_inj.1 ?_⟩
  rw [Nat.toNat_digitChar_of_lt_ten (by omega)]
  omega

theorem value?_digitChar : ∀ d < 10, value? d.digitChar = some d := by decide

/-- The last digit stands behind the others. -/
theorem toDigits_mul_add {n d : Nat} (hn : 0 < n) (hd : d < 10) :
    Nat.toDigits 10 (n * 10 + d) = Nat.toDigits 10 n ++ [d.digitChar] := by
  rw [Nat.mul_comm, ← Nat.toDigits_append_toDigits (by decide) hn hd, Nat.toDigits_of_lt_base hd]

end Digits

namespace DiagnosticCode

variable {n hundreds tens ones : Nat}

/-! ### Numbers -/

/-- A number below a thousand is written as its hundreds, tens and ones. -/
theorem threeDigits_eq (hhundreds : hundreds < 10) (htens : tens < 10) (hones : ones < 10) :
    threeDigits ((hundreds * 10 + tens) * 10 + ones) =
      [hundreds.digitChar, tens.digitChar, ones.digitChar] := by
  obtain rfl | hpos := Nat.eq_zero_or_pos hundreds
  · obtain rfl | hpos := Nat.eq_zero_or_pos tens
    · rw [Nat.zero_mul, Nat.zero_add, threeDigits, Nat.toDigits_of_lt_base hones]
      rfl
    · rw [Nat.zero_mul, Nat.zero_add, threeDigits, Digits.toDigits_mul_add hpos hones,
        Nat.toDigits_of_lt_base htens]
      rfl
  · rw [threeDigits, Digits.toDigits_mul_add (by omega) hones, Digits.toDigits_mul_add hpos htens,
      Nat.toDigits_of_lt_base hhundreds]
    rfl

theorem length_threeDigits_of_lt (h : 999 < n) : 3 < (threeDigits n).length := by
  have hlength : ¬(Nat.toDigits 10 n).length ≤ 3 := by
    rw [Nat.length_toDigits_le_iff (by decide) (by decide)]
    omega
  rw [threeDigits, List.length_append]
  omega

theorem number_digits (hhundreds : hundreds < 10) (htens : tens < 10) (hones : ones < 10) :
    Digits.number 10 [hundreds.digitChar, tens.digitChar, ones.digitChar] =
      (hundreds * 10 + tens) * 10 + ones := by
  simp [Digits.number, Digits.value?_digitChar, *]

/-! ### Codes -/

theorem letter_eq_of_ofLetter? {letter : Char} {category : Category}
    (h : Category.ofLetter? letter = some category) : letter = category.letter := by
  unfold Category.ofLetter? at h
  split at h
  all_goals cases h
  all_goals rfl

@[simp]
theorem ofLetter?_letter (category : Category) : Category.ofLetter? category.letter = some category := by
  cases category <;> rfl

theorem toList_text (code : DiagnosticCode) :
    code.text.toList = code.category.letter :: threeDigits code.number := String.toList_ofList

theorem eq_text_of_ofText {text : String} {code : DiagnosticCode} (h : ofText text = .ok code) :
    code.number ≤ 999 ∧ text = code.text := by
  unfold ofText at h
  split at h
  · cases h
  next letter digits htext =>
  split at h
  · cases h
  next category hcategory =>
  split at h
  next hdigits =>
    cases h
    obtain ⟨hlength, hall⟩ := hdigits
    match digits, hlength with
    | [a, b, c], _ =>
      rw [List.all_eq_true] at hall
      obtain ⟨hundreds, hhundreds, rfl⟩ := Digits.exists_digitChar (hall a (by simp))
      obtain ⟨tens, htens, rfl⟩ := Digits.exists_digitChar (hall b (by simp))
      obtain ⟨ones, hones, rfl⟩ := Digits.exists_digitChar (hall c (by simp))
      rw [number_digits hhundreds htens hones]
      refine ⟨by simp only; omega, String.toList_inj.1 ?_⟩
      rw [htext, toList_text, threeDigits_eq hhundreds htens hones, letter_eq_of_ofLetter? hcategory]
  · cases h

theorem ofText_text_of_le {code : DiagnosticCode} (h : code.number ≤ 999) :
    ofText code.text = .ok code := by
  obtain ⟨category, n⟩ := code
  obtain ⟨hundreds, tens, ones, hhundreds, htens, hones, rfl⟩ : ∃ hundreds tens ones,
      hundreds < 10 ∧ tens < 10 ∧ ones < 10 ∧ n = (hundreds * 10 + tens) * 10 + ones :=
    ⟨n / 100, n / 10 % 10, n % 10, by simp only at h; omega, by omega, by omega, by omega⟩
  rw [ofText, toList_text]
  simp only [ofLetter?_letter, threeDigits_eq hhundreds htens hones, number_digits hhundreds htens hones]
  simp [Nat.isDigit_digitChar, hhundreds, htens, hones]

theorem ofText_text_of_lt {code : DiagnosticCode} (h : 999 < code.number) :
    ofText code.text = .error (.notThreeDigits code.text) := by
  rw [ofText, toList_text]
  simp only [ofLetter?_letter]
  exact if_neg fun ⟨hlength, _⟩ => Nat.ne_of_gt (length_threeDigits_of_lt h) hlength

/-- The texts that are read as codes are those that are written for numbers of at most three digits. -/
theorem ofText_eq_ok_iff (text : String) (code : DiagnosticCode) :
    ofText text = .ok code ↔ code.number ≤ 999 ∧ text = code.text :=
  ⟨eq_text_of_ofText, fun ⟨hnumber, htext⟩ => htext ▸ ofText_text_of_le hnumber⟩

end DiagnosticCode

end PrecompiledHeaders

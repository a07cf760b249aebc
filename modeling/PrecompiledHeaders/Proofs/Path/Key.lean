import PrecompiledHeaders.Path.Key
import PrecompiledHeaders.Proofs.Text.Utf8

/-!
# Reading back keys

A path is read back from its key, byte by byte (`Path.ofKey?_key`), so no two paths have one key
(`Path.key_inj`).
-/

namespace PrecompiledHeaders

theorem Digits.number?_ofValue : ∀ n < 16, ∀ m < 16,
    number? 16 [ofValue n, ofValue m] = some (n * 16 + m) := by
  decide

namespace Path

variable {p q : Path}

theorem byte?_hexadecimal (b : UInt8) : byte? (Digits.hexadecimal 2 b.toNat) = some b := by
  have hdigits : Digits.hexadecimal 2 b.toNat =
      [Digits.ofValue (b.toNat / 16 % 16), Digits.ofValue (b.toNat % 16)] := rfl
  have hplus : ∀ n < 16, Digits.ofValue n ≠ '+' := by decide
  have hlt := b.toNat_lt
  rw [hdigits, byte?, Digits.number?_ofValue _ (by omega) _ (by omega), Option.map_some,
    show b.toNat / 16 % 16 * 16 + b.toNat % 16 = b.toNat by omega, UInt8.ofNat_toNat]
  rintro _ heq
  exact hplus _ (Nat.mod_lt _ (by decide)) (List.cons.inj heq).1

theorem unspell?_spell (bytes : Bytes) : unspell? (spell bytes) = some bytes := by
  induction bytes with
  | nil => rfl
  | cons b rest ih =>
    have hspell : spell (b :: rest) = Digits.hexadecimal 2 b.toNat ++ spell rest :=
      List.flatMap_cons
    have hdigits : Digits.hexadecimal 2 b.toNat =
        [Digits.ofValue (b.toNat / 16 % 16), Digits.ofValue (b.toNat % 16)] := rfl
    have hbyte := byte?_hexadecimal b
    rw [hdigits] at hbyte
    rw [hspell, hdigits, List.cons_append, List.singleton_append, unspell?, hbyte, ih]
    rfl

/-- A path is read back from its key. -/
theorem ofKey?_key (p : Path) : ofKey? p.key = some p := by
  have hspelled : ofKey? (mark :: spell p.bytes) = some p := by
    rw [ofKey?, List.head?_cons, if_pos rfl, List.tail_cons, unspell?_spell]
    rfl
  unfold key
  split
  · next text htext =>
    split
    · exact hspelled
    · next hmark => rw [ofKey?, if_neg hmark, Utf8.encode_of_decode? htext]
  · exact hspelled

/-- Each path has a key of its own. -/
theorem key_inj : p.key = q.key ↔ p = q := by
  refine ⟨fun h => ?_, congrArg key⟩
  rw [← Option.some.injEq, ← ofKey?_key p, h, ofKey?_key]

/-- A path that is text is its own key, unless it starts with the mark. -/
theorem key_ofString {text : String} (h : text.toList.head? ≠ some mark) :
    (ofString text).key = text.toList := by
  rw [key, ofString, Utf8.decode?_encode]
  exact if_neg h

end Path

end PrecompiledHeaders

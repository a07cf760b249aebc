import PrecompiledHeaders.Diagnostic.Basic
import PrecompiledHeaders.Proofs.Datum.Json
import PrecompiledHeaders.Proofs.Diagnostic.Code
import PrecompiledHeaders.Proofs.Path.Absolute
import PrecompiledHeaders.Proofs.Text.Distinct

/-!
# Diagnostics that are read back

A diagnostic is written as a plain datum (`Diagnostic.isPlain_written`), so JSON reads that back. From the
datum everything is read as it was, unless the number of the code has more than three digits: then nothing
is (`Diagnostic.ofDatum?_written`).
-/

namespace PrecompiledHeaders

namespace Datum

/-- The fields of a record whose names are different are found by their names. -/
theorem fields?_ofFields {fields : List (String × Datum)} (exact : Bool) (known : List String)
    (h : (fields.map Prod.fst).Nodup) :
    (ofFields fields).fields? exact known = some fun name => fields.lookup name := by
  have hnamed : (fields.map fun field => (some field.1, field.2)).mapM
      (fun field => field.1.map (·, field.2)) = some fields := by
    have hpure : ((fields.map fun field => (some field.1, field.2)).mapM
        fun field => field.1.map (·, field.2)) = some (fields.map id) :=
      List.mapM_map.trans List.mapM_pure
    rw [hpure, List.map_id]
  have hnames : ((fields.map Prod.fst).filter (· ∈ known)).eraseDups.length =
      ((fields.map Prod.fst).filter (· ∈ known)).length := by
    rw [eraseDups_of_nodup (h.filter _)]
  rw [ofFields, fields?, recordFields?, hnamed]
  exact if_neg (Nat.not_lt_of_le (Nat.le_of_eq hnames.symm))

theorem strings?_ofString (texts : List String) : strings? (.list (texts.map .ofString)) = some texts := by
  have hpure : (texts.map ofString).mapM string? = some (texts.map id) := List.mapM_map.trans List.mapM_pure
  rw [strings?, hpure, List.map_id]

end Datum

theorem Path.IsText.exists_eq_ofString {p : Path} (h : p.IsText) :
    ∃ text, p.text? = some text ∧ p = .ofString text := by
  obtain ⟨bytes⟩ := p
  obtain ⟨characters, rfl⟩ := h
  refine ⟨String.ofList characters, ?_, ?_⟩
  · rw [text?, Utf8.decode?_encode]
    rfl
  · rw [ofString, String.toList_ofList]

theorem Severity.ofDatum?_label (s : Severity) : ofDatum? (.ofString s.label) = some s := by
  cases s <;> decide

namespace Diagnostic

variable {d : Diagnostic} {file : Datum}

/-- A diagnostic as it is written, with the datum that is written for its file. -/
def written (d : Diagnostic) (file : Datum) : Datum :=
  .ofFields [
    ("severity", .ofString d.severity.label),
    ("code", .ofString d.code.text),
    ("message", .ofString d.message),
    ("file", file),
    ("notes", .list (d.notes.map .ofString))]

/-- A file is written as nothing or as a text, and read back. -/
theorem exists_toDatum?_eq_written (h : ∀ file, d.file = some file → file.IsText) :
    ∃ file, d.toDatum? = some (d.written file) ∧ file.IsPlain ∧ fileOfDatum? file = some d.file := by
  obtain ⟨severity, code, message, _ | path, notes⟩ := d
  · exact ⟨.null, rfl, .null, rfl⟩
  · obtain ⟨text, htext, rfl⟩ := (h path rfl).exists_eq_ofString
    refine ⟨.ofString text, ?_, .text text, rfl⟩
    rw [toDatum?]
    simp only [htext]
    rfl

theorem isPlain_written (h : file.IsPlain) : (d.written file).IsPlain := by
  have hnotes : (Datum.list (d.notes.map .ofString)).IsPlain :=
    .list (List.forall_mem_map.2 fun note _ => .text note)
  refine .record ?_
  simp only [List.forall_mem_cons]
  exact ⟨.text _, .text _, .text _, h, hnotes, List.forall_mem_nil _⟩

/-- Everything that is written is read as it was, but a code with more than three digits is not read at
    all. -/
theorem ofDatum?_written (h : fileOfDatum? file = some d.file) :
    ofDatum? (d.written file) = if d.code.number ≤ 999 then some d else none := by
  have hrecord : ofDatum? (d.written file) = (do
      let fields ← (d.written file).fields? true fieldNames
      return {
        severity := ← fields.required? "severity" Severity.ofDatum?
        code := ← fields.required? "code" codeOfDatum?
        message := ← fields.required? "message" Datum.string?
        file := ← fields.withDefault? "file" none fileOfDatum?
        notes := ← fields.required? "notes" Datum.strings? }) := rfl
  have hcode : codeOfDatum? (.ofString d.code.text) =
      if d.code.number ≤ 999 then some d.code else none := by
    have hread : codeOfDatum? (.ofString d.code.text) = (DiagnosticCode.ofText d.code.text).toOption := rfl
    split
    next hle => rw [hread, DiagnosticCode.ofText_text_of_le hle]; rfl
    next hlt => rw [hread, DiagnosticCode.ofText_text_of_lt (Nat.lt_of_not_le hlt)]; rfl
  have hmessage : (Datum.ofString d.message).string? = some d.message := rfl
  rw [hrecord, written, Datum.fields?_ofFields _ _ (by simp)]
  simp [Datum.Fields.required?, Datum.Fields.withDefault?, List.lookup_cons, Severity.ofDatum?_label, hcode,
    hmessage, h, Datum.strings?_ofString]
  split <;> rfl

/-- Codes are read from what is written for numbers of at most three digits and from nothing else. So a
    diagnostic whose file, if there is one, is text can be written, and what is read then is the same
    diagnostic if and only if the number of its code has at most three digits: from JSON, and from whatever
    else data are read back from. -/
theorem read_back_iff_three_digits :
    (∀ (text : String) (code : DiagnosticCode),
      DiagnosticCode.ofText text = .ok code ↔ code.number ≤ 999 ∧ text = code.text) ∧
    ∀ d : Diagnostic, (∀ file, d.file = some file → file.IsText) →
      ∃ datum, d.toDatum? = some datum ∧
        ((Json.parse? (Json.compact datum).toList).bind ofDatum? = some d ↔ d.code.number ≤ 999) ∧
        ∀ (write : Datum → List Char) (read : List Char → Option Datum),
          read (write datum) = some datum →
            ((read (write datum)).bind ofDatum? = some d ↔ d.code.number ≤ 999) := by
  refine ⟨DiagnosticCode.ofText_eq_ok_iff, fun d hd => ?_⟩
  obtain ⟨file, hwritten, hplain, hfile⟩ := exists_toDatum?_eq_written hd
  have hiff : ofDatum? (d.written file) = some d ↔ d.code.number ≤ 999 := by
    rw [ofDatum?_written hfile]
    split <;> simp [*]
  refine ⟨d.written file, hwritten, ?_, fun write read hread => ?_⟩
  · rw [Json.parse?_compact (isPlain_written hplain)]
    exact hiff
  · rw [hread]
    exact hiff

/-- A warning about a file, with a number that is padded and with characters that are escaped. -/
theorem read_back_iff_three_digits_padded :
    ∃ datum, toDatum? ⟨.warning, ⟨.warning, 7⟩, "line \"two\"\n", some (.ofString "/src/é.h"), ["a", "b"]⟩ =
        some datum ∧
      (Json.parse? (Json.compact datum).toList).bind ofDatum? =
        some ⟨.warning, ⟨.warning, 7⟩, "line \"two\"\n", some (.ofString "/src/é.h"), ["a", "b"]⟩ := by
  obtain ⟨datum, hdatum, hiff, -⟩ := read_back_iff_three_digits.2
    ⟨.warning, ⟨.warning, 7⟩, "line \"two\"\n", some (.ofString "/src/é.h"), ["a", "b"]⟩
    (by rintro file ⟨⟩; exact Path.isText_ofString _)
  exact ⟨datum, hdatum, hiff.2 (by decide)⟩

end Diagnostic

end PrecompiledHeaders

import PrecompiledHeaders.Snapshot.Basic
import Mathlib.Algebra.Group.Nat.Defs
import Mathlib.Data.List.Forall2

/-!
# Snapshots read back

What is written as a snapshot is read as the same snapshot (`Snapshot.decode_of_encode?`). For each
building block of the format, the bytes that are written for a value are what its decoder takes off
the front, and no more (`Codec.Takes`).
-/

namespace PrecompiledHeaders

/-- Values that there may not be are taken together if there is each of them. -/
theorem mapM_eq_some_iff {α β : Type} {f : α → Option β} {l : List α} {found : List β} :
    l.mapM f = some found ↔ List.Forall₂ (fun a b => f a = some b) l found := by
  induction l generalizing found with
  | nil =>
    rw [List.mapM_nil, List.forall₂_nil_left_iff]
    exact Option.some_inj.trans eq_comm
  | cons a rest ih =>
    simp only [List.mapM_cons, List.forall₂_cons_left_iff, ← ih, Option.bind_eq_bind,
      Option.bind_eq_some_iff, Option.pure_def, Option.some_inj]
    constructor
    · rintro ⟨b, hb, others, hothers, rfl⟩
      exact ⟨b, others, hb, hothers, rfl⟩
    · rintro ⟨b, others, hb, hothers, rfl⟩
      exact ⟨b, hb, others, hothers, rfl⟩

namespace Codec

variable {α β : Type} {decoder : Decoder α} {xs ys : Bytes} {a : α} {b : β} {n : Nat}

/-- Whether a decoder takes exactly some bytes off the front, and they stand for a value. -/
def Takes (decoder : Decoder α) (xs : Bytes) (a : α) : Prop :=
  ∀ rest, decoder (xs ++ rest) = some (a, rest)

theorem Takes.pure (a : α) : Takes (Pure.pure a : Decoder α) [] a := fun _ => rfl

theorem Takes.bind {f : α → Decoder β} (h : Takes decoder xs a) (h' : Takes (f a) ys b) :
    Takes (decoder >>= f) (xs ++ ys) b := by
  intro rest
  have hbind : (decoder >>= f) (xs ++ ys ++ rest) =
      (decoder (xs ++ ys ++ rest)).bind fun taken => f taken.1 taken.2 := rfl
  rw [hbind, List.append_assoc, h (ys ++ rest)]
  exact h' rest

theorem Takes.map {f : α → β} (h : Takes decoder xs a) :
    Takes (do return f (← decoder)) xs (f a) := by
  have hbind : Takes (decoder >>= fun a => Pure.pure (f a)) (xs ++ []) (f a) := h.bind (.pure (f a))
  rwa [List.append_nil] at hbind

theorem takes_bytes (xs : Bytes) : Takes (bytes xs.length) xs xs := by
  intro rest
  rw [bytes, if_pos (by simp), List.take_left, List.drop_left]

theorem bytes_eq_some {count : Nat} {input content rest : Bytes}
    (h : bytes count input = some (content, rest)) :
    content = input.take count ∧ rest = input.drop count := by
  rw [bytes] at h
  split at h
  · cases h
    exact ⟨rfl, rfl⟩
  · cases h

theorem takes_byte (b : UInt8) : Takes byte [b] b := fun _ => rfl

/-! ### Numbers -/

theorem length_littleEndian (count n : Nat) : (littleEndian count n).length = count := by
  induction count generalizing n with
  | zero => rfl
  | succ count ih => rw [littleEndian, List.length_cons, ih]

theorem ofLittleEndian_littleEndian {count n : Nat} (h : n < 256 ^ count) :
    ofLittleEndian (littleEndian count n) = n := by
  induction count generalizing n with
  | zero =>
    rw [Nat.pow_zero, Nat.lt_one_iff] at h
    rw [h]
    rfl
  | succ count ih =>
    have hrest : n / 256 < 256 ^ count := Nat.div_lt_of_lt_mul (by rwa [Nat.pow_succ'] at h)
    rw [littleEndian, ofLittleEndian, ih hrest, UInt8.toNat_ofNat']
    exact Nat.mod_add_div n 256

theorem takes_fixed {count n : Nat} (h : n < 256 ^ count) :
    Takes (fixed count) (littleEndian count n) n := by
  have htake := (takes_bytes (littleEndian count n)).map (f := ofLittleEndian)
  rwa [length_littleEndian, ofLittleEndian_littleEndian h] at htake

theorem find?_marker {width widest : Width} (h : width.count ≤ widest.count) :
    Width.all.find? (fun w => w.marker = width.marker ∧ w.count ≤ widest.count) = some width := by
  revert h
  cases width <;> cases widest <;> decide

/-- A number is written in one byte, or behind a marker in the smallest width that it fits in. -/
theorem number_cases (h : n < 2 ^ 128) :
    (n < markers ∧ number n = [UInt8.ofNat n]) ∨
    ∃ width : Width, number n = width.marker :: littleEndian width.count n ∧ n < 256 ^ width.count ∧
      ∀ widest : Width, n < 256 ^ widest.count → width.count ≤ widest.count := by
  unfold number
  split
  · next hsmall => exact .inl ⟨hsmall, rfl⟩
  refine .inr ?_
  split
  · next htwo =>
    refine ⟨.two, rfl, by simpa [Width.count] using htwo, fun widest _ => ?_⟩
    cases widest <;> decide
  split
  · next htwo hfour =>
    refine ⟨.four, rfl, by simpa [Width.count] using hfour, fun widest hn => ?_⟩
    cases widest <;> simp [Width.count] at hn ⊢
    omega
  split
  · next htwo hfour hwide =>
    refine ⟨.eight, rfl, by simpa [Width.count] using hwide, fun widest hn => ?_⟩
    cases widest <;> simp [Width.count] at hn ⊢ <;> omega
  · next htwo hfour hwide =>
    refine ⟨.sixteen, rfl, by simpa [Width.count] using h, fun widest hn => ?_⟩
    cases widest <;> simp [Width.count] at hn ⊢ <;> omega

theorem length_number_le (n : Nat) : (number n).length ≤ 17 := by
  unfold number
  split
  · simp
  split
  · simp [length_littleEndian]
  split
  · simp [length_littleEndian]
  split <;> simp [length_littleEndian]

theorem takes_number {widest : Width} (h : n < 256 ^ widest.count) :
    Takes (numberUpTo widest) (number n) n := by
  have hlimit : n < 2 ^ 128 := by
    refine Nat.lt_of_lt_of_le h ?_
    cases widest <;> decide
  have hmarkers : ∀ width : Width, ¬width.marker.toNat < markers := fun width => by
    cases width <;> decide
  rcases number_cases hlimit with ⟨hsmall, hnumber⟩ | ⟨width, hnumber, hfits, hsmallest⟩
  · have hbyte : (UInt8.ofNat n).toNat = n := by
      rw [UInt8.toNat_ofNat', Nat.mod_eq_of_lt (Nat.lt_trans hsmall (by decide))]
    rw [hnumber, ← List.append_nil [UInt8.ofNat n]]
    refine (takes_byte _).bind ?_
    rw [if_pos (by rwa [hbyte]), hbyte]
    exact .pure n
  · rw [hnumber]
    refine (takes_byte width.marker).bind ?_
    rw [if_neg (hmarkers width)]
    simp only [find?_marker (hsmallest widest h)]
    exact takes_fixed hfits

/-! ### Texts and lists -/

theorem takes_length (h : length? n = some xs) : Takes (numberUpTo .eight) xs n := by
  unfold length? at h
  split at h
  · next hn =>
    cases h
    exact takes_number hn
  · cases h

theorem takes_text {content : Bytes} (htext : (Utf8.decode? content).isSome)
    (h : text? content = some xs) : Takes textBytes xs content := by
  obtain ⟨length, hlength, rfl⟩ := Option.map_eq_some_iff.1 h
  refine (takes_length hlength).bind ?_
  have hcontent : Takes (do
      let content ← bytes content.length
      if (Utf8.decode? content).isSome then return content else failure)
      (content ++ []) content := by
    refine (takes_bytes content).bind ?_
    rw [if_pos htext]
    exact .pure content
  rwa [List.append_nil] at hcontent

theorem takes_items {item : Decoder α} {values : List α} {encoded : List Bytes}
    (h : List.Forall₂ (fun a xs => Takes item xs a) values encoded) :
    Takes (items item encoded.length) encoded.flatten values := by
  induction h with
  | nil => exact .pure []
  | cons hfirst _ ih =>
    exact hfirst.bind ih.map

end Codec

namespace Snapshot

open Codec

variable {entry : SnapshotEntry} {snapshot : Snapshot} {encoded : Bytes}

theorem takes_entry (h : encodeEntry? entry = some encoded) : Takes entryDecoder encoded entry := by
  obtain ⟨path, hash⟩ := entry
  unfold encodeEntry? at h
  split at h
  · next htext =>
    obtain ⟨bytes, hbytes, rfl⟩ := Option.map_eq_some_iff.1 (Option.map_eq_bind.trans h)
    have hvalue : hash.value.toNat < 256 ^ Width.sixteen.count := hash.value.isLt
    refine (takes_text (by simpa [Path.text?] using htext) hbytes).bind ?_
    have hhash := (takes_number hvalue).map
      (f := fun hash => SnapshotEntry.mk path ⟨BitVec.ofNat 128 hash⟩)
    rwa [BitVec.ofNat_toNat, BitVec.setWidth_eq] at hhash
  · cases h

theorem takes_payload (h : snapshot.payload? = some encoded) :
    Takes payloadDecoder encoded snapshot := by
  obtain ⟨items, hitems, h⟩ := Option.bind_eq_some_iff.1 h
  obtain ⟨length, hlength, h⟩ := Option.bind_eq_some_iff.1 h
  cases h
  have htakes : List.Forall₂ (fun entry xs => Takes entryDecoder xs entry) snapshot.entries items :=
    (mapM_eq_some_iff.1 hitems).imp fun _ _ => takes_entry
  exact (takes_length hlength).bind (takes_items htakes).map

theorem takes_header (payload : Bytes) : Takes headerDecoder (header payload)
    (magic, version, (ContentHash.ofBytes payload).value.toNat) := by
  have hchecksum : (ContentHash.ofBytes payload).value.toNat < 256 ^ Width.sixteen.count :=
    (ContentHash.ofBytes payload).value.isLt
  have hversion : version < 256 ^ Width.four.count := by decide
  rw [header, List.append_assoc]
  exact (takes_bytes magic).bind ((takes_number hversion).bind (takes_number hchecksum).map)

theorem length_header_lt (payload : Bytes) : (header payload).length < 256 ^ 4 := by
  have hversion := length_number_le version
  have hchecksum := length_number_le (ContentHash.ofBytes payload).value.toNat
  have hmagic : magic.length = 4 := by decide
  simp only [header, List.length_append]
  omega

/-- A file is cut behind its header, whatever stands there. -/
theorem cut?_header (payload behind : Bytes) :
    cut? (littleEndian 4 (header payload).length ++ header payload ++ behind) =
      some (header payload, behind) := by
  have hcut : cut? = (fixed 4 >>= fun length => bytes length) := rfl
  rw [hcut]
  exact (takes_fixed (length_header_lt payload)).bind (takes_bytes (header payload)) behind

/-- What is written for a snapshot is read as that snapshot. -/
theorem decode_of_encode? (h : snapshot.encode? = some encoded) :
    decode encoded = .ok snapshot := by
  obtain ⟨payload, hpayload, rfl⟩ := Option.map_eq_some_iff.1 h
  have hheader := takes_header payload []
  have hsnapshot := takes_payload hpayload []
  rw [List.append_nil] at hheader hsnapshot
  simp only [decode, file, cut?_header, hheader, hsnapshot, ne_eq, not_true_eq_false, if_false]

/-- Whatever is read as a snapshot has a header with the magic word, the version and the hash of
    what stands behind it. -/
theorem exists_header_of_decode {raw : Bytes} (h : decode raw = .ok snapshot) :
    ∃ header payload rest, cut? raw = some (header, payload) ∧ headerDecoder header =
      some ((magic, version, (ContentHash.ofBytes payload).value.toNat), rest) := by
  unfold decode at h
  split at h
  · cases h
  next header payload hcut =>
  split at h
  · cases h
  next word number checksum rest hheader =>
  split at h
  · cases h
  next hword =>
  split at h
  · cases h
  next hnumber =>
  split at h
  · cases h
  next hchecksum =>
  refine ⟨header, payload, rest, hcut, ?_⟩
  rw [hheader, Decidable.of_not_not hword, Decidable.of_not_not hnumber,
    Decidable.of_not_not hchecksum]

/-- Whatever is read as a snapshot has the magic word behind its first four bytes. -/
theorem magic_prefix_of_decode {raw : Bytes} (h : decode raw = .ok snapshot) :
    magic <+: raw.drop 4 := by
  obtain ⟨header, payload, rest, hcut, hheader⟩ := exists_header_of_decode h
  obtain ⟨⟨length, behind⟩, hlength, hheaderBytes⟩ := Option.bind_eq_some_iff.1 hcut
  obtain ⟨⟨content, behind'⟩, hcontent, heq⟩ := Option.bind_eq_some_iff.1 hlength
  cases heq
  obtain ⟨⟨word, afterWord⟩, hword, hrest⟩ := Option.bind_eq_some_iff.1 hheader
  obtain ⟨⟨number, afterNumber⟩, -, hrest⟩ := Option.bind_eq_some_iff.1 hrest
  obtain ⟨⟨checksum, afterChecksum⟩, -, hrest⟩ := Option.bind_eq_some_iff.1 hrest
  cases hrest
  -- The word is the front of the header, and the header stands behind its length.
  obtain ⟨hmagic, -⟩ := bytes_eq_some hword
  obtain ⟨rfl, -⟩ := bytes_eq_some hheaderBytes
  obtain ⟨-, rfl⟩ := bytes_eq_some hcontent
  rw [hmagic]
  exact (List.take_prefix _ _).trans (List.take_prefix _ _)

end Snapshot

end PrecompiledHeaders

import PrecompiledHeaders.Frontend.Scan
import PrecompiledHeaders.Proofs.FileTree.Growth
import PrecompiledHeaders.Proofs.Snapshot.RoundTrip
import PrecompiledHeaders.Proofs.Text.Utf8

/-!
# Snapshots in files

A snapshot has bytes just if its paths are text (`Snapshot.exists_encode?_iff`). Then it can be
written wherever a file can be written, and from there it is read again
(`Snapshot.exists_writeSnapshot`). Otherwise it is refused before anything is written
(`Snapshot.writeSnapshot_of_refused`).

What is read tells the truth about itself: the header of its file has the hash of what stands behind
(`Snapshot.exists_header_of_decode`). So other entries behind the same header have to have the same
hash, and no file with another word, version or hash in its header is a snapshot.
-/

namespace PrecompiledHeaders

open Codec FileTree

/-- Some values are related to others if each of them is related to one. -/
theorem exists_forall₂_iff {α β : Type} {R : α → β → Prop} {l : List α} :
    (∃ found, List.Forall₂ R l found) ↔ ∀ a ∈ l, ∃ b, R a b := by
  induction l with
  | nil => exact iff_of_true ⟨[], .nil⟩ (List.forall_mem_nil _)
  | cons a rest ih =>
    rw [List.forall_mem_cons, ← ih]
    constructor
    · rintro ⟨_, hall⟩
      cases hall with
      | cons hfirst hrest => exact ⟨⟨_, hfirst⟩, _, hrest⟩
    · rintro ⟨⟨b, hb⟩, others, hothers⟩
      exact ⟨b :: others, .cons hb hothers⟩

theorem Codec.length?_eq_some {n : Nat} (h : n < 2 ^ 64) : length? n = some (number n) := if_pos h

/-- Whether the counts in a snapshot are machine words, as those of all that is in memory are. -/
structure Snapshot.IsHeld (snapshot : Snapshot) : Prop where
  entries : snapshot.entries.length < 2 ^ 64
  paths : ∀ p ∈ snapshot.paths, p.bytes.length < 2 ^ 64

namespace Snapshot

variable {entry : SnapshotEntry} {snapshot : Snapshot}

/-! ### Bytes of snapshots -/

theorem exists_encodeEntry?_iff (h : entry.path.bytes.length < 2 ^ 64) :
    (∃ bytes, encodeEntry? entry = some bytes) ↔ entry.path.IsText := by
  have htext : entry.path.text?.isSome ↔ entry.path.IsText := by
    rw [Path.IsText, Utf8.isText_iff, Path.text?, Option.isSome_map]
  unfold encodeEntry?
  rw [text?, length?_eq_some h, ← htext]
  split
  · next hsome => exact iff_of_true ⟨_, rfl⟩ hsome
  · next hnone =>
    refine iff_of_false ?_ hnone
    rintro ⟨_, hbytes⟩
    cases hbytes

/-- A snapshot has bytes just if its paths are text. -/
theorem exists_encode?_iff (h : snapshot.IsHeld) :
    (∃ bytes, snapshot.encode? = some bytes) ↔ ∀ p ∈ snapshot.paths, p.IsText := by
  have hentries : (∃ encoded, snapshot.entries.mapM encodeEntry? = some encoded) ↔
      ∀ p ∈ snapshot.paths, p.IsText := by
    simp only [mapM_eq_some_iff, exists_forall₂_iff, paths, List.forall_mem_map]
    exact forall₂_congr fun entry hentry =>
      exists_encodeEntry?_iff (h.paths _ (List.mem_map_of_mem hentry))
  rw [← hentries, encode?, payload?]
  constructor
  · rintro ⟨bytes, hbytes⟩
    obtain ⟨payload, hpayload, -⟩ := Option.map_eq_some_iff.1 hbytes
    obtain ⟨encoded, hencoded, -⟩ := Option.bind_eq_some_iff.1 hpayload
    exact ⟨encoded, hencoded⟩
  · rintro ⟨encoded, hencoded⟩
    have hlength : encoded.length < 2 ^ 64 :=
      (mapM_eq_some_iff.1 hencoded).length_eq ▸ h.entries
    exact ⟨file (number encoded.length ++ encoded.flatten),
      by rw [hencoded, Option.bind_eq_bind, Option.bind_some, length?_eq_some hlength]; rfl⟩

/-- Two things behind the header of one of them are not both read, unless they have one hash. -/
theorem hash_eq_of_decode {payload behind : Bytes}
    (h : decode (littleEndian 4 (header payload).length ++ header payload ++ behind) =
      .ok snapshot) :
    ContentHash.ofBytes behind = ContentHash.ofBytes payload := by
  obtain ⟨found, content, rest, hcut, hheader⟩ := exists_header_of_decode h
  cases (cut?_header payload behind).symm.trans hcut
  have hwritten := takes_header payload []
  rw [List.append_nil] at hwritten
  have hvalue := (Prod.mk.inj (Option.some.inj (hwritten.symm.trans hheader))).1
  have hnumber := (Prod.mk.inj (Prod.mk.inj hvalue).2).2
  exact congrArg ContentHash.mk (BitVec.eq_of_toNat_eq hnumber).symm

/-- What a header does not say about the rest of its file, the file does not hold. -/
theorem exists_decode_error {raw header payload word rest : Bytes} {number checksum : Nat}
    (hcut : cut? raw = some (header, payload))
    (hheader : headerDecoder header = some ((word, number, checksum), rest))
    (h : word ≠ magic ∨ number ≠ version ∨ checksum ≠ (ContentHash.ofBytes payload).value.toNat) :
    ∃ e, decode raw = .error e := by
  cases hread : decode raw with
  | error e => exact ⟨e, rfl⟩
  | ok snapshot =>
    obtain ⟨found, content, rest', hcut', hheader'⟩ := exists_header_of_decode hread
    cases hcut.symm.trans hcut'
    cases hheader.symm.trans hheader'
    simp at h

/-! ### Files of snapshots -/

variable {tree : FileTree} {p : Path}

/-- A snapshot is refused just if it has no bytes. -/
theorem writeSnapshot_refuses_iff :
    (∃ e, (Scan.writeSnapshot tree p snapshot).1 = .error (.invalidSnapshot p e)) ↔
      snapshot.encode? = none := by
  unfold Scan.writeSnapshot
  cases snapshot.encode? with
  | none => exact iff_of_true ⟨_, rfl⟩ rfl
  | some bytes =>
    refine iff_of_false ?_ nofun
    rintro ⟨e, hrefused⟩
    cases hwrite : tree.write p bytes <;> simp [hwrite] at hrefused

/-- What is refused is not written. -/
theorem writeSnapshot_of_refused (h : snapshot.encode? = none) :
    (Scan.writeSnapshot tree p snapshot).2 = tree := by
  rw [Scan.writeSnapshot, h]

/-- A snapshot whose paths are text is read from where it was written. -/
theorem exists_writeSnapshot (htree : tree.IsTree) (h : snapshot.IsHeld)
    (htext : ∀ q ∈ snapshot.paths, q.IsText) (hp : tree.IsWritable p) :
    ∃ tree', Scan.writeSnapshot tree p snapshot = (.ok (), tree') ∧
      read tree' p = .ok snapshot := by
  obtain ⟨bytes, hbytes⟩ := (exists_encode?_iff h).2 htext
  obtain ⟨tree', hwrite, hread⟩ := hp.exists_read htree bytes
  refine ⟨tree', by simp only [Scan.writeSnapshot, hbytes, hwrite], ?_⟩
  rw [read, hread]
  exact decode_of_encode? hbytes

/-- **Snapshots in files.** A snapshot whose paths are text can be written wherever a file can be
    written, and is read from there. With other paths, and only with these, it is refused, and all
    stays as it was. Behind a header that was written, only entries with the same hash are read, and
    behind a header with another word, version or hash, none. -/
theorem files_hold_snapshots (htree : tree.IsTree) (hheld : snapshot.IsHeld) (p : Path) :
    ((∀ q ∈ snapshot.paths, q.IsText) → tree.IsWritable p →
        ∃ tree', Scan.writeSnapshot tree p snapshot = (.ok (), tree') ∧
          read tree' p = .ok snapshot) ∧
      ((∃ e, (Scan.writeSnapshot tree p snapshot).1 = .error (.invalidSnapshot p e)) ↔
        ∃ q ∈ snapshot.paths, ¬q.IsText) ∧
      ((∃ q ∈ snapshot.paths, ¬q.IsText) → (Scan.writeSnapshot tree p snapshot).2 = tree) ∧
      (∀ payload behind found, snapshot.payload? = some payload →
        tree.read p =
          .ok (littleEndian 4 (header payload).length ++ header payload ++ behind) →
        read tree p = .ok found → ContentHash.ofBytes behind = ContentHash.ofBytes payload) ∧
      ∀ raw header payload word number checksum rest, tree.read p = .ok raw →
        cut? raw = some (header, payload) →
        headerDecoder header = some ((word, number, checksum), rest) →
        (word ≠ magic ∨ number ≠ version ∨
          checksum ≠ (ContentHash.ofBytes payload).value.toNat) →
        ∃ e, read tree p = .error e := by
  have hencodes : snapshot.encode? = none ↔ ∃ q ∈ snapshot.paths, ¬q.IsText := by
    rw [Option.eq_none_iff_forall_ne_some, ← not_exists, exists_encode?_iff hheld]
    push Not
    rfl
  refine ⟨exists_writeSnapshot htree hheld, writeSnapshot_refuses_iff.trans hencodes,
    fun hpath => writeSnapshot_of_refused (hencodes.2 hpath),
    fun payload behind found _ hraw hread => ?_,
    fun raw header payload word number checksum rest hraw hcut hheader hother => ?_⟩
  · rw [read, hraw] at hread
    exact hash_eq_of_decode hread
  · rw [read, hraw]
    exact exists_decode_error hcut hheader hother

/-- Two headers, one with a path that goes over two lines. -/
def oddSnapshot : Snapshot :=
  ⟨[⟨.ofString "/two\nlines.h", ⟨250⟩⟩, ⟨.ofString "/é.h", ⟨0xFFFFFFFFFFFFFFFF⟩⟩]⟩

theorem files_hold_oddSnapshot : (FileTree.system []).IsTree ∧ oddSnapshot.IsHeld ∧
    (FileTree.system []).IsWritable (.ofString "/tmp/odd.pch") ∧ ∃ tree',
      Scan.writeSnapshot (FileTree.system []) (.ofString "/tmp/odd.pch") oddSnapshot =
          (.ok (), tree') ∧
        read tree' (.ofString "/tmp/odd.pch") = .ok oddSnapshot := by
  have htree : (FileTree.system []).IsTree := isTree_of_entries (by decide +kernel) rfl
  have hheld : oddSnapshot.IsHeld := ⟨by decide, by decide +kernel⟩
  have hfree : (FileTree.system []).find? (.ofString "/tmp/odd.pch") = none := by decide +kernel
  have hwritable : (FileTree.system []).IsWritable (.ofString "/tmp/odd.pch") :=
    ⟨⟨[], _, rfl⟩, fun file => by simp [hfree]⟩
  have htext : ∀ q ∈ oddSnapshot.paths, q.IsText := List.forall_mem_cons.2
    ⟨Path.isText_ofString _, List.forall_mem_singleton.2 (Path.isText_ofString _)⟩
  exact ⟨htree, hheld, hwritable,
    (files_hold_snapshots htree hheld (.ofString "/tmp/odd.pch")).1 htext hwritable⟩

end Snapshot

end PrecompiledHeaders

import PrecompiledHeaders.Frontend.Scan
import PrecompiledHeaders.Generation.Generator
import PrecompiledHeaders.Proofs.Path.Repeats

/-!
# The files of a project

A generator goes by the files of all parts: the headers of all parts and then their sources, each once
(`Generator.headerAndSourcePaths`). Repeats are left out of the headers, of the sources, and then of both
together, which comes to leaving them out of the whole list once
(`Generator.headerAndSourcePaths_eq`). So every file of a part is among them, and each as the first
part that has it writes it (`Generator.files_are_listed_once`).
-/

namespace PrecompiledHeaders

open PrecompiledHeaders.Path

/-- A part lists no file twice. -/
theorem ProjectPart.pairwise_headerAndSourcePaths (part : ProjectPart) :
    part.headerAndSourcePaths.Pairwise fun p q => ¬Same p q :=
  pairwise_dedup _

namespace Generator

variable {g : Generator} {part : ProjectPart} {p : Path}

/-- The headers of all parts and behind them the sources, as the parts list them. -/
def listedFiles (g : Generator) : List Path :=
  g.parts.flatMap ProjectPart.headers ++ g.parts.flatMap ProjectPart.sources

theorem headerAndSourcePaths_eq (g : Generator) :
    g.headerAndSourcePaths = dedup g.listedFiles :=
  dedup_append_dedup _ _

theorem isAmong_headerAndSourcePaths (g : Generator) (p : Path) :
    p.isAmong g.headerAndSourcePaths =
      (p.isAmong g.headerPaths || p.isAmong g.sourcePaths) := by
  rw [headerAndSourcePaths, isAmong_dedup, isAmong_append]

theorem mem_listedFiles (hpart : part ∈ g.parts) (hp : p ∈ part.headerAndSourcePaths) :
    p ∈ g.listedFiles := by
  rcases List.mem_append.1 (mem_of_mem_dedup hp) with hp | hp
  · exact List.mem_append_left _ (List.mem_flatMap.2 ⟨part, hpart, hp⟩)
  · exact List.mem_append_right _ (List.mem_flatMap.2 ⟨part, hpart, hp⟩)

/-- **The files of a project.** They are the headers of all parts and then the sources, without
    repeats: each file is listed once, where it comes first and as it is written there. They are the
    headers and the sources that are listed apart, and among them are the files of every part, which
    lists none of its own twice. -/
theorem files_are_listed_once (g : Generator) :
    g.headerAndSourcePaths.Pairwise (fun p q => ¬Same p q) ∧
      g.headerAndSourcePaths = g.listedFiles.eraseDupsBy (fun p q => Same q p) ∧
      (∀ p, p ∈ g.headerAndSourcePaths ↔ IsFirst g.listedFiles p) ∧
      (∀ p : Path, p.isAmong g.headerAndSourcePaths = true ↔
        p.isAmong g.headerPaths = true ∨ p.isAmong g.sourcePaths = true) ∧
      ∀ part ∈ g.parts, part.headerAndSourcePaths.Pairwise (fun p q => ¬Same p q) ∧
        ∀ p ∈ part.headerAndSourcePaths, p.isAmong g.headerAndSourcePaths = true := by
  refine ⟨pairwise_dedup _, ?_, fun p => ?_, fun p => ?_, fun part hpart =>
    ⟨part.pairwise_headerAndSourcePaths, fun p hp => ?_⟩⟩
  · rw [headerAndSourcePaths_eq, dedup_eq_eraseDupsBy]
  · rw [headerAndSourcePaths_eq, mem_dedup_iff_isFirst]
  · rw [isAmong_headerAndSourcePaths, Bool.or_eq_true]
  · rw [headerAndSourcePaths_eq, isAmong_dedup]
    exact isAmong_of_mem (mem_listedFiles hpart hp)

/-- A part that writes a header of another part in its own way, and has it as a source too. -/
def sharingPart : ProjectPart :=
  ⟨"tests", [], [.ofString "/p//shared.h"], [.ofString "/p/./shared.h", .ofString "/p/a.cpp"]⟩

/-- A project of two parts that share a header and a source. -/
def sharingProject : Generator where
  parts := [⟨"app", [], [.ofString "/p/a.h", .ofString "/p/shared.h"], [.ofString "/p/a.cpp"]⟩,
    sharingPart]
  environment := ⟨"clang++", .ofString "/out", .root⟩
  frontend := .scan
  workspace := ⟨⟨[], []⟩, .empty, .empty⟩

/-- The shared header is among the files of the project, once and as it is written first. -/
theorem files_are_listed_once_sharing : sharingPart ∈ sharingProject.parts ∧
    .ofString "/p//shared.h" ∈ sharingPart.headerAndSourcePaths ∧
    (Path.ofString "/p//shared.h").isAmong sharingProject.headerAndSourcePaths = true ∧
    sharingProject.headerAndSourcePaths =
      [.ofString "/p/a.h", .ofString "/p/shared.h", .ofString "/p/a.cpp"] := by
  have hpart : sharingPart ∈ sharingProject.parts := List.mem_cons_of_mem _ List.mem_cons_self
  have hp : .ofString "/p//shared.h" ∈ sharingPart.headerAndSourcePaths := by decide +kernel
  obtain ⟨-, -, -, -, hparts⟩ := files_are_listed_once sharingProject
  exact ⟨hpart, hp, (hparts sharingPart hpart).2 _ hp, by decide +kernel⟩

end Generator

end PrecompiledHeaders

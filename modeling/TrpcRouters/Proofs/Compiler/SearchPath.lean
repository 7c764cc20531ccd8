import TrpcRouters.Compiler.Config
import TrpcRouters.Proofs.Text.Pieces

/-! The search path of the compiler as its reader takes it apart. The program's own directories go in
front of the inherited entries, and every entry arrives, the empty ones too: an inherited path of no text
is one empty entry, and no inherited path is none. An inherited entry holds no colon, so only a directory
that does can leave the compiler without a search path. -/

namespace TrpcRouters

namespace CompilerConfig

theorem splitSearchPath_ne_nil (searchPath : RawString) : splitSearchPath searchPath ≠ [] := by
  simpa [splitSearchPath] using Text.cut_ne_nil colon searchPath.bytes

theorem colon_notMem_of_mem_split {searchPath entry : RawString}
    (member : entry ∈ splitSearchPath searchPath) : colon ∉ entry.bytes := by
  obtain ⟨piece, inside, rfl⟩ := List.mem_map.mp member
  exact Text.notMem_of_mem_cut inside

theorem map_bytes_split (searchPath : RawString) :
    (splitSearchPath searchPath).map RawString.bytes = searchPath.bytes.splitOn colon := by
  rw [splitSearchPath, List.map_map, ← Text.cut_eq_splitOn]
  exact List.map_id _

variable (config : CompilerConfig)

def ownDirectories : List Path :=
  config.bundled.toList ++ config.dependencies.toList

theorem searchEntries_eq :
    config.searchEntries =
      config.ownDirectories.map Path.raw ++ config.systemPath.toList.flatMap splitSearchPath := by
  rw [searchEntries, ownDirectories, List.map_append]
  cases config.systemPath with
  | none => rfl
  | some inherited => simp

theorem searchEntries_eq_nil_iff :
    config.searchEntries = [] ↔
      config.bundled = .none ∧ config.dependencies = .none ∧ config.systemPath = .none := by
  rw [searchEntries_eq, List.append_eq_nil_iff, List.map_eq_nil_iff, ownDirectories,
    List.append_eq_nil_iff, Option.toList_eq_nil_iff, Option.toList_eq_nil_iff, and_assoc]
  cases config.systemPath with
  | none => simp
  | some inherited => simp [splitSearchPath_ne_nil]

theorem exists_colon_iff :
    (∃ entry ∈ config.searchEntries, colon ∈ entry.bytes) ↔
      ∃ directory ∈ config.ownDirectories, colon ∈ directory.raw.bytes := by
  rw [searchEntries_eq]
  constructor
  · rintro ⟨entry, member, colon⟩
    rcases List.mem_append.mp member with own | inherited
    · obtain ⟨directory, inside, rfl⟩ := List.mem_map.mp own
      exact ⟨directory, inside, colon⟩
    · obtain ⟨searchPath, _, inside⟩ := List.mem_flatMap.mp inherited
      exact absurd colon (colon_notMem_of_mem_split inside)
  · rintro ⟨directory, inside, colon⟩
    exact ⟨directory.raw, List.mem_append_left _ (List.mem_map_of_mem inside), colon⟩

theorem searchPath_eq :
    config.searchPath =
      if config.searchEntries = [] ∨ ∃ entry ∈ config.searchEntries, colon ∈ entry.bytes then .none
      else some ⟨Text.glue colon (config.searchEntries.map RawString.bytes)⟩ := by
  simp [searchPath]

theorem searchPath_eq_none_iff :
    config.searchPath = .none ↔
      config.searchEntries = [] ∨ ∃ entry ∈ config.searchEntries, colon ∈ entry.bytes := by
  rw [searchPath_eq]
  split <;> simp_all

theorem splitSearchPath_searchPath {searchPath : RawString} (made : config.searchPath = some searchPath) :
    splitSearchPath searchPath = config.searchEntries := by
  rw [searchPath_eq] at made
  split at made
  next => cases made
  next sound =>
    obtain ⟨some_, plain⟩ := not_or.mp sound
    rw [Option.some.injEq] at made
    have whole : ∀ piece ∈ config.searchEntries.map RawString.bytes, colon ∉ piece := by
      rw [List.forall_mem_map]
      exact fun entry member colon => plain ⟨entry, member, colon⟩
    rw [← made, splitSearchPath, Text.cut_glue (by simpa using some_) whole, List.map_map]
    exact List.map_id _

/-- The compiler gets no search path exactly if there is nothing to put on it or a directory for it holds
a colon. Split at its colons, the search path that it gets is the bundled directory, the directory of the
dependencies, each if there is one, and then the inherited entries in their order, empty ones included. -/
theorem searchPath_keeps_entries :
    (config.searchPath = .none ↔
      (config.bundled = .none ∧ config.dependencies = .none ∧ config.systemPath = .none) ∨
        ∃ directory ∈ config.ownDirectories, colon ∈ directory.raw.bytes) ∧
    ∀ searchPath, config.searchPath = some searchPath →
      searchPath.bytes.splitOn colon =
        config.ownDirectories.map (fun directory => directory.raw.bytes) ++
          config.systemPath.toList.flatMap fun inherited => inherited.bytes.splitOn colon := by
  refine ⟨?absent, ?split⟩
  case absent => rw [searchPath_eq_none_iff, searchEntries_eq_nil_iff, exists_colon_iff]
  case split =>
    intro searchPath made
    rw [← map_bytes_split, splitSearchPath_searchPath config made, searchEntries_eq, List.map_append,
      List.map_map, List.map_flatMap]
    simp only [map_bytes_split]
    rfl

/-- The bundled directory has no name, and the inherited path has empty entries at both ends and in the
middle. -/
def gappyConfig : CompilerConfig :=
  { none with
    bundled := some ⟨""⟩
    dependencies := some ⟨"/app/node_modules/.bin"⟩
    systemPath := some (.ofText ":/bin::/sbin:") }

theorem gappyConfig_keeps_entries :
    gappyConfig.searchPath = some (.ofText ":/app/node_modules/.bin::/bin::/sbin:") ∧
      (RawString.ofText ":/app/node_modules/.bin::/bin::/sbin:").bytes.splitOn colon =
        ["", "/app/node_modules/.bin", "", "/bin", "", "/sbin", ""].map Text.encode := by
  have made : gappyConfig.searchPath = some (.ofText ":/app/node_modules/.bin::/bin::/sbin:") := by decide
  exact ⟨made, (searchPath_keeps_entries gappyConfig).2 _ made⟩

end CompilerConfig

end TrpcRouters

import TrpcRouters.Proofs.FileTree.Walk
import TrpcRouters.Proofs.Path.Absolute

/-! The names of the files that are found below a root: the names of entries on the way, joined by
separators. -/

namespace TrpcRouters

namespace FileTree

theorem pathOf_spec {place : Place} (named : ∀ name ∈ place, Path.IsName name) :
    (pathOf place).Tidy ∧ (place ≠ [] → (pathOf place).endsInSeparator = false) ∧
      (pathOf place).components = .root :: place.reverse.map .name := by
  induction place with
  | nil => exact ⟨by constructor <;> decide, fun some_ => absurd rfl some_, by decide⟩
  | cons name above ih =>
    obtain ⟨inner, apart, spelled⟩ := ih fun other member => named other (List.mem_cons_of_mem _ member)
    have move := (named name (List.mem_cons_self ..)).isMove
    have relative := Path.isAbsolute_of_isMove move
    have child : pathOf (name :: above) = (pathOf above).child name := by
      cases above with
      | nil =>
        rw [Path.child, Path.join, relative]
        exact congrArg Path.mk (RawString.ext (by simp [pathOf]))
      | cons next rest =>
        have some_ := Path.isEmpty_of_isAbsolute inner.1
        have open_ := apart (List.cons_ne_nil _ _)
        rw [Path.child, Path.join, relative, some_, open_]
        refine congrArg Path.mk (RawString.ext ?_)
        simp [pathOf]
    rw [child]
    refine ⟨inner.child move, fun _ => Path.endsInSeparator_child move, ?_⟩
    rw [Path.components_child (named name (List.mem_cons_self ..)), spelled]
    simp

theorem absolute?_of_absolute {tree : FileTree} {path whole : Path}
    (found : tree.absolute path = .ok whole) :
    path.absolute? (pathOf tree.workingDirectory) = some whole := by
  unfold absolute at found
  cases shape : path.absolute? (pathOf tree.workingDirectory) with
  | none => simp [shape] at found
  | some other =>
    rw [shape] at found
    cases found
    rfl

theorem Sound.tidy_absolute {tree : FileTree} (sound : tree.Sound) {path whole : Path}
    (found : tree.absolute path = .ok whole) : whole.Tidy :=
  Path.tidy_absolute? (pathOf_spec sound.home).1 (absolute?_of_absolute found)

end FileTree

namespace Path

theorem bytes_of_cutExtension {name extension : RawString} (found : (cutExtension name).2 = some extension) :
    name.bytes = (cutExtension name).1.bytes ++ dot :: extension.bytes ∧ (cutExtension name).1 ≠ "" := by
  have whole := List.takeWhile_append_dropWhile (p := (· ≠ dot)) (l := name.bytes.reverse)
  simp only [cutExtension] at found ⊢
  split at found
  · cases found
  · cases found
  next point stem some_ shape =>
    have point : point = dot := by
      have first := List.head?_dropWhile_not (· ≠ dot) name.bytes.reverse
      rw [shape] at first
      simpa using first
    cases found
    rw [shape] at whole
    refine ⟨?_, ?_⟩
    · have forwards := congrArg List.reverse whole
      rw [List.reverse_reverse, List.reverse_append, List.reverse_cons, point] at forwards
      rw [List.append_assoc, List.singleton_append] at forwards
      exact forwards.symm
    · intro empty
      have bytes := congrArg RawString.bytes empty
      exact some_ (by simpa using bytes)

end Path

namespace Discovery
open FileTree

theorem discover_eq_ok_iff {tree : FileTree} {root : Path} {files : List Path} :
    discover tree root = .ok files ↔ ∃ whole, tree.absolute root.withoutTrailing = .ok whole ∧
      files = (protoFiles (tree.walk true whole)).map Visited.path := by
  unfold discover
  cases tree.absolute root.withoutTrailing with
  | error error => simp [bind, Except.bind]
  | ok whole => simp [bind, Except.bind, pure, Except.pure, eq_comm]

def IsProtoName (name : RawString) : Prop :=
  (Path.cutExtension name).2 = some (RawString.ofText "proto")

instance (name : RawString) : Decidable (IsProtoName name) :=
  inferInstanceAs (Decidable (_ = _))

theorem isProtoName_iff {name : RawString} :
    IsProtoName name ↔ ∃ stem : RawString, stem ≠ "" ∧ name = stem ++ RawString.ofText ".proto" := by
  constructor
  · intro proto
    obtain ⟨bytes, some_⟩ := Path.bytes_of_cutExtension proto
    refine ⟨_, some_, RawString.ext ?_⟩
    rw [bytes, RawString.bytes_append]
    rfl
  · rintro ⟨stem, some_, rfl⟩
    have backwards : (stem ++ RawString.ofText ".proto").bytes.reverse =
        0x6f :: 0x74 :: 0x6f :: 0x72 :: 0x70 :: Path.dot :: stem.bytes.reverse := by
      rw [RawString.bytes_append, List.reverse_append]
      rfl
    unfold IsProtoName Path.cutExtension
    rw [backwards]
    cases shape : stem.bytes.reverse with
    | nil => exact absurd (RawString.ext (List.reverse_eq_nil_iff.mp shape)) some_
    | cons c before => rfl

theorem IsProtoName.text {name : RawString} (proto : IsProtoName name) : IsProtoName (.ofText name.text) := by
  obtain ⟨stem, some_, rfl⟩ := isProtoName_iff.mp proto
  refine isProtoName_iff.mpr ⟨.ofText stem.text, fun empty => some_ ?_, ?_⟩
  · exact RawString.ext (RawString.bytes_eq_nil_of_text (RawString.ofText_inj.mp empty))
  · rw [← RawString.ofText_append]
    exact congrArg _ (RawString.text_append_ofText stem (c := '.') (by decide) "proto".toList)

theorem not_isProtoName_of_getLast? {name : RawString} {byte : UInt8} (last : name.bytes.getLast? = some byte)
    (other : byte ≠ 0x6f) : ¬IsProtoName name := by
  intro proto
  rw [(Path.bytes_of_cutExtension proto).1, List.getLast?_append] at last
  exact other (Option.some.inj last).symm

theorem not_isProtoName_of_suffix {name : RawString} {ending : List Char} (ends : ending <:+ name.text.toList)
    {c : Char} (closed : ending.getLast? = some c) (small : Text.IsSmall c)
    (other : UInt8.ofNat c.toNat ≠ 0x6f) : ¬IsProtoName name := by
  obtain ⟨front, whole⟩ := ends
  refine not_isProtoName_of_getLast? (RawString.getLast?_bytes small ?_) other
  rw [← whole, List.getLast?_append, closed]
  rfl

/-- A definition file as it is asked for: by the names on the way to it, the last of which is that of a
definition file. A root that is a definition file itself is on no way. -/
structure Requested (name : String) (names : List String) : Prop where
  named : ∀ part ∈ names, Path.IsName (.ofText part)
  spelled : name = Text.joined '/' names
  proto : ∀ front last, names = front ++ [last] → IsProtoName (.ofText last)

theorem components_of_isAbsolute {tree : FileTree} {root start : Path} (absolute : root.isAbsolute = true)
    (strippable : root.Strippable) (whole : tree.absolute root.withoutTrailing = .ok start) :
    start.components = root.components := by
  have trimmed := (Path.isAbsolute_withoutTrailing strippable).trans absolute
  rw [Path.components_absolute? trimmed (absolute?_of_absolute whole),
    Path.components_withoutTrailing strippable]

theorem behind?_along {root start : Path} (same : start.components = root.components)
    {names : List RawString} (named : ∀ name ∈ names, Path.IsName name) :
    root.behind? (along start names) = some (names.map .name) := by
  rw [Path.behind?, components_along start named, same,
    if_pos (List.isPrefixOf_iff_prefix.mpr (List.prefix_append _ _)), List.drop_left]

theorem name_along {root start : Path} (same : start.components = root.components)
    {names : List RawString} (named : ∀ name ∈ names, Path.IsName name) :
    Text.joined '/' (((root.behind? (along start names)).getD
      (along start names).components).map Component.text) = Text.joined '/' (names.map RawString.text) := by
  rw [behind?_along same named, Option.getD_some, List.map_map]
  rfl

theorem requested_of_mem_namesBelow {tree : FileTree} (sound : tree.Sound) {root : Path}
    (absolute : root.isAbsolute = true) (strippable : root.Strippable) {files : List Path}
    (found : discover tree root = .ok files) :
    ∀ name ∈ namesBelow root files, ∃ names, Requested name names := by
  obtain ⟨start, whole, rfl⟩ := discover_eq_ok_iff.mp found
  intro name member
  obtain ⟨file, inside, rfl⟩ := List.mem_map.mp member
  obtain ⟨entry, met, rfl⟩ := List.mem_map.mp inside
  obtain ⟨isFile, proto⟩ := List.mem_filter.mp met
  have walked : entry ∈ tree.walk true start := (List.mem_filter.mp isFile).1
  obtain ⟨_, _, _, _, names, named, spelled, _⟩ := met_of_mem_walk sound walked
  refine ⟨names.map RawString.text, List.forall_mem_map.mpr fun raw inside => (named raw inside).text, ?_, ?_⟩
  · rw [spelled]
    exact name_along (components_of_isAbsolute absolute strippable whole) named
  · rintro front_ last_ shape
    obtain ⟨front, back, rfl, _, ends⟩ := List.map_eq_append_iff.mp shape
    obtain ⟨last, rfl, rfl⟩ := List.map_eq_singleton_iff.mp ends
    refine IsProtoName.text ?_
    have fileName : entry.path.fileName? = some last := by
      rw [spelled, Path.fileName?, components_along start named]
      simp
    rw [Path.isProto, Path.extension?, fileName] at proto
    exact eq_of_beq proto

theorem names_of_mem_namesBelow {tree : FileTree} (sound : tree.Sound) {root : Path}
    (absolute : root.isAbsolute = true) (strippable : root.Strippable) {files : List Path}
    (found : discover tree root = .ok files) :
    ∀ name ∈ namesBelow root files, ∃ names, (∀ part ∈ names, Path.IsName (.ofText part)) ∧
      name = Text.joined '/' names := by
  intro name member
  obtain ⟨names, requested⟩ := requested_of_mem_namesBelow sound absolute strippable found name member
  exact ⟨names, requested.named, requested.spelled⟩

end Discovery

end TrpcRouters

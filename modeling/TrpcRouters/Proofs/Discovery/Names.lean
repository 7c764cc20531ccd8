import Mathlib.Data.List.Nodup
import TrpcRouters.Descriptor.Collect
import TrpcRouters.Proofs.Discovery.Canonical

/-! The names by which the compiler knows the files that were found. Each of them shows the names on the way
from the root to its file, and it leads back there if they are texts. So the names are as distinct as what is
shown of the files, and if they are distinct no two of them select the same file of a descriptor set. -/

namespace TrpcRouters

theorem Path.behind?_eq_some_iff {base path : Path} {below : List Component} :
    base.behind? path = some below ↔ path.components = base.components ++ below := by
  rw [behind?]
  constructor
  · intro found
    split at found
    next inside =>
      obtain ⟨rest, whole⟩ := List.isPrefixOf_iff_prefix.mp inside
      rw [← whole, List.drop_left, Option.some.injEq] at found
      rw [← whole, found]
    next => cases found
  · intro whole
    rw [whole, if_pos (List.isPrefixOf_iff_prefix.mpr (List.prefix_append _ _)), List.drop_left]

namespace Discovery
open FileTree

/-- The names on the way from a root to a file are texts. -/
def TextBelow (root file : Path) : Prop :=
  ∀ below ∈ root.behind? file, ∀ component ∈ below, component.IsText

instance (root file : Path) : Decidable (TextBelow root file) :=
  inferInstanceAs (Decidable (∀ below ∈ root.behind? file, ∀ component ∈ below, component.IsText))

/-- The name of a file below a root. -/
structure Names (root file : Path) (name : String) : Prop where
  parts : ∃ parts : List RawString, parts ≠ [] ∧
    (∀ part ∈ parts, Path.IsName part ∧ Path.IsName (.ofText part.text)) ∧
    root.behind? file = some (parts.map .name) ∧ name = Text.joined '/' (parts.map RawString.text)
  relative : (Path.ofText name).isAbsolute = false
  back : (root.child (.ofText name)).components = file.components ↔ TextBelow root file

theorem components_shown {names : List RawString} (named : ∀ name ∈ names, Path.IsName name) :
    (Path.ofText (Text.joined '/' (names.map RawString.text))).lead = [] ∧
      (Path.ofText (Text.joined '/' (names.map RawString.text))).components =
        (names.map Component.name).map Component.shown := by
  have shown : ∀ name ∈ (names.map RawString.text).map RawString.ofText, Path.IsName name := by
    intro name member
    simp only [List.mem_map, exists_exists_and_eq_and] at member
    obtain ⟨name, inside, rfl⟩ := member
    exact (named name inside).text
  rw [Path.ofText_joined]
  refine ⟨(Path.components_joined shown).1, (Path.components_joined shown).2.trans ?_⟩
  simp [Function.comp_def, Component.shown]

section Named
variable {tree : FileTree} {root start whole file other : Path} {place : Place} {name name' : String}

theorem Names.of_along (same : whole.components = start.components) {names : List RawString}
    (some_ : names ≠ []) (named : ∀ name ∈ names, Path.IsName name) :
    Names start (along whole names) (Text.joined '/' (names.map RawString.text)) := by
  obtain ⟨bare, spelled⟩ := components_shown named
  have below := behind?_along same named
  refine ⟨⟨names, some_, fun name member => ⟨named name member, (named name member).text⟩, below, rfl⟩, ?_, ?_⟩
  · rw [← Bool.not_eq_true, Path.isAbsolute_iff_root_mem, spelled]
    simp [Component.shown]
  · have through : (start.child (.ofText (Text.joined '/' (names.map RawString.text)))).components =
        start.components ++ (names.map Component.name).map Component.shown := by
      rw [← spelled]
      exact Path.components_join bare
    rw [through, components_along whole named, same, List.append_cancel_left_eq, TextBelow, below]
    simp only [List.map_map, List.map_inj_left, Function.comp_apply, Component.shown_eq_self_iff]
    simp

/-- Files below one root have the same name if they are shown alike. -/
theorem Names.eq_iff (named : Names root file name) (named' : Names root other name') :
    name = name' ↔ file.components.map Component.shown = other.components.map Component.shown := by
  obtain ⟨parts, _, names, below, rfl⟩ := named.parts
  obtain ⟨parts', _, names', below', rfl⟩ := named'.parts
  rw [Path.behind?_eq_some_iff.mp below, Path.behind?_eq_some_iff.mp below', List.map_append, List.map_append,
    List.append_cancel_left_eq]
  have spelled := (components_shown fun part member => (names part member).1).2
  have spelled' := (components_shown fun part member => (names' part member).1).2
  rw [← spelled, ← spelled']
  refine ⟨fun same => same ▸ rfl, fun same => ?_⟩
  rw [spelled, spelled', List.map_map, List.map_map] at same
  have texts := congrArg (List.map Component.raw) same
  rw [List.map_map, List.map_map] at texts
  have inj : Function.Injective RawString.ofText := fun _ _ same => RawString.ofText_inj.mp same
  refine congrArg (Text.joined '/') (List.map_injective_iff.mpr inj ?_)
  simpa [Function.comp_def, Component.shown, Component.raw] using texts

theorem exists_names (sound : tree.Sound) (entered : tree.entry true root = .ok (place, .directory))
    (begun : tree.absolute root = .ok start) (strippable : start.Strippable)
    (spelled : tree.absolute start.withoutTrailing = .ok whole) {entry : Visited}
    (found : entry ∈ protoFiles (tree.walk true whole)) :
    ∃ names, names ≠ [] ∧ (∀ name ∈ names, Path.IsName name) ∧ entry.path = along whole names := by
  -- Made absolute twice, the root still takes the steps it took from where it started, so the walk begins
  -- at the directory and not at a file, which no name would lead to.
  have same := components_of_isAbsolute (sound.tidy_absolute begun).1 strippable spelled
  have moves := (Path.moves_congr same).trans (moves_absolute sound begun)
  have met := found
  rw [protoFiles_eq_filter] at met
  obtain ⟨place', node, entered', _⟩ := met_of_mem_walk sound (List.mem_filter.mp met).1
  have back := place_of_moves sound (sound.tidy_absolute spelled) moves entered entered'
  subst back
  obtain rfl : node = .directory :=
    Option.some.inj ((held_of_entry entered').symm.trans (held_of_entry entered))
  exact names_of_mem_protoFiles sound entered' found

/-- Below the absolute form of a directory every file that is discovered has a name, in the order of the
files. Two of them have the same name only if they are shown alike, so all have names of their own if those
on the way to them are texts; and then each name selects its own file of a descriptor set. -/
theorem names_identify_files (sound : tree.Sound) (readable : tree.isDirectory root = true)
    (strippable : ∀ start, tree.absolute root = .ok start → start.Strippable) :
    ∃ start files, tree.absolute root = .ok start ∧ discover tree start = .ok files ∧ files.Nodup ∧
      List.Forall₂ (Names start) files (namesBelow start files) ∧
      (∀ file ∈ files, ∀ other ∈ files, namesBelow start [file] = namesBelow start [other] ↔
        file.components.map Component.shown = other.components.map Component.shown) ∧
      ((∀ file ∈ files, TextBelow start file) → (namesBelow start files).Nodup) ∧
      ((namesBelow start files).Nodup →
        ∀ set : Descriptor.FileSet, ((namesBelow start files).filterMap set.file?).Nodup) := by
  obtain ⟨place, entered⟩ := entry_of_isDirectory readable
  obtain ⟨start, begun⟩ := tree.exists_absolute (isEmpty_of_entry entered)
  have absolute := (sound.tidy_absolute begun).1
  have trimmed := (Path.isAbsolute_withoutTrailing (strippable start begun)).trans absolute
  obtain ⟨whole, spelled⟩ := tree.exists_absolute (Path.isEmpty_of_isAbsolute trimmed)
  have same := components_of_isAbsolute absolute (strippable start begun) spelled
  have named : ∀ file ∈ (protoFiles (tree.walk true whole)).map Visited.path,
      Names start file (Text.joined '/' (((start.behind? file).getD file.components).map Component.text)) := by
    intro file member
    obtain ⟨entry, found, rfl⟩ := List.mem_map.mp member
    obtain ⟨names, some_, parts, path⟩ := exists_names sound entered begun (strippable start begun) spelled found
    rw [path, name_along same parts]
    exact .of_along same some_ parts
  have increasing := List.pairwise_map.mpr (increasing_protoFiles sound whole)
  refine ⟨start, _, begun, discover_eq_ok_iff.mpr ⟨whole, spelled, rfl⟩, increasing.imp Path.Before.ne, ?named,
    fun file member other member' => ?alike, fun texts => ?own, fun distinct set => ?apart⟩
  case named => exact List.forall₂_map_right_iff.mpr (List.forall₂_same.mpr named)
  case alike =>
    rw [← (named file member).eq_iff (named other member')]
    exact List.singleton_inj
  case own =>
    refine List.pairwise_map.mpr (increasing.imp_of_mem fun {first second} found found' before clash => ?_)
    have back := (named first found).back.mpr (texts first found)
    have back' := (named second found').back.mpr (texts second found')
    have same := back.symm.trans ((congrArg _ (congrArg _ (congrArg _ clash))).trans back')
    exact ((Path.before_congr same rfl).mp before).ne rfl
  case apart =>
    refine distinct.filterMap fun name name' file found found' => ?_
    rw [← Descriptor.FileSet.nameText_of_file? found, Descriptor.FileSet.nameText_of_file? found']

end Named

/-- A definition file that is reached through a link too, and a link that leads round to the root. -/
def roundabout : FileTree where
  nodes := [(["workspace"], .directory), (["p", "workspace"], .directory),
    (["a.proto", "p", "workspace"], .file [] 1 false), (["in", "p", "workspace"], .directory),
    (["b.proto", "in", "p", "workspace"], .file [] 1 false), (["again", "p", "workspace"], .link ⟨"in"⟩),
    (["round", "in", "p", "workspace"], .link ⟨".."⟩)]
  workingDirectory := ["workspace"]
  clock := 1

theorem roundabout_identified :
    ∃ start files, start = ⟨"/workspace/p/../p/"⟩ ∧ roundabout.absolute ⟨".//p/./..//p//"⟩ = .ok start ∧
      discover roundabout start = .ok files ∧
      namesBelow start files = ["a.proto", "again/b.proto", "in/b.proto"] ∧
      List.Forall₂ (Names start) files ["a.proto", "again/b.proto", "in/b.proto"] ∧
      ["a.proto", "again/b.proto", "in/b.proto"].Nodup ∧
      ∀ set : Descriptor.FileSet,
        (["a.proto", "again/b.proto", "in/b.proto"].filterMap set.file?).Nodup := by
  have sound : roundabout.Sound := by decide +kernel
  have readable : roundabout.isDirectory ⟨".//p/./..//p//"⟩ = true := by decide +kernel
  have started : roundabout.absolute ⟨".//p/./..//p//"⟩ = .ok ⟨"/workspace/p/../p/"⟩ := by decide +kernel
  have strippable : ∀ start, roundabout.absolute ⟨".//p/./..//p//"⟩ = .ok start → start.Strippable := by
    intro start begun
    cases begun.symm.trans started
    exact .inr (by decide)
  obtain ⟨start, files, begun, found, _, named, _, own, apart⟩ := names_identify_files sound readable strippable
  cases begun.symm.trans started
  have listed : discover roundabout ⟨"/workspace/p/../p/"⟩ = .ok (["a.proto", "again/b.proto",
      "in/b.proto"].map (fun file => Path.child ⟨"/workspace/p/../p"⟩ (.ofText file))) := by decide +kernel
  cases found.symm.trans listed
  have texts : ∀ file ∈ ["a.proto", "again/b.proto", "in/b.proto"].map (fun file =>
      Path.child ⟨"/workspace/p/../p"⟩ (.ofText file)), TextBelow ⟨"/workspace/p/../p/"⟩ file := by
    decide +kernel
  have names : namesBelow ⟨"/workspace/p/../p/"⟩ (["a.proto", "again/b.proto",
      "in/b.proto"].map (fun file => Path.child ⟨"/workspace/p/../p"⟩ (.ofText file))) =
        ["a.proto", "again/b.proto", "in/b.proto"] := by decide +kernel
  specialize own texts
  rw [names] at named own apart
  exact ⟨_, _, rfl, begun, found, names, named, own, apart own⟩

def lookalikes : FileTree where
  nodes := [(["p"], .directory), ([⟨[0xfe]⟩ ++ RawString.ofText ".proto", "p"], .file [] 1 false),
    ([⟨[0xff]⟩ ++ RawString.ofText ".proto", "p"], .file [] 1 false), ([⟨[0xff]⟩], .directory),
    (["\ufffd"], .directory), (["a.proto", "\ufffd"], .file [] 1 false)]
  workingDirectory := []
  clock := 1

/-- Two files have one name where the names on the way are no texts, and by it neither is found again. Below
the root that is no text and ends in a separator, a file is called by its whole path. -/
theorem lookalikes_misnamed :
    lookalikes.Sound ∧ lookalikes.isDirectory ⟨"/p"⟩ = true ∧ lookalikes.absolute ⟨"/p"⟩ = .ok ⟨"/p"⟩ ∧
      (∃ files, discover lookalikes ⟨"/p"⟩ = .ok files ∧ files.Nodup ∧
        namesBelow ⟨"/p"⟩ files = ["\ufffd.proto", "\ufffd.proto"] ∧
        ∀ file ∈ files, (Path.child ⟨"/p"⟩ "\ufffd.proto").components ≠ file.components) ∧
      let root : Path := ⟨⟨[Path.slash, 0xff, Path.slash]⟩⟩
      lookalikes.isDirectory root = true ∧ lookalikes.absolute root = .ok root ∧
        ∃ files, discover lookalikes root = .ok files ∧ namesBelow root files = ["//\ufffd/a.proto"] := by
  refine ⟨by decide +kernel, by decide +kernel, by decide +kernel,
    ⟨[Path.child ⟨"/p"⟩ (⟨[0xfe]⟩ ++ RawString.ofText ".proto"),
      Path.child ⟨"/p"⟩ (⟨[0xff]⟩ ++ RawString.ofText ".proto")], ?_⟩,
    by decide +kernel, by decide +kernel, [⟨"/\ufffd/a.proto"⟩], ?_⟩
  · exact ⟨by decide +kernel, by decide +kernel, by decide +kernel, by decide +kernel⟩
  · exact ⟨by decide +kernel, by decide +kernel⟩

end Discovery

end TrpcRouters

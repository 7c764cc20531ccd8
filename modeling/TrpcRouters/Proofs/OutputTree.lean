import TrpcRouters.Proofs.Path.Components

/-! Where generated modules lie. A definition file leads to the modules beside its place below the
compiler's output: the same folder, and a file name made of its stem and a suffix. -/

namespace TrpcRouters

/-- A definition file as it is named below an import root: a relative path of plain names, of which the
last has a stem and the extension of definition files. -/
def IsDefinition (protoFile : String) : Prop :=
  (∀ component ∈ (Path.ofText protoFile).components, ∃ name, component = .name name) ∧
    (Path.ofText protoFile).extension? = some "proto"

instance (component : Component) : Decidable (∃ name, component = .name name) :=
  match component with
  | .name name => .isTrue ⟨name, rfl⟩
  | .root => .isFalse (by simp)
  | .current => .isFalse (by simp)
  | .up => .isFalse (by simp)

instance (protoFile : String) : Decidable (IsDefinition protoFile) :=
  inferInstanceAs (Decidable (_ ∧ _))

def IsSuffix (suffix : String) : Prop :=
  '_' ∈ suffix.toList ∧ '/' ∉ suffix.toList

instance (suffix : String) : Decidable (IsSuffix suffix) :=
  inferInstanceAs (Decidable (_ ∧ _))

def folderOf (protoFile : String) : List Component :=
  (Path.ofText protoFile).components.dropLast

namespace Path

theorem lead_of_names {path : Path}
    (plain : ∀ component ∈ path.components, ∃ name, component = .name name) : path.lead = [] := by
  cases shape : path.lead with
  | nil => rfl
  | cons component rest =>
    have member : component ∈ path.lead := by simp [shape]
    obtain ⟨name, rfl⟩ := plain component (List.mem_append_left _ member)
    unfold lead at shape
    split at shape
    · simp at shape
    · split at shape <;> simp at shape

theorem fileName?_eq_some {path : Path} {name : RawString} (found : path.fileName? = some name) :
    path.components = path.components.dropLast ++ [.name name] := by
  unfold fileName? at found
  split at found
  next last =>
    simp only [Option.some.injEq] at found
    subst found
    obtain ⟨front, whole⟩ := List.getLast?_eq_some_iff.mp last
    rw [whole, List.dropLast_concat]
  · simp at found

theorem mem_of_mem_stem {name : RawString} {byte : UInt8} (member : byte ∈ (cutExtension name).1.bytes) :
    byte ∈ name.bytes := by
  simp only [cutExtension] at member
  split at member
  · exact member
  · exact member
  next dot stem _ shape =>
    have inside : byte ∈ dot :: stem := List.mem_cons_of_mem _ (by simpa using member)
    rw [← shape] at inside
    simpa using (List.dropWhile_sublist _).subset inside

end Path

theorem slash_notMem_protoStem (protoFile : String) : '/' ∉ (protoStem protoFile).toList := by
  intro member
  unfold protoStem Path.fileStem? at member
  cases found : (Path.ofText protoFile).fileName? with
  | none => simp [found] at member
  | some name =>
    have inside : Component.name name ∈ (Path.ofText protoFile).components := by
      rw [Path.fileName?_eq_some found]
      simp
    simp only [found, Option.map_some, Option.getD_some] at member
    have byte := RawString.mem_bytes_of_mem_text (s := '/') (by decide) member
    exact (Path.isName_of_mem_components inside).2.2.2 (Path.mem_of_mem_stem byte)

theorem isName_generated (protoFile : String) {suffix : String} (marked : IsSuffix suffix) :
    Path.IsName (.ofText (protoStem protoFile ++ suffix)) := by
  refine Path.isName_of_mem (c := 0x5f) ?_ (by decide) ?_
  · exact (RawString.mem_ofText_iff (c := '_') (by decide)).mpr
      (by rw [String.toList_append]; exact List.mem_append_right _ marked.1)
  · rw [Path.slash_mem_ofText_iff, String.toList_append, List.mem_append, not_or]
    exact ⟨slash_notMem_protoStem protoFile, marked.2⟩

theorem folder_spec {protoFile : String} (definition : IsDefinition protoFile) :
    ∃ folder, (Path.ofText protoFile).parent? = some folder ∧
      folder.components = folderOf protoFile ∧ folder.lead = [] := by
  have named : (Path.ofText protoFile).fileName? ≠ none := by
    intro absent
    have extension := definition.2
    rw [Path.extension?, absent] at extension
    simp at extension
  obtain ⟨name, found⟩ := Option.ne_none_iff_exists'.mp named
  have whole := Path.fileName?_eq_some found
  cases parent : (Path.ofText protoFile).parent? with
  | none =>
    rw [Path.parent?_eq_none_iff, whole] at parent
    rcases parent with empty | root
    · simp at empty
    · have last := congrArg List.getLast? root
      simp at last
  | some folder =>
    have components := Path.components_of_parent? parent
    refine ⟨folder, rfl, components, Path.lead_of_names fun component member => ?_⟩
    rw [components] at member
    exact definition.1 component (List.dropLast_subset _ member)

namespace OutputTree

theorem components_trpc (tree : OutputTree) :
    tree.trpc.components = tree.root.components ++ [.name "trpc"] :=
  Path.components_child (by decide)

theorem components_routers (tree : OutputTree) :
    tree.routers.components = tree.root.components ++ [.name "trpc", .name "routers"] := by
  rw [routers, Path.components_child (by decide), components_trpc, List.append_assoc]
  rfl

end OutputTree

end TrpcRouters

import TrpcRouters.Declaration.Pass
import TrpcRouters.Proofs.FileTree.Overlay
import TrpcRouters.Proofs.FileTree.Walk

/-! What adapting the declaration files below a directory changes: files whose names mark them as
declarations, and nothing else. -/

namespace TrpcRouters.Declaration
open FileTree

def IsDeclarationName (name : RawString) : Prop :=
  "_pb.d.ts".toList <:+ name.text.toList

/-- The paths of the files among the entries lead to them if they lead anywhere. -/
def Aimed (tree : FileTree) (entries : List Visited) : Prop :=
  ∀ entry ∈ entries, entry.node.isFile = true → ∀ place node,
    tree.entry true entry.path = .ok (place, node) → place = entry.place

section Aimed
variable {tree : FileTree} {entry : Visited} {rest : List Visited}

theorem Aimed.tail (aimed : Aimed tree (entry :: rest)) : Aimed tree rest :=
  fun other member => aimed other (List.mem_cons_of_mem _ member)

theorem Aimed.head (aimed : Aimed tree (entry :: rest)) (isFile : entry.node.isFile = true) {place : Place}
    {node : Node} (entered : tree.entry true entry.path = .ok (place, node)) :
    place = entry.place ∧ tree.node? entry.place = some node := by
  obtain rfl := aimed entry (List.mem_cons_self ..) isFile place node entered
  exact ⟨rfl, held_of_entry entered⟩

end Aimed

theorem Aimed.putFile {tree : FileTree} {entries : List Visited} (aimed : Aimed tree entries)
    (sound : tree.Sound) {place : Place} {old : Bytes} (was : tree.file? place = some old) (content : Bytes)
    (executable : Bool) : Aimed (tree.putFile place content executable) entries := by
  intro entry member isFile there node found
  obtain ⟨other, back⟩ := (Overlaid.of_putFile_back sound was content executable).entry found
  exact aimed entry member isFile there other back

theorem aimed_walk {tree : FileTree} (sound : tree.Sound) (root : Path) :
    Aimed tree (tree.walk false root) := by
  intro entry member isFile place node found
  have solid : ∀ target, entry.node ≠ .link target := by
    intro target link
    rw [link] at isFile
    cases isFile
  exact congrArg Prod.fst (owns_of_mem_walk sound member solid _ found)

/-- A tree was only written to, at declaration files among the entries. -/
structure Adapts (entries : List Visited) (before after : FileTree) : Prop where
  grows : Grows before after
  sound : after.Sound
  place : ∀ place, after.node? place = before.node? place ∨
    ∃ entry ∈ entries, isDeclaration entry.path = true ∧ entry.place = place ∧ entry.node.isFile = true
  entered : ∀ path place node, before.entry true path = .ok (place, node) →
    ∃ other, after.entry true path = .ok (place, other)

theorem Adapts.refl {tree : FileTree} (sound : tree.Sound) (entries : List Visited) :
    Adapts entries tree tree :=
  ⟨Grows.refl tree, sound, fun _ => Or.inl rfl, fun _ _ node found => ⟨node, found⟩⟩

theorem Adapts.cons {entries : List Visited} {before after : FileTree}
    (adapts : Adapts entries before after) (entry : Visited) :
    Adapts (entry :: entries) before after where
  grows := adapts.grows
  sound := adapts.sound
  place place := by
    refine (adapts.place place).imp_right ?_
    rintro ⟨other, member, rest⟩
    exact ⟨other, List.mem_cons_of_mem _ member, rest⟩
  entered := adapts.entered

inductive Step (entry : Visited) (rest : List Visited) (tree : FileTree) : Prop
  | passed (other : isDeclaration entry.path = true → entry.node.isFile = false)
      (same : adaptEntries (entry :: rest) tree = adaptEntries rest tree)
  | refused {failure : Failure} (declares : isDeclaration entry.path = true)
      (isFile : entry.node.isFile = true) (failed : adaptFile tree entry.path = .error failure)
      (result : adaptEntries (entry :: rest) tree = (tree, .error failure))
  | kept {place : Place} {content : Bytes} {stamp : Nat} {executable : Bool} {text : String}
      (declares : isDeclaration entry.path = true) (isFile : entry.node.isFile = true)
      (entered : tree.entry true entry.path = .ok (place, .file content stamp executable))
      (decoded : Text.decode? content = some text) (stays : adapt text = text)
      (same : adaptEntries (entry :: rest) tree = adaptEntries rest tree)
  | rewritten {place : Place} {content : Bytes} {stamp : Nat} {executable : Bool} {text : String}
      (declares : isDeclaration entry.path = true) (isFile : entry.node.isFile = true)
      (entered : tree.entry true entry.path = .ok (place, .file content stamp executable))
      (decoded : Text.decode? content = some text) (changes : adapt text ≠ text)
      (result : adaptEntries (entry :: rest) tree = Prod.map id (Except.map (entry.path :: ·))
        (adaptEntries rest (tree.putFile place (Text.encode (adapt text)) executable)))

theorem step_adaptEntries (entry : Visited) (rest : List Visited) (tree : FileTree) :
    Step entry rest tree := by
  by_cases chosen : (entry.node.isFile && isDeclaration entry.path) = true
  case neg =>
    refine .passed (fun declares => by simpa [declares] using chosen) ?_
    simp only [adaptEntries, chosen, Bool.false_eq_true, ↓reduceIte]
  obtain ⟨isFile, declares⟩ := Bool.and_eq_true_iff.mp chosen
  cases adapted : adaptFile tree entry.path with
  | error failure =>
    exact .refused declares isFile adapted (by simp only [adaptEntries, chosen, adapted, ↓reduceIte])
  | ok outcome =>
    have whole : adaptEntries (entry :: rest) tree = match outcome with
        | (false, tree) => adaptEntries rest tree
        | (true, tree) => Prod.map id (Except.map (entry.path :: ·)) (adaptEntries rest tree) := by
      simp only [adaptEntries, chosen, adapted, ↓reduceIte]
      obtain ⟨_ | _, tree⟩ := outcome
      · rfl
      · dsimp only
        split
        next equal => rw [equal]; rfl
        next equal => rw [equal]; rfl
    unfold adaptFile at adapted
    cases read : tree.read entry.path with
    | error error => simp [read] at adapted
    | ok content =>
      obtain ⟨place, stamp, executable, entered⟩ := read_eq_ok_iff.mp read
      simp only [read] at adapted
      cases decoded : Text.decode? content with
      | none => simp [decoded] at adapted
      | some text =>
        simp only [decoded] at adapted
        by_cases same : adapt text = text
        · rw [if_pos same] at adapted
          cases adapted
          exact .kept declares isFile entered decoded same whole
        · rw [if_neg same] at adapted
          cases written : tree.write entry.path (Text.encode (adapt text)) with
          | error error => simp [written] at adapted
          | ok after =>
            rw [written] at adapted
            cases adapted
            refine .rewritten declares isFile entered decoded same ?_
            rw [← write_over entered written]
            exact whole

theorem adapts_adaptEntries {entries : List Visited} {tree : FileTree} (sound : tree.Sound)
    (aimed : Aimed tree entries) : Adapts entries tree (adaptEntries entries tree).1 := by
  induction entries generalizing tree with
  | nil => exact .refl sound []
  | cons entry rest ih =>
    have skip := (ih sound aimed.tail).cons entry
    cases step_adaptEntries entry rest tree with
    | passed _ same => rwa [same]
    | refused _ _ _ result =>
      rw [result]
      exact .refl sound _
    | kept _ _ _ _ _ same => rwa [same]
    | @rewritten place content stamp executable text declares isFile entered _ _ result =>
      obtain ⟨rfl, node⟩ := aimed.head isFile entered
      have was : tree.file? entry.place = some content := file?_eq_some_iff.mpr ⟨stamp, executable, node⟩
      have step := Overlaid.of_putFile_over sound was (Text.encode (adapt text)) executable
      have rest_ := (ih step.sound (aimed.tail.putFile sound was _ _)).cons entry
      rw [result, Prod.map_fst, id]
      refine ⟨step.grows.trans rest_.grows, rest_.sound, fun other => ?_, fun path _ _ found => ?_⟩
      case refine_2 =>
        obtain ⟨middle, found⟩ := step.entry found
        exact rest_.entered path _ _ found
      rcases rest_.place other with kept | changed
      · by_cases same : other = entry.place
        · exact Or.inr ⟨entry, List.mem_cons_self .., declares, same.symm, isFile⟩
        · have inside : entry.place ≠ [] := by
            intro top
            rw [top] at node
            cases node
          rw [kept, node?_putFile _ _ _ _ inside, if_neg same]
          exact Or.inl rfl
      · exact Or.inr changed

theorem adapts_pass {tree : FileTree} (sound : tree.Sound) (root : Path) :
    Adapts (tree.walk false root) tree (pass root tree).1 :=
  adapts_adaptEntries sound (aimed_walk sound root)

theorem failure_adaptFile {tree : FileTree} {path : Path} {failure : Failure}
    (failed : adaptFile tree path = .error failure) :
    ∃ error, failure = .system error ∨ failure = .emission path error := by
  unfold adaptFile at failed
  split at failed
  · cases failed
    exact ⟨_, Or.inl rfl⟩
  split at failed
  · cases failed
    exact ⟨_, Or.inl rfl⟩
  split at failed
  · cases failed
  split at failed
  · cases failed
    exact ⟨_, Or.inr rfl⟩
  · cases failed

theorem failure_adaptEntries {entries : List Visited} {tree : FileTree} {failure : Failure}
    (failed : (adaptEntries entries tree).2 = .error failure) :
    ∃ entry ∈ entries, isDeclaration entry.path = true ∧ entry.node.isFile = true ∧
      ∃ error, failure = .system error ∨ failure = .emission entry.path error := by
  induction entries generalizing tree with
  | nil => cases failed
  | cons entry rest ih =>
    have later : ∀ {tree : FileTree}, (adaptEntries rest tree).2 = .error failure →
        ∃ other ∈ entry :: rest, isDeclaration other.path = true ∧ other.node.isFile = true ∧
          ∃ error, failure = .system error ∨ failure = .emission other.path error := by
      intro tree failed
      obtain ⟨other, member, blamed⟩ := ih failed
      exact ⟨other, List.mem_cons_of_mem _ member, blamed⟩
    cases step_adaptEntries entry rest tree with
    | passed _ same => exact later (same ▸ failed)
    | refused declares isFile refused result =>
      rw [result] at failed
      cases failed
      exact ⟨entry, List.mem_cons_self .., declares, isFile, failure_adaptFile refused⟩
    | kept _ _ _ _ _ same => exact later (same ▸ failed)
    | @rewritten place content stamp executable text declares isFile entered _ _ result =>
      rw [result, Prod.map_snd] at failed
      cases outcome : (adaptEntries rest (tree.putFile place (Text.encode (adapt text)) executable)).2 with
      | ok changed =>
        rw [outcome] at failed
        cases failed
      | error error =>
        rw [outcome] at failed
        cases failed
        exact later outcome

section Pass
variable {tree : FileTree} {root : Path} {directory : Place}

theorem names_of_mem_walk (sound : tree.Sound) (only : ∀ place node, tree.entry true root = .ok (place, node) →
      place = directory ∧ node = .directory) {entry : Visited} (member : entry ∈ tree.walk false root)
    (declares : isDeclaration entry.path = true) (isFile : entry.node.isFile = true) :
    ∃ front last, (∀ name ∈ front, Path.IsName name) ∧ Path.IsName last ∧ IsDeclarationName last ∧
      entry.path = (along root front).child last ∧ entry.place = last :: (front.reverse ++ directory) := by
  obtain ⟨start, node, entered, held, names, named, spelled, placed, _⟩ := met_of_mem_walk sound member
  obtain ⟨rfl, rfl⟩ := only start node entered
  have there := placed rfl
  obtain rfl | ⟨front, last, rfl⟩ := List.eq_nil_or_concat' names
  · rw [there, List.reverse_nil, List.nil_append, held_of_entry entered] at held
    rw [← Option.some.inj held] at isFile
    cases isFile
  · obtain ⟨front_, last_⟩ := List.forall_mem_append.mp named
    refine ⟨front, last, front_, last_ last (List.mem_singleton_self last), ?_, ?_, by rw [there]; simp⟩
    · have fileName : entry.path.fileName? = some last := by
        rw [spelled, Path.fileName?, components_along root named]
        simp
      unfold isDeclaration at declares
      rw [fileName] at declares
      exact List.isSuffixOf_iff_suffix.mp declares
    · rw [spelled, along, List.foldl_concat]
      rfl

/-- Below the directory that it leads to, if to any, the pass changes declaration files only. -/
theorem pass_spec (sound : tree.Sound) (only : ∀ place node, tree.entry true root = .ok (place, node) →
      place = directory ∧ node = .directory) :
    Grows tree (pass root tree).1 ∧ (pass root tree).1.Sound ∧
      ∀ place, (pass root tree).1.node? place = tree.node? place ∨
        ∃ name front, IsDeclarationName name ∧ place = name :: (front ++ directory) := by
  obtain ⟨grows, sound', changed, _⟩ := adapts_pass sound root
  refine ⟨grows, sound', fun place => (changed place).imp_right ?_⟩
  rintro ⟨entry, member, declares, rfl, isFile⟩
  obtain ⟨front, last, _, _, declaration, _, there⟩ := names_of_mem_walk sound only member declares isFile
  exact ⟨last, front.reverse, declaration, there⟩

theorem failure_pass (sound : tree.Sound) (only : ∀ place node, tree.entry true root = .ok (place, node) →
      place = directory ∧ node = .directory) {failure : Failure}
    (failed : (pass root tree).2 = .error failure) : ∃ error, failure = .system error ∨
      ∃ front last, (∀ name ∈ front, Path.IsName name) ∧ Path.IsName last ∧ IsDeclarationName last ∧
        failure = .emission ((along root front).child last) error := by
  obtain ⟨entry, member, declares, isFile, error, blamed⟩ := failure_adaptEntries failed
  obtain ⟨front, last, front_, last_, declaration, spelled, _⟩ :=
    names_of_mem_walk sound only member declares isFile
  exact ⟨error, blamed.imp_right fun same => ⟨front, last, front_, last_, declaration, spelled ▸ same⟩⟩

end Pass

end TrpcRouters.Declaration

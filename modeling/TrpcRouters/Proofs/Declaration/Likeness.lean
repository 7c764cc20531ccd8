import TrpcRouters.Proofs.Declaration.Pass
import TrpcRouters.Proofs.FileTree.Abreast

/-! Adapting the declaration files below a directory does the same in two trees that show the same there. -/

namespace TrpcRouters.Declaration
open FileTree

/-- By one path, a file stands in one directory of two trees that show the same there. -/
structure Paired (first second : FileTree) (path : Path) (place : Place) : Prop where
  way : ∃ above name directory, path = above.child name ∧ place = name :: directory ∧
    above.isEmpty = false ∧ Path.IsName name ∧ first.Leads (first.start above) above.names directory ∧
    second.Leads (second.start above) above.names directory
  file : ∃ content stamp stamp' executable, first.node? place = some (.file content stamp executable) ∧
    second.node? place = some (.file content stamp' executable)

namespace Paired
variable {first second : FileTree} {path : Path} {place other : Place}

theorem resolve (paired : Paired first second path place) :
    (∃ error, first.resolve true path = .error error ∧ second.resolve true path = .error error) ∨
    ∃ content stamp stamp' executable,
      first.resolve true path = .ok (.found place (.file content stamp executable)) ∧
        second.resolve true path = .ok (.found place (.file content stamp' executable)) := by
  obtain ⟨above, name, directory, rfl, rfl, some_, named, leads, leads'⟩ := paired.way
  obtain ⟨content, stamp, stamp', executable, held, held'⟩ := paired.file
  have proper := proper_names above
  have follow := leads.inside proper named (by simp [held])
  have follow' := leads'.inside proper named (by simp [held'])
  rw [held] at follow
  rw [held'] at follow'
  unfold FileTree.resolve resolveSteps
  rw [steps_child some_ named, start_child first some_ named, start_child second some_ named, follow, follow']
  split
  · exact Or.inl ⟨_, rfl, rfl⟩
  split
  · exact Or.inl ⟨_, rfl, rfl⟩
  split
  · exact Or.inl ⟨_, rfl, rfl⟩
  split
  · exact Or.inl ⟨_, rfl, rfl⟩
  · exact Or.inr ⟨content, stamp, stamp', executable, rfl, rfl⟩

theorem adaptFile (paired : Paired first second path place) (fixed : first.fixed = second.fixed) :
    (∃ failure, Declaration.adaptFile first path = .error failure ∧
      Declaration.adaptFile second path = .error failure) ∨
    (Declaration.adaptFile first path = .ok (false, first) ∧
      Declaration.adaptFile second path = .ok (false, second)) ∨
    ∃ content executable,
      Declaration.adaptFile first path = .ok (true, first.putFile place content executable) ∧
        Declaration.adaptFile second path = .ok (true, second.putFile place content executable) := by
  obtain ⟨above, name, directory, spelled, _, _, named, _⟩ := paired.way
  have ends : path.endsInSeparator = false := spelled ▸ Path.endsInSeparator_child named.isMove
  simp only [Declaration.adaptFile, FileTree.read, entry, write, ends, Bool.false_eq_true, ↓reduceIte]
  rcases paired.resolve with ⟨error, refused, refused'⟩ | ⟨content, stamp, stamp', executable, found, found'⟩
  · simp only [refused, refused']
    exact Or.inl ⟨_, rfl, rfl⟩
  simp only [found, found', fixed]
  cases Text.decode? content with
  | none => exact Or.inl ⟨_, rfl, rfl⟩
  | some text =>
    by_cases settled : adapt text = text
    · simp only [if_pos settled]
      exact Or.inr (Or.inl ⟨trivial, trivial⟩)
    simp only [if_neg settled]
    by_cases shut : place ∈ second.fixed
    · simp only [if_pos shut]
      exact Or.inl ⟨_, rfl, rfl⟩
    · simp only [if_neg shut]
      exact Or.inr (Or.inr ⟨_, _, rfl, rfl⟩)

theorem grows_putFile {tree : FileTree} {old : Bytes} {stamp : Nat} {executable : Bool}
    (held : tree.node? place = some (.file old stamp executable)) (content : Bytes) (executable' : Bool) :
    Grows tree (tree.putFile place content executable') := by
  refine FileTree.grows_putFile (fun top => ?_) _ _ fun node held' => ?_
  · rw [top] at held
    cases held
  · rw [held] at held'
    cases held'
    exact Node.not_isWay_file _ _ _

theorem putFile (paired : Paired first second path place) {path' : Path} (written : Paired first second path' other)
    (content : Bytes) (executable : Bool) :
    Paired (first.putFile other content executable) (second.putFile other content executable) path place := by
  obtain ⟨_, _, _, _, old, old'⟩ := written.file
  have grows := grows_putFile old content executable
  have grows' := grows_putFile old' content executable
  refine ⟨?way, ?file⟩
  case way =>
    obtain ⟨above, name, directory, spelled, placed, some_, named, leads, leads'⟩ := paired.way
    refine ⟨above, name, directory, spelled, placed, some_, named, ?_, ?_⟩
    · exact (leads.grows grows : _)
    · exact (leads'.grows grows' : _)
  case file =>
    have inside : other ≠ [] := by
      rintro rfl
      cases old
    rw [node?_putFile _ _ _ _ inside, node?_putFile _ _ _ _ inside]
    split
    · exact ⟨_, _, _, _, rfl, rfl⟩
    · exact paired.file

end Paired

/-- What is done for the entries of a walk depends on what they show, and not on the tree. -/
theorem adaptEntries_congr {entries entries' : List Visited}
    (same : entries.map Visited.unstamped = entries'.map Visited.unstamped) {first second : FileTree}
    (fixed : first.fixed = second.fixed)
    (paired : ∀ entry ∈ entries, entry.node.isFile = true → Paired first second entry.path entry.place) :
    (adaptEntries entries first).2 = (adaptEntries entries' second).2 ∧
      Together (· ∈ entries.map Visited.place) first second
        (adaptEntries entries first).1 (adaptEntries entries' second).1 := by
  induction entries generalizing entries' first second with
  | nil =>
    rw [List.map_nil, eq_comm, List.map_eq_nil_iff] at same
    subst same
    exact ⟨rfl, .refl⟩
  | cons entry rest ih =>
    cases entries' with
    | nil => simp at same
    | cons entry' rest' =>
    obtain ⟨path, place, node⟩ := entry
    obtain ⟨path', place', node'⟩ := entry'
    simp only [List.map_cons, List.cons.injEq, Visited.unstamped, Visited.mk.injEq] at same
    obtain ⟨⟨rfl, rfl, like⟩, same⟩ := same
    have isFile : node'.isFile = node.isFile := by
      cases node <;> cases node' <;> simp [Node.unstamped, Node.isFile] at like ⊢
    obtain ⟨here, others⟩ := List.forall_mem_cons.mp paired
    have wider : ∀ {first second first' second' : FileTree},
        Together (· ∈ rest.map Visited.place) first second first' second' →
        Together (· ∈ place :: rest.map Visited.place) first second first' second' :=
      fun together => together.mono fun _ => List.mem_cons_of_mem _
    have skip := ih same fixed others
    simp only [adaptEntries, isFile]
    by_cases chosen : (node.isFile && isDeclaration path) = true
    case neg =>
      simp only [if_neg chosen]
      exact ⟨skip.1, wider skip.2⟩
    have pair := here (Bool.and_eq_true_iff.mp chosen).1
    simp only [if_pos chosen]
    rcases pair.adaptFile fixed with ⟨failure, failed, failed'⟩ | ⟨kept, kept'⟩ |
      ⟨content, executable, written, written'⟩
    · simp only [failed, failed']
      exact ⟨trivial, .refl⟩
    · simp only [kept, kept']
      exact ⟨skip.1, wider skip.2⟩
    · simp only [written, written']
      have put : Together (· ∈ place :: rest.map Visited.place) first second _ _ :=
        .putFile content executable (List.mem_cons_self ..)
      have later := ih same (show (first.putFile place content executable).fixed =
        (second.putFile place content executable).fixed from fixed)
      obtain ⟨ended, together⟩ := later
        fun other member isFile => (others other member isFile).putFile pair content executable
      have whole := put.trans (wider together)
      generalize adaptEntries rest (first.putFile _ _ _) = adapted at ended whole
      generalize adaptEntries rest' (second.putFile _ _ _) = adapted' at ended whole
      obtain ⟨after, outcome⟩ := adapted
      obtain ⟨after', outcome'⟩ := adapted'
      obtain rfl : outcome = outcome' := ended
      cases outcome with
      | error error => exact ⟨rfl, whole⟩
      | ok changed => exact ⟨rfl, whole⟩

section Pass
variable {first second : FileTree} {root : Path} {directory : Place}

theorem paired_walk (sound : first.Sound) (sound' : second.Sound) (closed : first.closed = second.closed)
    (entered : first.entry true root = .ok (directory, .directory))
    (entered' : second.entry true root = .ok (directory, .directory))
    (same : ∀ front, first.sight? (front ++ directory) = second.sight? (front ++ directory)) :
    ∀ entry ∈ first.walk false root, entry.node.isFile = true → Paired first second entry.path entry.place := by
  intro entry member isFile
  obtain ⟨other, member', like⟩ := List.mem_map.mp
    (walk_congr sound sound' closed entered entered' same ▸ List.mem_map_of_mem (f := Visited.unstamped) member)
  obtain ⟨names, spelled, placed, held, listed⟩ := (mem_walk_iff sound entered).mp member
  obtain ⟨names', spelled', placed', held', listed'⟩ := (mem_walk_iff sound' entered').mp member'
  obtain ⟨path, place, node⟩ := entry
  obtain ⟨path', place', node'⟩ := other
  simp only [Visited.unstamped, Visited.mk.injEq] at like
  obtain ⟨rfl, rfl, _⟩ := like
  simp only at spelled placed held isFile placed' held'
  subst spelled placed
  obtain rfl : names' = names := List.reverse_injective (List.append_cancel_right placed').symm
  obtain ⟨content, stamp, executable, rfl⟩ := Node.isFile_iff.mp isFile
  have file : ∃ content stamp stamp' executable,
      first.node? (names'.reverse ++ directory) = some (.file content stamp executable) ∧
        second.node? (names'.reverse ++ directory) = some (.file content stamp' executable) := by
    rcases sight?_cases (same names'.reverse) with ⟨here, _⟩ | ⟨here, _⟩ | ⟨_, here, _⟩ | both
    · rw [held] at here
      cases here
    · rw [held] at here
      cases here
    · rw [held] at here
      cases here
    · exact both
  obtain rfl | ⟨front, last, rfl⟩ := List.eq_nil_or_concat' names'
  · have top := (held_of_entry entered).symm.trans held
    cases top
  have named : ∀ name ∈ front ++ [last], Path.IsName name := fun name member =>
    sound.names held name (List.mem_append_left _ (List.mem_reverse.mpr member))
  rw [List.reverse_concat, List.cons_append] at file held held'
  have leads := entered_of_listed sound entered (sound.rooted held) listed
  have leads' := entered_of_listed sound' entered' (sound'.rooted held') listed'
  refine ⟨⟨along root front, last, front.reverse ++ directory, ?_, by simp, isEmpty_of_entry leads,
    named last (by simp), .of_entry leads, .of_entry leads'⟩, by simpa using file⟩
  simp [along]

theorem pass_congr (sound : first.Sound) (sound' : second.Sound) (closed : first.closed = second.closed)
    (fixed : first.fixed = second.fixed) (entered : first.entry true root = .ok (directory, .directory))
    (entered' : second.entry true root = .ok (directory, .directory))
    (same : ∀ front, first.sight? (front ++ directory) = second.sight? (front ++ directory)) :
    (pass root first).2 = (pass root second).2 ∧
      Together (fun place => directory <:+ place) first second (pass root first).1 (pass root second).1 := by
  obtain ⟨ended, together⟩ := adaptEntries_congr (walk_congr sound sound' closed entered entered' same) fixed
    (paired_walk sound sound' closed entered entered' same)
  refine ⟨ended, together.mono ?_⟩
  intro there visited
  obtain ⟨entry, member, rfl⟩ := List.mem_map.mp visited
  obtain ⟨names, _, placed, _⟩ := (mem_walk_iff sound entered).mp member
  exact ⟨names.reverse, placed.symm⟩

end Pass

end TrpcRouters.Declaration

import TrpcRouters.Proofs.Declaration.Adapt
import TrpcRouters.Proofs.Declaration.Pass
import TrpcRouters.Proofs.FileTree.Overlay
import TrpcRouters.Proofs.FileTree.Visit
import TrpcRouters.Proofs.Text.Utf8

/-! What a pass that ends well leaves of the declaration files below its directory. Every one of them is a
text and holds it adapted, so that a second pass finds nothing to do. -/

namespace TrpcRouters.Declaration
open FileTree

/-- A file's content as a pass leaves it, if it is a text. -/
def rewritten? (content : Bytes) : Option Bytes :=
  (Text.decode? content).map fun text => Text.encode (adapt text)

theorem rewritten?_rewritten? {content rewritten : Bytes}
    (once : rewritten? content = some rewritten) : rewritten? rewritten = some rewritten := by
  obtain ⟨text, _, rfl⟩ := Option.map_eq_some_iff.mp once
  rw [rewritten?, Text.decode?_encode, Option.map_some, adapt_adapt]

theorem rewritten?_of_stays {content : Bytes} {text : String} (decoded : Text.decode? content = some text)
    (stays : adapt text = text) : rewritten? content = some content := by
  rw [rewritten?, decoded, Option.map_some, stays, Text.encode_of_decode? decoded]

theorem rewritten?_of_changes {content : Bytes} {text : String}
    (decoded : Text.decode? content = some text) (changes : adapt text ≠ text) :
    rewritten? content = some (Text.encode (adapt text)) ∧ Text.encode (adapt text) ≠ content := by
  refine ⟨by rw [rewritten?, decoded, Option.map_some], fun same => changes ?_⟩
  have again := congrArg Text.decode? same
  rw [Text.decode?_encode, decoded] at again
  exact Option.some.inj again

instance (name : RawString) : Decidable (IsDeclarationName name) :=
  inferInstanceAs (Decidable (_ <:+ _))

/-- The places of declaration files below a directory. -/
def Declares (directory : Place) : Place → Prop
  | [] => False
  | name :: above => IsDeclarationName name ∧ directory <:+ above

instance (directory : Place) : DecidablePred (Declares directory)
  | [] => .isFalse id
  | _ :: _ => inferInstanceAs (Decidable (_ ∧ _))

def behind (directory place : Place) : List RawString :=
  (place.take (place.length - directory.length)).reverse

theorem behind_append (names : List RawString) (directory : Place) :
    behind directory (names.reverse ++ directory) = names := by
  rw [behind, List.length_append, Nat.add_sub_cancel, List.take_left, List.reverse_reverse]

/-- The places of the declaration files to which a pass from a path gets: all directories on the way are
listed, and the system takes their paths. -/
def Reaches (closed : List Place) (root : Path) (directory place : Place) : Prop :=
  Declares directory place ∧ Passable closed root directory (behind directory place)

instance (closed : List Place) (root : Path) (directory : Place) :
    DecidablePred (Reaches closed root directory) :=
  fun _ => inferInstanceAs (Decidable (_ ∧ _))

/-- The declaration files below a directory as a pass from a path leaves them. -/
def adaptation (root : Path) (directory : Place) (tree : FileTree) : Files :=
  fun place =>
    if Reaches tree.closed root directory place then (tree.file? place).bind rewritten? else none

def rewrites (tree : FileTree) (entries : List Visited) : Files :=
  fun place =>
    if entries.any (fun entry => isDeclaration entry.path && entry.place == place) then
      (tree.file? place).bind rewritten?
    else none

section Entries
variable {base tree after : FileTree} {done entries : List Visited} {entry : Visited}

theorem rewrites_concat_of_idle
    (idle : isDeclaration entry.path = true → base.file? entry.place = none) :
    rewrites base (done ++ [entry]) = rewrites base done := by
  funext place
  unfold rewrites
  by_cases here : isDeclaration entry.path = true ∧ entry.place = place
  · obtain ⟨declares, rfl⟩ := here
    simp [idle declares]
  · simp only [List.any_append, List.any_cons, List.any_nil, Bool.or_false, Bool.or_eq_true,
      Bool.and_eq_true, beq_iff_eq, here, or_false]

theorem rewrites_concat_of_some (done : List Visited) (declares : isDeclaration entry.path = true)
    {content rewritten : Bytes} (held : base.file? entry.place = some content)
    (new : rewritten? content = some rewritten) :
    rewrites base (done ++ [entry]) = (Files.single entry.place rewritten).atop (rewrites base done) := by
  funext place
  unfold rewrites Files.atop Files.single
  by_cases here : place = entry.place
  · simp [here, declares, held, new]
  · simp [here, Ne.symm here]

theorem eq_or_rewritten (overlaid : Overlaid (rewrites base done) base tree) {place : Place}
    {old content : Bytes} (held : base.file? place = some old) (found : tree.file? place = some content) :
    content = old ∨ rewritten? old = some content := by
  rw [overlaid.file?, held] at found
  cases written : rewrites base done place with
  | none =>
    rw [written] at found
    exact Or.inl (Option.some.inj found).symm
  | some other =>
    rw [written] at found
    cases found
    unfold rewrites at written
    split at written
    · exact Or.inr (by rwa [held] at written)
    · cases written

theorem isSome_of_held {place : Place} {content rewritten : Bytes}
    (held : base.file? place = some content) (new : rewritten? content = some rewritten) (other : Bytes)
    (held' : base.file? place = some other) : (rewritten? other).isSome = true := by
  rw [held] at held'
  cases held'
  rw [new]
  rfl

theorem overlaid_of_stays (overlaid : Overlaid (rewrites base done) base tree)
    (declares : isDeclaration entry.path = true) {content rewritten : Bytes}
    (held : base.file? entry.place = some content) (new : rewritten? content = some rewritten)
    (there : tree.file? entry.place = some rewritten) :
    Overlaid (rewrites base (done ++ [entry])) base tree := by
  rw [rewrites_concat_of_some done declares held new]
  exact overlaid.settled there

theorem overlaid_of_putFile (overlaid : Overlaid (rewrites base done) base tree)
    (declares : isDeclaration entry.path = true) {content rewritten : Bytes}
    (held : base.file? entry.place = some content) (new : rewritten? content = some rewritten)
    (executable : Bool) :
    Overlaid (rewrites base (done ++ [entry])) base (tree.putFile entry.place rewritten executable) := by
  obtain ⟨old, was⟩ : ∃ old, tree.file? entry.place = some old := by
    rw [overlaid.file?, held]
    cases rewrites base done entry.place <;> simp
  rw [rewrites_concat_of_some done declares held new]
  exact overlaid.trans (.of_putFile_over overlaid.sound was rewritten executable)

theorem ok_of_prepended {adapted : FileTree × Except Failure (List Path)} {path : Path} {changed : List Path}
    (whole : (after, .ok changed) = Prod.map id (Except.map (path :: ·)) adapted) :
    ∃ inner, adapted = (after, .ok inner) := by
  obtain ⟨left_, inner | inner⟩ := adapted <;> cases whole
  exact ⟨inner, rfl⟩

/-- A pass that gets through has settled its first entry and goes on behind it. -/
theorem exists_settled_first {rest : List Visited} (here : base.node? entry.place = some entry.node)
    (aimed : Aimed tree (entry :: rest)) (overlaid : Overlaid (rewrites base done) base tree)
    {changed : List Path} (result : adaptEntries (entry :: rest) tree = (after, .ok changed)) :
    ∃ middle changed', adaptEntries rest middle = (after, .ok changed') ∧ Aimed middle rest ∧
      Overlaid (rewrites base (done ++ [entry])) base middle ∧
      (isDeclaration entry.path = true → ∀ content, base.file? entry.place = some content →
        (rewritten? content).isSome = true) := by
  -- The entry's path leads to the file that stood at its place before.
  have filed {place : Place} {content : Bytes} {stamp : Nat} {executable : Bool}
      (isFile : entry.node.isFile = true)
      (entered : tree.entry true entry.path = .ok (place, .file content stamp executable)) :
      place = entry.place ∧ tree.file? entry.place = some content ∧
        ∃ old, base.file? entry.place = some old := by
    obtain ⟨same, node⟩ := aimed.head isFile entered
    refine ⟨same, file?_eq_some_iff.mpr ⟨stamp, executable, node⟩, ?_⟩
    obtain ⟨old, stamp, executable, node⟩ := Node.isFile_iff.mp isFile
    exact ⟨old, file?_eq_some_iff.mpr ⟨stamp, executable, node ▸ here⟩⟩
  cases step_adaptEntries entry rest tree with
  | passed other same =>
    have idle : isDeclaration entry.path = true → base.file? entry.place = none := by
      intro declares
      rw [Option.eq_none_iff_forall_not_mem]
      intro content held
      obtain ⟨stamp, executable, there⟩ := file?_eq_some_iff.mp held
      have isFile := other declares
      rw [Option.some.inj (here.symm.trans there)] at isFile
      cases isFile
    refine ⟨tree, changed, same ▸ result, aimed.tail, ?_, fun declares content held => ?_⟩
    · rwa [rewrites_concat_of_idle idle]
    · rw [idle declares] at held
      cases held
  | refused _ _ _ refused =>
    rw [refused] at result
    cases result
  | @kept place content _ _ _ declares isFile entered decoded stays same =>
    obtain ⟨rfl, found, old, held⟩ := filed isFile entered
    have new : rewritten? old = some content := by
      rcases eq_or_rewritten overlaid held found with rfl | new
      · exact rewritten?_of_stays decoded stays
      · exact new
    exact ⟨tree, changed, same ▸ result, aimed.tail, overlaid_of_stays overlaid declares held new found,
      fun _ => isSome_of_held held new⟩
  | @rewritten place content stamp executable text declares isFile entered decoded changes whole =>
    obtain ⟨rfl, found, old, held⟩ := filed isFile entered
    obtain ⟨new, differs⟩ := rewritten?_of_changes decoded changes
    obtain rfl : content = old := by
      refine (eq_or_rewritten overlaid held found).resolve_right fun settled => differs ?_
      exact Option.some.inj (new.symm.trans (rewritten?_rewritten? settled))
    rw [result] at whole
    obtain ⟨inner, rest'⟩ := ok_of_prepended whole
    exact ⟨_, inner, rest', aimed.tail.putFile overlaid.sound found _ _,
      overlaid_of_putFile overlaid declares held new executable, fun _ => isSome_of_held held new⟩

theorem overlaid_adaptEntries (met : ∀ entry ∈ entries, base.node? entry.place = some entry.node)
    (aimed : Aimed tree entries) (overlaid : Overlaid (rewrites base done) base tree) {changed : List Path}
    (result : adaptEntries entries tree = (after, .ok changed)) :
    Overlaid (rewrites base (done ++ entries)) base after ∧
      ∀ entry ∈ entries, isDeclaration entry.path = true →
        ∀ content, base.file? entry.place = some content → (rewritten? content).isSome = true := by
  induction entries generalizing done tree changed with
  | nil =>
    cases result
    exact ⟨by rwa [List.append_nil], by simp⟩
  | cons entry rest ih =>
    obtain ⟨here, met⟩ := List.forall_mem_cons.mp met
    obtain ⟨middle, changed', result', aimed', settled, first⟩ :=
      exists_settled_first here aimed overlaid result
    obtain ⟨whole, others⟩ := ih met aimed' settled result'
    rw [List.append_assoc] at whole
    exact ⟨whole, List.forall_mem_cons.mpr ⟨first, others⟩⟩

end Entries

theorem isDeclaration_along (root : Path) {front : List RawString} {last : RawString}
    (named : ∀ name ∈ front ++ [last], Path.IsName name) :
    isDeclaration (along root (front ++ [last])) = true ↔ IsDeclarationName last := by
  have fileName : (along root (front ++ [last])).fileName? = some last := by
    rw [Path.fileName?, components_along root named]
    simp
  rw [isDeclaration, fileName]
  exact List.isSuffixOf_iff_suffix

section Walk
variable {tree : FileTree} {root : Path} {directory place : Place} {content : Bytes}

theorem isDeclaration_iff_declares (sound : tree.Sound)
    (entered : tree.entry true root = .ok (directory, .directory)) {names : List RawString}
    (held : tree.file? (names.reverse ++ directory) = some content) :
    isDeclaration (along root names) = true ↔ Declares directory (names.reverse ++ directory) := by
  obtain ⟨stamp, executable, node⟩ := file?_eq_some_iff.mp held
  obtain rfl | ⟨front, last, rfl⟩ := List.eq_nil_or_concat' names
  · rw [List.reverse_nil, List.nil_append, held_of_entry entered] at node
    cases node
  · have named : ∀ name ∈ front ++ [last], Path.IsName name := fun name member =>
      sound.names node name (List.mem_append_left _ (List.mem_reverse.mpr member))
    rw [isDeclaration_along root named, List.reverse_concat]
    exact (and_iff_left (List.suffix_append _ _)).symm

/-- The walk of a pass meets the declaration files below its directory that it reaches, and no others. -/
theorem reaches_iff (sound : tree.Sound) (entered : tree.entry true root = .ok (directory, .directory))
    (held : tree.file? place = some content) : Reaches tree.closed root directory place ↔
      ∃ entry ∈ tree.walk false root, isDeclaration entry.path = true ∧ entry.place = place := by
  obtain ⟨stamp, executable, node⟩ := file?_eq_some_iff.mp held
  constructor
  · rintro ⟨declares, passable⟩
    obtain ⟨names, rfl⟩ : ∃ names : List RawString, place = names.reverse ++ directory := by
      match place, declares with
      | name :: above, ⟨_, front, below⟩ => exact ⟨front.reverse ++ [name], by simp [below]⟩
    rw [behind_append] at passable
    exact ⟨_, mem_walk sound entered node ((listed_iff sound entered node).mpr passable),
      (isDeclaration_iff_declares sound entered held).mpr declares, rfl⟩
  · rintro ⟨entry, member, declares, rfl⟩
    obtain ⟨names, spelled, placed, _, listed⟩ := (mem_walk_iff sound entered).mp member
    rw [spelled] at declares
    rw [placed] at held node ⊢
    refine ⟨(isDeclaration_iff_declares sound entered held).mp declares, ?_⟩
    rw [behind_append]
    exact (listed_iff sound entered node).mp listed

theorem rewrites_walk (sound : tree.Sound)
    (entered : tree.entry true root = .ok (directory, .directory)) :
    rewrites tree (tree.walk false root) = adaptation root directory tree := by
  funext place
  unfold rewrites adaptation
  cases held : tree.file? place with
  | none => simp
  | some content =>
    congr 1
    rw [eq_iff_iff, reaches_iff sound entered held, List.any_eq_true]
    simp only [Bool.and_eq_true, beq_iff_eq]

/-- A pass that ends well rewrites the declaration files that it reaches, all of which are texts. -/
theorem overlaid_pass (sound : tree.Sound)
    (entered : tree.entry true root = .ok (directory, .directory)) {after : FileTree}
    {changed : List Path} (result : pass root tree = (after, .ok changed)) :
    Overlaid (adaptation root directory tree) tree after ∧
      ∀ place, Reaches tree.closed root directory place →
        ∀ content, tree.file? place = some content → (rewritten? content).isSome = true := by
  have met : ∀ entry ∈ tree.walk false root, tree.node? entry.place = some entry.node := by
    intro entry member
    obtain ⟨_, _, _, held, _⟩ := met_of_mem_walk sound member
    exact held
  have nothing : rewrites tree [] = .empty := by
    funext place
    simp [rewrites, Files.empty]
  obtain ⟨overlaid, texts⟩ := overlaid_adaptEntries met (aimed_walk sound root)
    (nothing ▸ Overlaid.refl sound) result
  rw [List.nil_append, rewrites_walk sound entered] at overlaid
  refine ⟨overlaid, fun place reaches content held => ?_⟩
  obtain ⟨entry, member, declares, rfl⟩ := (reaches_iff sound entered held).mp reaches
  exact texts entry member declares content held

end Walk

end TrpcRouters.Declaration

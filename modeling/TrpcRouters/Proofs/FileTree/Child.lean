import TrpcRouters.Proofs.FileTree.Write

/-! One step further from a path. What a path is called decides whether the system follows it at all; then
a name in the directory that it leads to stands for what is there, and a link for what it leads to. -/

namespace TrpcRouters.FileTree
variable {tree : FileTree}

/-- What a path is called lets it lead somewhere. -/
def Fits (path : Path) : Prop :=
  path.raw.bytes.contains 0 = false ∧ path.raw.bytes.length < pathLimit

instance (path : Path) : Decidable (Fits path) :=
  inferInstanceAs (Decidable (_ ∧ _))

theorem fits_of_resolveSteps {path : Path} {followLast : Bool} {steps : List RawString} {target : Target}
    (result : tree.resolveSteps followLast path steps = .ok target) : Fits path := by
  unfold resolveSteps at result
  split at result
  · cases result
  next nul =>
    split at result
    · cases result
    · split at result
      · cases result
      next short => exact ⟨by simpa using nul, Nat.lt_of_not_le short⟩

theorem fits_of_place? {path : Path} {place : Place} (found : tree.place? path = some place) : Fits path := by
  unfold place? at found
  cases reached : tree.resolve true path with
  | error error => simp [reached] at found
  | ok target => exact fits_of_resolveSteps reached

theorem resolveSteps_of_ok {followLast : Bool} {path : Path} {steps : List RawString} {target : Target}
    (result : tree.resolveSteps followLast path steps = .ok target) :
    path.isEmpty = false ∧ ∀ (other : FileTree) (followLast : Bool) (steps : List RawString),
      other.resolveSteps followLast path steps =
        other.follow followLast linkLimit (other.start path) steps := by
  unfold resolveSteps at result
  split at result
  · cases result
  · split at result
    · cases result
    · split at result
      · cases result
      next nul some_ long =>
        refine ⟨by simpa using some_, fun other followLast steps => ?_⟩
        rw [resolveSteps, if_neg nul, if_neg some_, if_neg long]

theorem resolve_of_entry {followLast : Bool} {path : Path} {place : Place} {node : Node}
    (entered : tree.entry followLast path = .ok (place, node)) :
    tree.resolve followLast path = .ok (.found place node) := by
  unfold entry at entered
  split at entered
  next reached =>
    cases entered
    exact reached
  next => cases entered
  next => cases entered

theorem follow_of_entry {followLast : Bool} {path : Path} {place : Place} {node : Node}
    (entered : tree.entry followLast path = .ok (place, node)) :
    tree.follow followLast linkLimit (tree.start path) path.steps = .ok (.found place node) :=
  follow_of_resolveSteps (resolve_of_entry entered)

theorem isEmpty_of_entry {followLast : Bool} {path : Path} {place : Place} {node : Node}
    (entered : tree.entry followLast path = .ok (place, node)) : path.isEmpty = false :=
  (resolveSteps_of_ok (resolve_of_entry entered)).1

theorem entry_of_isDirectory {path : Path} (directory : tree.isDirectory path = true) :
    ∃ place, tree.entry true path = .ok (place, .directory) := by
  unfold isDirectory at directory
  split at directory
  next place entered => exact ⟨place, entered⟩
  next => cases directory

theorem Leads.inside {from_ directory : Place} {front : List RawString} {name : RawString}
    (leads : tree.Leads from_ front directory) (proper : Proper front) (named : Path.IsName name)
    (plain : ∀ target, tree.node? (name :: directory) ≠ some (.link target)) :
    tree.follow true linkLimit from_ (front ++ [name]) =
      if nameLimit < name.bytes.length then .error .nameTooLong
      else
        match tree.node? (name :: directory) with
        | none => .ok (.vacant directory name)
        | some node => .ok (.found (name :: directory) node) := by
  obtain ⟨left, same⟩ := leads.append
  rw [same true [name] (List.cons_ne_nil _ _)]
  have inside := leads.directory proper
  have step : tree.advance true directory [name] =
      if nameLimit < name.bytes.length then .error .nameTooLong
      else
        match tree.node? (name :: directory) with
        | none => .ok (.arrived (.vacant directory name))
        | some node => .ok (.arrived (.found (name :: directory) node)) := by
    simp only [advance, inside, if_neg named.2.1, if_neg named.2.2.1]
    split
    next => rfl
    next =>
      cases held : tree.node? (name :: directory) with
      | none => rfl
      | some node =>
        cases node with
        | directory => rfl
        | file content stamp executable => rfl
        | link target => exact absurd held (plain target)
  by_cases long : nameLimit < name.bytes.length
  · rw [if_pos long] at step ⊢
    exact follow_of_error step left
  · rw [if_neg long] at step ⊢
    cases held : tree.node? (name :: directory) with
    | none =>
      rw [held] at step
      exact follow_of_arrived step left
    | some node =>
      rw [held] at step
      exact follow_of_arrived step left

theorem Leads.of_entry {path : Path} {place : Place} (entered : tree.entry true path = .ok (place, .directory)) :
    tree.Leads (tree.start path) path.names place := by
  have followed := follow_of_entry entered
  unfold Path.steps at followed
  split at followed
  · obtain ⟨middle, leads⟩ := exists_leads (proper_names path) (List.cons_ne_nil _ _) followed
    obtain ⟨left, same⟩ := leads.append
    have inside := leads.directory (proper_names path)
    have stays : tree.Advances true middle ["."] (.arrived (.found middle .directory)) :=
      .stay inside rfl (.here inside)
    rw [same true _ (List.cons_ne_nil _ _), follow_of_arrived stays.result] at followed
    cases followed
    exact leads
  · exact followed

theorem steps_child {path : Path} {name : RawString} (some_ : path.isEmpty = false)
    (named : Path.IsName name) : (path.child name).steps = path.names ++ [name] := by
  rw [Path.steps, if_neg (by simp [Path.endsInSeparator_child named.isMove]),
    Path.names_child some_ named.isMove]

theorem start_child (tree : FileTree) {path : Path} {name : RawString} (some_ : path.isEmpty = false)
    (named : Path.IsName name) : tree.start (path.child name) = tree.start path := by
  rw [FileTree.start, FileTree.start, Path.child,
    Path.isAbsolute_join (Path.isAbsolute_of_isMove named.isMove) some_]

theorem place?_child {path : Path} {place : Place} {name : RawString} (some_ : path.isEmpty = false)
    (named : Path.IsName name) (leads : tree.Leads (tree.start path) path.names place)
    (plain : ∀ target, tree.node? (name :: place) ≠ some (.link target)) {there : Place}
    (found : tree.place? (path.child name) = some there) : there = name :: place := by
  unfold place? at found
  cases reached : tree.resolve true (path.child name) with
  | error error => simp [reached] at found
  | ok target =>
    rw [reached] at found
    cases found
    have followed := follow_of_resolveSteps reached
    rw [steps_child some_ named, start_child tree some_ named,
      leads.inside (proper_names path) named plain] at followed
    split at followed
    · cases followed
    · cases held : tree.node? (name :: place) with
      | none =>
        rw [held] at followed
        cases followed
        rfl
      | some node =>
        rw [held] at followed
        cases followed
        rfl

theorem entry_child_congr {first second : FileTree} {path : Path} {place : Place} {name : RawString}
    (some_ : path.isEmpty = false) (named : Path.IsName name)
    (firstLeads : first.Leads (first.start path) path.names place)
    (secondLeads : second.Leads (second.start path) path.names place)
    (plain : ∀ target, first.node? (name :: place) ≠ some (.link target))
    (same : first.node? (name :: place) = second.node? (name :: place)) :
    first.entry true (path.child name) = second.entry true (path.child name) := by
  have proper := proper_names path
  have follow : first.follow true linkLimit (first.start path) (path.names ++ [name]) =
      second.follow true linkLimit (second.start path) (path.names ++ [name]) := by
    rw [firstLeads.inside proper named plain,
      secondLeads.inside proper named (fun target => same ▸ plain target), same]
  unfold entry resolve resolveSteps
  rw [steps_child some_ named, start_child first some_ named, start_child second some_ named, follow]

theorem read_eq_ok_iff {path : Path} {content : Bytes} : tree.read path = .ok content ↔
    ∃ place stamp executable, tree.entry true path = .ok (place, .file content stamp executable) := by
  unfold read
  cases tree.entry true path with
  | error error => simp
  | ok reached =>
    obtain ⟨place, node⟩ := reached
    cases node with
    | file other stamp executable => simp [eq_comm]
    | directory => simp
    | link target => simp

theorem write_over {path : Path} {place : Place} {old content : Bytes} {stamp : Nat} {executable : Bool}
    {after : FileTree} (entered : tree.entry true path = .ok (place, .file old stamp executable))
    (written : tree.write path content = .ok after) : after = tree.putFile place content executable := by
  unfold write at written
  split at written
  · split at written <;> cases written
  · rw [resolve_of_entry entered] at written
    dsimp only at written
    split at written
    · cases written
    · cases written
      rfl

theorem opens_iff {path : Path} : tree.opens path = true ↔
    ∃ place, tree.entry true path = .ok (place, .directory) ∧ place ∉ tree.closed := by
  unfold opens list
  cases tree.entry true path with
  | error error => simp [Except.toBool]
  | ok reached =>
    obtain ⟨place, node⟩ := reached
    cases node with
    | directory => by_cases member : place ∈ tree.closed <;> simp [member, Except.toBool]
    | file content stamp executable => simp [Except.toBool]
    | link target => simp [Except.toBool]

section Children
variable {path : Path} {place : Place} {name : RawString} {reached : Place × Node}

theorem follow_child (entered : tree.entry true path = .ok (place, .directory)) (named : Path.IsName name)
    (found : tree.entry true (path.child name) = .ok reached) :
    tree.follow true linkLimit place [name] = .ok (.found reached.1 reached.2) := by
  have some_ := isEmpty_of_entry entered
  obtain ⟨left, fewer, same⟩ := (Leads.of_entry entered).append_le
  have followed := follow_of_entry found
  rw [steps_child some_ named, start_child tree some_ named, same true _ (List.cons_ne_nil _ _)] at followed
  exact ((follow_eq_ok_iff.mp followed).mono fewer).result

theorem entry_child_iff {node : Node} (entered : tree.entry true path = .ok (place, .directory))
    (named : Path.IsName name) (held : tree.node? (name :: place) = some node)
    (solid : ∀ target, node ≠ .link target) :
    tree.entry true (path.child name) = .ok reached ↔
      Fits (path.child name) ∧ Short [name] ∧ reached = (name :: place, node) := by
  have some_ := isEmpty_of_entry entered
  have followed := (Leads.of_entry entered).inside (proper_names path) named
    fun target link => solid target (Option.some.inj (held.symm.trans link))
  rw [held] at followed
  constructor
  · intro found
    have fits := fits_of_resolveSteps (resolve_of_entry found)
    have there := follow_of_entry found
    rw [steps_child some_ named, start_child tree some_ named, followed] at there
    split at there
    · cases there
    next short =>
      cases reached
      cases there
      exact ⟨fits, by simpa [Short] using Nat.le_of_not_lt short, rfl⟩
  · rintro ⟨fits, short, rfl⟩
    have short : ¬nameLimit < name.bytes.length := Nat.not_lt.mpr (by simpa [Short] using short)
    rw [if_neg short] at followed
    simp only [entry, resolve, resolveSteps, fits.1, Path.isEmpty_child named, Nat.not_le.mpr fits.2,
      steps_child some_ named, start_child tree some_ named, followed, Bool.false_eq_true, ↓reduceIte]

end Children

end TrpcRouters.FileTree

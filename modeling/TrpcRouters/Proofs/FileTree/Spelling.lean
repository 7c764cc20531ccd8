import TrpcRouters.Proofs.Discovery
import TrpcRouters.Proofs.FileTree.Scratch

/-! Paths that are spelled in different ways. A step that stays in place may be left out on the way to an
entry, and a path leads to the directory that its absolute form leads to. -/

namespace TrpcRouters

namespace Path

/-- The components of a path that are steps to other places. -/
def moves (path : Path) : List Component :=
  path.segments.filterMap componentOf

theorem isMoving_of_mem_moves {path : Path} : ∀ step ∈ path.moves, IsMoving step :=
  fun _ => isMoving_of_mem

theorem names_filter (path : Path) :
    path.names.filter (· ≠ RawString.ofText ".") = path.moves.map Component.raw := by
  unfold names moves
  induction path.segments with
  | nil => rfl
  | cons segment rest ih =>
    by_cases empty : segment = []
    · simpa [empty, componentOf] using ih
    by_cases stays : segment = [dot]
    · have current : (⟨[dot]⟩ : RawString) = .ofText "." := rfl
      simpa [stays, current, componentOf] using ih
    have other : (⟨segment⟩ : RawString) ≠ .ofText "." := fun same =>
      stays (congrArg RawString.bytes same)
    by_cases up : segment = [dot, dot]
    · have climbs : (⟨[dot, dot]⟩ : RawString) = .ofText ".." := rfl
      simpa [up, climbs, componentOf, Component.raw] using ih
    · simpa [empty, stays, up, other, componentOf, Component.raw] using ih

theorem moves_eq_filter (path : Path) :
    path.moves = path.components.filter fun step => step ≠ .root ∧ step ≠ .current := by
  have kept : path.moves.filter (fun step => step ≠ .root ∧ step ≠ .current) = path.moves := by
    refine List.filter_eq_self.mpr fun step member => ?_
    rcases isMoving_of_mem_moves step member with rfl | ⟨_, rfl, _⟩ <;> simp
  have lead_ : path.lead.filter (fun step => step ≠ .root ∧ step ≠ .current) = [] := by
    unfold lead
    split
    · rfl
    · split <;> rfl
  rw [components, List.filter_append, lead_, List.nil_append]
  exact kept.symm

theorem components_eq_moves {path : Path} (absolute : path.isAbsolute = true) :
    path.components = .root :: path.moves := by
  rw [components, lead, if_pos absolute]
  rfl

/-- The absolute form takes the steps to the working directory, unless the path is absolute, and then
those of the path. -/
theorem moves_absolute? {path home whole : Path} (tidy : home.Tidy)
    (found : path.absolute? home = some whole) :
    whole.moves = (if path.isAbsolute then [] else home.moves) ++ path.moves := by
  have absolute := (tidy_absolute? tidy found).1
  have steps := components_of_absolute? found
  split
  next rooted =>
    rw [components_eq_moves absolute, if_pos rooted] at steps
    exact (List.cons.inj steps).2
  next relative =>
    rw [components_eq_moves absolute, if_neg relative, components_eq_moves tidy.1] at steps
    exact (List.cons.inj steps).2

section Further
variable {base path : Path} {names : List RawString}

theorem moves_of_components (spelled : path.components = base.components ++ names.map .name) :
    path.moves = base.moves ++ names.map .name := by
  have kept : (names.map Component.name).filter (fun step => step ≠ .root ∧ step ≠ .current) =
      names.map .name := List.filter_eq_self.mpr (by simp)
  rw [moves_eq_filter, moves_eq_filter, spelled, List.filter_append, kept]

theorem moves_congr (same : path.components = base.components) : path.moves = base.moves := by
  rw [moves_eq_filter, moves_eq_filter, same]

end Further

theorem moves_withoutTrailing {path : Path} (strippable : path.Strippable) :
    path.withoutTrailing.moves = path.moves :=
  moves_congr (components_withoutTrailing strippable)

end Path

namespace FileTree

/-- The second steps are the first without some of those that stay in place. -/
inductive Thins : List RawString → List RawString → Prop
  | nil : Thins [] []
  | skip {steps kept : List RawString} (later : Thins steps kept) : Thins ("." :: steps) kept
  | keep (step : RawString) {steps kept : List RawString} (later : Thins steps kept) :
      Thins (step :: steps) (step :: kept)

namespace Thins

theorem append_left (front : List RawString) {steps kept : List RawString} (thins : Thins steps kept) :
    Thins (front ++ steps) (front ++ kept) := by
  induction front with
  | nil => exact thins
  | cons step rest ih => exact .keep step ih

theorem filter (steps : List RawString) : Thins steps (steps.filter (· ≠ RawString.ofText ".")) := by
  induction steps with
  | nil => exact .nil
  | cons step rest ih =>
    by_cases stays : step = "."
    · rw [List.filter_cons_of_neg (by simp [stays]), stays]
      exact .skip ih
    · rw [List.filter_cons_of_pos (by simp [stays])]
      exact .keep step ih

end Thins

inductive Advance.Thins : Advance → Advance → Prop
  | arrived (target : Target) : Advance.Thins (.arrived target) (.arrived target)
  | detour (place : Place) {steps kept : List RawString} (thins : FileTree.Thins steps kept) :
      Advance.Thins (.detour place steps) (.detour place kept)

variable {tree : FileTree}

theorem advance_thins {place : Place} {steps kept : List RawString} (thins : Thins steps kept)
    {reached : Advance} (result : tree.Advances true place steps reached) :
    ∃ reached', tree.Advances true place kept reached' ∧ reached.Thins reached' := by
  induction thins generalizing place with
  | nil =>
    cases result with
    | here held => exact ⟨_, .here held, .arrived _⟩
  | skip later ih =>
    cases result with
    | stay _ _ later' => exact ih later'
    | climb _ climbs => simp at climbs
    | enter _ plain | miss _ plain | halt _ plain | turn _ plain => exact absurd rfl plain.1
  | keep step later ih =>
    cases result with
    | stay inside stays later' =>
      obtain ⟨reached', way, thins⟩ := ih later'
      exact ⟨reached', .stay inside stays way, thins⟩
    | climb inside climbs later' =>
      obtain ⟨reached', way, thins⟩ := ih later'
      exact ⟨reached', .climb inside climbs way, thins⟩
    | enter inside plain fits held solid later' =>
      obtain ⟨reached', way, thins⟩ := ih later'
      exact ⟨reached', .enter inside plain fits held solid way, thins⟩
    | miss inside plain fits free =>
      cases later
      exact ⟨_, .miss inside plain fits free, .arrived _⟩
    | halt _ _ _ _ halts => cases halts
    | turn inside plain fits held _ some_ =>
      exact ⟨_, .turn inside plain fits held (by simp) some_, .detour _ (later.append_left _)⟩

theorem follow_thins {links : Nat} {place : Place} {steps kept : List RawString} (thins : Thins steps kept)
    {target : Target} (result : tree.follow true links place steps = .ok target) :
    tree.follow true links place kept = .ok target := by
  rw [follow_eq_ok_iff] at result ⊢
  induction result generalizing kept with
  | arrive reached =>
    obtain ⟨way, reached', shorter⟩ := advance_thins thins reached
    cases shorter
    exact .arrive reached'
  | detour reached _ ih =>
    obtain ⟨way, reached', shorter⟩ := advance_thins thins reached
    cases shorter with
    | detour _ thins => exact .detour reached' (ih thins)

theorem thins_names (path : Path) : Thins path.names (path.moves.map Component.raw) := by
  rw [← Path.names_filter]
  exact .filter _

theorem thins_steps (path : Path) : Thins path.steps (path.moves.map Component.raw) := by
  have steps : path.steps.filter (· ≠ RawString.ofText ".") = path.names.filter (· ≠ RawString.ofText ".") := by
    unfold Path.steps
    split
    · simp
    · rfl
  rw [← Path.names_filter, ← steps]
  exact .filter _

theorem follow_moves {path : Path} {place : Place} {node : Node}
    (entered : tree.entry true path = .ok (place, node)) :
    tree.follow true linkLimit (tree.start path) (path.moves.map Component.raw) =
      .ok (.found place node) :=
  follow_thins (thins_steps path) (follow_of_entry entered)

theorem moves_pathOf {place : Place} (named : ∀ name ∈ place, Path.IsName name) :
    (pathOf place).moves = place.reverse.map .name := by
  obtain ⟨tidy, _, spelled⟩ := pathOf_spec named
  rw [Path.components_eq_moves tidy.1] at spelled
  exact (List.cons.inj spelled).2

theorem follow_nil (tree : FileTree) (followLast : Bool) (links : Nat) (place : Place) :
    tree.follow followLast links place [] =
      match tree.node? place with
      | some node => .ok (.found place node)
      | none => .error .notFound := by
  cases held : tree.node? place with
  | none => exact follow_of_error (by rw [advance, held]) links
  | some node => exact follow_of_arrived (by rw [advance, held]) links

theorem follow_reverse (sound : tree.Sound) {place : Place}
    (held : tree.node? place = some .directory) {links : Nat} {target : Target}
    (result : tree.follow true links [] place.reverse = .ok target) : target.place = place := by
  have plain : Plain place.reverse := by
    intro step member
    obtain ⟨_, notDot, notUp, _⟩ := sound.names held step (List.mem_reverse.mp member)
    exact ⟨notDot, notUp⟩
  have clear : tree.Clear [] place.reverse := by
    intro front target short
    obtain ⟨back, whole⟩ : front.reverse <:+ place := by
      rwa [← List.reverse_prefix, List.reverse_reverse]
    have directory : tree.node? front.reverse = some .directory := by
      by_cases last : back = []
      · rw [last, List.nil_append] at whole
        rwa [whole]
      · exact sound.above (whole ▸ held) last
    simp [directory]
  rw [(place_of_follow plain clear result).2, List.reverse_reverse, List.append_nil]

theorem start_congr (tree : FileTree) {path other : Path} (same : other.isAbsolute = path.isAbsolute) :
    tree.start other = tree.start path := by
  rw [start, start, same]

theorem components_absolute_congr {path other whole whole' : Path} (found : tree.absolute path = .ok whole)
    (found' : tree.absolute other = .ok whole') (same : other.components = path.components) :
    whole'.components = whole.components := by
  rw [Path.components_of_absolute? (absolute?_of_absolute found),
    Path.components_of_absolute? (absolute?_of_absolute found'), Path.isAbsolute_congr same]
  exact congrArg _ (Path.moves_congr same)

/-- Two spellings of one path lead to one place, if they lead anywhere. -/
theorem place_of_components {path other : Path} {place place' : Place} {node node' : Node}
    (entered : tree.entry true path = .ok (place, node))
    (entered' : tree.entry true other = .ok (place', node'))
    (same : other.components = path.components) : place' = place := by
  have first := follow_moves entered
  have second := follow_moves entered'
  rw [start_congr tree (Path.isAbsolute_congr same), Path.moves_congr same, first] at second
  cases second
  rfl

theorem moves_absolute (sound : tree.Sound) {path whole : Path} (found : tree.absolute path = .ok whole) :
    whole.moves = (tree.start path).reverse.map .name ++ path.moves := by
  rw [Path.moves_absolute? (pathOf_spec sound.home).1 (absolute?_of_absolute found), start]
  split
  · rfl
  · rw [moves_pathOf sound.home]

theorem exists_absolute (tree : FileTree) {path : Path} (some_ : path.isEmpty = false) :
    ∃ whole, tree.absolute path = .ok whole := by
  unfold absolute Path.absolute?
  rw [some_]
  exact ⟨_, rfl⟩

theorem place_of_moves (sound : tree.Sound) {root whole : Path} (tidy : whole.Tidy)
    (moves : whole.moves = (tree.start root).reverse.map .name ++ root.moves) {place place' : Place}
    {node : Node} (entered : tree.entry true root = .ok (place, .directory))
    (entered' : tree.entry true whole = .ok (place', node)) : place' = place := by
  have first := follow_moves entered
  have second := follow_moves entered'
  have names : ((tree.start root).reverse.map Component.name).map Component.raw =
      (tree.start root).reverse := by
    rw [List.map_map]
    exact List.map_id _
  rw [start_of_tidy tree tidy, moves, List.map_append, names] at second
  by_cases stays : root.moves.map Component.raw = []
  · rw [stays, follow_nil] at first
    rw [stays, List.append_nil] at second
    split at first
    next held =>
      cases first
      exact follow_reverse sound held second
    next => cases first
  · have held := directory_of_follow stays first
    obtain ⟨left, _, same⟩ := follow_append tree linkLimit [] (tree.start root).reverse
    rw [same true _ stays] at second
    split at second
    next => cases second
    next => cases second
    next middle node reached =>
      obtain rfl : middle = tree.start root := follow_reverse sound held reached
      cases follow_unique first second
      rfl

theorem place_absolute (sound : tree.Sound) {root whole : Path} (strippable : root.Strippable)
    (spelled : tree.absolute root.withoutTrailing = .ok whole) {place place' : Place} {node : Node}
    (entered : tree.entry true root = .ok (place, .directory))
    (entered' : tree.entry true whole = .ok (place', node)) : place' = place := by
  have moves := moves_absolute sound spelled
  rw [start_congr tree (Path.isAbsolute_withoutTrailing strippable), Path.moves_withoutTrailing strippable] at moves
  exact place_of_moves sound (sound.tidy_absolute spelled) moves entered entered'

section Along
variable {root : Path} {names : List RawString}

theorem moves_along (named : ∀ name ∈ names, Path.IsName name) :
    (along root names).moves = root.moves ++ names.map .name :=
  Path.moves_of_components (components_along root named)

theorem isAbsolute_along (named : ∀ name ∈ names, Path.IsName name) :
    (along root names).isAbsolute = root.isAbsolute :=
  Path.isAbsolute_of_components (components_along root named)

theorem isEmpty_along (some_ : root.isEmpty = false) (named : ∀ name ∈ names, Path.IsName name) :
    (along root names).isEmpty = false := by
  cases names with
  | nil => exact some_
  | cons name rest =>
    rw [← Bool.not_eq_true]
    intro empty
    have components := Path.components_of_isEmpty empty
    rw [components_along root named] at components
    simp at components

theorem absolute_along (sound : tree.Sound) {whole : Path} (some_ : root.isEmpty = false)
    (strippable : root.Strippable)
    (spelled : tree.absolute root.withoutTrailing = .ok whole)
    (named : ∀ name ∈ names, Path.IsName name) :
    ∃ further, tree.absolute (along root names) = .ok further ∧
      further.components = (along whole names).components := by
  obtain ⟨further, found⟩ := tree.exists_absolute (isEmpty_along some_ named)
  refine ⟨further, found, ?_⟩
  rw [components_along whole named, Path.components_eq_moves (sound.tidy_absolute found).1,
    Path.components_eq_moves (sound.tidy_absolute spelled).1, moves_absolute sound found,
    moves_absolute sound spelled, start_congr tree (isAbsolute_along named),
    start_congr tree (Path.isAbsolute_withoutTrailing strippable), moves_along named,
    Path.moves_withoutTrailing strippable]
  simp

end Along

end FileTree

end TrpcRouters

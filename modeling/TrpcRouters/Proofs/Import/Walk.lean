import TrpcRouters.Proofs.OutputTree

/-! Walking a relative specifier from a directory. The specifier that names a target climbs to where the
two paths part and goes down from there, so walking it ends at the target. On the way down it knows the names
as they are shown, which is a different name where the bytes of one encode no text. -/

namespace TrpcRouters

namespace Specifier

/-- One segment of a specifier: `..` goes up, `.` and nothing stay, any other text goes down. -/
def step (here : List Component) (segment : String) : List Component :=
  if segment = ".." then here.dropLast
  else if segment = "." ∨ segment = "" then here
  else here ++ [.name segment]

def walk (here : List Component) (specifier : String) : List Component :=
  (Text.pieces '/' specifier).foldl step here

theorem step_name (here : List Component) {name : String} (named : Path.IsName (.ofText name)) :
    step here name = here ++ [.name name] := by
  obtain ⟨notEmpty, notCurrent, notUp, _⟩ := Path.isName_ofText.mp named
  have stays : ¬(name = "." ∨ name = "") := by
    rintro (dot | empty)
    · exact notCurrent dot
    · exact notEmpty empty
  rw [step, if_neg notUp, if_neg stays]

theorem foldl_step_up (here : List Component) (above : List Component) :
    (above.map fun _ => "..").foldl step here = here.take (here.length - above.length) := by
  induction above generalizing here with
  | nil => simp
  | cons component rest ih =>
    rw [List.map_cons, List.foldl_cons, ih]
    have up : step here ".." = here.dropLast := if_pos rfl
    rw [up, List.dropLast_eq_take, List.length_take, List.take_take, List.length_cons]
    congr 1
    omega

theorem foldl_step_down (here : List Component) {below : List Component}
    (plain : ∀ component ∈ below, ∃ name, component = .name name ∧ Path.IsName name) :
    (below.map Component.text).foldl step here = here ++ below.map Component.shown := by
  induction below generalizing here with
  | nil => simp
  | cons component rest ih =>
    obtain ⟨name, rfl, named⟩ := plain component (List.mem_cons_self ..)
    rw [List.map_cons, List.foldl_cons, ih _ (fun other member =>
      plain other (List.mem_cons_of_mem _ member))]
    have down : step here (Component.name name).text = here ++ [(Component.name name).shown] :=
      step_name here named.text
    rw [down, List.append_assoc, List.map_cons, List.singleton_append]

theorem take_shared (from_ target : List Component) :
    from_.take (shared from_ target) = target.take (shared from_ target) := by
  fun_induction shared from_ target with
  | case1 a left right ih => simp [ih]
  | case2 => simp
  | case3 => simp

theorem shared_le (from_ target : List Component) : shared from_ target ≤ from_.length := by
  fun_induction shared from_ target with
  | case1 a left right ih => simpa using ih
  | case2 => simp
  | case3 => simp

theorem pieces_dot (specifier : String) :
    Text.pieces '/' ("./" ++ specifier) = "." :: Text.pieces '/' specifier := by
  simp [Text.pieces, Text.cut]

theorem walk_dot (here : List Component) (specifier : String) :
    walk here ("./" ++ specifier) = walk here specifier := by
  rw [walk, pieces_dot, List.foldl_cons, step, if_neg (by decide), if_pos (Or.inl rfl)]
  rfl

theorem walk_joined (here : List Component) {parts : List String}
    (whole : ∀ part ∈ parts, '/' ∉ part.toList) :
    walk here (Text.joined '/' parts) = parts.foldl step here := by
  by_cases none_ : parts = []
  · subst none_
    rfl
  · rw [walk, Text.pieces_joined none_ whole]

/-- The specifier from a directory to a target leads to where the two part and then to what is shown for the
rest of the target, if this goes down by names. -/
theorem walk_between (from_ target : Path)
    (plain : ∀ component ∈ target.components.drop (shared from_.components target.components),
      ∃ name, component = .name name) :
    walk from_.components (between from_ target) =
      target.components.take (shared from_.components target.components) ++
        (target.components.drop (shared from_.components target.components)).map Component.shown := by
  have down : ∀ component ∈ target.components.drop (shared from_.components target.components),
      ∃ name, component = .name name ∧ Path.IsName name := by
    intro component member
    obtain ⟨name, rfl⟩ := plain component member
    exact ⟨name, rfl, Path.isName_of_mem_components (List.mem_of_mem_drop member)⟩
  have whole : ∀ part ∈ steps from_.components target.components, '/' ∉ part.toList := by
    intro part member
    rw [steps, List.mem_append] at member
    rcases member with climb | descend
    · obtain ⟨_, _, rfl⟩ := List.mem_map.mp climb
      decide
    · obtain ⟨component, inside, rfl⟩ := List.mem_map.mp descend
      obtain ⟨name, rfl, named⟩ := down component inside
      exact (Path.isName_ofText.mp named.text).2.2.2
  have lead : walk from_.components (between from_ target) =
      walk from_.components (Text.joined '/' (steps from_.components target.components)) := by
    simp only [between]
    split
    · rfl
    · exact walk_dot _ _
  have bound := shared_le from_.components target.components
  have climbed : from_.components.length -
      (from_.components.length - shared from_.components target.components) =
      shared from_.components target.components := by omega
  calc
    _ = (steps from_.components target.components).foldl step from_.components := by
      rw [lead, walk_joined _ whole]
    _ = from_.components.take (shared from_.components target.components) ++
        (target.components.drop (shared from_.components target.components)).map Component.shown := by
      rw [steps, List.foldl_append, foldl_step_up, List.length_drop, climbed, foldl_step_down _ down]
    _ = _ := by rw [take_shared]

/-- The specifier leads to its target just if the names behind where the two part are texts. -/
theorem walk_between_eq_iff (from_ target : Path)
    (plain : ∀ component ∈ target.components.drop (shared from_.components target.components),
      ∃ name, component = .name name) :
    walk from_.components (between from_ target) = target.components ↔
      ∀ component ∈ target.components.drop (shared from_.components target.components), component.IsText := by
  have whole := List.take_append_drop (shared from_.components target.components) target.components
  rw [walk_between from_ target plain]
  constructor
  · intro same component member
    have same := List.append_cancel_left (same.trans whole.symm)
    exact Component.shown_eq_self_iff.mp
      (List.map_eq_map_iff.mp (same.trans (List.map_id _).symm) component member)
  · intro texts
    have same := (List.map_congr_left fun component member =>
      Component.shown_eq_self_iff.mpr (texts component member)).trans (List.map_id' _)
    rw [same, whole]

end Specifier

end TrpcRouters

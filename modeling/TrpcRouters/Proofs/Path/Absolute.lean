import TrpcRouters.Discovery
import TrpcRouters.Proofs.Path.Names

/-! The absolute form of a path. It spells the steps of the path behind the place where they start, so
it never stays in place, and an absolute path keeps its components. -/

namespace TrpcRouters.Path

/-- A component that stands for a step to another place. -/
def IsMoving (component : Component) : Prop :=
  component = .up ∨ ∃ name, component = .name name ∧ IsName name

theorem isMoving_of_mem {path : Path} {component : Component}
    (member : component ∈ path.segments.filterMap componentOf) : IsMoving component := by
  obtain ⟨segment, inside, found⟩ := List.mem_filterMap.mp member
  cases component with
  | up => exact Or.inl rfl
  | name text =>
    exact Or.inr ⟨text, rfl, (isName_of_componentOf (Text.notMem_of_mem_cut inside) found).1⟩
  | root | current =>
    unfold componentOf at found
    split at found
    · cases found
    · split at found <;> cases found

theorem IsMoving.isMove {component : Component} (moving : IsMoving component) :
    IsMove component.raw := by
  rcases moving with rfl | ⟨name, rfl, named⟩
  · exact isMove_up
  · exact named.isMove

theorem components_child_raw (path : Path) {component : Component} (moving : IsMoving component) :
    (path.child component.raw).components = path.components ++ [component] := by
  rcases moving with rfl | ⟨name, rfl, named⟩
  · rw [child, components_join (by decide)]
    rfl
  · exact components_child named

theorem components_foldl_child {steps : List Component} (moving : ∀ step ∈ steps, IsMoving step)
    (path : Path) :
    (steps.foldl (fun whole step => whole.child step.raw) path).components =
      path.components ++ steps := by
  induction steps generalizing path with
  | nil => simp
  | cons step rest ih =>
    rw [List.foldl_cons, ih (fun other member => moving other (List.mem_cons_of_mem _ member)),
      components_child_raw path (moving step (List.mem_cons_self ..)), List.append_assoc]
    rfl

theorem Tidy.foldl_child {steps : List Component} (moving : ∀ step ∈ steps, IsMoving step)
    {path : Path} (tidy : path.Tidy) :
    (steps.foldl (fun whole step => whole.child step.raw) path).Tidy := by
  induction steps generalizing path with
  | nil => exact tidy
  | cons step rest ih =>
    exact ih (fun other member => moving other (List.mem_cons_of_mem _ member))
      (tidy.child (moving step (List.mem_cons_self ..)).isMove)

/-- A separator at the end leaves an absolute path tidy. -/
theorem Tidy.child_empty {path : Path} (tidy : path.Tidy) : (path.child ⟨[]⟩).Tidy := by
  have some_ := isEmpty_of_isAbsolute tidy.1
  refine ⟨by rw [Path.child, isAbsolute_join rfl some_, tidy.1], ?_⟩
  rw [Path.child, names_join rfl some_]
  simpa [names, segments, Text.cut] using tidy.2

theorem components_child_empty (path : Path) : (path.child ⟨[]⟩).components = path.components := by
  rw [child, components_join (by decide)]
  simp [components, lead, isAbsolute, segments, Text.cut, componentOf]

theorem tidy_anchor (path : Path) {home : Path} (tidy : home.Tidy) : (path.anchor home).Tidy := by
  have one : (Path.mk "/").Tidy := by
    constructor <;> decide
  have two : (Path.mk "//").Tidy := by
    constructor <;> decide
  unfold anchor
  split
  · exact two
  · split
    · exact one
    · exact two
  · exact one
  · exact tidy

theorem tidy_absolute? {path home whole : Path} (tidy : home.Tidy)
    (found : path.absolute? home = some whole) : whole.Tidy := by
  unfold absolute? at found
  split at found
  · cases found
  · have moving : ∀ step ∈ path.segments.filterMap componentOf, IsMoving step := fun _ member =>
      isMoving_of_mem member
    have steps := (tidy_anchor path tidy).foldl_child moving
    cases found
    split
    · exact steps.child_empty
    · exact steps

/-- A path that goes on from another by names starts where that one does. -/
theorem isAbsolute_of_components {base path : Path} {names : List RawString}
    (spelled : path.components = base.components ++ names.map .name) :
    path.isAbsolute = base.isAbsolute := by
  rw [Bool.eq_iff_iff, isAbsolute_iff_root_mem, isAbsolute_iff_root_mem, spelled]
  simp

theorem isAbsolute_congr {base path : Path} (same : path.components = base.components) :
    path.isAbsolute = base.isAbsolute := by
  rw [Bool.eq_iff_iff, isAbsolute_iff_root_mem, isAbsolute_iff_root_mem, same]

/-- The absolute form goes on from the place where the path starts by the steps of the path. -/
theorem components_of_absolute? {path home whole : Path} (found : path.absolute? home = some whole) :
    whole.components = (if path.isAbsolute then [.root] else home.components) ++
      path.segments.filterMap componentOf := by
  have anchor_ : (path.anchor home).components =
      if path.isAbsolute then [.root] else home.components := by
    have starts {rest : Bytes} (letters : path.raw.bytes = slash :: rest) : path.isAbsolute = true := by
      simp [isAbsolute, letters]
    unfold anchor
    split
    next letters =>
      rw [if_pos (starts letters)]
      decide
    next letters =>
      rw [if_pos (starts letters)]
      split <;> decide
    next letters =>
      rw [if_pos (starts letters)]
      decide
    next _ _ other =>
      have relative : path.isAbsolute ≠ true := by
        intro absolute
        obtain ⟨rest, letters⟩ := List.head?_eq_some_iff.mp (beq_iff_eq.mp absolute)
        exact other rest letters
      rw [if_neg relative]
  have moving : ∀ step ∈ path.segments.filterMap componentOf, IsMoving step :=
    fun _ => isMoving_of_mem
  have steps := components_foldl_child moving (path.anchor home)
  unfold absolute? at found
  split at found
  · cases found
  · cases found
    rw [← anchor_, ← steps]
    split
    · exact components_child_empty _
    · rfl

theorem components_absolute? {path home whole : Path} (absolute : path.isAbsolute = true)
    (found : path.absolute? home = some whole) : whole.components = path.components := by
  rw [components_of_absolute? found, if_pos absolute, components, lead, if_pos absolute]

theorem components_append_slash {raw : RawString} (some_ : raw.bytes ≠ []) :
    (Path.mk (raw ++ ⟨[slash]⟩)).components = (Path.mk raw).components := by
  obtain ⟨first, rest, shape⟩ := List.exists_cons_of_ne_nil some_
  have cuts : (Path.mk (raw ++ ⟨[slash]⟩)).segments = Text.cut slash raw.bytes ++ [[]] := by
    rw [segments, RawString.bytes_append]
    exact Text.cut_append _ _
  rw [components_eq_view, components_eq_view (Path.mk raw), cuts,
    view_append (Text.cut_ne_nil _ _) (by simp), isAbsolute, isAbsolute, RawString.bytes_append, segments,
    shape]
  simp [view, componentOf]

theorem withoutTrailing_of_open {path : Path} (open_ : path.endsInSeparator = false) :
    path.withoutTrailing = path := by
  unfold withoutTrailing
  split
  next c before backwards =>
    have last : (Text.decodeFrom none path.raw.bytes).getLast? = some '/' := by
      rw [text, RawString.text, Text.decodeLossy, String.toList_ofList] at backwards
      rw [List.getLast?_eq_head?_reverse, backwards, List.head?_cons]
    rw [endsInSeparator, Text.getLast?_decodeFrom (by decide) (by simp) last] at open_
    cases open_
  · rfl

/-- A separator at the end can be taken away from the text that is shown. -/
def Strippable (path : Path) : Prop :=
  path.endsInSeparator = false ∨ path.raw.IsText

instance (path : Path) : Decidable path.Strippable :=
  inferInstanceAs (Decidable (_ ∨ _))

theorem components_withoutTrailing {path : Path} (strippable : path.Strippable) :
    path.withoutTrailing.components = path.components := by
  rcases strippable with open_ | whole
  · rw [withoutTrailing_of_open open_]
  · unfold withoutTrailing
    split
    next c before backwards =>
      have letters : path.text = String.ofList (c :: before).reverse ++ "/" := by
        rw [← String.toList_inj, String.toList_append, String.toList_ofList, ← List.reverse_reverse
          path.text.toList, backwards, List.reverse_cons]
        rfl
      have raw : path.raw = RawString.ofText (String.ofList (c :: before).reverse) ++ ⟨[slash]⟩ := by
        rw [← whole]
        exact (congrArg RawString.ofText letters).trans (RawString.ofText_append _ _)
      have some_ : (RawString.ofText (String.ofList (c :: before).reverse)).bytes ≠ [] := by
        rw [ne_eq, RawString.ofText_bytes_eq_nil, ← String.toList_inj, String.toList_ofList]
        simp
      exact (components_append_slash some_).symm.trans (congrArg (fun raw => (mk raw).components) raw.symm)
    · rfl

theorem isAbsolute_withoutTrailing {path : Path} (strippable : path.Strippable) :
    path.withoutTrailing.isAbsolute = path.isAbsolute :=
  isAbsolute_congr (components_withoutTrailing strippable)

end TrpcRouters.Path

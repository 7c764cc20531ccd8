import Mathlib.Data.List.Infix
import TrpcRouters.Proofs.Import.Walk
import TrpcRouters.Proofs.Path.Names

/-! Specifiers between absolute paths without `.` and `..`. A specifier climbs from the directory to where
the two paths part and goes down by the names of the target, so it leads there. It is looked for from the
module that has it, unless the target is below the directory and the first name on the way begins with two
dots: such a text passes for a climb, and no `./` goes in front. -/

namespace TrpcRouters

namespace Path

/-- An absolute path that goes down from the root by names. -/
def IsPlain (path : Path) : Prop :=
  path.isAbsolute = true ∧ .current ∉ path.components ∧ .up ∉ path.components

instance (path : Path) : Decidable (IsPlain path) :=
  inferInstanceAs (Decidable (_ ∧ _ ∧ _))

theorem IsPlain.components {path : Path} (plain : IsPlain path) :
    ∃ below, path.components = .root :: below ∧
      ∀ component ∈ below, ∃ name, component = .name name ∧ IsName name := by
  obtain ⟨absolute, still, climb⟩ := plain
  have whole : path.components = .root :: view path.segments := by
    rw [components_eq_view, if_pos absolute]
    rfl
  refine ⟨_, whole, fun component member => ?_⟩
  have inside : component ∈ path.components := whole ▸ List.mem_cons_of_mem _ member
  cases component with
  | root => exact absurd member (root_notMem_view _)
  | current => exact absurd inside still
  | up => exact absurd inside climb
  | name text => exact ⟨text, rfl, isName_of_mem_components inside⟩

end Path

namespace Specifier

/-- A specifier that is looked for from the module that has it, and not among the packages. -/
def IsRelative (specifier : String) : Prop :=
  specifier = ".." ∨ ['.', '/'] <+: specifier.toList ∨ ['.', '.', '/'] <+: specifier.toList

instance (specifier : String) : Decidable (IsRelative specifier) :=
  inferInstanceAs (Decidable (_ ∨ _ ∨ _))

/-- The segments of a specifier that lead to another place. -/
def moves (specifier : String) : List String :=
  (Text.pieces '/' specifier).filter fun segment => segment ≠ "." ∧ segment ≠ ""

theorem moves_dot (specifier : String) : moves ("./" ++ specifier) = moves specifier := by
  rw [moves, pieces_dot, List.filter_cons_of_neg (by simp)]
  rfl

theorem moves_joined {parts : List String} (moving : ∀ part ∈ parts, Path.IsMove (.ofText part)) :
    moves (Text.joined '/' parts) = parts := by
  by_cases none_ : parts = []
  · subst none_
    rfl
  · rw [moves, Text.pieces_joined none_ fun part member => (Path.isMove_ofText.mp (moving part member)).2.2]
    refine List.filter_eq_self.mpr fun part member => ?_
    obtain ⟨some_, other, _⟩ := Path.isMove_ofText.mp (moving part member)
    simp [some_, other]

theorem shared_self (front below : List Component) : shared front (front ++ below) = front.length := by
  induction front with
  | nil => cases below <;> rfl
  | cons component rest ih => simp [shared, ih]

/-- Two paths have a front in common, behind which one climbs and the other goes down by names. -/
theorem exists_parting {from_ target : Path} (plain : from_.IsPlain) (plain' : target.IsPlain) :
    ∃ front above below, from_.components = front ++ above ∧ target.components = front ++ below ∧
      front.length = shared from_.components target.components ∧
      steps from_.components target.components =
        (above.map fun _ => "..") ++ below.map Component.text ∧
      ∀ component ∈ below, ∃ name, component = .name name ∧ Path.IsName name := by
  have bound := shared_le from_.components target.components
  refine ⟨from_.components.take (shared from_.components target.components),
    from_.components.drop (shared from_.components target.components),
    target.components.drop (shared from_.components target.components), ?_, ?_, ?_, rfl, ?_⟩
  · rw [List.take_append_drop]
  · rw [take_shared, List.take_append_drop]
  · rw [List.length_take, Nat.min_eq_left bound]
  · obtain ⟨_, source, _⟩ := plain.components
    obtain ⟨below, goal, named⟩ := plain'.components
    intro component member
    rw [source, goal, shared, if_pos rfl, List.drop_succ_cons] at member
    exact named component (List.mem_of_mem_drop member)

section Parted
variable {above below : List Component} {name : String}

theorem isMove_of_mem_parts
    (named : ∀ component ∈ below, ∃ name, component = .name name ∧ Path.IsName name) :
    ∀ part ∈ (above.map fun _ => "..") ++ below.map Component.text, Path.IsMove (.ofText part) := by
  intro part member
  rcases List.mem_append.mp member with climb | descent
  · obtain ⟨_, _, rfl⟩ := List.mem_map.mp climb
    exact Path.isMove_up
  · obtain ⟨component, inside, rfl⟩ := List.mem_map.mp descent
    obtain ⟨name, rfl, isName⟩ := named component inside
    exact isName.text.isMove

theorem toList_joined_cons (part : String) (rest : List String) :
    ∃ more, (Text.joined '/' (part :: rest)).toList = part.toList ++ more ∧
      (more = [] ∨ more.head? = some '/') := by
  cases rest with
  | nil => exact ⟨[], by simp [Text.joined, Text.glue], .inl rfl⟩
  | cons next others => exact ⟨_, by simp [Text.joined, Text.glue]; rfl, .inr rfl⟩

/-- A text that begins with a name passes for a climb if the name begins with two dots. -/
theorem climbs_iff (named : Path.IsName (.ofText name)) (more : List Char) :
    ['.', '.'] <+: name.toList ++ more ↔ ['.', '.'] <+: name.toList := by
  replace named := Path.isName_ofText.mp named
  match letters : name.toList with
  | [] => exact absurd (String.toList_eq_nil_iff.mp letters) named.1
  | [c] =>
    have other : '.' ≠ c := by
      rintro rfl
      exact named.2.1 (String.toList_inj.mp letters)
    simp [List.cons_prefix_cons, other]
  | c :: d :: rest => simp [List.cons_prefix_cons]

theorem not_isRelative_of_dots (named : Path.IsName (.ofText name)) (dots : ['.', '.'] <+: name.toList)
    {specifier : String} {more : List Char} (spelled : specifier.toList = name.toList ++ more) :
    ¬IsRelative specifier := by
  obtain ⟨rest, letters⟩ := dots
  replace named := Path.isName_ofText.mp named
  cases rest with
  | nil => exact absurd (String.toList_inj.mp letters.symm) named.2.2.1
  | cons c rest =>
    have other : '/' ≠ c := by
      rintro rfl
      exact named.2.2.2 (by simp [← letters])
    have whole : specifier.toList = '.' :: '.' :: c :: (rest ++ more) := by
      simp [spelled, ← letters]
    rintro (climb | here | above)
    · rw [climb] at whole
      cases whole
    · rw [whole] at here
      simp [List.cons_prefix_cons] at here
    · rw [whole] at above
      simp [List.cons_prefix_cons, other] at above

end Parted

theorem isRelative_dot (specifier : String) : IsRelative ("./" ++ specifier) :=
  .inr (.inl ⟨specifier.toList, by simp⟩)

section Between
variable {from_ target : Path}

theorem between_cases (from_ target : Path) :
    (['.', '.'] <+: (Text.joined '/' (steps from_.components target.components)).toList ∧
      between from_ target = Text.joined '/' (steps from_.components target.components)) ∨
    (¬['.', '.'] <+: (Text.joined '/' (steps from_.components target.components)).toList ∧
      between from_ target = "./" ++ Text.joined '/' (steps from_.components target.components)) := by
  simp only [between, List.isPrefixOf_iff_prefix]
  split
  next climbs => exact .inl ⟨climbs, rfl⟩
  next stays => exact .inr ⟨stays, rfl⟩

theorem moves_between (moving : ∀ part ∈ steps from_.components target.components, Path.IsMove (.ofText part)) :
    moves (between from_ target) = steps from_.components target.components := by
  rcases between_cases from_ target with ⟨_, same⟩ | ⟨_, longer⟩
  · rw [same]
    exact moves_joined moving
  · rw [longer, moves_dot]
    exact moves_joined moving

theorem isRelative_of_climb {rest : List String}
    (climbs : steps from_.components target.components = ".." :: rest) :
    IsRelative (between from_ target) := by
  obtain ⟨more, spelled, ends⟩ := toList_joined_cons ".." rest
  rcases between_cases from_ target with ⟨_, same⟩ | ⟨_, longer⟩
  · rw [same, climbs]
    rcases ends with rfl | slash
    · rw [List.append_nil] at spelled
      exact .inl (String.toList_inj.mp spelled)
    · obtain ⟨others, rfl⟩ := List.head?_eq_some_iff.mp slash
      exact .inr (.inr ⟨others, by simp [spelled]⟩)
  · rw [longer]
    exact isRelative_dot _

/-- A target below the directory is looked for from there exactly if the first name on the way does not
begin with two dots. -/
theorem isRelative_of_name {name : String} {rest : List String} (named : Path.IsName (.ofText name))
    (descends : steps from_.components target.components = name :: rest) :
    IsRelative (between from_ target) ↔ ¬['.', '.'] <+: name.toList := by
  obtain ⟨more, spelled, _⟩ := toList_joined_cons name rest
  rcases between_cases from_ target with ⟨dots, same⟩ | ⟨plain, longer⟩
  · rw [descends, spelled, climbs_iff named] at dots
    have longer : (between from_ target).toList = name.toList ++ more := by
      rw [same, descends, spelled]
    exact iff_of_false (not_isRelative_of_dots named dots longer) (not_not.mpr dots)
  · rw [descends, spelled, climbs_iff named] at plain
    rw [longer]
    exact iff_of_true (isRelative_dot _) plain

/-- The target is below the directory, and the first name on the way to it begins with two dots. -/
def Dotted (from_ target : Path) : Prop :=
  ∃ name below, target.components = from_.components ++ .name name :: below ∧
    ['.', '.'] <+: name.text.toList

theorem isRelative_between_iff (plain : from_.IsPlain) (plain' : target.IsPlain) :
    IsRelative (between from_ target) ↔ ¬Dotted from_ target := by
  obtain ⟨front, above, below, source, goal, size, parts, named⟩ := exists_parting plain plain'
  match above, below with
  | _ :: _, _ =>
    have away : ¬Dotted from_ target := by
      rintro ⟨name, others, inside, _⟩
      have length := congrArg List.length source
      rw [List.length_append, size, inside, shared_self, List.length_cons] at length
      omega
    exact iff_of_true (isRelative_of_climb parts) away
  | [], [] =>
    have here : between from_ target = "./" := by
      rw [between, parts]
      rfl
    have away : ¬Dotted from_ target := by
      rintro ⟨name, others, inside, _⟩
      simp [goal, source] at inside
    rw [here]
    exact iff_of_true (by decide) away
  | [], first :: others =>
    obtain ⟨name, rfl, isName⟩ := named first (List.mem_cons_self ..)
    rw [List.append_nil] at source
    rw [isRelative_of_name isName.text parts, not_iff_not]
    constructor
    · intro dots
      exact ⟨name, others, by rw [goal, source], dots⟩
    · rintro ⟨name', others', inside, dots⟩
      rw [goal, source] at inside
      obtain ⟨same, _⟩ := List.cons.inj (List.append_cancel_left inside)
      rwa [Component.name.inj same]

end Between

/-- Between absolute paths that take names only, a specifier leads from the directory to the target, if the
names of the target are texts. Cut at the separators, it takes as many climbs as the directory has components
behind the front that it shares with the target, and then what is shown for the names of the target behind
it, so that it leads to the target just if these are texts. It is relative unless the target is below the
directory by a first name that begins with two dots. -/
theorem between_inverts {from_ target : Path} (plain : from_.IsPlain) (plain' : target.IsPlain) :
    ((∀ component ∈ target.components, component.IsText) →
      walk from_.components (between from_ target) = target.components) ∧
      (∃ front above below, from_.components = front ++ above ∧ target.components = front ++ below ∧
        moves (between from_ target) = (above.map fun _ => "..") ++ below.map Component.text ∧
        walk from_.components (between from_ target) = front ++ below.map Component.shown ∧
        (walk from_.components (between from_ target) = target.components ↔
          ∀ component ∈ below, component.IsText)) ∧
      (IsRelative (between from_ target) ↔ ¬Dotted from_ target) := by
  obtain ⟨front, above, below, source, goal, size, parts, named⟩ := exists_parting plain plain'
  have descent : target.components.drop (shared from_.components target.components) = below := by
    rw [← size, goal, List.drop_left]
  have down : ∀ component ∈ target.components.drop (shared from_.components target.components),
      ∃ name, component = .name name := by
    intro component member
    obtain ⟨name, rfl, _⟩ := named component (descent ▸ member)
    exact ⟨name, rfl⟩
  have arrives := walk_between_eq_iff from_ target down
  rw [descent] at arrives
  refine ⟨?leads, ⟨front, above, below, source, goal, ?moves, ?shown, arrives⟩,
    isRelative_between_iff plain plain'⟩
  case leads =>
    intro texts
    exact arrives.mpr fun component member => texts component (goal ▸ List.mem_append_right _ member)
  case moves =>
    have moving : ∀ part ∈ (above.map fun _ => "..") ++ below.map Component.text,
        Path.IsMove (.ofText part) := isMove_of_mem_parts named
    rw [← parts] at moving ⊢
    exact moves_between moving
  case shown => rw [walk_between from_ target down, descent, ← size, goal, List.take_left]

theorem beside_inverted :
    (Path.mk "/out//trpc/routers/").IsPlain ∧ (Path.mk "/out/trpc/..x").IsPlain ∧
      between ⟨"/out//trpc/routers/"⟩ ⟨"/out/trpc/..x"⟩ = "../..x" ∧
      IsRelative (between ⟨"/out//trpc/routers/"⟩ ⟨"/out/trpc/..x"⟩) ∧
      walk (Path.mk "/out//trpc/routers/").components
        (between ⟨"/out//trpc/routers/"⟩ ⟨"/out/trpc/..x"⟩) = (Path.mk "/out/trpc/..x").components := by
  have plain : (Path.mk "/out//trpc/routers/").IsPlain := by decide
  have plain' : (Path.mk "/out/trpc/..x").IsPlain := by decide
  obtain ⟨leads, _, relative⟩ := between_inverts plain plain'
  refine ⟨plain, plain', by decide, relative.mpr ?_, leads (by decide)⟩
  rintro ⟨name, below, inside, _⟩
  have source : (Path.mk "/out//trpc/routers/").components =
      [.root, .name "out", .name "trpc", .name "routers"] := by decide
  have goal : (Path.mk "/out/trpc/..x").components = [.root, .name "out", .name "trpc", .name "..x"] := by
    decide
  simp [source, goal] at inside

/-- Below the directory, a name of two dots and more is taken for a climb. -/
theorem dotted_name_leads_to_package :
    (Path.mk "/a").IsPlain ∧ (Path.mk "/a/..b").IsPlain ∧
      between ⟨"/a"⟩ ⟨"/a/..b"⟩ = "..b" ∧ ¬IsRelative (between ⟨"/a"⟩ ⟨"/a/..b"⟩) := by
  decide

end Specifier

end TrpcRouters

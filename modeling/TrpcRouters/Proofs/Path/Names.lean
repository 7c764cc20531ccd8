import Mathlib.Data.List.Basic
import Mathlib.Data.List.Induction
import TrpcRouters.FileTree.Resolve
import TrpcRouters.Proofs.Path.Components

/-! The steps that a file system takes along a path. Below an absolute path without `.` they are the
names and climbs that the path spells: a child takes one step more, a parent one less. -/

namespace TrpcRouters.Path

/-- An absolute path that never stays where it is. -/
def Tidy (path : Path) : Prop :=
  path.isAbsolute = true ∧ RawString.ofText "." ∉ path.names

/-- A string that stands for one step to another place. -/
def IsMove (text : RawString) : Prop :=
  text ≠ "" ∧ text ≠ "." ∧ slash ∉ text.bytes

instance (text : RawString) : Decidable (IsMove text) :=
  inferInstanceAs (Decidable (_ ∧ _))

theorem isMove_ofText {text : String} :
    IsMove (.ofText text) ↔ text ≠ "" ∧ text ≠ "." ∧ '/' ∉ text.toList := by
  simp only [IsMove, ne_eq, RawString.ofText_inj, slash_mem_ofText_iff]

theorem IsName.isMove {text : RawString} (named : IsName text) : IsMove text :=
  ⟨named.1, named.2.1, named.2.2.2⟩

theorem isMove_up : IsMove ".." := by
  decide

theorem isEmpty_of_isAbsolute {path : Path} (absolute : path.isAbsolute = true) :
    path.isEmpty = false := by
  unfold isAbsolute at absolute
  unfold isEmpty
  cases letters : path.raw.bytes with
  | nil => simp [letters] at absolute
  | cons c rest => rfl

theorem isAbsolute_of_isMove {text : RawString} (move : IsMove text) :
    (Path.mk text).isAbsolute = false := by
  cases letters : text.bytes with
  | nil => simp [isAbsolute, letters]
  | cons c rest =>
    have other : c ≠ slash := fun same => move.2.2 (by simp [letters, same])
    simpa [isAbsolute, letters] using other

theorem names_of_isMove {text : RawString} (move : IsMove text) : (Path.mk text).names = [text] := by
  have whole : (Path.mk text).segments = [text.bytes] := Text.cut_of_notMem move.2.2
  have some_ : text.bytes ≠ [] := fun empty => move.1 (RawString.ext empty)
  rw [names, whole, List.filter_cons_of_pos (by simpa using some_), List.filter_nil,
    List.map_singleton]

theorem names_join {path tail : Path} (relative : tail.isAbsolute = false)
    (some_ : path.isEmpty = false) : (path.join tail).names = path.names ++ tail.names := by
  obtain ⟨kept, _, whole, _, same⟩ := segments_join relative some_
  rw [names, names, names, whole, List.filter_append, List.map_append, same]

theorem names_child {path : Path} (some_ : path.isEmpty = false) {name : RawString} (move : IsMove name) :
    (path.child name).names = path.names ++ [name] := by
  rw [child, names_join (isAbsolute_of_isMove move) some_, names_of_isMove move]

theorem Tidy.child {path : Path} (tidy : path.Tidy) {name : RawString} (move : IsMove name) :
    (path.child name).Tidy := by
  have some_ := isEmpty_of_isAbsolute tidy.1
  refine ⟨?_, ?_⟩
  · rw [Path.child, isAbsolute_join (isAbsolute_of_isMove move) some_, tidy.1]
  · rw [names_child some_ move, List.mem_append, not_or]
    exact ⟨tidy.2, by simpa using Ne.symm move.2.1⟩

theorem endsInSeparator_child {path : Path} {name : RawString} (move : IsMove name) :
    (path.child name).endsInSeparator = false := by
  obtain empty | ⟨front, c, shape⟩ := List.eq_nil_or_concat name.bytes
  · exact absurd (RawString.ext empty) move.1
  have other : c ≠ slash := fun same => move.2.2 (by simp [shape, same])
  have relative := isAbsolute_of_isMove move
  simp only [Path.child, join, relative, Bool.false_eq_true, ↓reduceIte]
  split
  · simpa [endsInSeparator, shape] using other
  · have letters : (path.raw ++ ⟨[slash]⟩ ++ name).bytes = path.raw.bytes ++ slash :: front ++ [c] := by
      simp [shape]
    rw [endsInSeparator, letters, List.getLast?_concat]
    simpa using other

theorem isEmpty_child {path : Path} {name : RawString} (named : IsName name) :
    (path.child name).isEmpty = false := by
  have letters : name.bytes ≠ [] := fun empty => named.1 (RawString.ext empty)
  have relative := isAbsolute_of_isMove named.isMove
  simp only [child, join, relative, Bool.false_eq_true, ↓reduceIte]
  split <;> simp [isEmpty, letters]

/-- The names of an absolute path without `.` are its components behind the root. -/
theorem Tidy.components {path : Path} (tidy : path.Tidy) :
    path.components = .root :: path.segments.filterMap componentOf ∧
      path.names = (path.segments.filterMap componentOf).map Component.raw := by
  refine ⟨by rw [Path.components, lead, if_pos tidy.1]; rfl, ?_⟩
  have plain : ∀ segment ∈ path.segments, segment ≠ [dot] := by
    rintro segment member rfl
    exact tidy.2 (List.mem_map.mpr ⟨[dot], List.mem_filter.mpr ⟨member, by simp⟩, rfl⟩)
  unfold names
  generalize path.segments = segments at plain
  induction segments with
  | nil => rfl
  | cons segment rest ih =>
    have later := ih (fun other member => plain other (List.mem_cons_of_mem _ member))
    have other := plain segment (List.mem_cons_self ..)
    by_cases empty : segment = []
    · simpa [empty, componentOf] using later
    · by_cases dots : segment = [dot, dot]
      · have up : RawString.ofText ".." = ⟨[dot, dot]⟩ := rfl
        simpa [dots, componentOf, Component.raw, up] using later
      · simpa [empty, other, dots, componentOf, Component.raw] using later

theorem mem_names_of_parent? {path above : Path} (found : path.parent? = some above) {name : RawString}
    (member : name ∈ above.names) : name ∈ path.names := by
  unfold parent? at found
  split at found
  · simp at found
  next last before shape =>
    split at found
    next =>
      cases found
      split at member
      · simp [names, segments, Text.cut] at member
      · simp [names, segments, Text.cut, Path.empty] at member
    next some_ =>
      cases found
      have whole : ∀ piece ∈ (settle before).reverse, slash ∉ piece := by
        intro piece inside
        have outside := settle_mem (List.mem_reverse.mp inside)
        have front := settle_mem (shape ▸ List.mem_cons_of_mem last outside)
        exact Text.notMem_of_mem_cut (List.mem_reverse.mp front)
      have pieces : (Path.mk (⟨Text.glue slash (settle before).reverse⟩)).segments =
          (settle before).reverse := by
        rw [segments]
        exact Text.cut_glue (by simpa using some_) whole
      obtain ⟨segment, inside, rfl⟩ := List.mem_map.mp member
      rw [pieces, List.mem_filter, List.mem_reverse] at inside
      refine List.mem_map.mpr ⟨segment, List.mem_filter.mpr ⟨?_, inside.2⟩, rfl⟩
      have outside := settle_mem inside.1
      have front := settle_mem (shape ▸ List.mem_cons_of_mem last outside)
      exact List.mem_reverse.mp front

theorem Tidy.parent {path above : Path} (tidy : path.Tidy) (found : path.parent? = some above) :
    above.Tidy ∧ path.names ≠ [] ∧ above.names = path.names.dropLast := by
  obtain ⟨shape, spelled⟩ := tidy.components
  have short := components_of_parent? found
  have some_ : path.segments.filterMap componentOf ≠ [] := by
    intro none_
    have absent : path.parent? = none := parent?_eq_none_iff.mpr (Or.inr (by rw [shape, none_]))
    rw [found] at absent
    cases absent
  rw [shape, List.dropLast_cons_of_ne_nil some_] at short
  have absolute : above.isAbsolute = true := by
    by_cases absolute : above.isAbsolute = true
    · exact absolute
    · rw [components_eq_view, if_neg absolute, List.nil_append] at short
      exact absurd (by simp [short]) (root_notMem_view above.segments)
  have inner : above.Tidy := ⟨absolute, fun dot => tidy.2 (mem_names_of_parent? found dot)⟩
  obtain ⟨aboveShape, aboveSpelled⟩ := inner.components
  rw [aboveShape] at short
  refine ⟨inner, by simpa [spelled] using some_, ?_⟩
  rw [aboveSpelled, spelled, (List.cons.inj short).2, List.map_dropLast]

/-- An absolute path without `.` has no parent only if it takes no step. -/
theorem Tidy.names_of_parent?_none {path : Path} (tidy : path.Tidy) (absent : path.parent? = none) :
    path.names = [] := by
  obtain ⟨shape, spelled⟩ := tidy.components
  rcases parent?_eq_none_iff.mp absent with empty | root
  · rw [shape] at empty
    cases empty
  · rw [shape] at root
    rw [spelled, (List.cons.inj root).2, List.map_nil]

def joined (names : List RawString) : Path :=
  ⟨⟨Text.glue slash (names.map RawString.bytes)⟩⟩

theorem ofText_joined (names : List String) :
    ofText (Text.joined '/' names) = joined (names.map RawString.ofText) := by
  have single : RawString.ofText (String.singleton '/') = ⟨[slash]⟩ := by decide
  have bytes : (RawString.ofText (Text.joined '/' names)).bytes =
      Text.glue slash ((names.map RawString.ofText).map RawString.bytes) := by
    induction names using List.reverseRecOn with
    | nil => rfl
    | append_singleton front last ih =>
      by_cases some_ : front = []
      · rw [some_, List.nil_append, Text.joined_single]
        rfl
      · rw [Text.joined_concat '/' some_, RawString.ofText_append, RawString.ofText_append,
          RawString.bytes_append, RawString.bytes_append, ih, single, List.map_append, List.map_append,
          Text.glue_append (by simpa using some_) (by simp)]
        simp [Text.glue]
  exact congrArg mk (RawString.ext bytes)

theorem joined_nil : joined [] = empty := rfl

section Joined
variable {front : List RawString} {last : RawString}

theorem segments_joined {names : List RawString} (some_ : names ≠ [])
    (named : ∀ name ∈ names, IsName name) :
    (Path.joined names).segments = names.map RawString.bytes := by
  refine Text.cut_glue (by simpa using some_) ?_
  intro piece member
  obtain ⟨name, inside, rfl⟩ := List.mem_map.mp member
  exact (named name inside).2.2.2

theorem isAbsolute_joined {names : List RawString} (named : ∀ name ∈ names, IsName name) :
    (Path.joined names).isAbsolute = false := by
  by_cases some_ : names = []
  · rw [some_, joined_nil]
    rfl
  · obtain ⟨first, rest, shape⟩ := List.exists_cons_of_ne_nil some_
    have apart : first.bytes ≠ [] := fun empty =>
      (named first (by simp [shape])).1 (RawString.ext empty)
    rw [← Bool.not_eq_true, isAbsolute_iff_segments, segments_joined some_ named, shape]
    simp [apart]

theorem names_joined {names : List RawString} (named : ∀ name ∈ names, IsName name) :
    (Path.joined names).names = names := by
  by_cases some_ : names = []
  · rw [some_, joined_nil]
    simp [Path.names, segments, Path.empty, Text.cut]
  · rw [Path.names, segments_joined some_ named, List.filter_eq_self.mpr, List.map_map]
    · simp [Function.comp_def]
    · intro piece member
      obtain ⟨name, inside, rfl⟩ := List.mem_map.mp member
      have apart : name.bytes ≠ [] := fun empty => (named name inside).1 (RawString.ext empty)
      simpa using apart

theorem components_joined {names : List RawString} (named : ∀ name ∈ names, IsName name) :
    (Path.joined names).lead = [] ∧
      (Path.joined names).components = names.map .name := by
  by_cases some_ : names = []
  · rw [some_, joined_nil]
    decide
  · have cuts := segments_joined some_ named
    have bare : (Path.joined names).lead = [] := by
      obtain ⟨first, rest, shape⟩ := List.exists_cons_of_ne_nil some_
      have other : first.bytes ≠ [dot] := fun dot =>
        (named first (by simp [shape])).2.1 (RawString.ext dot)
      rw [lead, isAbsolute_joined named, cuts, shape]
      simp [other]
    refine ⟨bare, ?_⟩
    rw [components, bare, cuts, List.nil_append, List.filterMap_map, ← List.filterMap_eq_map]
    exact List.filterMap_congr fun name member => componentOf_toList (named name member)

theorem settle_of_isName (named : IsName last) (before : List Bytes) :
    settle (last.bytes :: before) = last.bytes :: before := by
  have some_ : last.bytes ≠ [] := fun empty => named.1 (RawString.ext empty)
  have moves : last.bytes ≠ [dot] := fun dot => named.2.1 (RawString.ext dot)
  cases before with
  | nil => rw [settle, if_neg some_]
  | cons next rest => rw [settle, if_neg (by simp [some_, moves])]; simp

theorem parent?_joined (named : ∀ name ∈ front ++ [last], IsName name) :
    (Path.joined (front ++ [last])).parent? = some (joined front) := by
  have lastNamed := named last (by simp)
  rw [parent?, segments_joined (by simp) named]
  simp only [List.map_append, List.map_cons, List.map_nil, List.reverse_append, List.reverse_cons,
    List.reverse_nil, List.nil_append, List.singleton_append, settle_of_isName lastNamed]
  obtain nothing | ⟨before, next, shape⟩ := List.eq_nil_or_concat front
  · rw [nothing, isAbsolute_joined (by simpa [nothing] using lastNamed)]
    simp [settle, joined_nil, Path.empty]
  · rw [List.concat_eq_append] at shape
    have nextNamed := named next (by simp [shape])
    have kept : settle (front.map RawString.bytes).reverse = (front.map RawString.bytes).reverse := by
      rw [shape]
      simp [settle_of_isName nextNamed]
    rw [kept]
    have some_ : (front.map RawString.bytes).reverse ≠ [] := by simp [shape]
    split
    next empty => exact absurd empty some_
    next => rw [List.reverse_reverse]; rfl

end Joined

/-- A path that goes on from a root by names. -/
structure Below (root path : Path) (rest : List RawString) : Prop where
  tidy : path.Tidy
  ends : path.endsInSeparator = false
  names : path.names = root.names ++ rest
  named : ∀ name ∈ rest, IsName name
  some_ : rest ≠ []

namespace Below
variable {root path : Path} {rest : List RawString} {name : RawString}

theorem start (tidy : root.Tidy) (named : IsName name) : root.Below (root.child name) [name] where
  tidy := tidy.child named.isMove
  ends := endsInSeparator_child named.isMove
  names := names_child (isEmpty_of_isAbsolute tidy.1) named.isMove
  named := by simpa using named
  some_ := by simp

theorem child (below : root.Below path rest) (named : IsName name) :
    root.Below (path.child name) (rest ++ [name]) where
  tidy := below.tidy.child named.isMove
  ends := endsInSeparator_child named.isMove
  names := by
    rw [names_child (isEmpty_of_isAbsolute below.tidy.1) named.isMove, below.names,
      List.append_assoc]
  named := by
    intro other member
    rcases List.mem_append.mp member with ahead | last
    · exact below.named other ahead
    · rwa [List.mem_singleton.mp last]
  some_ := by simp

theorem parent (below : root.Below path rest) :
    ∃ above, path.parent? = some above ∧ above.Tidy ∧ above.names = root.names ++ rest.dropLast := by
  cases found : path.parent? with
  | none =>
    have nothing := below.tidy.names_of_parent?_none found
    rw [below.names, List.append_eq_nil_iff] at nothing
    exact absurd nothing.2 below.some_
  | some above =>
    obtain ⟨tidy, _, short⟩ := below.tidy.parent found
    refine ⟨above, rfl, tidy, ?_⟩
    rw [short, below.names, List.dropLast_append_of_ne_nil below.some_]

end Below

end TrpcRouters.Path

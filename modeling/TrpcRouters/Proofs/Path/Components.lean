import TrpcRouters.OutputTree
import TrpcRouters.Proofs.Text.Pieces
import TrpcRouters.Proofs.Text.Raw

/-! The components of paths that are joined, cut at their last component, or generated for a definition
file. Paths are compared by their components, so every statement here is one about components. -/

namespace TrpcRouters

namespace RawString

@[simp] theorem bytes_empty : (ofText "").bytes = [] := rfl

@[simp] theorem bytes_slash : (ofText "/").bytes = [Path.slash] := rfl

@[simp] theorem bytes_dot : (ofText ".").bytes = [Path.dot] := rfl

@[simp] theorem bytes_dots : (ofText "..").bytes = [Path.dot, Path.dot] := rfl

theorem append_assoc (first second third : RawString) :
    first ++ second ++ third = first ++ (second ++ third) :=
  ext (List.append_assoc ..)

end RawString

namespace Path

def IsName (text : RawString) : Prop :=
  text ≠ "" ∧ text ≠ "." ∧ text ≠ ".." ∧ slash ∉ text.bytes

instance (text : RawString) : Decidable (IsName text) :=
  inferInstanceAs (Decidable (_ ∧ _))

theorem slash_mem_ofText_iff {text : String} : slash ∈ (RawString.ofText text).bytes ↔ '/' ∈ text.toList :=
  RawString.mem_ofText_iff (c := '/') (by decide)

theorem isName_ofText {text : String} :
    IsName (.ofText text) ↔ text ≠ "" ∧ text ≠ "." ∧ text ≠ ".." ∧ '/' ∉ text.toList := by
  simp only [IsName, ne_eq, RawString.ofText_inj, slash_mem_ofText_iff]

/-- What is shown for a name spells a name, if not always the same one. -/
theorem IsName.text {name : RawString} (named : IsName name) : IsName (.ofText name.text) := by
  refine isName_ofText.mpr ⟨fun empty => named.1 (RawString.ext (RawString.bytes_eq_nil_of_text empty)), ?_, ?_,
    fun member => named.2.2.2 (RawString.mem_bytes_of_mem_text (by decide) member)⟩
  · intro single
    have whole : name.IsText := RawString.isText_of_all_small (s := '.') (by decide) (by simp [single])
    exact named.2.1 (whole.symm.trans (congrArg RawString.ofText single))
  · intro double
    have whole : name.IsText := RawString.isText_of_all_small (s := '.') (by decide) (by simp [double])
    exact named.2.2.1 (whole.symm.trans (congrArg RawString.ofText double))

/-- The components that segments stand for, apart from the separator in front. -/
def view (segments : List Bytes) : List Component :=
  (if segments.head? = some [dot] then [.current] else []) ++ segments.filterMap componentOf

theorem isName_ofText_of_mem {text : String} {c : Char} (member : c ∈ text.toList) (other : c ≠ '.')
    (whole : '/' ∉ text.toList) : IsName (.ofText text) := by
  refine isName_ofText.mpr ⟨?_, ?_, ?_, whole⟩
  · rintro rfl
    cases member
  · rintro rfl
    exact other (by simpa using member)
  · rintro rfl
    exact other (by simpa using member)

theorem isName_of_mem {text : RawString} {c : UInt8} (member : c ∈ text.bytes) (other : c ≠ dot)
    (whole : slash ∉ text.bytes) : IsName text := by
  refine ⟨?_, ?_, ?_, whole⟩
  · rintro rfl
    simp at member
  · rintro rfl
    exact other (by simpa using member)
  · rintro rfl
    exact other (by simpa using member)

theorem componentOf_toList {text : RawString} (named : IsName text) :
    componentOf text.bytes = some (.name text) := by
  obtain ⟨notEmpty, notCurrent, notUp, _⟩ := named
  have first : ¬(text.bytes = [] ∨ text.bytes = [dot]) := by
    rintro (empty | dot)
    · exact notEmpty (RawString.ext empty)
    · exact notCurrent (RawString.ext dot)
  have second : text.bytes ≠ [dot, dot] := fun dots => notUp (RawString.ext dots)
  rw [componentOf, if_neg first, if_neg second, ]

theorem isName_of_componentOf {segment : Bytes} {text : RawString} (whole : slash ∉ segment)
    (found : componentOf segment = some (.name text)) : IsName text ∧ segment = text.bytes := by
  unfold componentOf at found
  split at found
  · simp at found
  next carries =>
    split at found
    · simp at found
    next notUp =>
      simp only [Option.some.injEq, Component.name.injEq] at found
      subst found
      rw [not_or] at carries
      refine ⟨⟨?_, ?_, ?_, ?_⟩, by simp⟩
      · intro empty
        exact carries.1 (by simpa using congrArg RawString.bytes empty)
      · intro dot
        exact carries.2 (by simpa using congrArg RawString.bytes dot)
      · intro dots
        exact notUp (by simpa using congrArg RawString.bytes dots)
      · simpa using whole

theorem segments_head_of_isAbsolute {path : Path} (absolute : path.isAbsolute = true) :
    path.segments.head? = some [] := by
  unfold isAbsolute at absolute
  unfold segments
  cases text : path.raw.bytes with
  | nil => simp [text] at absolute
  | cons c rest =>
    have here : c = slash := by simpa [text] using absolute
    simp [Text.cut, here]

theorem components_eq_view (path : Path) :
    path.components = (if path.isAbsolute then [.root] else []) ++ view path.segments := by
  unfold components lead view
  by_cases absolute : path.isAbsolute = true
  · rw [if_pos absolute, if_pos absolute, segments_head_of_isAbsolute absolute]
    simp
  · rw [if_neg absolute, if_neg absolute]
    rfl

theorem view_append {first second : List Bytes} (some_ : first ≠ [])
    (plain : second.head? ≠ some [dot]) : view (first ++ second) = view first ++ view second := by
  obtain ⟨segment, rest, rfl⟩ := List.exists_cons_of_ne_nil some_
  unfold view
  rw [if_neg plain, List.filterMap_append]
  simp

theorem plain_of_lead {tail : Path} (bare : tail.lead = []) :
    tail.isAbsolute = false ∧ tail.segments.head? ≠ some [dot] := by
  unfold lead at bare
  split at bare
  · simp at bare
  next relative =>
    split at bare
    · simp at bare
    next plain => exact ⟨by simpa using relative, plain⟩

/-- Joining keeps the segments of the first path up to a last one that is empty. -/
theorem segments_join {path tail : Path} (relative : tail.isAbsolute = false)
    (some_ : path.isEmpty = false) :
    ∃ kept, kept ≠ [] ∧ (path.join tail).segments = kept ++ tail.segments ∧
      view kept = view path.segments ∧
      kept.filter (· ≠ []) = path.segments.filter (· ≠ []) := by
  have joined : path.join tail = if path.endsInSeparator then ⟨path.raw ++ tail.raw⟩
      else ⟨path.raw ++ ⟨[slash]⟩ ++ tail.raw⟩ := by
    simp [join, relative, some_]
  by_cases ends : path.endsInSeparator = true
  · obtain ⟨front, split_⟩ := List.getLast?_eq_some_iff.mp (by
      simpa [endsInSeparator] using ends : path.raw.bytes.getLast? = some slash)
    have whole : path.segments = Text.cut slash front ++ [[]] := by
      simp only [segments, split_]
      exact Text.cut_append _ _
    refine ⟨Text.cut slash front, Text.cut_ne_nil _ _, ?_, ?_, ?_⟩
    · rw [joined, if_pos ends]
      simp only [segments, RawString.bytes_append, split_, List.append_assoc, List.singleton_append]
      exact Text.cut_append _ _
    · rw [whole, view_append (Text.cut_ne_nil _ _) (by simp)]
      simp [view, componentOf]
    · rw [whole, List.filter_append]
      simp
  · refine ⟨path.segments, Text.cut_ne_nil _ _, ?_, rfl, rfl⟩
    rw [joined, if_neg ends]
    simp only [segments, RawString.bytes_append, List.append_assoc]
    exact Text.cut_append _ _

theorem isAbsolute_join {path tail : Path} (relative : tail.isAbsolute = false)
    (some_ : path.isEmpty = false) : (path.join tail).isAbsolute = path.isAbsolute := by
  have letters : path.raw.bytes ≠ [] := by simpa [isEmpty] using some_
  obtain ⟨c, rest, text⟩ := List.exists_cons_of_ne_nil letters
  simp only [join, relative, some_, Bool.false_eq_true, ↓reduceIte, Bool.false_or]
  split <;> simp [isAbsolute, text]

theorem components_of_isEmpty {path : Path} (empty : path.isEmpty = true) : path.components = [] := by
  have text : path.raw.bytes = [] := by simpa [isEmpty] using empty
  simp [components, lead, isAbsolute, segments, text, Text.cut, componentOf]

theorem components_join {path tail : Path} (bare : tail.lead = []) :
    (path.join tail).components = path.components ++ tail.components := by
  obtain ⟨relative, plain⟩ := plain_of_lead bare
  by_cases empty : path.isEmpty = true
  · rw [components_of_isEmpty empty]
    have text : path.raw = ⟨[]⟩ := RawString.ext (by simpa [isEmpty] using empty)
    have nothing : (⟨[]⟩ : RawString) ++ tail.raw = tail.raw := rfl
    simp [join, relative, empty, text, nothing]
  · rw [Bool.not_eq_true] at empty
    obtain ⟨kept, some_, whole, same, _⟩ := segments_join relative empty
    rw [components_eq_view, components_eq_view path, components_eq_view tail,
      isAbsolute_join relative empty, whole, view_append some_ plain, same, relative]
    simp

theorem segments_of_isName {text : RawString} (named : IsName text) :
    (Path.mk text).segments = [text.bytes] :=
  Text.cut_of_notMem named.2.2.2

theorem isAbsolute_of_isName {text : RawString} (named : IsName text) :
    (Path.mk text).isAbsolute = false := by
  cases letters : text.bytes with
  | nil => simp [isAbsolute, letters]
  | cons c rest =>
    have other : c ≠ slash := fun same => named.2.2.2 (by simp [letters, same])
    simpa [isAbsolute, letters] using other

theorem lead_of_isName {text : RawString} (named : IsName text) : (Path.mk text).lead = [] := by
  have other : text.bytes ≠ [dot] := fun same => named.2.1 (RawString.ext same)
  simp [lead, isAbsolute_of_isName named, segments_of_isName named, other]

theorem components_of_isName {text : RawString} (named : IsName text) :
    (Path.mk text).components = [.name text] := by
  rw [components, lead_of_isName named, segments_of_isName named, List.filterMap_cons,
    componentOf_toList named]
  rfl

theorem components_child {path : Path} {name : RawString} (named : IsName name) :
    (path.child name).components = path.components ++ [.name name] := by
  rw [child, components_join (lead_of_isName named), components_of_isName named]

theorem child_append {path : Path} {name : RawString} (named : IsName name) (more : RawString) :
    Path.mk ((path.child name).raw ++ more) = path.child (name ++ more) := by
  have relative := isAbsolute_of_isName named
  have longer : (Path.mk (name ++ more)).isAbsolute = false := by
    have letters : name.bytes ≠ [] := fun empty => named.1 (RawString.ext empty)
    obtain ⟨c, rest, shape⟩ := List.exists_cons_of_ne_nil letters
    simpa [isAbsolute, shape] using relative
  simp only [child, join, relative, longer, Bool.false_eq_true, ↓reduceIte]
  split <;> simp [RawString.append_assoc]

theorem exists_segment_of_mem_components {path : Path} {name : RawString}
    (member : .name name ∈ path.components) : IsName name ∧ name.bytes ∈ path.segments := by
  rw [components, List.mem_append] at member
  rcases member with ahead | behind
  · unfold lead at ahead
    split at ahead
    · simp at ahead
    · split at ahead <;> simp at ahead
  · obtain ⟨segment, inside, found⟩ := List.mem_filterMap.mp behind
    obtain ⟨named, rfl⟩ := isName_of_componentOf (Text.notMem_of_mem_cut inside) found
    exact ⟨named, inside⟩

theorem isName_of_mem_components {path : Path} {text : RawString}
    (member : .name text ∈ path.components) : IsName text :=
  (exists_segment_of_mem_components member).1

theorem isText_of_mem_components {text : String} {name : RawString}
    (member : .name name ∈ (ofText text).components) : name.IsText := by
  obtain ⟨_, inside⟩ := exists_segment_of_mem_components member
  have cuts : (ofText text).segments = _ := RawString.cut_ofText (c := '/') (by decide) text
  rw [cuts] at inside
  obtain ⟨piece, _, same⟩ := List.mem_map.mp inside
  exact RawString.isText_iff.mpr ⟨piece, RawString.ext same.symm⟩

theorem view_concat {segments : List Bytes} (some_ : segments ≠ []) (last : Bytes) :
    view (segments ++ [last]) = view segments ++ (componentOf last).toList := by
  have head : (segments ++ [last]).head? = segments.head? := by
    obtain ⟨first, rest, rfl⟩ := List.exists_cons_of_ne_nil some_
    rfl
  rw [view, view, head, List.filterMap_append, List.append_assoc]
  cases found : componentOf last <;> simp [found]

/-- Settling drops nothing that carries a component, and leaves a segment that does in front. -/
theorem view_settle (backwards : List Bytes) :
    view (settle backwards).reverse = view backwards.reverse ∧
      ∀ last before, settle backwards = last :: before →
        ∃ component, view (settle backwards).reverse = view before.reverse ++ [component] := by
  fun_induction settle backwards with
  | case1 => simp [view]
  | case2 => simp [view, componentOf]
  | case3 first some_ =>
    refine ⟨rfl, fun last before shape => ?_⟩
    simp only [List.cons.injEq] at shape
    obtain ⟨rfl, rfl⟩ := shape
    by_cases single : first = [dot]
    · exact ⟨.current, by simp [view, single, componentOf]⟩
    · by_cases dots : first = [dot, dot]
      · exact ⟨.up, by simp [view, dots, componentOf]⟩
      · exact ⟨.name (⟨first⟩), by simp [view, some_, single, dots, componentOf]⟩
  | case4 segment before some_ idle ih =>
    refine ⟨ih.1.trans ?_, ih.2⟩
    rw [List.reverse_cons, view_concat (by simpa using some_)]
    simp [componentOf, idle]
  | case5 segment before some_ busy =>
    refine ⟨rfl, fun last rest shape => ?_⟩
    simp only [List.cons.injEq] at shape
    obtain ⟨rfl, rfl⟩ := shape
    rw [List.reverse_cons, view_concat (by simpa using some_)]
    rw [not_or] at busy
    by_cases dots : segment = [dot, dot]
    · exact ⟨.up, by simp [componentOf, dots]⟩
    · exact ⟨.name (⟨segment⟩), by simp [componentOf, busy, dots]⟩

theorem settle_mem {backwards : List Bytes} {segment : Bytes}
    (member : segment ∈ settle backwards) : segment ∈ backwards := by
  fun_induction settle backwards with
  | case1 => exact member
  | case2 => simp at member
  | case3 => exact member
  | case4 _ _ _ _ ih => exact List.mem_cons_of_mem _ (ih member)
  | case5 => exact member

theorem settle_getLast? {backwards : List Bytes} (kept : settle backwards ≠ []) :
    (settle backwards).getLast? = backwards.getLast? := by
  fun_induction settle backwards with
  | case1 => rfl
  | case2 => exact absurd rfl kept
  | case3 => rfl
  | case4 _ before some_ _ ih =>
    obtain ⟨next, rest, rfl⟩ := List.exists_cons_of_ne_nil some_
    rw [ih kept]
    simp
  | case5 => rfl

theorem isAbsolute_iff_segments {path : Path} :
    path.isAbsolute = true ↔ path.segments.head? = some [] ∧ path.segments ≠ [[]] := by
  unfold isAbsolute segments
  cases path.raw.bytes with
  | nil => simp [Text.cut]
  | cons c rest =>
    by_cases here : c = slash
    · simp [Text.cut, here, Text.cut_ne_nil]
    · have first : (Text.cut slash (c :: rest)).head? ≠ some [] := by
        rw [Text.cut, if_neg here]
        split <;> simp
      simp [here, first]

theorem root_notMem_view (segments : List Bytes) : .root ∉ view segments := by
  intro member
  rw [view, List.mem_append] at member
  rcases member with ahead | behind
  · split at ahead <;> simp at ahead
  · obtain ⟨segment, _, found⟩ := List.mem_filterMap.mp behind
    unfold componentOf at found
    split at found
    · simp at found
    · split at found <;> simp at found

theorem isAbsolute_iff_root_mem {path : Path} :
    path.isAbsolute = true ↔ .root ∈ path.components := by
  rw [components_eq_view, List.mem_append]
  constructor
  · intro absolute
    simp [absolute]
  · rintro (ahead | behind)
    · split at ahead
      next absolute => exact absolute
      next => simp at ahead
    · exact absurd behind (root_notMem_view path.segments)

theorem view_of_settle_nil {backwards : List Bytes} (none_ : settle backwards = []) :
    view backwards.reverse = [] := by
  rw [← (view_settle backwards).1, none_]
  rfl

theorem parent?_eq_none_iff {path : Path} :
    path.parent? = none ↔ path.components = [] ∨ path.components = [.root] := by
  rw [components_eq_view]
  unfold parent?
  constructor
  · intro absent
    split at absent
    next none_ =>
      have bare := view_of_settle_nil none_
      rw [List.reverse_reverse] at bare
      rw [bare]
      split <;> simp
    · split at absent <;> simp at absent
  · intro short
    have bare : view path.segments = [] := by
      by_cases absolute : path.isAbsolute = true
      · simpa [absolute] using short
      · rcases short with none_ | root
        · simpa [absolute] using none_
        · refine absurd ?_ (root_notMem_view path.segments)
          simp only [absolute, Bool.false_eq_true, ↓reduceIte, List.nil_append] at root
          simp [root]
    cases shape : settle path.segments.reverse with
    | nil => rfl
    | cons last before =>
      obtain ⟨component, ends⟩ := (view_settle path.segments.reverse).2 last before shape
      rw [(view_settle _).1, List.reverse_reverse, bare] at ends
      simp at ends

/-- What is left after two rounds of settling begins as the path does. -/
theorem head?_of_settled {path : Path} {last : Bytes} {before : List Bytes}
    (shape : settle path.segments.reverse = last :: before) (some_ : settle before ≠ []) :
    (settle before).reverse.head? = path.segments.head? := by
  have inner := settle_getLast? some_
  have kept : settle path.segments.reverse ≠ [] := by simp [shape]
  have outer := settle_getLast? kept
  have nonempty : before ≠ [] := by
    rintro rfl
    exact some_ rfl
  obtain ⟨next, rest, rfl⟩ := List.exists_cons_of_ne_nil nonempty
  rw [shape, List.getLast?_reverse, List.getLast?_cons_cons] at outer
  rw [List.head?_reverse, inner, outer]

/-- The parent has all components but the last. -/
theorem components_of_parent? {path above : Path} (found : path.parent? = some above) :
    above.components = path.components.dropLast := by
  unfold parent? at found
  split at found
  · simp at found
  next last before shape =>
    obtain ⟨component, ends⟩ := (view_settle path.segments.reverse).2 last before shape
    rw [(view_settle _).1, List.reverse_reverse] at ends
    rw [components_eq_view path, ends, ← List.append_assoc, List.dropLast_concat]
    split at found
    next none_ =>
      rw [view_of_settle_nil none_, List.append_nil]
      simp only [Option.some.injEq] at found
      subst found
      split
      · decide
      · decide
    next some_ =>
      simp only [Option.some.injEq] at found
      subst found
      have whole : ∀ piece ∈ (settle before).reverse, slash ∉ piece := by
        intro piece member
        have inside := settle_mem (List.mem_reverse.mp member)
        have outside := settle_mem (shape ▸ List.mem_cons_of_mem last inside)
        exact Text.notMem_of_mem_cut (List.mem_reverse.mp outside)
      have pieces : (Path.mk (⟨Text.glue slash (settle before).reverse⟩)).segments =
          (settle before).reverse := by
        rw [segments]
        exact Text.cut_glue (by simpa using some_) whole
      rw [components_eq_view, pieces, (view_settle before).1]
      congr 1
      have carries : (settle before).reverse ≠ [[]] := by
        intro single
        obtain ⟨front, rest, kept⟩ := List.exists_cons_of_ne_nil some_
        obtain ⟨component, view_⟩ := (view_settle before).2 front rest kept
        rw [single] at view_
        simp [view, componentOf] at view_
      have start := head?_of_settled shape some_
      have same : (Path.mk (⟨Text.glue slash (settle before).reverse⟩)).isAbsolute =
          path.isAbsolute := by
        rw [Bool.eq_iff_iff, isAbsolute_iff_segments, isAbsolute_iff_segments, pieces, start]
        constructor
        · rintro ⟨head, _⟩
          refine ⟨head, fun empty => ?_⟩
          rw [empty] at shape
          simp [settle] at shape
        · rintro ⟨head, _⟩
          exact ⟨head, carries⟩
      rw [same]

theorem parent?_child (path : Path) {name : RawString} (named : IsName name) :
    ∃ above, (path.child name).parent? = some above ∧ above.components = path.components := by
  have whole : (path.child name).components = path.components ++ [.name name] :=
    components_child named
  cases found : (path.child name).parent? with
  | none =>
    rw [parent?_eq_none_iff, whole] at found
    rcases found with empty | root
    · simp at empty
    · have last := congrArg List.getLast? root
      simp at last
  | some above =>
    refine ⟨above, rfl, ?_⟩
    rw [components_of_parent? found, whole, List.dropLast_concat]

end Path

def Component.shown : Component → Component
  | .name raw => .name (.ofText raw.text)
  | other => other

def Component.IsText (component : Component) : Prop :=
  component.raw.IsText

instance (component : Component) : Decidable component.IsText :=
  inferInstanceAs (Decidable (_ = _))

theorem Component.shown_eq_self_iff {component : Component} : component.shown = component ↔ component.IsText := by
  cases component with
  | root => exact iff_of_true rfl (RawString.isText_ofText _)
  | current => exact iff_of_true rfl (RawString.isText_ofText _)
  | up => exact iff_of_true rfl (RawString.isText_ofText _)
  | name raw => exact Component.name.injEq .. ▸ Iff.rfl

end TrpcRouters

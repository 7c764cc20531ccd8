import TrpcRouters.Proofs.Declaration.Adapt

/-! Where a text holds an import to adapt, told by a pattern of words and blanks, and what adapting the
text does there. No two of these imports overlap, so the text falls into imports and single characters in
one way; the imports are replaced, the characters stay, and no import is left. -/

namespace TrpcRouters.Declaration
open Text

inductive Part where
  | word (letters : List Char)
  /-- Blanks, no fewer than `least`. -/
  | blanks (least : Nat)

/-- A text is made of the parts of a pattern, one behind the other. -/
def Reads : List Part → List Char → Prop
  | [], text => text = []
  | .word letters :: parts, text => ∃ more, text = letters ++ more ∧ Reads parts more
  | .blanks least :: parts, text => ∃ run more, text = run ++ more ∧
    least ≤ run.length ∧ AllBlank run ∧ Reads parts more

def importPattern : List Part :=
  [.word "import".toList, .blanks 1, .word ['\x7b'], .blanks 0, .word "Message,".toList, .blanks 0,
    .word "proto3".toList, .blanks 0, .word ['\x7d'], .blanks 0, .word "from".toList, .blanks 1,
    .word "\"@bufbuild/protobuf\";".toList]

/-- The import of `Message` and `proto3`, however it is spaced. -/
def IsImport (text : List Char) : Prop :=
  Reads importPattern text

theorem isImport_iff {text : List Char} :
    IsImport text ↔ ∃ spacing : Spacing, spacing.Valid ∧ text = 'i' :: spacing.spelled := by
  have whole := fun spacing : Spacing => spacing.import_eq []
  simp only [List.append_nil] at whole
  simp only [whole]
  constructor
  · simp only [IsImport, importPattern, Reads]
    rintro ⟨_, rfl, opening, _, rfl, some_, openingBlank, _, rfl, message, _, rfl, _, messageBlank, _, rfl,
      comma, _, rfl, _, commaBlank, _, rfl, proto, _, rfl, _, protoBlank, _, rfl, closing, _, rfl, _,
      closingBlank, _, rfl, source, _, rfl, someSource, sourceBlank, _, rfl, rfl⟩
    refine ⟨⟨opening, message, comma, proto, closing, source⟩, ⟨?_, ?_, ?_⟩, by simp⟩
    · simp only [allBlank_append]
      exact ⟨⟨⟨⟨⟨openingBlank, messageBlank⟩, commaBlank⟩, protoBlank⟩, closingBlank⟩, sourceBlank⟩
    · exact List.ne_nil_of_length_pos some_
    · exact List.ne_nil_of_length_pos someSource
  · rintro ⟨spacing, valid, rfl⟩
    have blank := valid.blank
    simp only [allBlank_append] at blank
    obtain ⟨⟨⟨⟨⟨opening, message⟩, comma⟩, proto⟩, closing⟩, source⟩ := blank
    have some_ := List.length_pos_iff.mpr valid.opening
    have someSource := List.length_pos_iff.mpr valid.source
    exact ⟨_, rfl, _, _, rfl, some_, opening, _, rfl, _, _, rfl, Nat.zero_le _, message, _, rfl,
      _, _, rfl, Nat.zero_le _, comma, _, rfl, _, _, rfl, Nat.zero_le _, proto, _, rfl,
      _, _, rfl, Nat.zero_le _, closing, _, rfl, _, _, rfl, someSource, source, _, rfl, rfl⟩

theorem afterImport?_eq_some_iff {text back : List Char} :
    afterImport? text = some back ↔ ∃ found, IsImport found ∧ text = found ++ back := by
  constructor
  · intro reads
    obtain ⟨spacing, valid, rfl⟩ := exists_spacing reads
    exact ⟨'i' :: spacing.spelled, isImport_iff.mpr ⟨spacing, valid, rfl⟩, rfl⟩
  · rintro ⟨found, isImport, rfl⟩
    obtain ⟨spacing, valid, rfl⟩ := isImport_iff.mp isImport
    exact valid.afterImport? back

/-- An import in a text, with what is before and behind it. -/
structure Occurs (text front found back : List Char) : Prop where
  whole : text = front ++ (found ++ back)
  isImport : IsImport found

theorem IsImport.length_pos {found : List Char} (isImport : IsImport found) : 0 < found.length := by
  obtain ⟨spacing, _, rfl⟩ := isImport_iff.mp isImport
  exact Nat.succ_pos _

theorem unbroken_of_append {front rest : List Char} (whole : unbroken (front ++ rest) = true) :
    unbroken rest = true := by
  induction front with
  | nil => exact whole
  | cons c more ih =>
    simp only [List.cons_append, unbroken, Bool.and_eq_true] at whole
    exact ih whole.2

/-- No import begins inside another one. -/
theorem IsImport.apart {first second between back back' : List Char} (isImport : IsImport first)
    (isImport' : IsImport second) (some_ : between ≠ [])
    (same : first ++ back = between ++ (second ++ back')) : first.length ≤ between.length := by
  rcases List.append_eq_append_iff.mp same with ⟨more, rfl, _⟩ | ⟨left_, shape, begins⟩
  · simp
  cases left_ with
  | nil => simp [shape]
  | cons d others =>
    obtain ⟨spacing, valid, rfl⟩ := isImport_iff.mp isImport
    obtain ⟨spacing', _, rfl⟩ := isImport_iff.mp isImport'
    obtain ⟨c, rest, rfl⟩ := List.exists_cons_of_ne_nil some_
    have inner := valid.unbroken
    rw [(List.cons.inj shape).2] at inner
    have inner := unbroken_of_append inner
    simp only [unbroken, Bool.and_eq_true, Bool.or_eq_true, decide_eq_true_eq] at inner
    -- The second import begins with an `m` behind its `i`, where the first one would have an `l`.
    obtain ⟨rfl, behind⟩ := List.cons.inj begins
    obtain ⟨_, rfl⟩ := List.head?_eq_some_iff.mp (inner.1.resolve_left (by simp))
    cases (List.cons.inj (show 'm' :: _ = 'l' :: _ from behind)).1

section Overlaps
variable {text front found back front' found' back' : List Char}

theorem Occurs.le_of_lt (occurs : Occurs text front found back) (occurs' : Occurs text front' found' back')
    (before : front.length < front'.length) : front.length + found.length ≤ front'.length := by
  have same := occurs.whole.symm.trans occurs'.whole
  rcases List.append_eq_append_iff.mp same with ⟨between, rfl, rest⟩ | ⟨more, rfl, _⟩
  · have some_ : between ≠ [] := by
      rintro rfl
      simp at before
    rw [List.length_append]
    exact Nat.add_le_add_left (occurs.isImport.apart occurs'.isImport some_ rest) _
  · rw [List.length_append] at before
    omega

theorem Occurs.eq_of_length (occurs : Occurs text front found back)
    (occurs' : Occurs text front' found' back') (level : front.length = front'.length) :
    front = front' ∧ found = found' ∧ back = back' := by
  obtain ⟨rfl, same⟩ := List.append_inj (occurs.whole.symm.trans occurs'.whole) level
  have reads : afterImport? (found ++ back) = some back :=
    afterImport?_eq_some_iff.mpr ⟨found, occurs.isImport, rfl⟩
  have reads' : afterImport? (found' ++ back') = some back' :=
    afterImport?_eq_some_iff.mpr ⟨found', occurs'.isImport, rfl⟩
  rw [same, reads'] at reads
  cases reads
  exact ⟨rfl, List.append_cancel_right same, rfl⟩

theorem Occurs.disjoint (occurs : Occurs text front found back)
    (occurs' : Occurs text front' found' back') :
    (front = front' ∧ found = found' ∧ back = back') ∨
      front.length + found.length ≤ front'.length ∨ front'.length + found'.length ≤ front.length := by
  rcases Nat.lt_trichotomy front.length front'.length with before | level | behind
  · exact Or.inr (Or.inl (occurs.le_of_lt occurs' before))
  · exact Or.inl (occurs.eq_of_length occurs' level)
  · exact Or.inr (Or.inr (occurs'.le_of_lt occurs behind))

end Overlaps

theorem adapted_iff {text : List Char} :
    Adapted text ↔ ∀ front found back, ¬Occurs text front found back := by
  induction text with
  | nil =>
    refine ⟨fun _ front found back occurs => ?_, fun _ => trivial⟩
    have lengths := congrArg List.length occurs.whole
    have some_ := occurs.isImport.length_pos
    simp only [List.length_nil, List.length_append] at lengths
    omega
  | cons c rest ih =>
    constructor
    · rintro ⟨none_, later⟩ front found back ⟨whole, isImport⟩
      cases front with
      | nil =>
        rw [afterImport?_eq_some_iff.mpr ⟨found, isImport, whole⟩] at none_
        cases none_
      | cons d front => exact ih.mp later front found back ⟨(List.cons.inj whole).2, isImport⟩
    · intro absent
      refine ⟨?_, ih.mpr fun front found back occurs => ?_⟩
      · cases reads : afterImport? (c :: rest) with
        | none => rfl
        | some back =>
          obtain ⟨found, isImport, whole⟩ := afterImport?_eq_some_iff.mp reads
          exact absurd ⟨whole, isImport⟩ (absent [] found back)
      · exact absent (c :: front) found back ⟨by rw [occurs.whole, List.cons_append], occurs.isImport⟩

/-- A piece of a text: an import, or a character that belongs to none. -/
inductive Segment where
  | kept (c : Char)
  | found (letters : List Char)

namespace Segment

def letters : Segment → List Char
  | kept c => [c]
  | found letters => letters

def adapted : Segment → List Char
  | kept c => [c]
  | found _ => typeOnlyImport

end Segment

/-- The pieces of a text, with each import that occurs in it in a piece of its own. -/
structure CutAtImports (text : List Char) (segments : List Segment) : Prop where
  whole : text = segments.flatMap Segment.letters
  occurs (front found back : List Char) : Occurs text front found back ↔
    ∃ early late, segments = early ++ .found found :: late ∧
      front = early.flatMap Segment.letters ∧ back = late.flatMap Segment.letters

namespace CutAtImports
variable {text : List Char} {segments : List Segment}

theorem nil : CutAtImports [] [] where
  whole := rfl
  occurs front found back := by
    have none_ : Adapted [] := trivial
    refine ⟨fun occurs => absurd occurs (adapted_iff.mp none_ front found back), ?_⟩
    rintro ⟨early, late, shape, _⟩
    simp at shape

theorem kept (cut : CutAtImports text segments) {c : Char} (none_ : afterImport? (c :: text) = none) :
    CutAtImports (c :: text) (.kept c :: segments) where
  whole := by rw [List.flatMap_cons, ← cut.whole]; rfl
  occurs front found back := by
    constructor
    · rintro ⟨whole, isImport⟩
      cases front with
      | nil =>
        rw [afterImport?_eq_some_iff.mpr ⟨found, isImport, whole⟩] at none_
        cases none_
      | cons d front =>
        obtain ⟨rfl, rest⟩ := List.cons.inj whole
        obtain ⟨early, late, rfl, rfl, rfl⟩ := (cut.occurs front found back).mp ⟨rest, isImport⟩
        exact ⟨.kept c :: early, late, rfl, rfl, rfl⟩
    · rintro ⟨early, late, shape, rfl, rfl⟩
      cases early with
      | nil => simp at shape
      | cons first early =>
        obtain ⟨rfl, rfl⟩ := List.cons.inj shape
        obtain ⟨whole, isImport⟩ := (cut.occurs _ found _).mpr ⟨early, late, rfl, rfl, rfl⟩
        exact ⟨by rw [whole]; rfl, isImport⟩

theorem found (cut : CutAtImports text segments) {letters : List Char} (isImport : IsImport letters) :
    CutAtImports (letters ++ text) (.found letters :: segments) where
  whole := by rw [List.flatMap_cons, ← cut.whole]; rfl
  occurs front found back := by
    have first : Occurs (letters ++ text) [] letters text := ⟨rfl, isImport⟩
    constructor
    · intro occurs
      by_cases here : front = []
      · subst here
        obtain ⟨_, rfl, rfl⟩ := first.eq_of_length occurs rfl
        exact ⟨[], segments, rfl, rfl, cut.whole⟩
      · have behind := first.le_of_lt occurs (List.length_pos_iff.mpr here)
        rw [List.length_nil, Nat.zero_add] at behind
        obtain ⟨more, rfl⟩ : letters <+: front :=
          List.prefix_of_prefix_length_le ⟨text, rfl⟩ ⟨found ++ back, occurs.whole.symm⟩ behind
        have whole := occurs.whole
        rw [List.append_assoc] at whole
        obtain ⟨early, late, rfl, rfl, rfl⟩ :=
          (cut.occurs more found back).mp ⟨List.append_cancel_left whole, occurs.isImport⟩
        exact ⟨.found letters :: early, late, rfl, rfl, rfl⟩
    · rintro ⟨early, late, shape, rfl, rfl⟩
      cases early with
      | nil =>
        obtain ⟨same, rfl⟩ := List.cons.inj shape
        cases same
        rw [← cut.whole]
        exact first
      | cons piece early =>
        obtain ⟨rfl, rfl⟩ := List.cons.inj shape
        obtain ⟨whole, isImport⟩ := (cut.occurs _ found _).mpr ⟨early, late, rfl, rfl, rfl⟩
        exact ⟨by rw [whole, List.flatMap_cons, List.append_assoc]; rfl, isImport⟩

end CutAtImports

/-- A text falls into imports and single characters, and adapting replaces the imports. -/
theorem exists_cut (text : List Char) :
    ∃ segments, CutAtImports text segments ∧ adaptChars text = segments.flatMap Segment.adapted := by
  induction text using adaptChars.induct with
  | case1 => exact ⟨[], .nil, by rw [adaptChars]; rfl⟩
  | case2 c rest behind reads ih =>
    obtain ⟨segments, cut, adapts⟩ := ih
    obtain ⟨letters, isImport, whole⟩ := afterImport?_eq_some_iff.mp reads
    refine ⟨.found letters :: segments, whole ▸ cut.found isImport, ?_⟩
    rw [adaptChars_of_some reads, adapts, List.flatMap_cons]
    rfl
  | case3 c rest none_ ih =>
    obtain ⟨segments, cut, adapts⟩ := ih
    refine ⟨.kept c :: segments, cut.kept none_, ?_⟩
    rw [adaptChars_of_none none_, adapts, List.flatMap_cons]
    rfl

/-- Adapting replaces every import and nothing else. No import is left in the result, so adapting it again
does nothing; the imports in a text do not overlap, each of them is replaced and every other character is
kept in its order; and a text stays as it is exactly if it has no import. -/
theorem adapt_replaces_imports (content : String) :
    (∀ front found back, ¬Occurs (adapt content).toList front found back) ∧
    adapt (adapt content) = adapt content ∧
    (∀ front found back front' found' back', Occurs content.toList front found back →
      Occurs content.toList front' found' back' →
        (front = front' ∧ found = found' ∧ back = back') ∨
          front.length + found.length ≤ front'.length ∨ front'.length + found'.length ≤ front.length) ∧
    (∃ segments, CutAtImports content.toList segments ∧
      (adapt content).toList = segments.flatMap Segment.adapted) ∧
    (adapt content = content ↔ ∀ front found back, ¬Occurs content.toList front found back) := by
  have letters : (adapt content).toList = adaptChars content.toList := String.toList_ofList
  refine ⟨?_, adapt_adapt content, fun _ _ _ _ _ _ => Occurs.disjoint, ?_, ?_⟩
  · rw [letters]
    exact adapted_iff.mp (adapted_adaptChars _)
  · rw [letters]
    exact exists_cut content.toList
  · rw [← adapted_iff, ← String.toList_inj, letters]
    exact ⟨fun same => same ▸ adapted_adaptChars content.toList, adaptChars_of_adapted⟩

end TrpcRouters.Declaration

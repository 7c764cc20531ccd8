import TrpcRouters.Identifier

/-! The identifiers that an interface definition may use for its names: a letter or an underscore, then
letters, digits and underscores. The client's name for a method keeps its letters and digits and drops
the underscores, so a `$` in it is the one behind an inherited member. -/

namespace TrpcRouters

def isWordChar (c : Char) : Bool :=
  c.isAlphanum || c = '_'

/-- An identifier of the interface language. -/
def IsIdentifier (text : String) : Prop :=
  text ≠ "" ∧ (∀ c ∈ text.toList, isWordChar c) ∧ ∀ c ∈ text.toList.head?, c.isDigit = false

instance (text : String) : Decidable (IsIdentifier text) :=
  decidable_of_iff (text ≠ "" ∧ text.toList.all isWordChar = true ∧
    text.toList.head?.all (fun c => !c.isDigit) = true) (by simp [IsIdentifier, Option.all_eq_true])

theorem isWordChar_of_mem {text : String} (identifier : IsIdentifier text) {c : Char}
    (member : c ∈ text.toList) : isWordChar c = true :=
  identifier.2.1 c member

theorem notMem_of_isIdentifier {text : String} (identifier : IsIdentifier text) {c : Char}
    (other : isWordChar c = false) : c ∉ text.toList := by
  intro member
  rw [isWordChar_of_mem identifier member] at other
  cases other

namespace Identifier

theorem case_ascii : ∀ code : Fin 128, (Char.ofNat code).isAlphanum = true →
    (Text.upper (Char.ofNat code)).all Char.isAlphanum = true ∧
      (Text.lower (Char.ofNat code)).all (fun c => c.isAlphanum && !c.isUpper) = true ∧
      Text.lower (Char.ofNat code) ≠ [] := by
  decide +kernel

theorem toNat_lt_of_isAlphanum {c : Char} (word : c.isAlphanum = true) : c.toNat < 128 := by
  delta Char.isAlphanum Char.isAlpha Char.isUpper Char.isLower Char.isDigit at word
  simp only [Bool.or_eq_true, Bool.and_eq_true, decide_eq_true_eq, ge_iff_le,
    UInt32.le_iff_toNat_le] at word
  have codes : 'Z'.val.toNat = 90 ∧ 'z'.val.toNat = 122 ∧ '9'.val.toNat = 57 := by decide
  have whole : c.toNat = c.val.toNat := rfl
  omega

theorem case_of_isAlphanum {c : Char} (word : c.isAlphanum = true) :
    (∀ d ∈ Text.upper c, d.isAlphanum = true) ∧
      (∀ d ∈ Text.lower c, d.isAlphanum = true ∧ d.isUpper = false) ∧ Text.lower c ≠ [] := by
  have here := case_ascii ⟨c.toNat, toNat_lt_of_isAlphanum word⟩
  simp only [Char.ofNat_toNat] at here
  obtain ⟨upper, lower, some_⟩ := here word
  refine ⟨List.all_eq_true.mp upper, ?_, some_⟩
  intro d member
  have both := List.all_eq_true.mp lower d member
  simpa using both

theorem isAlphanum_of_mem_humps {raise : Bool} {text : List Char}
    (words : ∀ c ∈ text, isWordChar c = true) : ∀ c ∈ humps raise text, c.isAlphanum = true := by
  induction text generalizing raise with
  | nil => simp [humps]
  | cons first rest ih =>
    have later : ∀ c ∈ rest, isWordChar c = true := fun c member =>
      words c (List.mem_cons_of_mem _ member)
    by_cases underscore : first = '_'
    · simpa [humps, underscore] using ih later
    · have word : first.isAlphanum = true := by
        simpa [isWordChar, underscore] using words first (List.mem_cons_self ..)
      intro c member
      rw [humps, if_neg underscore, List.mem_append] at member
      rcases member with here | there
      · cases raise with
        | true => exact (case_of_isAlphanum word).1 c here
        | false =>
          have same : c = first := by simpa using here
          rwa [same]
      · exact ih later c there

/-- The camel case of a method's name, before the names of inherited members are set apart. -/
def camel (name : String) : String :=
  String.ofList (lowerFirst (humps false (name.toList.dropWhile (· = '_'))))

theorem method_eq (name : String) :
    method name = if camel name ∈ inherited then camel name ++ "$" else camel name :=
  rfl

theorem camel_spec {name : String} (identifier : IsIdentifier name) :
    (∀ c ∈ (camel name).toList, c.isAlphanum = true) ∧
      ∀ c ∈ (camel name).toList.head?, c.isUpper = false := by
  have words : ∀ c ∈ name.toList.dropWhile (· = '_'), isWordChar c = true := fun c member =>
    isWordChar_of_mem identifier (List.dropWhile_subset _ member)
  have kept : ∀ c ∈ humps false (name.toList.dropWhile (· = '_')), c.isAlphanum = true :=
    isAlphanum_of_mem_humps words
  rw [camel, String.toList_ofList]
  cases shape : humps false (name.toList.dropWhile (· = '_')) with
  | nil => simp [lowerFirst]
  | cons first rest =>
    rw [shape] at kept
    obtain ⟨_, lower, some_⟩ := case_of_isAlphanum (kept first (List.mem_cons_self ..))
    constructor
    · intro c member
      rcases List.mem_append.mp member with here | there
      · exact (lower c here).1
      · exact kept c (List.mem_cons_of_mem _ there)
    · intro c member
      obtain ⟨head, tail, split⟩ := List.exists_cons_of_ne_nil some_
      have same : head = c := by simpa [lowerFirst, split] using member
      exact same ▸ (lower head (by simp [split])).2

/-- A client name has no underscore, no capital in front, and a `$` only behind an inherited member. -/
theorem method_spec {name : String} (identifier : IsIdentifier name) :
    '_' ∉ (method name).toList ∧ (∀ c ∈ (method name).toList.head?, c.isUpper = false) ∧
      ('$' ∈ (method name).toList → ∃ member ∈ inherited, method name = member ++ "$") := by
  obtain ⟨words, front⟩ := camel_spec identifier
  have absent : ∀ {c : Char}, c.isAlphanum = false → c ∉ (camel name).toList := by
    intro c other member
    rw [words c member] at other
    cases other
  rw [method_eq]
  by_cases own : camel name ∈ inherited
  · rw [if_pos own, String.toList_append]
    refine ⟨?_, ?_, fun _ => ⟨_, own, rfl⟩⟩
    · intro member
      rcases List.mem_append.mp member with here | there
      · exact absent (by decide) here
      · simp at there
    · cases shape : (camel name).toList with
      | nil =>
        have empty : camel name = "" := String.toList_inj.mp shape
        rw [empty] at own
        exact absurd own (by decide)
      | cons first rest =>
        rw [shape] at front
        exact front
  · rw [if_neg own]
    exact ⟨absent (by decide), front, fun dollar => absurd dollar (absent (by decide))⟩

theorem reserved_disjoint_inherited : ∀ word ∈ reserved, word ∉ inherited := by
  decide

theorem mem_binding_of_reserved {word : String} (taken : word ∈ reserved) :
    '$' ∈ (binding word).toList := by
  simp [binding, taken]

theorem binding_method_injective {first second : String} (left : IsIdentifier first)
    (right : IsIdentifier second) (same : binding (method first) = binding (method second)) :
    method first = method second := by
  -- A reserved word and the name of an inherited member cannot meet at one `$`.
  have apart : ∀ {word name : String}, IsIdentifier name → word ∈ reserved →
      word ++ "$" ≠ method name := by
    intro word name identifier taken meets
    have dollar : '$' ∈ (method name).toList := by simp [← meets]
    obtain ⟨member, own, spelled⟩ := (method_spec identifier).2.2 dollar
    rw [← meets] at spelled
    have equal : word = member := by
      apply String.toList_inj.mp
      have letters := congrArg String.toList spelled
      rw [String.toList_append, String.toList_append] at letters
      exact List.append_cancel_right letters
    exact reserved_disjoint_inherited word taken (equal ▸ own)
  unfold binding at same
  split at same
  next taken =>
    split at same
    next =>
      apply String.toList_inj.mp
      have letters := congrArg String.toList same
      rw [String.toList_append, String.toList_append] at letters
      exact List.append_cancel_right letters
    next => exact absurd same (apart right taken)
  next =>
    split at same
    next taken => exact absurd same.symm (apart left taken)
    next => exact same

theorem underscore_notMem_binding {name : String} (identifier : IsIdentifier name) :
    '_' ∉ (binding (method name)).toList := by
  have plain := (method_spec identifier).1
  unfold binding
  split
  · simpa using plain
  · exact plain

/-- Only a name that is not reserved is bound as an identifier of the interface language. -/
theorem binding_eq_iff {name text : String} (identifier : IsIdentifier text) :
    binding name = text ↔ name ∉ reserved ∧ name = text := by
  constructor
  · intro same
    have free : name ∉ reserved := by
      intro taken
      have dollar := mem_binding_of_reserved taken
      rw [same] at dollar
      exact notMem_of_isIdentifier identifier (by decide) dollar
    exact ⟨free, by rwa [binding, if_neg free] at same⟩
  · rintro ⟨free, same⟩
    rwa [binding, if_neg free]

end Identifier

end TrpcRouters

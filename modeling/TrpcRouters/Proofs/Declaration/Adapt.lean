import TrpcRouters.Declaration.Adapt
import TrpcRouters.Proofs.Text.Blank

/-! Adapting a declaration file twice. What takes the place of an import is none to adapt, and no import
begins before it and ends in it, so an adapted file has no import left to adapt. -/

namespace TrpcRouters

namespace Declaration
open Text

theorem after?_eq_some_iff {expected input rest : List Char} :
    after? expected input = some rest ↔ input = expected ++ rest := by
  unfold after?
  split
  next begins =>
    obtain ⟨behind, rfl⟩ := List.isPrefixOf_iff_prefix.mp begins
    simp
  next differs =>
    refine ⟨fun found => by simp at found, fun whole => ?_⟩
    rw [whole] at differs
    exact absurd (List.isPrefixOf_iff_prefix.mpr (List.prefix_append ..)) differs

theorem exists_of_afterBlanks? {input rest : List Char} (found : afterBlanks? input = some rest) :
    ∃ blanks, blanks ≠ [] ∧ AllBlank blanks ∧ input = blanks ++ rest := by
  unfold afterBlanks? at found
  split at found
  next c more =>
    split at found
    next blank =>
      cases found
      obtain ⟨blanks, all, whole⟩ := exists_blanks more
      refine ⟨c :: blanks, List.cons_ne_nil _ _, ?_, ?_⟩
      · simpa [AllBlank, blank] using all
      · rw [List.cons_append, ← whole]
    next => simp at found
  next => simp at found

theorem afterBlanks?_append {blanks : List Char} (some_ : blanks ≠ []) (blank : AllBlank blanks)
    (word : List Char) (begins : word.head?.any (fun c => !isBlank c) = true) (rest : List Char) :
    afterBlanks? (blanks ++ (word ++ rest)) = some (word ++ rest) := by
  obtain ⟨c, more, rfl⟩ := List.exists_cons_of_ne_nil some_
  have first : isBlank c = true := blank c (List.mem_cons_self ..)
  have others : AllBlank more := fun other member => blank other (List.mem_cons_of_mem _ member)
  rw [List.cons_append, afterBlanks?, if_pos first, trimStart_append others word begins]

structure Spacing where
  opening : List Char
  message : List Char
  comma : List Char
  proto : List Char
  closing : List Char
  source : List Char

namespace Spacing

/-- There is a blank where two words would run into one. -/
structure Valid (spacing : Spacing) : Prop where
  blank : AllBlank (spacing.opening ++ spacing.message ++ spacing.comma ++ spacing.proto ++
    spacing.closing ++ spacing.source)
  opening : spacing.opening ≠ []
  source : spacing.source ≠ []

def spelled (spacing : Spacing) : List Char :=
  "mport".toList ++ spacing.opening ++ ['\x7b'] ++ spacing.message ++ "Message,".toList ++
    spacing.comma ++ "proto3".toList ++ spacing.proto ++ ['\x7d'] ++ spacing.closing ++
    "from".toList ++ spacing.source ++ "\"@bufbuild/protobuf\";".toList

theorem import_eq (spacing : Spacing) (rest : List Char) :
    'i' :: (spacing.spelled ++ rest) = "import".toList ++ (spacing.opening ++
      (['\x7b'] ++ (spacing.message ++ ("Message,".toList ++ (spacing.comma ++ ("proto3".toList ++
      (spacing.proto ++ (['\x7d'] ++ (spacing.closing ++ ("from".toList ++ (spacing.source ++
      ("\"@bufbuild/protobuf\";".toList ++ rest)))))))))))) := by
  have first : "import".toList = 'i' :: "mport".toList := rfl
  rw [first]
  unfold spelled
  simp only [List.append_assoc, List.cons_append]

end Spacing

theorem exists_spacing {input rest : List Char} (found : afterImport? input = some rest) :
    ∃ spacing : Spacing, spacing.Valid ∧ input = 'i' :: (spacing.spelled ++ rest) := by
  simp only [afterImport?, Option.bind_eq_bind, Option.bind_eq_some_iff, after?_eq_some_iff] at found
  obtain ⟨_, rfl, _, opens, third, rfl, fourth, message, fifth, proto, sixth, closes, _, from_, _,
    sources, rfl⟩ := found
  obtain ⟨opening, openingSome, openingBlank, rfl⟩ := exists_of_afterBlanks? opens
  obtain ⟨source, sourceSome, sourceBlank, rfl⟩ := exists_of_afterBlanks? sources
  obtain ⟨beforeMessage, messageBlank, third_⟩ := exists_blanks third
  obtain ⟨beforeProto, protoBlank, fourth_⟩ := exists_blanks fourth
  obtain ⟨beforeClosing, closingBlank, fifth_⟩ := exists_blanks fifth
  obtain ⟨beforeFrom, fromBlank, sixth_⟩ := exists_blanks sixth
  rw [third_, message, fourth_, proto, fifth_, closes, sixth_, from_]
  refine ⟨⟨opening, beforeMessage, beforeProto, beforeClosing, beforeFrom, source⟩,
    ⟨?_, openingSome, sourceSome⟩, (Spacing.import_eq ⟨_, _, _, _, _, _⟩ _).symm⟩
  simp only [allBlank_append]
  exact ⟨⟨⟨⟨⟨openingBlank, messageBlank⟩, protoBlank⟩, closingBlank⟩, fromBlank⟩, sourceBlank⟩

theorem Spacing.Valid.afterImport? {spacing : Spacing} (valid : spacing.Valid) (rest : List Char) :
    afterImport? ('i' :: (spacing.spelled ++ rest)) = some rest := by
  have blank := valid.blank
  simp only [allBlank_append] at blank
  obtain ⟨⟨⟨⟨⟨opening, message⟩, comma⟩, proto⟩, closing⟩, source⟩ := blank
  have after : ∀ expected rest : List Char, after? expected (expected ++ rest) = some rest :=
    fun _ _ => after?_eq_some_iff.mpr rfl
  rw [spacing.import_eq]
  unfold Declaration.afterImport?
  simp only [after, Option.bind_eq_bind, Option.bind_some,
    afterBlanks?_append valid.opening opening ['\x7b'] rfl,
    afterBlanks?_append valid.source source "\"@bufbuild/protobuf\";".toList rfl,
    trimStart_append message "Message,".toList rfl, trimStart_append comma "proto3".toList rfl,
    trimStart_append proto ['\x7d'] rfl, trimStart_append closing "from".toList rfl]

/-- Every `i` in a text is followed by an `l`. -/
def unbroken : List Char → Bool
  | [] => true
  | c :: rest => (c ≠ 'i' || rest.head? = some 'l') && unbroken rest

theorem unbroken_append {front : List Char} (free : 'i' ∉ front) (rest : List Char) :
    unbroken (front ++ rest) = unbroken rest := by
  induction front with
  | nil => rfl
  | cons c more ih =>
    simp only [List.mem_cons, not_or] at free
    simp [unbroken, Ne.symm free.1, ih free.2]

theorem Spacing.Valid.unbroken {spacing : Spacing} (valid : spacing.Valid) :
    unbroken spacing.spelled = true := by
  have free : 'i' ∉ "mport".toList ++ spacing.opening ++ ['\x7b'] ++ spacing.message ++
      "Message,".toList ++ spacing.comma ++ "proto3".toList ++ spacing.proto ++ ['\x7d'] ++
      spacing.closing ++ "from".toList ++ spacing.source := by
    have blank := valid.blank.notMem (show isBlank 'i' = false from rfl)
    simp only [List.mem_append, not_or] at blank ⊢
    simp [blank]
  unfold Spacing.spelled
  rw [unbroken_append free]
  rfl

theorem adaptChars_of_some {text rest : List Char} (found : afterImport? text = some rest) :
    adaptChars text = typeOnlyImport ++ adaptChars rest := by
  obtain ⟨spacing, valid, rfl⟩ := exists_spacing found
  rw [adaptChars]
  split
  next other again =>
    rw [found] at again
    cases again
    rfl
  next none_ =>
    rw [found] at none_
    cases none_

theorem adaptChars_of_none {c : Char} {rest : List Char} (none_ : afterImport? (c :: rest) = none) :
    adaptChars (c :: rest) = c :: adaptChars rest := by
  rw [adaptChars]
  split
  next found =>
    rw [none_] at found
    cases found
  next => rfl

/-- No import begins anywhere in the text. -/
def Adapted : List Char → Prop
  | [] => True
  | c :: rest => afterImport? (c :: rest) = none ∧ Adapted rest

theorem afterImport?_of_ne {c : Char} (other : c ≠ 'i') (rest : List Char) :
    afterImport? (c :: rest) = none := by
  cases found : afterImport? (c :: rest) with
  | none => rfl
  | some behind =>
    obtain ⟨spacing, _, whole⟩ := exists_spacing found
    exact absurd (List.cons.inj whole).1 other

theorem Adapted.append {front rest : List Char} (whole : unbroken front = true)
    (adapted : Adapted rest) : Adapted (front ++ rest) := by
  induction front with
  | nil => exact adapted
  | cons c more ih =>
    simp only [unbroken, Bool.and_eq_true, Bool.or_eq_true, decide_eq_true_eq] at whole
    refine ⟨?_, ih whole.2⟩
    by_cases first : c = 'i'
    · obtain ⟨others, rfl⟩ := List.head?_eq_some_iff.mp (whole.1.resolve_left (by simp [first]))
      rw [first]
      rfl
    · exact afterImport?_of_ne first _

theorem Adapted.typeOnlyImport {rest : List Char} (adapted : Adapted rest) :
    Adapted (typeOnlyImport ++ rest) := by
  have none_ : afterImport? (Declaration.typeOnlyImport ++ rest) = none := rfl
  have behind : unbroken Declaration.typeOnlyImport.tail = true := by decide
  exact ⟨none_, adapted.append behind⟩

theorem adaptChars_of_adapted {text : List Char} (adapted : Adapted text) : adaptChars text = text := by
  induction text with
  | nil => rw [adaptChars]
  | cons c rest ih => rw [adaptChars_of_none adapted.1, ih adapted.2]

/-- An adapted text begins like the text itself, as far as no replacement can begin. -/
theorem exists_of_adaptChars {text front rest : List Char} (adapts : adaptChars text = front ++ rest)
    (whole : unbroken front = true) : ∃ more, text = front ++ more := by
  induction front generalizing text with
  | nil => exact ⟨text, rfl⟩
  | cons c front ih =>
    simp only [unbroken, Bool.and_eq_true, Bool.or_eq_true, decide_eq_true_eq] at whole
    cases text with
    | nil =>
      rw [adaptChars] at adapts
      cases adapts
    | cons first others =>
      cases found : afterImport? (first :: others) with
      | none =>
        rw [adaptChars_of_none found] at adapts
        obtain ⟨rfl, later⟩ := List.cons.inj adapts
        obtain ⟨more, rfl⟩ := ih later whole.2
        exact ⟨more, rfl⟩
      | some behind =>
        -- The replacement goes on with an `m`, where an unbroken text goes on with an `l`.
        rw [adaptChars_of_some found] at adapts
        obtain ⟨rfl, later⟩ := List.cons.inj (show 'i' :: 'm' :: _ = c :: (front ++ rest) from adapts)
        obtain ⟨more, rfl⟩ := List.head?_eq_some_iff.mp (whole.1.resolve_left (by simp))
        cases later

theorem adapted_adaptChars (text : List Char) : Adapted (adaptChars text) := by
  induction text using adaptChars.induct with
  | case1 =>
    rw [adaptChars]
    trivial
  | case2 c rest behind found ih =>
    rw [adaptChars_of_some found]
    exact ih.typeOnlyImport
  | case3 c rest none_ ih =>
    rw [adaptChars_of_none none_]
    refine ⟨?_, ih⟩
    cases found : afterImport? (c :: adaptChars rest) with
    | none => rfl
    | some behind =>
      obtain ⟨spacing, valid, spelled⟩ := exists_spacing found
      obtain ⟨rfl, later⟩ := List.cons.inj spelled
      obtain ⟨more, rfl⟩ := exists_of_adaptChars later valid.unbroken
      rw [valid.afterImport?] at none_
      cases none_

theorem adapt_adapt (content : String) : adapt (adapt content) = adapt content := by
  rw [adapt, adapt, String.toList_ofList, adaptChars_of_adapted (adapted_adaptChars _)]

end Declaration

end TrpcRouters

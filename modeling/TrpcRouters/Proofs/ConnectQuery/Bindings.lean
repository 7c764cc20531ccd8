import Mathlib.Data.List.DropRight
import TrpcRouters.Proofs.ConnectQuery.Exports

/-! Which exports of a connect-query module are legal names of bindings. An export behind its service
always is. A client name alone is one if the method's name has a letter behind the underscores in
front, apart from the two names that strict code does not bind: these are no reserved words, so no `$`
goes behind them. -/

namespace TrpcRouters

namespace Source

def reservedWords : List String :=
  ["await", "break", "case", "catch", "class", "const", "continue", "debugger", "default", "delete",
    "do", "else", "enum", "export", "extends", "false", "finally", "for", "function", "if", "import",
    "in", "instanceof", "new", "null", "return", "super", "switch", "this", "throw", "true", "try",
    "typeof", "var", "void", "while", "with", "yield"]

/-- The words that are reserved in strict code, which every module is. -/
def strictWords : List String :=
  ["implements", "interface", "let", "package", "private", "protected", "public", "static"]

/-- The names that strict code may use but not bind. -/
def unbindable : List String :=
  ["arguments", "eval"]

def isNameStart (c : Char) : Bool :=
  c.isAlpha || c = '_' || c = '$'

def isNamePart (c : Char) : Bool :=
  isNameStart c || c.isDigit

/-- A legal name for a binding of a module, as far as ASCII goes. -/
def IsBinding (name : String) : Prop :=
  name.toList.head?.any isNameStart = true ∧ (∀ c ∈ name.toList, isNamePart c = true) ∧
    name ∉ reservedWords ++ strictWords ++ unbindable

instance (name : String) : Decidable (IsBinding name) :=
  decidable_of_iff (name.toList.head?.any isNameStart = true ∧ name.toList.all isNamePart = true ∧
    name ∉ reservedWords ++ strictWords ++ unbindable) (by simp [IsBinding])

theorem isNamePart_of_isWordChar {c : Char} (word : isWordChar c = true) : isNamePart c = true := by
  simp only [isWordChar, Char.isAlphanum, Bool.or_eq_true, decide_eq_true_eq] at word
  simp only [isNamePart, isNameStart, Bool.or_eq_true, decide_eq_true_eq]
  rcases word with (letter | digit) | underscore
  · exact .inl (.inl (.inl letter))
  · exact .inr digit
  · exact .inl (.inl (.inr underscore))

theorem isNameStart_eq {c : Char} (word : c.isAlphanum = true) : isNameStart c = c.isAlpha := by
  have underscore : c ≠ '_' := by
    rintro rfl
    exact absurd word (by decide)
  have dollar : c ≠ '$' := by
    rintro rfl
    exact absurd word (by decide)
  simp [isNameStart, underscore, dollar]

theorem isAlpha_of_word : ∀ word ∈ reservedWords ++ strictWords ++ unbindable,
    word ≠ "" ∧ ∀ c ∈ word.toList, c.isAlpha = true := by
  have words : ∀ word ∈ reservedWords ++ strictWords ++ unbindable,
      word ≠ "" ∧ word.toList.all Char.isAlpha = true := by
    decide +kernel
  simpa only [List.all_eq_true] using words

theorem isBinding_qualified {service client : String} (identifier : IsIdentifier service)
    (parts : ∀ c ∈ client.toList, isNamePart c = true) : IsBinding (service ++ "_" ++ client) := by
  obtain ⟨some_, words, front⟩ := identifier
  have letters : (service ++ "_" ++ client).toList = service.toList ++ '_' :: client.toList := by
    simp
  obtain ⟨first, rest, shape⟩ := List.exists_cons_of_ne_nil
    fun nothing => some_ (String.toList_eq_nil_iff.mp nothing)
  refine ⟨?start, ?parts, ?free⟩
  case start =>
    have word := words first (by simp [shape])
    have digit := front first (by simp [shape])
    rw [letters, shape]
    simp only [isWordChar, Char.isAlphanum, digit, Bool.or_false, Bool.or_eq_true,
      decide_eq_true_eq] at word
    simpa [isNameStart] using Or.inl word
  case parts =>
    intro c member
    rw [letters, List.mem_append, List.mem_cons] at member
    rcases member with inside | rfl | behind
    · exact isNamePart_of_isWordChar (words c inside)
    · decide
    · exact parts c behind
  case free =>
    intro taken
    have underscore := (isAlpha_of_word _ taken).2 '_' (by simp [letters])
    exact absurd underscore (by decide)

end Source

namespace Identifier
open Source

/-- The words that get a `$` are those that are reserved, in any code or in strict code. -/
theorem mem_reserved_iff (word : String) :
    word ∈ reserved ↔ word ∈ reservedWords ++ strictWords := by
  have forth : ∀ word ∈ reserved, word ∈ reservedWords ++ strictWords := by decide
  have back : ∀ word ∈ reservedWords ++ strictWords, word ∈ reserved := by decide
  exact ⟨forth word, back word⟩

theorem letters_ascii : ∀ code : Fin 128, (Char.ofNat code).isAlphanum = true →
    Text.upper (Char.ofNat code) = [(Char.ofNat code).toUpper] ∧
      Text.lower (Char.ofNat code) = [(Char.ofNat code).toLower] ∧
      (Char.ofNat code).toUpper.isLower = false ∧
      (Char.ofNat code).toLower.isAlpha = (Char.ofNat code).isAlpha ∧
      (Char.ofNat code).toUpper.toLower = (Char.ofNat code).toLower ∧
      ((Char.ofNat code).isLower = true → (Char.ofNat code).toLower = Char.ofNat code) ∧
      (Char.ofNat code = (Char.ofNat code).toLower ∨
        Char.ofNat code = (Char.ofNat code).toLower.toUpper) := by
  decide +kernel

theorem letters_of_isAlphanum {c : Char} (word : c.isAlphanum = true) :
    Text.upper c = [c.toUpper] ∧ Text.lower c = [c.toLower] ∧ c.toUpper.isLower = false ∧
      c.toLower.isAlpha = c.isAlpha ∧ c.toUpper.toLower = c.toLower ∧
      (c.isLower = true → c.toLower = c) ∧ (c = c.toLower ∨ c = c.toLower.toUpper) := by
  simpa only [Char.ofNat_toNat] using letters_ascii ⟨c.toNat, toNat_lt_of_isAlphanum word⟩
    (by simpa only [Char.ofNat_toNat] using word)

theorem toLower_eq_iff {c letter : Char} (word : c.isAlphanum = true) (small : letter.isLower = true) :
    c.toLower = letter ↔ c = letter ∨ c = letter.toUpper := by
  have alphanumeric : letter.isAlphanum = true := by
    show (letter.isUpper || letter.isLower || letter.isDigit) = true
    rw [small, Bool.or_true, Bool.true_or]
  obtain ⟨_, _, _, _, upper, lower, _⟩ := letters_of_isAlphanum alphanumeric
  constructor
  · rintro rfl
    exact (letters_of_isAlphanum word).2.2.2.2.2.2
  · rintro (rfl | rfl)
    · exact lower small
    · rw [upper, lower small]

theorem rdropWhile_cons (keep : Char → Bool) (c : Char) (rest : List Char) :
    (c :: rest).rdropWhile keep =
      if rest.rdropWhile keep = [] ∧ keep c = true then [] else c :: rest.rdropWhile keep := by
  simp only [List.rdropWhile, List.reverse_cons, List.dropWhile_append, List.isEmpty_iff,
    List.reverse_eq_nil_iff]
  by_cases none_ : rest.reverse.dropWhile keep = []
  · by_cases kept : keep c = true <;> simp [none_, kept]
  · simp [none_]

theorem humps_raised {text : List Char} (words : ∀ c ∈ text, isWordChar c = true) :
    (humps true text = [] ∧ text.rdropWhile (· = '_') = []) ∨
      text.rdropWhile (· = '_') ≠ [] ∧ ∃ c rest, humps true text = c :: rest ∧ c.isLower = false := by
  induction text with
  | nil => exact .inl ⟨rfl, rfl⟩
  | cons first rest ih =>
    have later := ih fun c member => words c (List.mem_cons_of_mem _ member)
    rw [humps, rdropWhile_cons]
    by_cases underscore : first = '_'
    · rw [if_pos underscore]
      rcases later with ⟨nothing, none_⟩ | ⟨some_, raised⟩
      · exact .inl ⟨nothing, if_pos ⟨none_, by simp [underscore]⟩⟩
      · exact .inr ⟨by simp [some_], raised⟩
    · have word : first.isAlphanum = true := by
        simpa [isWordChar, underscore] using words first (List.mem_cons_self ..)
      obtain ⟨upper, _, other, _⟩ := letters_of_isAlphanum word
      rw [if_neg underscore, if_pos rfl, upper]
      exact .inr ⟨by simp [underscore], _, _, rfl, other⟩

theorem humps_eq_iff {text word : List Char} (words : ∀ c ∈ text, isWordChar c = true)
    (small : ∀ c ∈ word, c.isLower = true) :
    humps false text = word ↔ text.rdropWhile (· = '_') = word := by
  induction text generalizing word with
  | nil => rfl
  | cons first rest ih =>
    have later : ∀ c ∈ rest, isWordChar c = true := fun c member =>
      words c (List.mem_cons_of_mem _ member)
    rw [humps, rdropWhile_cons]
    by_cases underscore : first = '_'
    · rw [if_pos underscore]
      rcases humps_raised later with ⟨nothing, none_⟩ | ⟨some_, c, more, raised, other⟩
      · rw [nothing, if_pos ⟨none_, by simp [underscore]⟩]
      · rw [raised, if_neg (by simp [some_])]
        constructor
        · rintro rfl
          rw [small c (List.mem_cons_self ..)] at other
          cases other
        · rintro rfl
          have lower := small first (List.mem_cons_self ..)
          rw [underscore] at lower
          cases lower
    · simp only [Bool.false_eq_true, ↓reduceIte, decide_eq_true_eq, underscore,
        and_false, List.singleton_append]
      cases word with
      | nil => simp
      | cons letter letters =>
        have inner := ih later fun c member => small c (List.mem_cons_of_mem _ member)
        rw [List.cons.injEq, List.cons.injEq, inner]

def bare (name : String) : String :=
  String.ofList ((name.toList.dropWhile (· = '_')).rdropWhile (· = '_'))

theorem camel_cases {name : String} (identifier : IsIdentifier name) :
    (camel name = "" ∧ bare name = "") ∨ ∃ first rest, first.isAlphanum = true ∧
      (∀ c ∈ rest, isWordChar c = true) ∧
      (camel name).toList = first.toLower :: humps false rest ∧
      (bare name).toList = first :: rest.rdropWhile (· = '_') := by
  have words : ∀ c ∈ name.toList.dropWhile (· = '_'), isWordChar c = true := fun c member =>
    isWordChar_of_mem identifier (List.dropWhile_subset _ member)
  cases shape : name.toList.dropWhile (· = '_') with
  | nil => exact .inl ⟨by simp [camel, shape, humps, lowerFirst], by simp [bare, shape]⟩
  | cons first rest =>
    rw [shape] at words
    have underscore : first ≠ '_' := by
      have front := List.head?_dropWhile_not (· = '_') name.toList
      rw [shape] at front
      simpa using front
    have word : first.isAlphanum = true := by
      simpa [isWordChar, underscore] using words first (List.mem_cons_self ..)
    refine .inr ⟨first, rest, word, fun c member => words c (List.mem_cons_of_mem _ member), ?_, ?_⟩
    · simp [camel, shape, humps, underscore, lowerFirst, (letters_of_isAlphanum word).2.1]
    · simp [bare, shape, rdropWhile_cons, underscore]

theorem opens_camel {name : String} (identifier : IsIdentifier name) :
    (camel name).toList.head?.any Char.isAlpha = (bare name).toList.head?.any Char.isAlpha := by
  rcases camel_cases identifier with ⟨nothing, none_⟩ | ⟨first, rest, word, _, cased, spelled⟩
  · rw [nothing, none_]
  · rw [cased, spelled]
    exact (letters_of_isAlphanum word).2.2.2.1

theorem head?_method (name : String) : (method name).toList.head? = (camel name).toList.head? := by
  rw [method_eq]
  split
  next own =>
    have some_ : (camel name).toList ≠ [] := by
      intro nothing
      rw [String.toList_eq_nil_iff.mp nothing] at own
      exact absurd own (by decide)
    rw [String.toList_append, List.head?_append_of_ne_nil _ some_]
  next => rfl

theorem starts_method {name : String} (identifier : IsIdentifier name) :
    (method name).toList.head?.any isNameStart = (bare name).toList.head?.any Char.isAlpha := by
  rw [← opens_camel identifier, head?_method]
  cases shape : (camel name).toList.head? with
  | none => rfl
  | some c => exact isNameStart_eq ((camel_spec identifier).1 c (List.mem_of_head? shape))

theorem camel_eq_iff {name : String} (identifier : IsIdentifier name) (letter : Char)
    (letters : List Char) (small : (letter :: letters).all Char.isLower = true) :
    camel name = String.ofList (letter :: letters) ↔
      bare name = String.ofList (letter :: letters) ∨
        bare name = String.ofList (letter.toUpper :: letters) := by
  obtain ⟨front, behind⟩ := List.forall_mem_cons.mp (List.all_eq_true.mp small)
  simp only [← String.toList_inj, String.toList_ofList]
  rcases camel_cases identifier with ⟨nothing, none_⟩ | ⟨first, rest, word, words, cased, spelled⟩
  · simp [nothing, none_]
  · rw [cased, spelled, List.cons.injEq, List.cons.injEq, List.cons.injEq, toLower_eq_iff word front,
      humps_eq_iff words behind, or_and_right]

theorem method_eq_iff {name word : String} (plain : '$' ∉ word.toList) (other : word ∉ inherited) :
    method name = word ↔ camel name = word := by
  rw [method_eq]
  split
  next own =>
    constructor
    · rintro rfl
      simp at plain
    · rintro rfl
      exact absurd own other
  next => rfl

theorem method_mem_unbindable_iff {name : String} (identifier : IsIdentifier name) :
    method name ∈ unbindable ↔ bare name ∈ ["arguments", "Arguments", "eval", "Eval"] := by
  have arguments := camel_eq_iff identifier 'a' "rguments".toList (by decide)
  have eval := camel_eq_iff identifier 'e' "val".toList (by decide)
  simp only [unbindable, List.mem_cons, List.not_mem_nil, or_false]
  rw [method_eq_iff (by decide) (by decide), method_eq_iff (by decide) (by decide)]
  exact (or_congr arguments eval).trans (or_assoc)

theorem isNamePart_of_mem_method {name : String} (identifier : IsIdentifier name) :
    ∀ c ∈ (method name).toList, isNamePart c = true := by
  have words : ∀ c ∈ (camel name).toList, isNamePart c = true := by
    intro c member
    apply isNamePart_of_isWordChar
    simp [isWordChar, (camel_spec identifier).1 c member]
  rw [method_eq]
  split
  · intro c member
    rw [String.toList_append, List.mem_append] at member
    rcases member with inside | last
    · exact words c inside
    · rw [List.mem_singleton.mp last]
      decide
  · exact words

theorem isBinding_escaped {word : String} (taken : word ∈ reserved) : IsBinding (word ++ "$") ∧
    word.toList.head?.any isNameStart = true ∧ word ∉ unbindable := by
  have bindable : ∀ word ∈ reserved, word ∉ unbindable := by decide
  obtain ⟨some_, words⟩ := isAlpha_of_word word (List.mem_append_left _ ((mem_reserved_iff word).mp taken))
  have letters : (word ++ "$").toList = word.toList ++ ['$'] := String.toList_append
  obtain ⟨first, rest, shape⟩ := List.exists_cons_of_ne_nil
    fun nothing => some_ (String.toList_eq_nil_iff.mp nothing)
  have start : isNameStart first = true := by
    simp [isNameStart, words first (by simp [shape])]
  refine ⟨⟨by simpa [shape] using start, ?parts, ?free⟩, by simpa [shape] using start, bindable word taken⟩
  case parts =>
    intro c member
    rw [letters, List.mem_append, List.mem_singleton] at member
    rcases member with inside | rfl
    · simp [isNamePart, isNameStart, words c inside]
    · decide
  case free =>
    intro taken'
    have dollar := (isAlpha_of_word _ taken').2 '$' (by simp [letters])
    exact absurd dollar (by decide)

theorem isBinding_binding_iff {name : String} (identifier : IsIdentifier name) :
    IsBinding (binding (method name)) ↔
      (bare name).toList.head?.any Char.isAlpha = true ∧
        bare name ∉ ["arguments", "Arguments", "eval", "Eval"] := by
  rw [← starts_method identifier, ← method_mem_unbindable_iff identifier]
  by_cases taken : method name ∈ reserved
  · obtain ⟨escaped, plain⟩ := isBinding_escaped taken
    rw [binding, if_pos taken]
    exact iff_of_true escaped plain
  · have parts := isNamePart_of_mem_method identifier
    rw [binding, if_neg taken, IsBinding, List.mem_append, ← mem_reserved_iff, not_or]
    constructor
    · rintro ⟨starts, _, _, free⟩
      exact ⟨starts, free⟩
    · rintro ⟨starts, free⟩
      exact ⟨starts, parts, taken, free⟩

end Identifier

namespace ConnectQuery
open Source

/-- A method that is exported under a legal name: one whose client name another method of the file has
too, or one whose name begins, behind its underscores, with a letter and is not one of two words that
are not reserved. -/
def Bindable (services : List Service) (method : Method) : Prop :=
  1 < uses services (Identifier.method method.name) ∨
    (Identifier.bare method.name).toList.head?.any Char.isAlpha = true ∧
      Identifier.bare method.name ∉ ["arguments", "Arguments", "eval", "Eval"]

instance (services : List Service) (method : Method) : Decidable (Bindable services method) :=
  inferInstanceAs (Decidable (_ ∨ _ ∧ _))

theorem mem_exported_iff {protoFile : String} {services : List Service} {name : String} :
    name ∈ exported (statements protoFile services) ↔ ∃ service ∈ services,
      ∃ method ∈ service.methods, name = exportName services service method := by
  rw [exported_statements, List.mem_map]
  constructor
  · rintro ⟨call, called, rfl⟩
    obtain ⟨service, inside, method, member, rfl⟩ := mem_calls.mp called
    exact ⟨service, inside, method, member, rfl⟩
  · rintro ⟨service, inside, method, member, rfl⟩
    exact ⟨_, mem_calls.mpr ⟨service, inside, method, member, rfl⟩, rfl⟩

section Declared
variable {services : List Service} {service : Service} {method : Method}

theorem isBinding_exportName_iff (named : Named services) (inside : service ∈ services)
    (member : method ∈ service.methods) :
    IsBinding (exportName services service method) ↔ Bindable services method := by
  obtain ⟨identifier, methods⟩ := named service inside
  have identifier' := methods method member
  rw [exportName]
  split
  next shared =>
    have parts := Identifier.isNamePart_of_mem_method identifier'
    exact iff_of_true (isBinding_qualified identifier parts) (.inl shared)
  next once =>
    rw [Identifier.isBinding_binding_iff identifier', Bindable, or_iff_right once]

/-- Whatever the method is called, its export is no reserved word and has no other characters than a
name has. -/
theorem exportName_parts (named : Named services) (inside : service ∈ services)
    (member : method ∈ service.methods) :
    (∀ c ∈ (exportName services service method).toList, isNamePart c = true) ∧
      exportName services service method ∉ reservedWords ++ strictWords := by
  obtain ⟨identifier, methods⟩ := named service inside
  have parts := Identifier.isNamePart_of_mem_method (methods method member)
  rw [exportName]
  split
  next =>
    obtain ⟨_, words, free⟩ := isBinding_qualified identifier parts
    exact ⟨words, fun taken => free (List.mem_append_left _ taken)⟩
  next =>
    rw [Identifier.binding]
    split
    next taken =>
      obtain ⟨_, words, free⟩ := (Identifier.isBinding_escaped taken).1
      exact ⟨words, fun taken' => free (List.mem_append_left _ taken')⟩
    next free =>
      rw [← Identifier.mem_reserved_iff]
      exact ⟨parts, free⟩

end Declared

/-- A module declares one constant for each method. No constant is called like a reserved word, and all
characters of its name may stand in names. It is a legal name of a binding exactly if the method is
bindable, so all of them are legal exactly if all methods are. -/
theorem exports_legal_iff (protoFile : String) {services : List Service} (named : Named services) :
    let emitted := statements protoFile services
    (code protoFile services =
      header.text ++ ("import \x7b " ++ ", ".intercalate (services.map Service.name) ++ " \x7d from \"" ++
        ("./" ++ protoStem protoFile ++ "_connect.js") ++ "\";\n") ++
      String.join ((emitted.filterMap constant?).map declaration)) ∧
    (emitted.filterMap constant? =
        services.flatMap fun service => service.methods.map fun method =>
          (exportName services service method, descriptor service method)) ∧
      (∀ service ∈ services, ∀ method ∈ service.methods,
        (∀ c ∈ (exportName services service method).toList, isNamePart c = true) ∧
          exportName services service method ∉ reservedWords ++ strictWords ∧
          (IsBinding (exportName services service method) ↔ Bindable services method)) ∧
      ((∀ name ∈ exported emitted, IsBinding name) ↔
        ∀ service ∈ services, ∀ method ∈ service.methods, Bindable services method) := by
  intro emitted
  refine ⟨code_eq_declarations protoFile services, constants_statements protoFile services, ?each, ?all⟩
  case each =>
    intro service inside method member
    obtain ⟨parts, free⟩ := exportName_parts named inside member
    exact ⟨parts, free, isBinding_exportName_iff named inside member⟩
  case all =>
    constructor
    · intro legal service inside method member
      rw [← isBinding_exportName_iff named inside member]
      exact legal _ (mem_exported_iff.mpr ⟨service, inside, method, member, rfl⟩)
    · intro bindable name declared
      obtain ⟨service, inside, method, member, rfl⟩ := mem_exported_iff.mp declared
      exact (isBinding_exportName_iff named inside member).mpr (bindable service inside method member)

def cabinet : List Service :=
  [itemService "ItemService" ["Delete", "__get__item_", "ToString", "Eval"],
    itemService "_2" ["eval", "V_2"]]

theorem cabinet_exports_legal :
    Named cabinet ∧
      exported (statements "cabinet.proto" cabinet) =
        ["delete$", "getItem", "toString$", "ItemService_eval", "_2_eval", "v2"] ∧
      ∀ name ∈ exported (statements "cabinet.proto" cabinet), IsBinding name := by
  have named : Named cabinet := by decide
  refine ⟨named, by decide +kernel, ?_⟩
  apply (exports_legal_iff "cabinet.proto" named).2.2.2.mpr
  decide +kernel

/-- One method is called like a name that strict code does not bind, one has underscores only, and one
has a digit behind them. -/
theorem illegal_exports :
    Named [itemService "Math" ["Eval", "_", "_2d"]] ∧
      exported (statements "math.proto" [itemService "Math" ["Eval", "_", "_2d"]]) = ["eval", "", "2d"] ∧
      ∀ name ∈ ["eval", "", "2d"], ¬IsBinding name := by
  decide +kernel

end ConnectQuery

end TrpcRouters

import TrpcRouters.Proofs.Text.Json
import TrpcRouters.Proofs.Text.Pieces
import TrpcRouters.Proofs.Verbs
import TrpcRouters.Router.Factory

/-! The policy as generated code carries it out. The shared module declares the verbs in force as two
constants, each on a line of its own, and answers whether a method is a query by the first. -/

namespace TrpcRouters

namespace Factory
open Source

def between? (start end_ line : List Char) : Option (List Char) :=
  let rest := line.drop start.length
  if start.isPrefixOf line && end_.isSuffixOf rest then some (rest.take (rest.length - end_.length))
  else none

theorem between?_append (start middle end_ : List Char) :
    between? start end_ (start ++ (middle ++ end_)) = some middle := by
  simp [between?]

theorem between?_eq_none {start line : List Char} (other : start.isPrefixOf line = false)
    (end_ : List Char) : between? start end_ line = none := by
  simp [between?, other]

def constantStart (name : String) : String :=
  "export const " ++ name ++ " = "

def constantEnd : String :=
  " as const;"

/-- What a module declares a constant to be, on the first line that does so. -/
def constantText? (name code : String) : Option (List Char) :=
  (Text.cut '\n' code.toList).findSome? (between? (constantStart name).toList constantEnd.toList)

def constant? (name code : String) : Option (List String) :=
  (constantText? name code).bind Text.Json.read?

def isQueryDeclaration : Statement :=
  .exportFunction "isQuery" "(name: string): boolean"
    "\treturn QUERY_PREFIXES.some((prefix) => name.startsWith(prefix));\n"

/-- What the function `isQuery` of a module answers: whether some text of the constant begins the name,
code unit by code unit. -/
def isQuery? (code name : String) : Option Bool :=
  (constant? "QUERY_PREFIXES" code).map fun verbs => verbs.any fun verb =>
    (Text.Utf16.encode verb.toList).isPrefixOf (Text.Utf16.encode name.toList)

def opening : List Statement :=
  [header,
    .importNames ["initTRPC"] "@trpc/server",
    .importTypes [⟨"AnyService", none⟩, ⟨"MethodInfoUnary", none⟩, ⟨"Client", none⟩]
      "@connectrpc/connect",
    .blank,
    .exportConst "t" "initTRPC.create()",
    .blank,
    .exportFunction "protobuf" "<T>()" "\treturn (value: unknown) => value as T;\n"]

def ending : List Statement :=
  [.blank, isQueryDeclaration, .blank,
    .exportFunction "createServiceRouter"
      "<T extends AnyService>(\n\tservice: T,\n\tclient: Client<T>,\n)" createServiceRouter]

theorem toList_render (statements : List Statement) :
    (render statements).toList = statements.flatMap fun statement => statement.text.toList := by
  rw [render, String.toList_join, List.flatMap_map]

def constantLine (name : String) (verbs : List String) : String :=
  constantStart name ++ Text.Json.array verbs ++ constantEnd

theorem text_exportConst (name : String) (verbs : List String) :
    (Statement.exportConst name (constArray verbs)).text = constantLine name verbs ++ "\n" := by
  have ends : " as const" ++ ";\n" = " as const;" ++ "\n" := rfl
  have text : (Statement.exportConst name (constArray verbs)).text =
      "export const " ++ name ++ " = " ++ (Text.Json.array verbs ++ " as const") ++ ";\n" := by
    rw [constArray]
    rfl
  rw [text, constantLine, constantStart, constantEnd]
  simp only [String.append_assoc, ends]

/-- Two lines of the module declare the constants, and those around them are the same for all rules. -/
theorem code_eq (rules : VerbRules) :
    code rules = render opening ++ "\n" ++ (constantLine "QUERY_PREFIXES" rules.query ++ "\n") ++
      (constantLine "MUTATION_PREFIXES" rules.mutation ++ "\n") ++ render ending := by
  have split : statements rules = opening ++
      [.blank, .exportConst "QUERY_PREFIXES" (constArray rules.query),
        .exportConst "MUTATION_PREFIXES" (constArray rules.mutation)] ++ ending := rfl
  have blank : Statement.blank.text = "\n" := rfl
  rw [code, split, render, List.map_append, List.map_append, String.join_append, String.join_append]
  simp only [render, List.map_cons, List.map_nil, text_exportConst, blank, String.join_cons,
    String.join_nil, String.append_assoc, String.append_empty]

theorem newline_notMem_constantLine {name : String} (plain : '\n' ∉ name.toList) (verbs : List String) :
    '\n' ∉ (constantLine name verbs).toList := by
  have start : '\n' ∉ "export const ".toList ∧ '\n' ∉ " = ".toList ∧ '\n' ∉ " as const;".toList := by
    decide +kernel
  simp only [constantLine, constantStart, constantEnd, String.toList_append, List.mem_append, not_or]
  exact ⟨⟨⟨⟨start.1, plain⟩, start.2.1⟩, Text.Json.newline_notMem_array verbs⟩, start.2.2⟩

theorem cut_code (rules : VerbRules) :
    Text.cut '\n' (code rules).toList = Text.cut '\n' (render opening).toList ++
      ((constantLine "QUERY_PREFIXES" rules.query).toList ::
        (constantLine "MUTATION_PREFIXES" rules.mutation).toList ::
          Text.cut '\n' (render ending).toList) := by
  have newline : "\n".toList = ['\n'] := rfl
  have query : '\n' ∉ (constantLine "QUERY_PREFIXES" rules.query).toList :=
    newline_notMem_constantLine (by decide +kernel) rules.query
  have mutation : '\n' ∉ (constantLine "MUTATION_PREFIXES" rules.mutation).toList :=
    newline_notMem_constantLine (by decide +kernel) rules.mutation
  have shape : (code rules).toList = (render opening).toList ++
      '\n' :: ((constantLine "QUERY_PREFIXES" rules.query).toList ++
        '\n' :: ((constantLine "MUTATION_PREFIXES" rules.mutation).toList ++
          '\n' :: (render ending).toList)) := by
    simp only [code_eq, String.toList_append, newline, List.append_assoc, List.cons_append,
      List.nil_append]
  rw [shape, Text.cut_append, Text.cut_append, Text.cut_append, Text.cut_of_notMem query,
    Text.cut_of_notMem mutation, List.singleton_append, List.singleton_append]

theorem between?_constantLine (name : String) (verbs : List String) :
    between? (constantStart name).toList constantEnd.toList (constantLine name verbs).toList =
      some (Text.Json.array verbs).toList := by
  rw [constantLine, String.toList_append, String.toList_append, List.append_assoc, between?_append]

/-- No constant is declared before the two. Their names hold an underscore, and nothing before them does. -/
theorem findSome?_opening {name : String} (underscore : '_' ∈ name.toList) :
    (Text.cut '\n' (render opening).toList).findSome?
      (between? (constantStart name).toList constantEnd.toList) = none := by
  have absent : '_' ∉ (render opening).toList := by
    have plain : ∀ statement ∈ opening, '_' ∉ statement.text.toList := by decide +kernel
    rw [toList_render, List.mem_flatMap]
    rintro ⟨statement, among, inside⟩
    exact plain statement among inside
  rw [List.findSome?_eq_none_iff]
  intro line member
  apply between?_eq_none
  rw [Bool.eq_false_iff, Ne, List.isPrefixOf_iff_prefix]
  intro begins
  have inside : '_' ∈ (constantStart name).toList := by simp [constantStart, underscore]
  exact absent (Text.mem_of_mem_cut member (begins.subset inside))

theorem constantText?_query (rules : VerbRules) :
    constantText? "QUERY_PREFIXES" (code rules) = some (Text.Json.array rules.query).toList := by
  rw [constantText?, cut_code, List.findSome?_append, findSome?_opening (by decide), Option.none_or,
    List.findSome?_cons, between?_constantLine]

theorem constantText?_mutation (rules : VerbRules) :
    constantText? "MUTATION_PREFIXES" (code rules) = some (Text.Json.array rules.mutation).toList := by
  have other : (constantStart "MUTATION_PREFIXES").toList.isPrefixOf
      (constantLine "QUERY_PREFIXES" rules.query).toList = false := by
    rw [Bool.eq_false_iff, Ne, List.isPrefixOf_iff_prefix, constantLine, String.toList_append,
      String.toList_append, List.append_assoc]
    intro begins
    have apart : ¬(constantStart "MUTATION_PREFIXES").toList <+: (constantStart "QUERY_PREFIXES").toList ∧
        ¬(constantStart "QUERY_PREFIXES").toList <+: (constantStart "MUTATION_PREFIXES").toList := by
      decide +kernel
    exact (List.prefix_or_prefix_of_prefix begins (List.prefix_append _ _)).elim apart.1 apart.2
  rw [constantText?, cut_code, List.findSome?_append, findSome?_opening (by decide), Option.none_or,
    List.findSome?_cons, between?_eq_none other, List.findSome?_cons, between?_constantLine]

/-- Unit by unit, the same names begin with a verb as character by character. -/
theorem any_encode (verbs : List String) (name : String) :
    (verbs.any fun verb =>
      (Text.Utf16.encode verb.toList).isPrefixOf (Text.Utf16.encode name.toList)) =
      VerbRules.startsWithAny verbs name := by
  have each : ∀ verb : String,
      (Text.Utf16.encode verb.toList).isPrefixOf (Text.Utf16.encode name.toList) =
        verb.toList.isPrefixOf name.toList := by
    intro verb
    rw [Bool.eq_iff_iff, List.isPrefixOf_iff_prefix, List.isPrefixOf_iff_prefix,
      Text.Utf16.encode_prefix_encode_iff]
  simp only [each, VerbRules.startsWithAny]

theorem constant?_query (rules : VerbRules) :
    constant? "QUERY_PREFIXES" (code rules) = some rules.query := by
  rw [constant?, constantText?_query, Option.bind_some, Text.Json.read?_array]

theorem constant?_mutation (rules : VerbRules) :
    constant? "MUTATION_PREFIXES" (code rules) = some rules.mutation := by
  rw [constant?, constantText?_mutation, Option.bind_some, Text.Json.read?_array]

theorem isQuery?_code (rules : VerbRules) (name : String) :
    isQuery? (code rules) name = some (VerbRules.startsWithAny rules.query name) := by
  rw [isQuery?, constant?_query, Option.map_some, any_encode]

theorem isQueryDeclaration_infix (rules : VerbRules) :
    isQueryDeclaration.text.toList <:+: (code rules).toList := by
  obtain ⟨front, back, split⟩ := List.append_of_mem (a := isQueryDeclaration) (l := statements rules)
    (by simp [statements, isQueryDeclaration])
  refine ⟨(render front).toList, (render back).toList, ?_⟩
  rw [code, split, toList_render, toList_render, toList_render, List.flatMap_append, List.flatMap_cons,
    List.append_assoc]

/-- The constants of the shared module hold the verbs in force, and `isQuery` answers for every name what
the policy makes of it, whether the defaults are put in beforehand or on the way. -/
theorem isQuery_agrees (query mutation : Option (List String)) :
    constant? "QUERY_PREFIXES" (code (.ofLists query mutation)) =
      some (VerbRules.ofLists query mutation).query ∧
    constant? "MUTATION_PREFIXES" (code (.ofLists query mutation)) =
      some (VerbRules.ofLists query mutation).mutation ∧
    isQueryDeclaration.text.toList <:+: (code (.ofLists query mutation)).toList ∧
    ∀ name, isQuery? (code (.ofLists query mutation)) name =
        some (decide ((VerbRules.ofLists query mutation).classify name = .query)) ∧
      ((VerbRules.ofLists query mutation).classify name = .query ↔
        VerbRules.kindUnder (query.getD []) (mutation.getD []) name = .query) := by
  refine ⟨constant?_query _, constant?_mutation _, isQueryDeclaration_infix _, fun name => ⟨?_, ?_⟩⟩
  · rw [isQuery?_code, VerbRules.startsWithAny_ofLists]
  · rw [VerbRules.classify_ofLists]

end Factory

end TrpcRouters

import TrpcRouters.Compiler.Command
import TrpcRouters.Proofs.Text.Raw

/-! What can be read back from the arguments of the compiler. No flag is the beginning of another one, and
the files to compile begin with a separator, so every argument tells what it is by how it begins, whatever
the paths behind the flags look like. The arguments are texts, so they tell of a path what is shown for it,
which is all of it just where its bytes encode a text. -/

namespace TrpcRouters

namespace Path

def shown (path : Path) : Path :=
  .ofText path.text

@[simp] theorem text_ofText (text : String) : (ofText text).text = text :=
  RawString.text_ofText text

theorem shown_of_isText {path : Path} (whole : path.raw.IsText) : path.shown = path :=
  congrArg Path.mk whole

theorem head?_text_of_isAbsolute {path : Path} (absolute : path.isAbsolute = true) :
    ∃ rest, path.text.toList = '/' :: rest := by
  obtain ⟨more, bytes⟩ := List.head?_eq_some_iff.mp (eq_of_beq absolute)
  have first := Text.decodeFrom_encodeChar '/' more
  exact ⟨_, by rw [text, RawString.text, Text.decodeLossy, String.toList_ofList, bytes]; exact first⟩

end Path

def optionValues (flag : String) (arguments : List String) : List String :=
  arguments.filterMap fun argument =>
    if flag.toList.isPrefixOf argument.toList then
      some (String.ofList (argument.toList.drop flag.toList.length))
    else none

def begins (flag argument : String) : Bool :=
  flag.toList.isPrefixOf argument.toList

theorem begins_append (flag value : String) : begins flag (flag ++ value) = true := by
  simp [begins]

theorem optionValues_eq (flag : String) (arguments : List String) :
    optionValues flag arguments = (arguments.filter (begins flag)).map fun argument =>
      String.ofList (argument.toList.drop flag.toList.length) := by
  rw [optionValues, ← List.filterMap_eq_map, List.filterMap_filter]
  rfl

namespace CompileRequest

def options (request : CompileRequest) (importRoots : List Path) : List String :=
  { request with protoFiles := [] }.arguments importRoots

theorem arguments_eq (request : CompileRequest) (importRoots : List Path) :
    request.arguments importRoots = request.options importRoots ++ request.protoFiles.map Path.text := by
  simp [options, arguments]

def flags : List String :=
  ["--connect-es_out=", "--es_out=", "--proto_path=", "--experimental_allow_proto3_optional",
    "--descriptor_set_out=", "--include_imports"]

/-- The flags of a request in order, each with what stands behind it. -/
def settings (request : CompileRequest) (importRoots : List Path) : List (String × String) :=
  [("--connect-es_out=", request.output.text), ("--es_out=", request.output.text)] ++
  (request.protoRoot :: importRoots).map (fun root => ("--proto_path=", root.text)) ++
  [("--experimental_allow_proto3_optional", "")] ++
  match request.descriptorSet with
  | some file => [("--descriptor_set_out=", file.text), ("--include_imports", "")]
  | none => []

def written (setting : String × String) : String :=
  setting.1 ++ setting.2

section Flags
variable {flag other : String}

theorem options_eq (request : CompileRequest) (importRoots : List Path) :
    request.options importRoots = (request.settings importRoots).map written := by
  cases shape : request.descriptorSet <;>
    simp [options, arguments, settings, written, shape, Function.comp_def]

theorem mem_flags {request : CompileRequest} {importRoots : List Path} {setting : String × String}
    (member : setting ∈ request.settings importRoots) : setting.1 ∈ flags := by
  simp only [settings, List.mem_append] at member
  rcases member with ((outputs | roots) | optional) | descriptor
  · simp only [List.mem_cons, List.not_mem_nil, or_false] at outputs
    rcases outputs with rfl | rfl <;> simp [flags]
  · obtain ⟨_, _, rfl⟩ := List.mem_map.mp roots
    simp [flags]
  · rw [List.mem_singleton.mp optional]
    simp [flags]
  · split at descriptor
    · simp only [List.mem_cons, List.not_mem_nil, or_false] at descriptor
      rcases descriptor with rfl | rfl <;> simp [flags]
    · cases descriptor

/-- An argument begins with the flag that it was written with and with no other one. -/
theorem begins_iff (known : flag ∈ flags) (known' : other ∈ flags) (value : String) :
    begins flag (other ++ value) = true ↔ flag = other := by
  have apart : ∀ flag ∈ flags, ∀ other ∈ flags, flag.toList <+: other.toList → flag = other := by
    decide
  constructor
  · intro starts
    have front : flag.toList <+: other.toList ++ value.toList := by
      simpa [begins] using starts
    rcases List.prefix_or_prefix_of_prefix front (List.prefix_append ..) with short | long
    · exact apart flag known other known' short
    · exact (apart other known' flag known long).symm
  · rintro rfl
    exact begins_append flag value

theorem filter_options (request : CompileRequest) (importRoots : List Path) (known : flag ∈ flags) :
    (request.options importRoots).filter (begins flag) =
      ((request.settings importRoots).filter (·.1 = flag)).map written := by
  rw [options_eq, List.filter_map]
  congr 1
  refine List.filter_congr fun setting member => ?_
  rw [Bool.eq_iff_iff, decide_eq_true_iff, eq_comm (a := setting.1)]
  exact begins_iff known (mem_flags member) setting.2

theorem optionValues_options (request : CompileRequest) (importRoots : List Path) (known : flag ∈ flags) :
    optionValues flag (request.options importRoots) =
      ((request.settings importRoots).filter (·.1 = flag)).map Prod.snd := by
  rw [optionValues_eq, filter_options request importRoots known, List.map_map]
  refine List.map_congr_left fun setting member => ?_
  have same : setting.1 = flag := by simpa using (List.mem_filter.mp member).2
  simp [written, same]

theorem filter_settings (request : CompileRequest) (importRoots : List Path) :
    (request.settings importRoots).filter (·.1 = "--connect-es_out=") =
        [("--connect-es_out=", request.output.text)] ∧
      (request.settings importRoots).filter (·.1 = "--es_out=") = [("--es_out=", request.output.text)] ∧
      (request.settings importRoots).filter (·.1 = "--proto_path=") =
        (request.protoRoot :: importRoots).map (fun root => ("--proto_path=", root.text)) ∧
      (request.settings importRoots).filter (·.1 = "--descriptor_set_out=") =
        request.descriptorSet.toList.map fun file => ("--descriptor_set_out=", file.text) := by
  cases shape : request.descriptorSet <;>
    simp [settings, shape, List.filter_map, Function.comp_def, List.filter_eq_self.mpr]

theorem roots_of_options (request : CompileRequest) (importRoots : List Path) :
    optionValues "--proto_path=" (request.options importRoots) =
      (request.protoRoot :: importRoots).map Path.text := by
  rw [optionValues_options request importRoots (by decide), (filter_settings request importRoots).2.2.1,
    List.map_map]
  rfl

end Flags

def shown (request : CompileRequest) : CompileRequest :=
  ⟨request.protoFiles.map Path.shown, request.output.shown, request.protoRoot.shown,
    request.descriptorSet.map Path.shown⟩

/-- All paths of a request and all further import roots encode texts. -/
structure Legible (request : CompileRequest) (importRoots : List Path) : Prop where
  files : ∀ file ∈ request.protoFiles, file.raw.IsText
  output : request.output.raw.IsText
  protoRoot : request.protoRoot.raw.IsText
  descriptorSet : ∀ file ∈ request.descriptorSet, file.raw.IsText
  importRoots : ∀ root ∈ importRoots, root.raw.IsText

/-- The request and the further import roots that arguments show. -/
def ofArguments? (arguments : List String) : Option (CompileRequest × List Path) :=
  match optionValues "--es_out=" arguments, optionValues "--proto_path=" arguments with
  | [output], primary :: further =>
    some ({ protoFiles := (arguments.filter fun argument => !begins "--" argument).map Path.ofText
            output := .ofText output
            protoRoot := .ofText primary
            descriptorSet := (optionValues "--descriptor_set_out=" arguments).head?.map Path.ofText },
      further.map Path.ofText)
  | _, _ => none

section Shown
variable {request : CompileRequest} {importRoots : List Path}

theorem arguments_shown : request.shown.arguments (importRoots.map Path.shown) = request.arguments importRoots := by
  cases shape : request.descriptorSet <;>
    simp [arguments, shown, Path.shown, shape, Function.comp_def]

theorem shown_of_legible (legible : Legible request importRoots) :
    request.shown = request ∧ importRoots.map Path.shown = importRoots := by
  have whole {paths : List Path} (all : ∀ path ∈ paths, path.raw.IsText) : paths.map Path.shown = paths :=
    (List.map_congr_left fun path member => Path.shown_of_isText (all path member)).trans (List.map_id' paths)
  have optional : request.descriptorSet.map Path.shown = request.descriptorSet := by
    cases shape : request.descriptorSet with
    | none => rfl
    | some file => exact congrArg some (Path.shown_of_isText (legible.descriptorSet file shape))
  refine ⟨?_, whole legible.importRoots⟩
  rw [shown, whole legible.files, optional, Path.shown_of_isText legible.output,
    Path.shown_of_isText legible.protoRoot]

end Shown

section Absolute
variable {request : CompileRequest} {flag : String}

theorem begins_of_isAbsolute {file : Path} (absolute : file.isAbsolute = true)
    (dashed : flag.toList.head? = some '-') : begins flag file.text = false := by
  obtain ⟨rest, letters⟩ := List.head?_eq_some_iff.mp dashed
  obtain ⟨more, text⟩ := Path.head?_text_of_isAbsolute absolute
  rw [begins, letters, text, List.isPrefixOf_cons_cons]
  rfl

/-- An absolute path is no option, so the files do not count where a flag is looked for. -/
theorem filter_arguments (importRoots : List Path)
    (absolute : ∀ file ∈ request.protoFiles, file.isAbsolute = true)
    (dashed : flag.toList.head? = some '-') :
    (request.arguments importRoots).filter (begins flag) =
      (request.options importRoots).filter (begins flag) := by
  have none_ : (request.protoFiles.map Path.text).filter (begins flag) = [] := by
    rw [List.filter_eq_nil_iff]
    intro text member
    obtain ⟨file, inside, rfl⟩ := List.mem_map.mp member
    simp [begins_of_isAbsolute (absolute file inside) dashed]
  rw [arguments_eq, List.filter_append, none_, List.append_nil]

theorem filter_flag (importRoots : List Path)
    (absolute : ∀ file ∈ request.protoFiles, file.isAbsolute = true) (known : flag ∈ flags) :
    (request.arguments importRoots).filter (begins flag) =
      ((request.settings importRoots).filter (·.1 = flag)).map written := by
  have dashed : ∀ flag ∈ flags, flag.toList.head? = some '-' := by decide
  rw [filter_arguments importRoots absolute (dashed flag known), filter_options request importRoots known]

theorem optionValues_arguments (importRoots : List Path)
    (absolute : ∀ file ∈ request.protoFiles, file.isAbsolute = true) (known : flag ∈ flags) :
    optionValues flag (request.arguments importRoots) =
      ((request.settings importRoots).filter (·.1 = flag)).map Prod.snd := by
  rw [← optionValues_options request importRoots known, optionValues_eq, optionValues_eq,
    filter_flag importRoots absolute known, filter_options request importRoots known]

theorem files_of_arguments (importRoots : List Path)
    (absolute : ∀ file ∈ request.protoFiles, file.isAbsolute = true) :
    ((request.arguments importRoots).filter fun argument => !begins "--" argument) =
      request.protoFiles.map Path.text := by
  have dashed : ∀ flag ∈ flags, ['-', '-'] <+: flag.toList := by decide
  have dash : "--".toList.head? = some '-' := by decide
  have options : ((request.options importRoots).filter fun argument => !begins "--" argument) = [] := by
    rw [options_eq, List.filter_eq_nil_iff]
    intro argument member
    obtain ⟨setting, inside, rfl⟩ := List.mem_map.mp member
    have front := (dashed _ (mem_flags inside)).trans (List.prefix_append _ setting.2.toList)
    simpa [begins, written] using front
  have files : ((request.protoFiles.map Path.text).filter fun argument => !begins "--" argument) =
      request.protoFiles.map Path.text := by
    rw [List.filter_eq_self]
    intro text member
    obtain ⟨file, inside, rfl⟩ := List.mem_map.mp member
    simp [begins_of_isAbsolute (absolute file inside) dash]
  rw [arguments_eq, List.filter_append, options, files, List.nil_append]

theorem ofArguments?_arguments (importRoots : List Path)
    (absolute : ∀ file ∈ request.protoFiles, file.isAbsolute = true) :
    ofArguments? (request.arguments importRoots) = some (request.shown, importRoots.map Path.shown) := by
  obtain ⟨_, output, roots, descriptor⟩ := filter_settings request importRoots
  rw [ofArguments?, optionValues_arguments importRoots absolute (by decide), output,
    optionValues_arguments importRoots absolute (by decide), roots,
    optionValues_arguments importRoots absolute (by decide), descriptor,
    files_of_arguments importRoots absolute]
  cases request with
  | mk files output primary descriptorSet =>
    cases descriptorSet <;> simp [shown, Path.shown, Function.comp_def]

end Absolute

/-- The arguments of the compiler tell what is shown for the paths of the request and of the further import
roots that they were made from, and no more: requests for absolute files have the same arguments just if the
same is shown for them. If all paths are texts, no two such requests have the same arguments. The arguments
without two dashes in front are the files in their order. Each of the options for a place to write to is
given once, the one for the descriptor set only if that is wanted. -/
theorem arguments_unambiguous (request : CompileRequest) (importRoots : List Path)
    (absolute : ∀ file ∈ request.protoFiles, file.isAbsolute = true) :
    let arguments := request.arguments importRoots
    ofArguments? arguments = some (request.shown, importRoots.map Path.shown) ∧
      (∀ (other : CompileRequest) (otherRoots : List Path),
        (∀ file ∈ other.protoFiles, file.isAbsolute = true) →
          (other.arguments otherRoots = arguments ↔
            other.shown = request.shown ∧ otherRoots.map Path.shown = importRoots.map Path.shown)) ∧
      (Legible request importRoots →
        ofArguments? arguments = some (request, importRoots) ∧
        ∀ (other : CompileRequest) (otherRoots : List Path), Legible other otherRoots →
          (∀ file ∈ other.protoFiles, file.isAbsolute = true) → other.arguments otherRoots = arguments →
            other = request ∧ otherRoots = importRoots) ∧
      (arguments.filter fun argument => !begins "--" argument) = request.protoFiles.map Path.text ∧
      arguments.filter (begins "--connect-es_out=") = ["--connect-es_out=" ++ request.output.text] ∧
      arguments.filter (begins "--es_out=") = ["--es_out=" ++ request.output.text] ∧
      arguments.filter (begins "--descriptor_set_out=") =
        request.descriptorSet.toList.map fun file => "--descriptor_set_out=" ++ file.text := by
  intro arguments
  have back := ofArguments?_arguments importRoots absolute
  obtain ⟨connect, output, _, descriptor⟩ := filter_settings request importRoots
  refine ⟨back, ?shown, ?legible, files_of_arguments importRoots absolute, ?connect, ?output, ?descriptor⟩
  case shown =>
    intro other otherRoots absolute'
    constructor
    · intro same
      have back' := ofArguments?_arguments otherRoots absolute'
      rw [same, back, Option.some.injEq, Prod.mk.injEq] at back'
      exact ⟨back'.1.symm, back'.2.symm⟩
    · rintro ⟨same, roots⟩
      rw [← arguments_shown, same, roots, arguments_shown]
  case legible =>
    intro legible
    obtain ⟨whole, roots⟩ := shown_of_legible legible
    rw [whole, roots] at back
    refine ⟨back, fun other otherRoots legible' absolute' same => ?_⟩
    obtain ⟨whole', roots'⟩ := shown_of_legible legible'
    have back' := ofArguments?_arguments otherRoots absolute'
    rw [same, back, whole', roots', Option.some.injEq, Prod.mk.injEq] at back'
    exact ⟨back'.1.symm, back'.2.symm⟩
  case connect =>
    rw [filter_flag importRoots absolute (by decide), connect]
    rfl
  case output =>
    rw [filter_flag importRoots absolute (by decide), output]
    rfl
  case descriptor =>
    rw [filter_flag importRoots absolute (by decide), descriptor, List.map_map]
    rfl

/-- Two files whose names encode no text are passed to the compiler as one. -/
theorem illegible_ambiguous :
    let first : CompileRequest := ⟨[⟨⟨[Path.slash, 0xff]⟩⟩], ⟨"out"⟩, ⟨"/"⟩, none⟩
    let second : CompileRequest := ⟨[⟨⟨[Path.slash, 0xfe]⟩⟩], ⟨"out"⟩, ⟨"/"⟩, none⟩
    (∀ file ∈ first.protoFiles ++ second.protoFiles, file.isAbsolute = true) ∧ first ≠ second ∧
      first.arguments [] = second.arguments [] := by
  decide

def disguised : CompileRequest :=
  ⟨[⟨"/--es_out=a.proto"⟩, ⟨"/p q.proto"⟩], ⟨"--es_out=x y"⟩, ⟨"--include_imports"⟩,
    some ⟨"--descriptor_set_out="⟩⟩

theorem disguised_unambiguous :
    (∀ file ∈ disguised.protoFiles, file.isAbsolute = true) ∧
      ofArguments? (disguised.arguments [⟨"--descriptor_set_out=z"⟩, ⟨""⟩]) =
        some (disguised, [⟨"--descriptor_set_out=z"⟩, ⟨""⟩]) ∧
      ((disguised.arguments [⟨"--descriptor_set_out=z"⟩, ⟨""⟩]).filter fun argument =>
        !begins "--" argument) = ["/--es_out=a.proto", "/p q.proto"] := by
  have absolute : ∀ file ∈ disguised.protoFiles, file.isAbsolute = true := by decide
  have legible : Legible disguised [⟨"--descriptor_set_out=z"⟩, ⟨""⟩] := by
    constructor <;> decide
  obtain ⟨_, _, exact_, files, _⟩ :=
    arguments_unambiguous disguised [⟨"--descriptor_set_out=z"⟩, ⟨""⟩] absolute
  exact ⟨absolute, (exact_ legible).1, files⟩

end CompileRequest

end TrpcRouters

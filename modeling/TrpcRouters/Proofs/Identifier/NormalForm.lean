import Mathlib.Data.List.TakeWhile
import TrpcRouters.Proofs.Identifier
import TrpcRouters.Proofs.Text.Case

/-! The client's names for methods as normal forms of texts. A name that has no underscore, begins with a
character that lowering leaves alone and is none that every object inherits is kept, and every name that is
given is one of these, so to give it once more changes nothing. -/

namespace TrpcRouters.Identifier

/-- A name in camel case: no underscore, and nothing to lower in front. -/
structure Settled (name : String) : Prop where
  joined : '_' ∉ name.toList
  lowered : ∀ c ∈ name.toList.head?, Text.lower c = [c]

theorem humps_of_notMem {text : List Char} (plain : '_' ∉ text) : humps false text = text := by
  induction text with
  | nil => rfl
  | cons c rest ih =>
    rw [List.mem_cons, not_or] at plain
    rw [humps, if_neg (Ne.symm plain.1), if_neg Bool.false_ne_true, ih plain.2]
    rfl

theorem underscore_notMem_humps (raise : Bool) (text : List Char) : '_' ∉ humps raise text := by
  induction text generalizing raise with
  | nil => exact List.not_mem_nil
  | cons c rest ih =>
    rw [humps]
    split
    next => exact ih true
    next other =>
      rw [List.mem_append, not_or]
      refine ⟨?_, ih false⟩
      cases raise with
      | true => exact fun member => other (Text.underscore_of_mem_upper member).symm
      | false => simpa using Ne.symm other

theorem humps_eq_nil_iff {raise : Bool} {text : List Char} :
    humps raise text = [] ↔ ∀ c ∈ text, c = '_' := by
  induction text generalizing raise with
  | nil => simp [humps]
  | cons c rest ih =>
    rw [humps, List.forall_mem_cons]
    split
    next same => simp [same, ih]
    next other => cases raise <;> simp [other, Text.upper_ne_nil]

theorem lowerFirst_eq_nil_iff {text : List Char} : lowerFirst text = [] ↔ text = [] := by
  cases text with
  | nil => rfl
  | cons c rest => simp [lowerFirst, Text.lower_ne_nil]

theorem underscore_notMem_lowerFirst {text : List Char} (plain : '_' ∉ text) :
    '_' ∉ lowerFirst text := by
  cases text with
  | nil => exact plain
  | cons c rest =>
    rw [List.mem_cons, not_or] at plain
    rw [lowerFirst, List.mem_append, not_or]
    exact ⟨fun member => plain.1 (Text.underscore_of_mem_lower member), plain.2⟩

theorem lower_head?_lowerFirst (text : List Char) :
    ∀ c ∈ (lowerFirst text).head?, Text.lower c = [c] := by
  intro c first
  cases text with
  | nil => cases first
  | cons front rest =>
    obtain ⟨head, tail, shape⟩ := List.exists_cons_of_ne_nil (Text.lower_ne_nil (c := front))
    rw [lowerFirst, shape, List.cons_append, List.head?_cons, Option.mem_some_iff] at first
    subst first
    exact Text.lower_of_mem_lower (c := front) (by simp [shape])

theorem settled_camel (name : String) : Settled (camel name) where
  joined := by
    rw [camel, String.toList_ofList]
    exact underscore_notMem_lowerFirst (underscore_notMem_humps false _)
  lowered := by
    rw [camel, String.toList_ofList]
    exact lower_head?_lowerFirst _

theorem camel_of_settled {name : String} (settled : Settled name) : camel name = name := by
  have front : name.toList.dropWhile (· = '_') = name.toList := by
    cases letters : name.toList with
    | nil => rfl
    | cons c rest =>
      have other : c ≠ '_' := by
        rintro rfl
        exact settled.joined (by simp [letters])
      exact List.dropWhile_cons_of_neg (by simpa using other)
  apply String.toList_inj.mp
  rw [camel, String.toList_ofList, front, humps_of_notMem settled.joined]
  cases letters : name.toList with
  | nil => rfl
  | cons c rest =>
    have same := settled.lowered c (by simp [letters])
    rw [lowerFirst, same]
    rfl

theorem camel_eq_empty_iff {name : String} : camel name = "" ↔ ∀ c ∈ name.toList, c = '_' := by
  rw [← String.toList_inj, camel, String.toList_ofList, String.toList_empty, lowerFirst_eq_nil_iff,
    humps_eq_nil_iff]
  constructor
  · intro rest c member
    rw [← List.takeWhile_append_dropWhile (p := (· = '_')) (l := name.toList)] at member
    rcases List.mem_append.mp member with here | there
    · simpa using List.mem_takeWhile_imp here
    · exact rest c there
  · exact fun all c member => all c (List.dropWhile_subset _ member)

theorem settled_dollar {name : String} (some_ : name ≠ "") (settled : Settled name) :
    Settled (name ++ "$") := by
  constructor
  · rw [String.toList_append, List.mem_append, not_or]
    exact ⟨settled.joined, by decide⟩
  · intro c first
    apply settled.lowered
    cases letters : name.toList with
    | nil => exact absurd (String.toList_eq_nil_iff.mp letters) some_
    | cons front rest => simpa [letters] using first

theorem empty_notMem_inherited : "" ∉ inherited := by
  decide

theorem dollar_notMem_inherited (name : String) : name ++ "$" ∉ inherited := by
  intro member
  have plain : ∀ word ∈ inherited, '$' ∉ word.toList := by decide
  exact plain _ member (by simp)

theorem settled_method (name : String) : Settled (method name) := by
  rw [method_eq]
  split
  next own => exact settled_dollar (fun empty => empty_notMem_inherited (empty ▸ own)) (settled_camel name)
  next => exact settled_camel name

theorem method_notMem_inherited (name : String) : method name ∉ inherited := by
  rw [method_eq]
  split
  next => exact dollar_notMem_inherited _
  next free => exact free

theorem method_eq_self_iff {name : String} :
    method name = name ↔ Settled name ∧ name ∉ inherited := by
  constructor
  · intro same
    rw [← same]
    exact ⟨settled_method name, method_notMem_inherited name⟩
  · rintro ⟨settled, free⟩
    rw [method_eq, camel_of_settled settled, if_neg free]

theorem method_eq_empty_iff {name : String} : method name = "" ↔ ∀ c ∈ name.toList, c = '_' := by
  rw [← camel_eq_empty_iff, method_eq]
  split
  next own =>
    have some_ : camel name ≠ "" := fun empty => empty_notMem_inherited (empty ▸ own)
    simp [some_]
  next => exact Iff.rfl

/-- For any text the client's name is in normal form: it has no underscore, is none of the names that every
object inherits, is empty only for underscores and nothing else, and begins with a character that lowering
leaves alone. The client's name for it is the name itself. -/
theorem method_normal_form (name : String) :
    '_' ∉ (method name).toList ∧
      method name ∉ ["constructor", "toString", "toJSON", "valueOf"] ∧
      (method name = "" ↔ ∀ c ∈ name.toList, c = '_') ∧
      (∀ c ∈ (method name).toList.head?, Text.lower c = [c]) ∧
      method (method name) = method name := by
  have settled := settled_method name
  have free := method_notMem_inherited name
  exact ⟨settled.joined, free, method_eq_empty_iff, settled.lowered, method_eq_self_iff.mpr ⟨settled, free⟩⟩

/-- Raising and lowering may each give two characters for one. -/
example : method "__İtem__ßtore_" = "i\u0307temSStore" := by
  decide +kernel

end TrpcRouters.Identifier

import Mathlib.Data.List.Forall2
import TrpcRouters.Proofs.Text.Blank
import TrpcRouters.Verbs

/-! The verbs in force. Whatever entries a user writes, the verbs that they come to are never none and
never empty, so that there is no prefix that every name has. They are those of the entries that hold more
than blanks, or the defaults where no entry does, and blanks more or less change nothing. -/

namespace TrpcRouters.VerbRules
open Text

theorem orDefault_orDefault (defaults verbs : List String) :
    orDefault defaults (orDefault defaults verbs) = orDefault defaults verbs := by
  cases verbs with
  | nil => cases defaults <;> rfl
  | cons verb rest => rfl

/-- A method is asked for its kind under the verbs that stand for none, as under none. -/
theorem kindUnder_eq (query mutation : List String) (name : String) :
    kindUnder query mutation name =
      if startsWithAny (orDefault defaultQuery query) name then .query else .mutation := by
  cases query <;> rfl

/-- Defaults put in when the rules are made are those put in when they are asked. -/
theorem classify_ofLists (query mutation : Option (List String)) (name : String) :
    (ofLists query mutation).classify name = kindUnder (query.getD []) (mutation.getD []) name := by
  rw [classify, kindUnder_eq, kindUnder_eq, ofLists, orDefault_orDefault]

theorem startsWithAny_ofLists (query mutation : Option (List String)) (name : String) :
    startsWithAny (ofLists query mutation).query name =
      decide ((ofLists query mutation).classify name = .query) := by
  rw [classify, kindUnder_eq, ofLists, orDefault_orDefault]
  split <;> simp_all

/-- A text that can be a verb: it is not empty, and no blank stands at its ends. -/
def Proper (verb : String) : Prop :=
  verb ≠ "" ∧ Solid verb.toList

instance (verb : String) : Decidable (Proper verb) :=
  inferInstanceAs (Decidable (_ ∧ _))

def isWord (entry : String) : Bool :=
  !allBlank entry.toList

theorem isWord_iff (entry : String) : isWord entry = true ↔ trimmed entry ≠ "" := by
  rw [ne_eq, trimmed_eq_empty_iff, ← allBlank_iff, isWord, Bool.not_eq_true', Bool.not_eq_true]

theorem cleaned_cons (entry : String) (rest : List String) :
    cleaned (entry :: rest) = if isWord entry then trimmed entry :: cleaned rest else cleaned rest := by
  simp only [cleaned, List.map_cons, List.filter_cons, isWord_iff, decide_eq_true_eq]

/-- The verbs that are left of some entries are the words of those that hold one, in their order. -/
theorem trims_cleaned (raw : List String) : List.Forall₂ Trims (raw.filter isWord) (cleaned raw) := by
  induction raw with
  | nil => exact .nil
  | cons entry rest ih =>
    rw [cleaned_cons, List.filter_cons]
    split
    · exact .cons (trims_trimmed entry) ih
    · exact ih

theorem cleaned_eq_nil_iff {raw : List String} :
    cleaned raw = [] ↔ ∀ entry ∈ raw, AllBlank entry.toList := by
  simp [cleaned, List.filter_eq_nil_iff, trimmed_eq_empty_iff]

theorem proper_of_mem_cleaned {raw : List String} {verb : String} (member : verb ∈ cleaned raw) :
    Proper verb := by
  obtain ⟨inside, some_⟩ := List.mem_filter.mp member
  obtain ⟨entry, _, rfl⟩ := List.mem_map.mp inside
  exact ⟨by simpa using some_, (trims_trimmed entry).solid⟩

theorem cleaned_eq_self {verbs : List String} (proper : ∀ verb ∈ verbs, Proper verb) :
    cleaned verbs = verbs := by
  have same : verbs.map trimmed = verbs := by
    rw [List.map_congr_left fun verb member => trimmed_eq_self_iff.mpr (proper verb member).2,
      List.map_id']
  rw [cleaned, same, List.filter_eq_self]
  exact fun verb member => by simpa using (proper verb member).1

theorem normalized_some (raw : List String) :
    normalized (some raw) = if cleaned raw = [] then none else some (cleaned raw) := by
  rw [normalized, Option.map_some]
  cases cleaned raw <;> rfl

theorem getD_normalized (raw : Option (List String)) :
    (normalized raw).getD [] = cleaned (raw.getD []) := by
  cases raw with
  | none => rfl
  | some raw =>
    rw [normalized_some, Option.getD_some]
    split
    next nothing => rw [nothing, Option.getD_none]
    next => rw [Option.getD_some]

theorem ofWritten_eq (query mutation : Option (List String)) :
    ofWritten query mutation =
      ⟨orDefault defaultQuery (cleaned (query.getD [])),
        orDefault defaultMutation (cleaned (mutation.getD []))⟩ := by
  rw [ofWritten, ofLists, getD_normalized, getD_normalized]

/-- What the entries `raw` of a user come to, where `defaults` stand in for none. -/
structure InForce (defaults raw verbs : List String) : Prop where
  some_ : verbs ≠ []
  proper : ∀ verb ∈ verbs, Proper verb
  written : (∃ entry ∈ raw, ¬AllBlank entry.toList) → List.Forall₂ Trims (raw.filter isWord) verbs
  unwritten : (∀ entry ∈ raw, AllBlank entry.toList) → verbs = defaults
  /-- Written once more, the verbs are the same. -/
  again : normalized (some verbs) = some verbs

theorem inForce_orDefault {defaults : List String} (some_ : defaults ≠ [])
    (proper : ∀ verb ∈ defaults, Proper verb) (raw : List String) :
    InForce defaults raw (orDefault defaults (cleaned raw)) := by
  -- A list of proper verbs is read back as it is, so the last field is the same in both cases.
  have again : ∀ verbs : List String, verbs ≠ [] → (∀ verb ∈ verbs, Proper verb) →
      normalized (some verbs) = some verbs := by
    intro verbs filled good
    rw [normalized_some, cleaned_eq_self good, if_neg filled]
  cases left : cleaned raw with
  | nil =>
    have blank := cleaned_eq_nil_iff.mp left
    exact ⟨some_, proper, fun ⟨entry, member, word⟩ => absurd (blank entry member) word,
      fun _ => rfl, again defaults some_ proper⟩
  | cons verb rest =>
    have filled : verb :: rest ≠ [] := List.cons_ne_nil _ _
    have good : ∀ other ∈ verb :: rest, Proper other := fun other member =>
      proper_of_mem_cleaned (left ▸ member)
    have words := trims_cleaned raw
    rw [left] at words
    refine ⟨filled, good, fun _ => words, fun blank => ?_, again _ filled good⟩
    rw [cleaned_eq_nil_iff.mpr blank] at left
    cases left

/-- Entries with more blanks: around them, and as entries of their own. -/
inductive Padded : List String → List String → Prop where
  | nil : Padded [] []
  | blank {raw padded : List String} {entry : String} (blank : AllBlank entry.toList)
      (rest : Padded raw padded) : Padded raw (entry :: padded)
  | entry {raw padded : List String} (front entry back : String) (before : AllBlank front.toList)
      (behind : AllBlank back.toList) (rest : Padded raw padded) :
      Padded (entry :: raw) ((front ++ entry ++ back) :: padded)

theorem Padded.cleaned_eq {raw padded : List String} (more : Padded raw padded) :
    cleaned padded = cleaned raw := by
  induction more with
  | nil => rfl
  | @blank raw padded entry blank rest ih =>
    have nothing : ¬isWord entry = true := by simpa [isWord_iff, trimmed_eq_empty_iff] using blank
    rw [cleaned_cons, if_neg nothing, ih]
  | entry front entry back before behind rest ih =>
    simp only [cleaned_cons, isWord_iff, trimmed_padded before behind, ih]

/-- A query is a method whose name begins with a query verb in force, whatever the mutation verbs are. -/
theorem classify_ofWritten_iff (query mutation : Option (List String)) (name : String) :
    (ofWritten query mutation).classify name = .query ↔
      ∃ verb ∈ (ofWritten query mutation).query, verb.toList <+: name.toList := by
  have decided := startsWithAny_ofLists (normalized query) (normalized mutation) name
  rw [← ofWritten, startsWithAny] at decided
  rw [← decide_eq_true_iff (p := _ = ProcedureKind.query), ← decided, List.any_eq_true]
  simp only [List.isPrefixOf_iff_prefix]

end TrpcRouters.VerbRules

import TrpcRouters.Proofs.Declaration.Rewriting
import TrpcRouters.Proofs.FileTree.Order

/-! A pass touches what it reports. It adapts the declaration files that it reaches in the order of their
paths, up to the first one at which it fails, and leaves all other files alone; if it gets through, it lists
those that changed, and there is nothing left to do for another pass. What the system does not let it list,
it passes over without a word. -/

namespace TrpcRouters.Declaration
open FileTree

/-- What a pass writes at an entry, unless it leaves it as it is. -/
def revision? (entry : Visited) : Option Bytes :=
  match entry.node with
  | .file content _ _ =>
    if isDeclaration entry.path then (rewritten? content).filter (· ≠ content) else none
  | _ => none

def Legible (entry : Visited) : Prop :=
  isDeclaration entry.path = true → ∀ content stamp executable, entry.node = .file content stamp executable →
    (rewritten? content).isSome = true

/-- The entries that have a revision hold it, and nothing else is touched. -/
structure Revised (entries : List Visited) (before after : FileTree) : Prop where
  held : ∀ entry ∈ entries, ∀ revised, revision? entry = some revised →
    after.file? entry.place = some revised
  kept : ∀ place, (∀ entry ∈ entries, entry.place = place → revision? entry = none) →
    after.node? place = before.node? place

namespace Revised
variable {entry : Visited} {entries : List Visited} {before after : FileTree}

theorem nil (tree : FileTree) : Revised [] tree tree :=
  ⟨by simp, fun _ _ => rfl⟩

theorem skip (none_ : revision? entry = none) (later : Revised entries before after) :
    Revised (entry :: entries) before after where
  held := by
    refine List.forall_mem_cons.mpr ⟨fun revised found => ?_, later.held⟩
    rw [none_] at found
    cases found
  kept place idle := later.kept place (List.forall_mem_cons.mp idle).2

theorem write {revised : Bytes} {executable : Bool} (new : revision? entry = some revised)
    (inside : entry.place ≠ []) (apart : ∀ other ∈ entries, entry.place ≠ other.place)
    (later : Revised entries (before.putFile entry.place revised executable) after) :
    Revised (entry :: entries) before after where
  held := by
    refine List.forall_mem_cons.mpr ⟨fun other found => ?_, later.held⟩
    rw [new] at found
    cases found
    have kept := later.kept entry.place fun other member same => absurd same.symm (apart other member)
    rw [node?_putFile _ _ _ _ inside, if_pos rfl] at kept
    exact file?_eq_some_iff.mpr ⟨_, _, kept⟩
  kept := by
    intro place idle
    obtain ⟨first, rest⟩ := List.forall_mem_cons.mp idle
    have away : place ≠ entry.place := by
      rintro rfl
      rw [first rfl] at new
      cases new
    rw [later.kept place rest, node?_putFile _ _ _ _ inside, if_neg away]

end Revised

/-- How a pass over entries ends: with all of them behind it, or at the first one where it fails. -/
inductive Ends (entries : List Visited) (before after : FileTree) :
    Except Failure (List Path) → Prop
  | through (legible : ∀ entry ∈ entries, Legible entry) (revised : Revised entries before after) :
      Ends entries before after
        (.ok ((entries.filter fun entry => (revision? entry).isSome).map (·.path)))
  | stopped {done rest : List Visited} {failing : Visited} {failure : Failure}
      (whole : entries = done ++ failing :: rest) (legible : ∀ entry ∈ done, Legible entry)
      (declares : isDeclaration failing.path = true) (isFile : failing.node.isFile = true)
      (failed : adaptFile after failing.path = .error failure) (revised : Revised done before after) :
      Ends entries before after (.error failure)

theorem Ends.cons {entry : Visited} {entries : List Visited} {before middle after : FileTree}
    {result : Except Failure (List Path)} (legible : Legible entry)
    (lift : ∀ front, front <+: entries → Revised front middle after → Revised (entry :: front) before after)
    (ends : Ends entries middle after result) :
    Ends (entry :: entries) before after
      (if (revision? entry).isSome then result.map (entry.path :: ·) else result) := by
  cases ends with
  | through others revised =>
    have whole := Ends.through (List.forall_mem_cons.mpr ⟨legible, others⟩)
      (lift entries (List.prefix_refl _) revised)
    by_cases changes : (revision? entry).isSome = true
    · rw [List.filter_cons, if_pos changes, List.map_cons] at whole
      rw [if_pos changes]
      exact whole
    · rw [List.filter_cons, if_neg changes] at whole
      rwa [if_neg changes]
  | @stopped done rest failing failure whole others declares isFile failed revised =>
    have stopped : Ends (entry :: entries) before after (.error failure) :=
      .stopped (congrArg (entry :: ·) whole) (List.forall_mem_cons.mpr ⟨legible, others⟩) declares isFile
        failed (lift done ⟨_, whole.symm⟩ revised)
    split
    · exact stopped
    · exact stopped

section Pass
variable {tree after : FileTree} {root : Path} {directory : Place}

end Pass

def generated : Bytes :=
  Text.encode "import \x7b Message, proto3 \x7d from \"@bufbuild/protobuf\";\n"

end TrpcRouters.Declaration

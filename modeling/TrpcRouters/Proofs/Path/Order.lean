import Mathlib.Data.List.Lex
import TrpcRouters.Proofs.Path.Components

/-! The order of paths, component by component. -/

namespace TrpcRouters

namespace Component

def rank : Component → Nat
  | root => 0
  | current => 1
  | up => 2
  | name _ => 3

/-- The order of components, among names that of their bytes. -/
def Before (first second : Component) : Prop :=
  first.rank < second.rank ∨ first.rank = second.rank ∧ first.raw < second.raw

instance : DecidableRel Before :=
  fun _ _ => inferInstanceAs (Decidable (_ ∨ _))

theorem name_before_iff {first second : RawString} : (name first).Before (name second) ↔ first < second := by
  simp [Before, rank, raw]

instance : Std.Asymm Before where
  asymm first second before before' := by
    rcases before with less | ⟨same, less⟩ <;> rcases before' with less' | ⟨_, less'⟩
    · omega
    · omega
    · omega
    · exact Std.Asymm.asymm _ _ less less'

end Component

namespace Path

/-- The order of paths, component by component. A path comes before those that go on from it. -/
def Before (first second : Path) : Prop :=
  List.Lex Component.Before first.components second.components

instance : DecidableRel Before :=
  fun _ _ => inferInstanceAs (Decidable (List.Lex _ _ _))

instance : Std.Asymm Before where
  asymm _ _ before before' := Std.Asymm.asymm (r := List.Lex Component.Before) _ _ before before'

theorem Before.ne {first second : Path} (before : first.Before second) : first ≠ second := by
  rintro rfl
  exact Std.Asymm.asymm _ _ before before

theorem before_congr {first first' second second' : Path} (same : first.components = first'.components)
    (same' : second.components = second'.components) : first.Before second ↔ first'.Before second' := by
  rw [Before, Before, same, same']

theorem before_of_prefix {first second : Path} {component : Component} {more : List Component}
    (longer : second.components = first.components ++ component :: more) : first.Before second := by
  have front : List.Lex Component.Before (first.components ++ []) (first.components ++ component :: more) :=
    .append_left _ .nil _
  rwa [List.append_nil, ← longer] at front

/-- Behind what two paths share, the first components that differ decide. -/
theorem before_of_names {first second : Path} {shared more more' : List Component} {name name' : RawString}
    (spelled : first.components = shared ++ .name name :: more)
    (spelled' : second.components = shared ++ .name name' :: more') (less : name < name') :
    first.Before second := by
  rw [Before, spelled, spelled']
  exact .append_left _ (.rel (Component.name_before_iff.mpr less)) _

end Path

end TrpcRouters

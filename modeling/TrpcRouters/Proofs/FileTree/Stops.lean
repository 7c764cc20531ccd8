import Mathlib.Data.List.Induction
import TrpcRouters.Proofs.FileTree.Opening

/-! How far steps lead. Steps that climb out of nothing lead to a directory up to some point, and go on
from there by names. A directory can be made at their end only if the first of these names is free. -/

namespace TrpcRouters.FileTree
variable {tree : FileTree} {steps front rest : List RawString} {base : Place}

/-- The first part of the steps leads to a directory, from which the rest goes on by names and no step of
it leads anywhere. -/
structure Stops (tree : FileTree) (steps front rest : List RawString) (base : Place) : Prop where
  spelled : steps = front ++ rest
  leads : tree.Leads [] front base
  named : ∀ name ∈ rest, Path.IsName name
  ends {first : RawString} {more : List RawString} : rest = first :: more →
    ∀ place, ¬tree.Leads [] (front ++ [first]) place

theorem Leads.climb (sound : tree.Sound) (proper : Proper front) (leads : tree.Leads [] front base) :
    tree.Leads [] (front ++ [RawString.ofText ".."]) base.tail := by
  obtain ⟨left, same⟩ := leads.append
  have inside := leads.directory proper
  have above : tree.node? base.tail = some .directory := by
    cases base with
    | nil => exact inside
    | cons name above => exact sound.rooted inside
  rw [Leads, same true [".."] (List.cons_ne_nil _ _)]
  exact follow_of_arrived (by simp [advance, inside, above]) left

theorem Proper.part (proper : Proper steps) (short : front <+: steps) : Proper front :=
  fun step member => proper step (short.subset member)

theorem Stops.not_leads {first : RawString} {more others : List RawString}
    (stops : tree.Stops steps front (first :: more) base) (proper : Proper (front ++ first :: others))
    (place : Place) : ¬tree.Leads [] (front ++ first :: others) place := by
  intro there
  by_cases single : others = []
  · exact stops.ends rfl place (single ▸ there)
  · rw [← List.singleton_append, ← List.append_assoc] at there
    have part : Proper (front ++ [first]) := proper.part ⟨others, by simp⟩
    obtain ⟨middle, reached⟩ := exists_leads part single there
    exact stops.ends rfl middle reached

theorem exists_stops (sound : tree.Sound) (proper : Proper steps) (moves : RawString.ofText "." ∉ steps)
    (grounded : tree.Grounded steps) : ∃ front rest base, tree.Stops steps front rest base := by
  induction steps using List.reverseRecOn with
  | nil =>
    have start : tree.Leads [] [] [] := follow_of_arrived (by simp [advance, node?]) _
    exact ⟨[], [], [], rfl, start, by simp, by simp⟩
  | append_singleton before last ih =>
    have beforeProper : Proper before := fun step member => proper step (List.mem_append_left _ member)
    obtain ⟨front, rest, base, stops⟩ := ih beforeProper (fun member => moves (List.mem_append_left _ member))
      fun part climbs => grounded part (climbs.trans (List.prefix_append _ _))
    have named : last ≠ ".." → Path.IsName last := by
      intro notUp
      obtain ⟨some_, whole⟩ := proper last (by simp)
      exact ⟨some_, fun dot => moves (by simp [dot]), notUp, whole⟩
    cases rest with
    | nil =>
      have leads := stops.leads
      rw [← List.append_nil front, ← stops.spelled] at leads
      by_cases further : ∃ place, tree.Leads [] (before ++ [last]) place
      · obtain ⟨place, further⟩ := further
        exact ⟨before ++ [last], [], place, by simp, further, by simp, by simp⟩
      · refine ⟨before, [last], base, rfl, leads, ?_, ?_⟩
        · intro name member
          rw [List.mem_singleton.mp member]
          exact named fun up => further ⟨base.tail, up ▸ leads.climb sound beforeProper⟩
        · intro first more shape place there
          cases shape
          exact further ⟨place, there⟩
    | cons first more =>
      have notUp : last ≠ ".." := by
        rintro rfl
        obtain ⟨place, there⟩ := grounded before (List.prefix_refl _)
        rw [stops.spelled] at there beforeProper
        exact stops.not_leads beforeProper place there
      refine ⟨front, first :: more ++ [last], base, by rw [stops.spelled, List.append_assoc], stops.leads,
        ?_, ?_⟩
      · intro name member
        rcases List.mem_append.mp member with inside | here
        · exact stops.named name inside
        · rw [List.mem_singleton.mp here]
          exact named notUp
      · intro other others shape
        cases shape
        exact stops.ends rfl

/-- Without links below the directory, or with nothing where the names go on, no link is met from there. -/
theorem Stops.clear (stops : tree.Stops steps front rest base) (proper : Proper steps) (sound : tree.Sound)
    (free : rest = [] → tree.LinkFree base)
    (vacant : ∀ {first : RawString} {more : List RawString}, rest = first :: more →
      tree.node? (first :: base) = none)
    {later : FileTree} (grows : Grows tree later) (tail : List RawString) : later.Clear base (rest ++ tail) := by
  intro inner target short held
  have link := grows.link held
  cases shape : rest with
  | nil => exact free shape inner.reverse target link
  | cons first more =>
    rw [shape] at short
    rcases List.prefix_cons_iff.mp short with rfl | ⟨deeper, rfl, _⟩
    · have part : Proper front := proper.part (stops.spelled ▸ List.prefix_append _ _)
      rw [List.reverse_nil, List.nil_append, stops.leads.directory part] at link
      cases link
    · rw [List.reverse_cons, List.append_assoc, List.singleton_append,
        sound.none_below (vacant shape)] at link
      cases link

theorem Stops.vacant {path : Path} {first : RawString} {more tail : List RawString}
    (stops : tree.Stops steps front (first :: more) base) (sound : tree.Sound) (tidy : path.Tidy)
    (spelled : path.names = steps ++ tail) (grounded : tree.Grounded path.names) {made : FileTree}
    (result : tree.makeDirectories path = (made, none)) : tree.node? (first :: base) = none := by
  have proper := proper_names path
  have whole : path.names = front ++ first :: (more ++ tail) := by
    rw [spelled, stops.spelled, List.append_assoc, List.cons_append]
  obtain ⟨⟨_, _, along⟩, leads⟩ := makeDirectories_spec tidy sound grounded result
  obtain ⟨place, leads⟩ := leads rfl
  rcases along with rfl | ⟨before, chain, back, top, along⟩
  · rw [whole] at leads proper
    exact absurd leads (stops.not_leads proper place)
  · have shape : before ++ (chain ++ back) = front ++ first :: (more ++ tail) := by
      rw [← whole, along.spelled, List.append_assoc]
    have part : Proper (before ++ chain ++ back) := along.spelled ▸ proper
    -- The first directory is made where the steps that lead somewhere end.
    have ends : before = front := by
      rcases List.prefix_or_prefix_of_prefix (List.prefix_append before (chain ++ back))
        (shape ▸ List.prefix_append front _) with ⟨inner, rfl⟩ | ⟨inner, rfl⟩
      · rw [List.append_assoc, List.append_cancel_left_eq] at shape
        by_contra apart
        refine along.not_leads sound part ?_ ⟨_, shape.symm⟩ base stops.leads
        rintro rfl
        exact apart (List.append_nil _).symm
      · cases inner with
        | nil => exact List.append_nil _
        | cons step inner =>
          rw [List.append_assoc, List.append_cancel_left_eq] at shape
          obtain ⟨rfl, _⟩ := List.cons.inj shape
          rw [List.append_assoc] at part
          exact absurd along.leads (stops.not_leads (part.part (List.prefix_append _ _)) top)
    subst ends
    obtain ⟨other, others, rfl⟩ := List.exists_cons_of_ne_nil along.some_
    obtain ⟨rfl, _⟩ := List.cons.inj (List.append_cancel_left shape)
    have same := stops.leads.symm.trans along.leads
    cases same
    exact along.free _ _ rfl

end TrpcRouters.FileTree

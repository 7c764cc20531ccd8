import Mathlib.Data.List.Nodup
import TrpcRouters.Router.Aggregate

/-! When two services would share a field of the joint router. Names lose one trailing `Service`, so that
a field is shared by services of one name, and by one service that is called like another with `Service`
behind it, if that other name is its own field. The check goes through the services in order and reports
the first whose field is taken, together with the only one before it that takes the field. -/

namespace TrpcRouters

namespace Identifier

theorem router_inj {first second : String} : router first = router second ↔ first = second :=
  String.append_left_inj "Router"

theorem routerFile_inj {first second : String} : routerFile first = routerFile second ↔ first = second :=
  (String.append_left_inj ".ts").trans router_inj

theorem shortName_append {stem : String} (some_ : stem ≠ "") : shortName (stem ++ "Service") = stem := by
  have letters : (stem ++ "Service").toList.reverse = "Service".toList.reverse ++ stem.toList.reverse := by
    rw [String.toList_append, List.reverse_append]
  have longer : stem.toList.length ≠ 0 := by
    simpa [String.toList_eq_nil_iff] using some_
  unfold shortName
  simp only [letters]
  rw [if_pos (by simpa [List.isPrefixOf_iff_prefix] using longer), List.drop_left, List.reverse_reverse,
    String.ofList_toList]

/-- A name is its own short form unless `Service` stands behind something. -/
theorem shortName_eq_self {name : String} (bare : ∀ stem, stem ≠ "" → name ≠ stem ++ "Service") :
    shortName name = name := by
  unfold shortName
  simp only
  split
  next strips =>
    simp only [Bool.and_eq_true, List.isPrefixOf_iff_prefix, decide_eq_true_eq] at strips
    obtain ⟨⟨stem, whole⟩, longer⟩ := strips
    have some_ : stem ≠ [] := by
      rintro rfl
      rw [← whole] at longer
      simp at longer
    have letters : name.toList = stem.reverse ++ "Service".toList := by
      rw [← List.reverse_reverse name.toList, ← whole, List.reverse_append, List.reverse_reverse]
    refine absurd (String.toList_inj.mp ?_) (bare (String.ofList stem.reverse) ?_)
    · simp [letters]
    · simpa [← String.toList_inj] using some_
  next => rfl

theorem shortName_cases (name : String) :
    (∃ stem, stem ≠ "" ∧ name = stem ++ "Service" ∧ shortName name = stem) ∨ shortName name = name := by
  by_cases strips : ∃ stem, stem ≠ "" ∧ name = stem ++ "Service"
  · obtain ⟨stem, some_, rfl⟩ := strips
    exact Or.inl ⟨stem, some_, rfl, shortName_append some_⟩
  · exact Or.inr (shortName_eq_self fun stem some_ same => strips ⟨stem, some_, same⟩)

/-- The longer name is the shorter one with `Service` behind it, and the shorter one has nothing to
lose. -/
def Extends (short long : String) : Prop :=
  short ≠ "" ∧ shortName short = short ∧ long = short ++ "Service"

instance (short long : String) : Decidable (Extends short long) :=
  inferInstanceAs (Decidable (_ ∧ _))

theorem Extends.shortName_eq {short long : String} (longer : Extends short long) :
    shortName long = shortName short := by
  obtain ⟨some_, own, rfl⟩ := longer
  rw [shortName_append some_, own]

/-- Names have one short form if they are the same or one extends the other. -/
theorem shortName_eq_iff {first second : String} :
    shortName first = shortName second ↔
      first = second ∨ Extends first second ∨ Extends second first := by
  constructor
  · intro same
    rcases shortName_cases first with ⟨stem, some_, rfl, short⟩ | own <;>
      rcases shortName_cases second with ⟨stem', some_', rfl, short'⟩ | own'
    · exact Or.inl (by rw [← short, ← short', same])
    · have stem_ : stem = second := by rw [← short, same, own']
      exact Or.inr (Or.inr ⟨stem_ ▸ some_, own', by rw [stem_]⟩)
    · have stem_ : stem' = first := by rw [← short', ← same, own]
      exact Or.inr (Or.inl ⟨stem_ ▸ some_', own, by rw [stem_]⟩)
    · exact Or.inl (by rw [← own, ← own', same])
  · rintro (rfl | longer | longer)
    · rfl
    · exact longer.shortName_eq.symm
    · exact longer.shortName_eq

example : Extends "Service" "ServiceService" ∧ ¬Extends "" "Service" ∧
    ¬Extends "OrderService" "OrderServiceService" := by
  decide +kernel

end Identifier

namespace Aggregate
open Identifier

abbrev fields (services : List Service) : List String :=
  services.map fun service => shortName service.name

/-- What the check reports is the first service whose field occurs before, among those before it or
those seen already, with one of these that has it. -/
theorem firstDuplicate_eq_some {seen services : List Service} {duplicate : Duplicate}
    (distinct : (fields seen).Nodup) (found : firstDuplicate seen services = some duplicate) :
    ∃ front rest, services = front ++ duplicate.later :: rest ∧
      (fields (front.reverse ++ seen)).Nodup ∧ duplicate.earlier ∈ front.reverse ++ seen ∧
      shortName duplicate.earlier.name = shortName duplicate.later.name ∧
      duplicate.field = shortName duplicate.later.name := by
  induction services generalizing seen with
  | nil => cases found
  | cons service rest ih =>
    rw [firstDuplicate] at found
    split at found
    next earlier first =>
      cases found
      have same : shortName earlier.name = shortName service.name := by
        simpa using List.find?_some first
      exact ⟨[], rest, rfl, distinct, List.mem_of_find?_eq_some first, same, rfl⟩
    next absent =>
      have fresh : shortName service.name ∉ fields seen := by
        intro taken
        obtain ⟨earlier, before, same⟩ := List.mem_map.mp taken
        simpa [same] using List.find?_eq_none.mp absent earlier before
      have longer : (fields (service :: seen)).Nodup := List.nodup_cons.mpr ⟨fresh, distinct⟩
      obtain ⟨front, rest, whole, apart, before, same, field⟩ := ih longer found
      refine ⟨service :: front, rest, by rw [whole, List.cons_append], ?_, ?_, same, field⟩
      · simpa [List.reverse_cons, List.append_assoc] using apart
      · simpa [List.reverse_cons, List.append_assoc] using before

theorem nodup_of_firstDuplicate {seen services : List Service}
    (none_ : firstDuplicate seen services = none) :
    (fields services).Nodup ∧ ∀ service ∈ services, ∀ earlier ∈ seen,
      shortName earlier.name ≠ shortName service.name := by
  induction services generalizing seen with
  | nil => simp
  | cons service rest ih =>
    rw [firstDuplicate] at none_
    split at none_
    next => cases none_
    next absent =>
      obtain ⟨distinct, apart⟩ := ih none_
      have fresh : ∀ earlier ∈ seen, shortName earlier.name ≠ shortName service.name := by
        simpa using absent
      refine ⟨?_, fun other member earlier before => ?_⟩
      · rw [fields, List.map_cons, List.nodup_cons, List.mem_map]
        refine ⟨?_, distinct⟩
        rintro ⟨other, member, same⟩
        exact apart other member service (List.mem_cons_self ..) same.symm
      · rcases List.mem_cons.mp member with rfl | later
        · exact fresh earlier before
        · exact apart other later earlier (List.mem_cons_of_mem _ before)

/-- A reported service stands at the first position whose field occurs before it, and the other one at
the only position before that has the field. -/
structure Reported (services : List Service) (duplicate : Duplicate) (i j : Nat) : Prop where
  before : i < j
  earlier : services[i]? = some duplicate.earlier
  later : services[j]? = some duplicate.later
  field : duplicate.field = shortName duplicate.later.name
  taken : (fields services)[i]? = some duplicate.field
  first : ∀ k l, k < l → l < j → (fields services)[k]? ≠ (fields services)[l]?
  only : ∀ k, k < j → (fields services)[k]? = some duplicate.field → k = i

section
variable {services : List Service} {duplicate : Duplicate}

theorem exists_reported (found : duplicate? services = some duplicate) :
    ∃ i j, Reported services duplicate i j := by
  -- Nothing was seen at first, so all that was seen stands in front of the later service.
  have nothing : (fields []).Nodup := List.nodup_nil
  obtain ⟨front, rest, rfl, distinct, before, same, field⟩ := firstDuplicate_eq_some nothing found
  rw [List.append_nil] at distinct before
  rw [fields, List.map_reverse, List.nodup_reverse] at distinct
  obtain ⟨i, bound, at_⟩ := List.mem_iff_getElem.mp (List.mem_reverse.mp before)
  have ahead : ∀ k, k < front.length →
      (fields (front ++ duplicate.later :: rest))[k]? = (fields front)[k]? := by
    intro k short
    rw [fields, List.map_append, List.getElem?_append_left (by simpa using short)]
  have apart : ∀ k l, k < l → l < front.length → (fields front)[k]? ≠ (fields front)[l]? := by
    intro k l less short
    exact List.nodup_iff_getElem?_ne_getElem?.mp distinct k l less (by simpa using short)
  have taken : (fields front)[i]? = some duplicate.field := by
    rw [List.getElem?_map, List.getElem?_eq_getElem bound, at_, Option.map_some, same, field]
  refine ⟨i, front.length, bound, ?_, ?_, field, (ahead i bound).trans taken, ?_, ?_⟩
  · rw [List.getElem?_append_left bound, List.getElem?_eq_getElem bound, at_]
  · simp
  · intro k l less short
    rw [ahead k (Nat.lt_trans less short), ahead l short]
    exact apart k l less short
  · intro k short holds
    rw [ahead k short, ← taken] at holds
    rcases Nat.lt_trichotomy k i with less | same | more
    · exact absurd holds (apart k i less bound)
    · exact same
    · exact absurd holds.symm (apart i k more short)

theorem duplicate?_eq_none_iff : duplicate? services = none ↔ (fields services).Nodup := by
  constructor
  · intro none_
    exact (nodup_of_firstDuplicate none_).1
  · intro distinct
    cases found : duplicate? services with
    | none => rfl
    | some duplicate =>
      obtain ⟨i, j, reported⟩ := exists_reported found
      have bound : j < (fields services).length := by
        simpa using (List.getElem?_eq_some_iff.mp reported.later).1
      have again : (fields services)[j]? = some duplicate.field := by
        rw [List.getElem?_map, reported.later, reported.field, Option.map_some]
      exact absurd (reported.taken.trans again.symm)
        (List.nodup_iff_getElem?_ne_getElem?.mp distinct i j reported.before bound)

/-- All fields differ exactly if no name occurs twice and none extends another. -/
theorem nodup_fields_iff :
    (fields services).Nodup ↔ services.Pairwise fun first second =>
      ¬(first.name = second.name ∨ Extends first.name second.name ∨ Extends second.name first.name) := by
  rw [List.Nodup, List.pairwise_map]
  simp only [ne_eq, shortName_eq_iff]

theorem nodup_names (distinct : duplicate? services = none) : (services.map Service.name).Nodup := by
  refine List.Nodup.of_map shortName ?_
  rw [List.map_map]
  exact duplicate?_eq_none_iff.mp distinct

theorem eq_of_name_eq (distinct : duplicate? services = none)
    {first second : Service} (member : first ∈ services) (member' : second ∈ services)
    (same : first.name = second.name) : first = second :=
  List.inj_on_of_nodup_map (nodup_names distinct) member member' same

end

end Aggregate

end TrpcRouters

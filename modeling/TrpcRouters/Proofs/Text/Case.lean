import TrpcRouters.Text.Case

/-! What the case mappings give. Neither gives nothing, neither makes an underscore of something else, and
what lowering gives is lowered already. The tables are gone through by their spans and not by their
characters: where a span moves to is compared with the span it could be taken for as a whole. -/

namespace TrpcRouters.Text

namespace Span
variable {span other : Span} {code : Nat}

/-- `target` lies outside of where `span` moves to. -/
def misses (span : Span) (target : Nat) : Bool :=
  target < span.image || span.image + (span.last - span.first) < target

/-- `other` does not cover where `span` moves to. It lies elsewhere, or it covers every second code only,
the odd ones where `span` moves to even ones or the other way about. -/
def clears (span other : Span) : Bool :=
  (span.image + (span.last - span.first)).blt other.first || other.last.blt span.image ||
    other.step == 2 && (span.step == 2 || span.first == span.last) &&
      (span.image + other.first) % 2 == 1

theorem move_ne {target : Nat} (clear : span.misses target = true) (covered : span.covers code = true) :
    span.move code ≠ target := by
  simp only [misses, Bool.or_eq_true, decide_eq_true_eq] at clear
  simp only [covers, Bool.and_eq_true, decide_eq_true_eq] at covered
  rw [move]
  omega

theorem not_covers_move (clear : span.clears other = true) (covered : span.covers code = true) :
    other.covers (span.move code) = false := by
  simp only [clears, Bool.or_eq_true, Bool.and_eq_true, Nat.blt_eq, beq_iff_eq] at clear
  rw [← Bool.not_eq_true]
  intro taken
  simp only [covers, Bool.and_eq_true, decide_eq_true_eq, beq_iff_eq] at covered taken
  obtain ⟨⟨low, high⟩, stride⟩ := taken
  rw [move] at low high stride
  rcases clear with (before | behind) | ⟨⟨two, steps⟩, odd⟩
  · omega
  · omega
  · -- The move keeps the distance from the first code, which is even on both sides.
    rw [two] at stride
    have even : (code - span.first) % 2 = 0 := by
      rcases steps with double | single
      · rw [double] at covered
        exact covered.2
      · omega
    omega

end Span

variable {expansions : List (Nat × List Nat)} {spans : List Span} {c : Char}

theorem mapCase_cases (expansions : List (Nat × List Nat)) (spans : List Span) (c : Char) :
    (∃ entry ∈ expansions, mapCase expansions spans c = entry.2.map Char.ofNat) ∨
      (∃ span ∈ spans, span.covers c.toNat = true ∧
        mapCase expansions spans c = [Char.ofNat (span.move c.toNat)]) ∨
      mapCase expansions spans c = [c] := by
  unfold mapCase
  split
  next entry found => exact Or.inl ⟨entry, List.mem_of_find?_eq_some found, rfl⟩
  next =>
    split
    next span found =>
      have covered := List.find?_some found
      exact Or.inr (Or.inl ⟨span, List.mem_of_find?_eq_some found, covered, rfl⟩)
    next => exact Or.inr (Or.inr rfl)

theorem mapCase_eq_self (other : ∀ entry ∈ expansions, entry.1 ≠ c.toNat)
    (still : ∀ span ∈ spans, span.covers c.toNat = false) : mapCase expansions spans c = [c] := by
  have unlisted : expansions.find? (fun entry => entry.1 == c.toNat) = none := by
    simpa [List.find?_eq_none] using other
  have unmoved : spans.find? (fun span => span.covers c.toNat) = none := by
    simpa [List.find?_eq_none] using still
  rw [mapCase, unlisted, unmoved]

theorem mapCase_ne_nil (listed : ∀ entry ∈ expansions, entry.2 ≠ []) :
    mapCase expansions spans c ≠ [] := by
  rcases mapCase_cases expansions spans c with ⟨entry, member, given⟩ | ⟨span, _, _, given⟩ | given
  · simpa [given] using listed entry member
  · simp [given]
  · simp [given]

/-- A character has the code that it was made from, unless it is the null character, which stands in for
the codes of none. -/
theorem code_of_ofNat_eq {code : Nat} (some_ : c.toNat ≠ 0) (same : Char.ofNat code = c) :
    code = c.toNat := by
  have codes := congrArg Char.toNat same
  by_cases valid : code.isValidChar
  · rwa [Char.ofNat, dif_pos valid] at codes
  · rw [Char.ofNat, dif_neg valid] at codes
    exact absurd codes.symm some_

theorem eq_of_mem_mapCase {letter : Char} (some_ : letter.toNat ≠ 0)
    (listed : ∀ entry ∈ expansions, letter.toNat ∉ entry.2)
    (missed : ∀ span ∈ spans, span.misses letter.toNat = true)
    (member : letter ∈ mapCase expansions spans c) : letter = c := by
  rcases mapCase_cases expansions spans c with ⟨entry, inside, given⟩ | ⟨span, inside, covered, given⟩ | given
  · rw [given, List.mem_map] at member
    obtain ⟨code, here, same⟩ := member
    exact absurd (code_of_ofNat_eq some_ same ▸ here) (listed entry inside)
  · rw [given, List.mem_singleton] at member
    exact absurd (code_of_ofNat_eq some_ member.symm) (Span.move_ne (missed span inside) covered)
  · rwa [given, List.mem_singleton] at member

theorem upper_ne_nil : upper c ≠ [] :=
  mapCase_ne_nil (by decide)

theorem lower_ne_nil : lower c ≠ [] :=
  mapCase_ne_nil (by decide)

theorem underscore_of_mem_upper (member : '_' ∈ upper c) : '_' = c :=
  eq_of_mem_mapCase (by decide) (by decide +kernel) (by decide +kernel) member

theorem underscore_of_mem_lower (member : '_' ∈ lower c) : '_' = c :=
  eq_of_mem_mapCase (by decide) (by decide +kernel) (by decide +kernel) member

theorem lowerSpans_clear :
    (lowerSpans.all fun span => lowerSpans.all span.clears &&
      lowerExpansions.all fun entry => span.misses entry.1) = true := by
  decide +kernel

/-- Where a letter is lowered to, nothing is lowered any more. -/
theorem clears_of_mem {span : Span} (member : span ∈ lowerSpans) :
    (∀ other ∈ lowerSpans, span.clears other = true) ∧
      ∀ entry ∈ lowerExpansions, span.misses entry.1 = true := by
  have clear := List.all_eq_true.mp lowerSpans_clear span member
  rwa [Bool.and_eq_true, List.all_eq_true, List.all_eq_true] at clear

theorem lowerExpansions_clear : ∀ entry ∈ lowerExpansions, ∀ code ∈ entry.2,
    lower (Char.ofNat code) = [Char.ofNat code] := by
  decide +kernel

theorem lower_move {span : Span} {code : Nat} (member : span ∈ lowerSpans)
    (covered : span.covers code = true) :
    lower (Char.ofNat (span.move code)) = [Char.ofNat (span.move code)] := by
  obtain ⟨clear, missed⟩ := clears_of_mem member
  by_cases null : (Char.ofNat (span.move code)).toNat = 0
  · -- The null character says nothing about where the span moves to, but it is not lowered.
    rw [← Char.ofNat_toNat (Char.ofNat (span.move code)), null]
    decide
  · have whole : (Char.ofNat (span.move code)).toNat = span.move code :=
      (code_of_ofNat_eq null rfl).symm
    apply mapCase_eq_self
    · intro entry listed same
      exact Span.move_ne (missed entry listed) covered (same.trans whole).symm
    · intro other listed
      rw [whole]
      exact Span.not_covers_move (clear other listed) covered

theorem lower_of_mem_lower {d : Char} (member : d ∈ lower c) : lower d = [d] := by
  rcases mapCase_cases lowerExpansions lowerSpans c with
    ⟨entry, inside, given⟩ | ⟨span, inside, covered, given⟩ | given
  · rw [lower, given, List.mem_map] at member
    obtain ⟨code, here, rfl⟩ := member
    exact lowerExpansions_clear entry inside code here
  · rw [lower, given, List.mem_singleton] at member
    rw [member]
    exact lower_move inside covered
  · rw [lower, given, List.mem_singleton] at member
    rw [member]
    exact given

end TrpcRouters.Text

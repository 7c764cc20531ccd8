import TrpcRouters.Proofs.FileTree.Child

/-! Paths below a root that leads to a directory. Where no links stand below that directory, such a path
leads to the place that its names spell, and writing it touches only the places on its way. -/

namespace TrpcRouters.FileTree

def at? (tree : FileTree) (path : Path) : Option Node :=
  match tree.entry true path with
  | .ok (_, node) => some node
  | .error _ => none

/-- No link stands at a place or below it. -/
def LinkFree (tree : FileTree) (place : Place) : Prop :=
  ∀ front target, tree.node? (front ++ place) ≠ some (.link target)

section Roots
variable {tree : FileTree} {root path : Path} {rest : List RawString} {place : Place}

theorem LinkFree.clear (free : tree.LinkFree place) (steps : List RawString) : tree.Clear place steps :=
  fun front target _ => free front.reverse target

theorem LinkFree.alike {before after : FileTree} (free : before.LinkFree place)
    (alike : Alike before after) : after.LinkFree place :=
  fun front target held => free front target (alike.link.mp held)

theorem LinkFree.grows {before after : FileTree} (free : before.LinkFree place)
    (grows : Grows before after) : after.LinkFree place :=
  free.alike grows.alike

theorem LinkFree.of_nodes (plain : ∀ entry ∈ tree.nodes, ∀ target, entry.2 ≠ .link target)
    (place : Place) : tree.LinkFree place := by
  intro front target held
  unfold node? at held
  split at held
  · cases held
  · obtain ⟨before, after, whole, _⟩ := List.lookup_eq_some_iff.mp held
    exact plain (front ++ place, .link target) (by simp [whole]) target rfl

theorem plain_of_named (named : ∀ name ∈ rest, Path.IsName name) : Plain rest :=
  fun name member => ⟨(named name member).2.1, (named name member).2.2.1⟩

theorem climbs_within {steps front : List RawString} (named : ∀ name ∈ rest, Path.IsName name)
    (climbs : front ++ [RawString.ofText ".."] <+: steps ++ rest) : front ++ [RawString.ofText ".."] <+: steps := by
  rcases List.prefix_or_prefix_of_prefix climbs (List.prefix_append steps rest) with
    inside | ⟨more, whole⟩
  · exact inside
  · rw [← whole, List.prefix_append_right_inj] at climbs
    obtain nothing | ⟨before, last, shape⟩ := List.eq_nil_or_concat more
    · exact ⟨[], by rw [← whole, nothing, List.append_nil, List.append_nil]⟩
    · rw [List.concat_eq_append] at shape
      rw [shape, ← List.append_assoc] at whole
      have up : last = ".." := List.singleton_inj.mp (List.append_inj_right' whole rfl)
      have member : last ∈ rest := climbs.subset (by simp [shape])
      exact absurd up (named last member).2.2.1

theorem Grounded.append {steps : List RawString} (grounded : tree.Grounded steps)
    (named : ∀ name ∈ rest, Path.IsName name) : tree.Grounded (steps ++ rest) :=
  fun front climbs => grounded front (climbs_within named climbs)

theorem Grounded.grows {before after : FileTree} {steps : List RawString}
    (grounded : before.Grounded steps) (grows : Grows before after) : after.Grounded steps := by
  intro front climbs
  obtain ⟨place, leads⟩ := grounded front climbs
  exact ⟨place, leads.grows grows⟩

/-- A root that leads somewhere does so without climbing out of nothing. -/
theorem Leads.grounded (leads : tree.Leads [] root.names place)
    (named : ∀ name ∈ rest, Path.IsName name) : tree.Grounded (root.names ++ rest) := by
  apply Grounded.append _ named
  intro front climbs
  obtain ⟨more, whole⟩ := climbs
  have proper : Proper front := fun step member =>
    proper_names root step (by simp [← whole, member])
  rw [← whole, List.append_assoc] at leads
  exact exists_leads proper (by simp) leads

theorem makeDirectories_below (sound : tree.Sound) (leads : tree.Leads [] root.names place)
    (tidy : path.Tidy) (spelled : path.names = root.names ++ rest)
    (named : ∀ name ∈ rest, Path.IsName name) {after : FileTree} {error : Option SystemError}
    (result : tree.makeDirectories path = (after, error)) :
    Grows tree after ∧ after.Sound ∧ (tree.LinkFree place →
      ∀ other, after.node? other = tree.node? other ∨
        ∃ inner, inner ≠ [] ∧ inner <+: rest ∧ other = inner.reverse ++ place) := by
  have grounded : tree.Grounded path.names := by
    rw [spelled]
    exact leads.grounded named
  obtain ⟨⟨grows, afterSound, along⟩, _⟩ := makeDirectories_spec tidy sound grounded result
  refine ⟨grows, afterSound, fun free other => ?_⟩
  rcases along with rfl | ⟨front, made, back, top, along⟩
  · exact Or.inl rfl
  rcases along.place other with kept | ⟨inner, some_, short, there⟩
  · exact Or.inl kept
  refine Or.inr ?_
  have proper := proper_names path
  have shape : root.names ++ rest = front ++ (made ++ back) := by
    rw [← spelled, along.spelled, List.append_assoc]
  -- The root leads to a directory, so the first new one is called by a step behind it.
  have behind : root.names <+: front := by
    rcases List.prefix_or_prefix_of_prefix (List.prefix_append root.names rest)
      (shape ▸ List.prefix_append front (made ++ back)) with inside | ⟨more, whole⟩
    · exact inside
    · by_cases none_ : more = []
      · exact ⟨[], by rw [← whole, none_, List.append_nil, List.append_nil]⟩
      · have short : more <+: made ++ back := by
          rw [← whole, List.append_assoc] at shape
          exact ⟨rest, List.append_cancel_left shape⟩
        rw [← whole] at leads
        rw [along.spelled] at proper
        exact absurd leads (along.not_leads sound proper none_ short place)
  obtain ⟨extra, front_⟩ := behind
  have rest_ : rest = extra ++ (made ++ back) := by
    rw [← front_, List.append_assoc] at shape
    exact List.append_cancel_left shape
  have top_ : top = extra.reverse ++ place := by
    have reached := along.leads
    rw [← front_] at reached
    by_cases none_ : extra = []
    · rw [none_, List.append_nil] at reached
      have same : Except.ok (Target.found top .directory) = .ok (Target.found place .directory) :=
        reached.symm.trans leads
      cases same
      simp [none_]
    · obtain ⟨left, same⟩ := leads.append
      rw [Leads, same true extra none_] at reached
      have plain : Plain extra := plain_of_named fun name member =>
        named name (by simp [rest_, member])
      exact (place_of_follow plain (free.clear extra) reached).2
  refine ⟨extra ++ inner, by simp [some_], ?_, by rw [there, top_]; simp⟩
  rw [rest_]
  exact (List.prefix_append_right_inj extra).mpr (short.trans (List.prefix_append _ _))

/-- Without links, a path below a root leads to the place that its names spell, or would do so. -/
theorem place?_below (leads : tree.Leads [] root.names place) (free : tree.LinkFree place)
    (below : root.Below path rest) {there : Place} (found : tree.place? path = some there) :
    Short rest ∧ there = rest.reverse ++ place := by
  unfold place? at found
  cases reached : tree.resolve true path with
  | error error => simp [reached] at found
  | ok target =>
    rw [reached] at found
    cases found
    have followed := follow_of_resolveSteps reached
    rw [start_of_tidy tree below.tidy, Path.steps, if_neg (by simp [below.ends]), below.names] at followed
    obtain ⟨left, equal⟩ := leads.append
    rw [equal true rest below.some_] at followed
    exact place_of_follow (plain_of_named below.named) (free.clear rest) followed

theorem write_below (sound : tree.Sound) (leads : tree.Leads [] root.names place)
    (below : root.Below path rest) {content : Bytes} {after : FileTree}
    (result : tree.write path content = .ok after) :
    Grows tree after ∧ after.Sound ∧ (tree.LinkFree place →
      ∀ other, after.node? other = tree.node? other ∨ other = rest.reverse ++ place) := by
  obtain ⟨there, found, grows, afterSound, _, others⟩ := write_spec sound result
  refine ⟨grows, afterSound, fun free other => ?_⟩
  by_cases same : other = there
  · exact Or.inr (same.trans (place?_below leads free below found).2)
  · exact Or.inl (others other same)

theorem Leads.below (leads : tree.Leads [] root.names place) (free : tree.LinkFree place)
    (below : root.Below path rest) {there : Place} (further : tree.Leads [] path.names there) :
    there = rest.reverse ++ place := by
  rw [below.names] at further
  obtain ⟨left, same⟩ := leads.append
  rw [Leads, same true rest below.some_] at further
  exact (place_of_follow (plain_of_named below.named) (free.clear rest) further).2

theorem at?_eq_some_iff (below : root.Below path rest) {node : Node} :
    tree.at? path = some node ↔ Fits path ∧
      ∃ place, tree.follow true linkLimit [] (root.names ++ rest) = .ok (.found place node) := by
  have some_ := Path.isEmpty_of_isAbsolute below.tidy.1
  have steps : path.steps = root.names ++ rest := by
    rw [Path.steps, if_neg (by simp [below.ends]), below.names]
  unfold at? entry resolve resolveSteps Fits
  rw [steps, start_of_tidy tree below.tidy]
  by_cases nul : path.raw.bytes.contains 0 = true
  · simp only [nul, ↓reduceIte, Bool.true_eq_false, false_and, reduceCtorEq]
  by_cases long : pathLimit ≤ path.raw.bytes.length
  · simp only [nul, some_, long, Nat.not_lt.mpr long, Bool.false_eq_true, ↓reduceIte, and_false,
      false_and, reduceCtorEq]
  simp only [nul, some_, long, Bool.false_eq_true, ↓reduceIte]
  cases tree.follow true linkLimit [] (root.names ++ rest) with
  | error error => simp
  | ok target =>
    cases target with
    | vacant directory name => simp
    | found place other => simp [Nat.lt_of_not_le long]

theorem follow_below (sound : tree.Sound) (leads : tree.Leads [] root.names place)
    (free : tree.LinkFree place) (below : root.Below path rest) {node : Node} :
    (∃ there, tree.follow true linkLimit [] (root.names ++ rest) = .ok (.found there node)) ↔
      Short rest ∧ tree.node? (rest.reverse ++ place) = some node := by
  obtain ⟨left, same⟩ := leads.append
  rw [same true rest below.some_]
  have plain := plain_of_named below.named
  constructor
  · rintro ⟨there, found⟩
    obtain ⟨short, spelled⟩ := place_of_follow plain (free.clear rest) found
    have proper : Proper rest := fun step member =>
      ⟨(below.named step member).1, (below.named step member).2.2.2⟩
    have held : tree.node? there = some node := follow_settled proper found
    rw [show there = rest.reverse ++ place from spelled] at held
    exact ⟨short, held⟩
  · rintro ⟨short, held⟩
    exact ⟨_, follow_plain sound left plain short (free.clear rest) held⟩

theorem at?_congr {first second : FileTree} (below : root.Below path rest)
    (firstSound : first.Sound) (secondSound : second.Sound)
    (firstLeads : first.Leads [] root.names place) (secondLeads : second.Leads [] root.names place)
    (firstFree : first.LinkFree place) (secondFree : second.LinkFree place)
    (same : first.node? (rest.reverse ++ place) = second.node? (rest.reverse ++ place)) :
    first.at? path = second.at? path := by
  apply Option.ext
  intro node
  rw [at?_eq_some_iff below, at?_eq_some_iff below, follow_below firstSound firstLeads firstFree below,
    follow_below secondSound secondLeads secondFree below, same]

theorem at?_of_not_leads (below : root.Below path rest)
    (nowhere : ∀ place, ¬tree.Leads [] root.names place) : tree.at? path = none := by
  cases held : tree.at? path with
  | none => rfl
  | some node =>
    obtain ⟨_, there, found⟩ := (at?_eq_some_iff below).mp held
    obtain ⟨middle, leads⟩ := exists_leads (proper_names root) below.some_ found
    exact absurd leads (nowhere middle)

end Roots

end TrpcRouters.FileTree

import TrpcRouters.Proofs.FileTree.Scratch

/-! A directory made below a root while an empty one stands somewhere else for a while. Once that one is
gone, the paths below the root lead where they led before, but for the directory itself. -/

namespace TrpcRouters.FileTree

/-- The second tree is the first with an empty directory where nothing was. -/
structure Opens (before after : FileTree) (scratch : Place) : Prop where
  inside : scratch ≠ []
  vacant : before.node? scratch = none
  sound : before.Sound
  sound' : after.Sound
  grows : Grows before after
  place (place : Place) (away : place ≠ scratch) : after.node? place = before.node? place

section
variable {tree opened first later : FileTree} {scratch : Place} {root path : Path}
  {rest : List RawString} {place : Place}

theorem LinkFree.remove (free : tree.LinkFree place) (inside : scratch ≠ []) :
    (tree.remove scratch).LinkFree place := by
  intro front target held
  rw [node?_remove _ inside] at held
  split at held
  · cases held
  · exact free front target held

theorem Leads.of_remove (inside : scratch ≠ []) {from_ : Place} {steps : List RawString}
    (leads : (tree.remove scratch).Leads from_ steps place) : tree.Leads from_ steps place := by
  have agree : AgreeOn (tree.remove scratch) tree (tree.remove scratch) := by
    intro other node held open_
    have kept : tree.node? other = some node := by
      rw [node?_remove _ inside] at held
      split at held
      · cases held
      · exact held
    exact ⟨kept.trans held.symm, Or.inl kept⟩
  exact (follow_congr agree leads).1.trans leads

/-- A path leads to the same in trees with the same links, if its root leads to a directory in both and
what its names spell is the same. -/
theorem at?_remove_of_alike (below : root.Below path rest) (firstSound : first.Sound)
    (laterSound : later.Sound) (alike : Alike first later) (inside : scratch ≠ [])
    (firstLeads : first.Leads [] root.names place) (laterLeads : later.Leads [] root.names place)
    (free : (first.remove scratch).Leads [] root.names place → first.LinkFree place)
    (same : first.LinkFree place → scratch <:+ rest.reverse ++ place ∨
      later.node? (rest.reverse ++ place) = first.node? (rest.reverse ++ place)) :
    (later.remove scratch).at? path = (first.remove scratch).at? path := by
  by_cases somewhere : ∃ other, (first.remove scratch).Leads [] root.names other
  · obtain ⟨other, here⟩ := somewhere
    obtain rfl := (Alike.refl first).leads firstLeads (here.of_remove inside)
    have there := alike.leads_remove inside laterLeads here
    have firstFree := free here
    apply at?_congr below (laterSound.remove inside) (firstSound.remove inside) there here
      ((firstFree.alike alike).remove inside) (firstFree.remove inside)
    rw [node?_remove _ inside, node?_remove _ inside]
    split
    next => rfl
    next apart => exact (same firstFree).resolve_left apart
  · have nowhere : ∀ other, ¬(first.remove scratch).Leads [] root.names other :=
      fun other there => somewhere ⟨other, there⟩
    rw [at?_of_not_leads below nowhere, at?_of_not_leads below]
    intro other there
    exact nowhere other (alike.symm.leads_remove inside firstLeads there)

theorem fresh_below {directory : Path} {name : RawString} {made : FileTree}
    {error : Option SystemError} (below : root.Below directory [name]) (sound : opened.Sound)
    (grounded : opened.Grounded root.names)
    (result : opened.makeDirectories directory = (made, error))
    (nowhere : ∀ place, ¬opened.Leads [] root.names place) (leads : made.Leads [] root.names place) :
    (∀ front, opened.node? (front ++ place) = none) ∧
      ∀ rest, rest ≠ [] → rest ≠ [name] → made.node? (rest.reverse ++ place) = none := by
  have grounded' : opened.Grounded directory.names := by
    rw [below.names]
    exact grounded.append below.named
  obtain ⟨⟨grows, _, same | ⟨front, chain, back, top, along⟩⟩, _⟩ :=
    makeDirectories_spec below.tidy sound grounded' result
  · rw [same] at leads
    exact absurd leads (nowhere place)
  have shape : root.names ++ [name] = front ++ (chain ++ back) := by
    rw [← below.names, along.spelled, List.append_assoc]
  have frontProper : Proper front := fun step member =>
    proper_names directory step (by simp [along.spelled, member])
  -- The root led nowhere, so a part of it led to where the first directory was made.
  obtain ⟨inner, whole⟩ : front <+: root.names := by
    rcases List.prefix_or_prefix_of_prefix (shape ▸ List.prefix_append front (chain ++ back))
      (List.prefix_append root.names [name]) with inside | ⟨extra, beyond⟩
    · exact inside
    · have reached := along.leads
      rw [← beyond] at reached
      by_cases none_ : extra = []
      · rw [none_, List.append_nil] at reached
        exact absurd reached (nowhere top)
      · obtain ⟨middle, there⟩ := exists_leads (proper_names root) none_ reached
        exact absurd there (nowhere middle)
  have some_ : inner ≠ [] := by
    rintro rfl
    rw [List.append_nil] at whole
    exact nowhere top (whole ▸ along.leads)
  have chain_ : inner ++ [name] = chain ++ back := by
    rw [← whole, List.append_assoc] at shape
    exact List.append_cancel_left shape
  have short : inner <+: chain ++ back := chain_ ▸ List.prefix_append inner [name]
  have there : place = inner.reverse ++ top := by
    rw [← whole] at leads
    exact along.place_of_follow sound frontProper grows some_ short leads
  have empty : ∀ front, opened.node? (front ++ place) = none := by
    intro front
    rw [there]
    exact sound.none_below (along.nothing sound some_ short) front
  refine ⟨empty, fun rest more other => ?_⟩
  rcases along.place (rest.reverse ++ place) with kept | ⟨steps, _, within, spelled⟩
  · rw [kept, empty]
  · -- A new directory below the root stands where the names go on, and these are one.
    rw [there, ← List.append_assoc, ← List.reverse_append] at spelled
    have steps_ : inner ++ rest = steps :=
      List.reverse_inj.mp (List.append_cancel_right spelled)
    have inside : inner ++ rest <+: inner ++ [name] := by
      rw [steps_, chain_]
      exact within.trans (List.prefix_append _ _)
    have single : rest <+: [name] := (List.prefix_append_right_inj inner).mp inside
    exact absurd (single.eq_of_length_le (List.length_pos_of_ne_nil more)) other

namespace Opens
variable {made : FileTree} {directory : Path} {name : RawString} {error : Option SystemError}

theorem of_makeDirectory (sound : tree.Sound) {scratch : Path}
    (result : tree.makeDirectory scratch = .ok opened) :
    scratch.isEmpty = false ∧ ∃ place, Opens tree opened place ∧
      opened.Leads (opened.start scratch) scratch.names place ∧
      ∀ later, Alike opened later → (∃ there, later.Leads (later.start scratch) scratch.names there) →
        later.uninstall scratch = later.remove place := by
  obtain ⟨some_, place, inside, vacant, rfl, leads, gone⟩ := makeDirectory_opens sound result
  obtain ⟨grows, sound'⟩ := makeDirectory_grows sound result
  refine ⟨some_, place, ⟨inside, vacant, sound, sound', grows, fun other away => ?_⟩, leads, gone⟩
  rw [node?_put _ _ _ _ inside, if_neg away]

theorem empty (opens : Opens tree opened scratch) {place : Place} (below : scratch <:+ place) :
    tree.node? place = none := by
  obtain ⟨front, rfl⟩ := below
  exact opens.sound.none_below opens.vacant front

/-- The tree before has the ways that are left when the empty directory is gone again. -/
theorem agree (opens : Opens tree opened scratch) (grows : Grows opened later) :
    AgreeOn opened tree (later.remove scratch) := by
  intro place node held open_
  rw [node?_remove _ opens.inside]
  split
  next below => exact ⟨opens.empty below, Or.inr (opens.empty below)⟩
  next apart =>
    have away : place ≠ scratch := fun same => apart (same ▸ List.suffix_refl _)
    have kept := (opens.place place away).symm.trans held
    exact ⟨kept.trans (grows.way held open_).symm, Or.inl kept⟩

theorem linkFree_of_leads (opens : Opens tree opened scratch) (start : root.Below directory [name])
    (grounded : tree.Grounded root.names)
    (free : ∀ place, tree.Leads [] root.names place → tree.LinkFree place)
    (result : opened.makeDirectories directory = (made, error))
    (leads : (made.remove scratch).Leads [] root.names place) : made.LinkFree place := by
  have grows := (makeDirectories_grows opens.sound' result).1
  by_cases early : ∃ other, opened.Leads [] root.names other
  · obtain ⟨other, openedLeads⟩ := early
    obtain ⟨equal, only⟩ := follow_congr (opens.agree grows) openedLeads
    have treeLeads : tree.Leads [] root.names place := equal.trans leads
    obtain ⟨rfl, _⟩ := only place .directory treeLeads
    exact ((free place treeLeads).grows opens.grows).grows grows
  · have nowhere : ∀ other, ¬opened.Leads [] root.names other := fun other there =>
      early ⟨other, there⟩
    obtain ⟨empty, _⟩ := fresh_below start opens.sound' (grounded.grows opens.grows) result nowhere
      (leads.of_remove opens.inside)
    intro front target held
    have link := grows.link held
    rw [empty front] at link
    cases link

/-- Once the empty directory is gone, a path below the root leads to what it led to before, unless it
spells the directory that was made. -/
theorem at?_remove (opens : Opens tree opened scratch) (start : root.Below directory [name])
    (grounded : tree.Grounded root.names)
    (free : ∀ place, tree.Leads [] root.names place → tree.LinkFree place)
    (result : opened.makeDirectories directory = (made, error)) (below : root.Below path rest)
    (other : rest ≠ [name]) : (made.remove scratch).at? path = tree.at? path := by
  obtain ⟨grows, sound⟩ := makeDirectories_grows opens.sound' result
  have removed := sound.remove opens.inside
  by_cases early : ∃ place, opened.Leads [] root.names place
  · obtain ⟨place, openedLeads⟩ := early
    obtain ⟨equal, only⟩ := follow_congr (opens.agree grows) openedLeads
    by_cases somewhere : ∃ place, tree.Leads [] root.names place
    · obtain ⟨there, treeLeads⟩ := somewhere
      obtain ⟨rfl, _⟩ := only there .directory treeLeads
      have treeFree := free there treeLeads
      have openedFree := treeFree.grows opens.grows
      apply at?_congr below removed opens.sound (equal.symm.trans treeLeads) treeLeads
        ((openedFree.grows grows).remove opens.inside) treeFree
      obtain ⟨_, _, changed⟩ :=
        makeDirectories_below opens.sound' openedLeads start.tidy start.names start.named result
      rw [node?_remove _ opens.inside]
      split
      next inside => exact (opens.empty inside).symm
      next apart =>
        rcases changed openedFree (rest.reverse ++ there) with kept | ⟨inner, some_, short, spelled⟩
        · rw [kept, opens.place _ (fun same => apart (same ▸ List.suffix_refl _))]
        · have same : rest = inner := List.reverse_inj.mp (List.append_cancel_right spelled)
          have single := short.eq_of_length_le (List.length_pos_of_ne_nil some_)
          exact absurd (same.trans single) other
    · have nowhere : ∀ place, ¬tree.Leads [] root.names place := fun place there =>
        somewhere ⟨place, there⟩
      rw [at?_of_not_leads below nowhere, at?_of_not_leads below]
      intro place there
      exact nowhere place (equal.trans there)
  · have nowhere : ∀ place, ¬opened.Leads [] root.names place := fun place there =>
      early ⟨place, there⟩
    have before : tree.at? path = none :=
      at?_of_not_leads below fun place there => nowhere place (there.grows opens.grows)
    rw [before]
    by_cases late : ∃ place, (made.remove scratch).Leads [] root.names place
    · obtain ⟨place, madeLeads⟩ := late
      have leads := madeLeads.of_remove opens.inside
      obtain ⟨_, fresh⟩ := fresh_below start opens.sound' (grounded.grows opens.grows) result nowhere leads
      have free' := opens.linkFree_of_leads start grounded free result madeLeads
      cases held : (made.remove scratch).at? path with
      | none => rfl
      | some node =>
        obtain ⟨_, there⟩ := (at?_eq_some_iff below).mp held
        obtain ⟨_, spelled⟩ :=
          (follow_below removed madeLeads (free'.remove opens.inside) below).mp there
        rw [node?_remove _ opens.inside, fresh rest below.some_ other, ite_self] at spelled
        cases spelled
    · exact at?_of_not_leads below fun place there => late ⟨place, there⟩

end Opens

end

end TrpcRouters.FileTree

import TrpcRouters.Proofs.FileTree.Below

/-! A directory that was made for a while. As long as the tree is only written to, its path leads to it,
and taking the path away takes the place away with all below it. -/

namespace TrpcRouters.FileTree
variable {tree : FileTree}

theorem Alike.start {before after : FileTree} (alike : Alike before after) (path : Path) :
    after.start path = before.start path := by
  rw [FileTree.start, FileTree.start, alike.home]

theorem makeDirectory_opens (sound : tree.Sound) {path : Path} {made : FileTree}
    (result : tree.makeDirectory path = .ok made) :
    path.isEmpty = false ∧ ∃ place, place ≠ [] ∧ tree.node? place = none ∧
      made = tree.put place .directory ∧ made.Leads (made.start path) path.names place ∧
      ∀ later, Alike made later → (∃ there, later.Leads (later.start path) path.names there) →
        later.uninstall path = later.remove place := by
  obtain ⟨front, last, spelled⟩ := names_of_makeDirectory result
  obtain ⟨directory, leads, free, named, fits, rfl, grows, madeSound⟩ :=
    makeDirectory_spec sound spelled result
  have proper : Proper front := fun step member => proper_names path step (by simp [spelled, member])
  have plain : last ≠ "." ∧ last ≠ ".." := ⟨named.2.1, named.2.2.1⟩
  have held : (tree.put (last :: directory) .directory).node? (last :: directory) =
      some .directory := by
    rw [node?_put _ _ _ _ (List.cons_ne_nil _ _), if_pos rfl]
  have madeLeads : (tree.put (last :: directory) .directory).Leads (tree.start path) path.names
      (last :: directory) := by
    rw [spelled]
    exact (leads.grows grows).child proper held plain fits true
  have guard : ∃ target, tree.resolveSteps false path path.names = .ok target := by
    unfold makeDirectory at result
    cases reached : tree.resolveSteps false path path.names with
    | error error => simp [reached] at result
    | ok target => exact ⟨target, rfl⟩
  obtain ⟨target, guarded⟩ := guard
  obtain ⟨some_, same⟩ := resolveSteps_of_ok guarded
  refine ⟨some_, last :: directory, List.cons_ne_nil _ _, free, rfl, ?_, ?_⟩
  · rwa [grows.alike.start]
  rintro later alike ⟨there, laterLeads⟩
  rw [alike.start, grows.alike.start] at laterLeads
  obtain rfl : last :: directory = there := alike.leads madeLeads laterLeads
  have inside := laterLeads.directory (proper_names path)
  have found : later.resolve false path = .ok (.found (last :: directory) .directory) := by
    rw [resolve, same, alike.start, grows.alike.start]
    unfold Path.steps
    split
    · -- A separator at the end takes a step that stays in the directory.
      obtain ⟨left, same⟩ := laterLeads.append
      rw [same false ["."] (List.cons_ne_nil _ _)]
      exact follow_of_arrived (by simp [advance, inside]) left
    · rw [spelled] at laterLeads ⊢
      obtain ⟨above, aboveLeads⟩ := exists_leads proper (List.cons_ne_nil _ _) laterLeads
      obtain rfl : directory = above := alike.leads (leads.grows grows) aboveLeads
      exact aboveLeads.child proper inside plain fits false
  unfold uninstall entry
  rw [found]

end TrpcRouters.FileTree

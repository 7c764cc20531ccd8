import TrpcRouters.Proofs.Discovery
import TrpcRouters.Proofs.FileTree.Opening
import TrpcRouters.Proofs.FileTree.Overlay
import TrpcRouters.Proofs.Generation.Call

/-! Where the paths of a run lead when it calls the compiler: the output root and the compiler's directory,
which have been made by then, and the scratch directory. -/

namespace TrpcRouters.Generation
open FileTree
variable {options : Options} {scratch : Path} {tree : FileTree}

/-- Where the paths of a run lead when the compiler is called. -/
structure Placed (call : Call options scratch tree) (place connect opened : Place) : Prop where
  opens : Opens tree call.opened opened
  grows : Grows call.opened call.made
  sound : call.made.Sound
  overlaid : Overlaid .empty tree call.made
  fits : Fits (OutputTree.mk call.root).connect
  leads : call.made.Leads [] call.root.names place
  connectLeads : call.made.Leads [] (OutputTree.mk call.root).connect.names connect
  scratchLeads : call.made.Leads (call.made.start scratch) scratch.names opened
  gone : ∀ later, Alike call.made later →
    (∃ there, later.Leads (later.start scratch) scratch.names there) →
    later.uninstall scratch = later.remove opened

theorem Call.exists_placed (call : Call options scratch tree) (sound : tree.Sound) :
    scratch.isEmpty = false ∧ ∃ place connect opened, Placed call place connect opened := by
  have start : call.root.Below (OutputTree.mk call.root).connect ["connect"] :=
    .start (sound.tidy_absolute call.generated) (by decide)
  obtain ⟨some_, opened, opens, scratchLeads, gone⟩ := Opens.of_makeDirectory sound call.opens
  obtain ⟨grows, madeSound⟩ := makeDirectories_grows opens.sound' call.makes
  -- The compiler's directory has been made, so the root leads somewhere.
  obtain ⟨fits, connect, connectLeads⟩ := leads_of_makeDirectories start.tidy opens.sound' call.makes
  have further := connectLeads
  rw [start.names] at further
  obtain ⟨place, leads⟩ := exists_leads (proper_names call.root) (List.cons_ne_nil _ _) further
  refine ⟨some_, place, connect, opened, opens, grows, madeSound,
    (Overlaid.of_makeDirectory sound call.opens).trans (.of_makeDirectories opens.sound' call.makes),
    fits, leads, connectLeads, ?_, ?_⟩
  · rw [grows.alike.start]
    exact scratchLeads.grows grows
  · exact fun later alike => gone later (grows.alike.trans alike)

namespace Placed
variable {call : Call options scratch tree} {place connect opened : Place}

/-- Nothing but the scratch directory can stand where the descriptor set goes. -/
theorem plain (placed : Placed call place connect opened) (target : Path) :
    call.made.node? ("descriptors.binpb" :: opened) ≠ some (.link target) := by
  intro held
  have early := placed.grows.link held
  rw [placed.opens.place _ (List.cons_ne_self _ _), placed.opens.empty (List.suffix_cons _ _)] at early
  cases early

end Placed

end TrpcRouters.Generation

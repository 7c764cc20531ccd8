import TrpcRouters.Proofs.ConnectQuery.Modules
import TrpcRouters.Proofs.Import.Walk
import TrpcRouters.Proofs.Text.SortedSet
import TrpcRouters.Router.Plan

/-! Relative imports across the generated tree. Routers and connect-query modules name the compiler's
modules by specifiers of their own making; walked from where they stand, all of them lead to the place
where the compiler writes. -/

namespace TrpcRouters.Specifier
open OutputTree

section TypeImports
variable {tree : OutputTree} {rules : VerbRules} {service : Service} {entry : String × List Source.ImportClause}
variable {message : MessageRef}

/-- The clauses that messages of a service ask for from a specifier. -/
def asked (tree : OutputTree) (service : Service) (specifier : String) : List Source.ImportClause :=
  ((service.messages.map fun message => (RouterPlan.specifierOf tree message,
    RouterPlan.clauseFor tree service.messages message)).filter (·.1 = specifier)).map Prod.snd

end TypeImports

end TrpcRouters.Specifier

import TrpcRouters.Source.Statement
import TrpcRouters.Text.Json
import TrpcRouters.Verbs

/-! The module that all routers share: the builder, the pass-through validator, the verbs in force,
and a router for services that are joined by hand. -/

namespace TrpcRouters.Factory
open Source

def constArray (verbs : List String) : String :=
  Text.Json.array verbs ++ " as const"

def createServiceRouter : String :=
  "\tconst procedures: Record<string, any> = \x7b\x7d;\n\n" ++
  "\tfor (const [localName, method] of Object.entries(service.methods) as " ++
    "[string, MethodInfoUnary][]) \x7b\n" ++
  "\t\tconst fn = (client[localName as keyof Client<T>] as CallableFunction).bind(client);\n" ++
  "\t\tconst procedure = t.procedure.input(method.I).output(method.O);\n\n" ++
  "\t\tprocedures[method.name] = isQuery(method.name)\n" ++
  "\t\t\t? procedure.query(async (\x7b input \x7d) => fn(input))\n" ++
  "\t\t\t: procedure.mutation(async (\x7b input \x7d) => fn(input));\n" ++
  "\t\x7d\n\n" ++
  "\treturn t.router(procedures);\n"

def statements (rules : VerbRules) : List Statement :=
  [header,
    .importNames ["initTRPC"] "@trpc/server",
    .importTypes [⟨"AnyService", none⟩, ⟨"MethodInfoUnary", none⟩, ⟨"Client", none⟩]
      "@connectrpc/connect",
    .blank,
    .exportConst "t" "initTRPC.create()",
    .blank,
    .exportFunction "protobuf" "<T>()" "\treturn (value: unknown) => value as T;\n",
    .blank,
    .exportConst "QUERY_PREFIXES" (constArray rules.query),
    .exportConst "MUTATION_PREFIXES" (constArray rules.mutation),
    .blank,
    .exportFunction "isQuery" "(name: string): boolean"
      "\treturn QUERY_PREFIXES.some((prefix) => name.startsWith(prefix));\n",
    .blank,
    .exportFunction "createServiceRouter"
      "<T extends AnyService>(\n\tservice: T,\n\tclient: Client<T>,\n)" createServiceRouter]

def code (rules : VerbRules) : String :=
  render (statements rules)

end TrpcRouters.Factory

import TrpcRouters.CommandLine.Run
import TrpcRouters.Proofs.Verbs

/-! The verbs that a command line puts in force. The entries stand between commas in the values of two
options and may be any text, so nothing but the cleaning of them keeps an empty prefix out, with which
every method would be a query. -/

namespace TrpcRouters.CommandLine.Request
open VerbRules

/-- For any entries on the command line, both lists of verbs are filled, with verbs that are not empty and
have no blanks at their ends: the words of the entries in their order, or the defaults if no entry has one.
Blanks added to the entries, around them or as entries of their own, change neither list and the kind of no
method. A method is a query exactly if its name begins with one of the query verbs, none of them empty. -/
theorem rules_never_widen (request : Request) (surroundings : Surroundings) (home : Path) :
    let rules := (request.options surroundings home).rules
    InForce defaultQuery (request.queryVerbs.getD []) rules.query ∧
      InForce defaultMutation (request.mutationVerbs.getD []) rules.mutation ∧
      (∀ other : Request, Padded (request.queryVerbs.getD []) (other.queryVerbs.getD []) →
        Padded (request.mutationVerbs.getD []) (other.mutationVerbs.getD []) →
          let rules' := (other.options surroundings home).rules
          rules'.query = rules.query ∧ rules'.mutation = rules.mutation ∧
            ∀ name, rules'.classify name = rules.classify name) ∧
      ∀ name, rules.classify name = .query ↔
        ∃ verb ∈ rules.query, verb ≠ "" ∧ verb.toList <+: name.toList := by
  intro rules
  have made : rules = ofWritten request.queryVerbs request.mutationVerbs := rfl
  have query : InForce defaultQuery (request.queryVerbs.getD []) rules.query := by
    rw [made, ofWritten_eq]
    exact inForce_orDefault (by decide) (by decide) _
  have mutation : InForce defaultMutation (request.mutationVerbs.getD []) rules.mutation := by
    rw [made, ofWritten_eq]
    exact inForce_orDefault (by decide) (by decide) _
  refine ⟨query, mutation, ?padded, ?kinds⟩
  case padded =>
    intro other moreQuery moreMutation rules'
    have same : rules' = rules := by
      rw [show rules' = ofWritten other.queryVerbs other.mutationVerbs from rfl, made, ofWritten_eq,
        ofWritten_eq, moreQuery.cleaned_eq, moreMutation.cleaned_eq]
    rw [same]
    exact ⟨rfl, rfl, fun _ => rfl⟩
  case kinds =>
    intro name
    rw [made, classify_ofWritten_iff, ← made]
    constructor
    · rintro ⟨verb, member, begins⟩
      exact ⟨verb, member, (query.proper verb member).1, begins⟩
    · rintro ⟨verb, member, _, begins⟩
      exact ⟨verb, member, begins⟩

def terse : Request where
  protoRoot := ⟨"proto"⟩
  output := ⟨"gen"⟩
  watch := false
  queryVerbs := some ["Fetch", "Read"]
  mutationVerbs := none
  compiler := none
  importRoots := []
  connectOnly := false
  pollInterval := 500

def spacious : Request :=
  { terse with
    queryVerbs := some ["", " Fetch\u2003", "\t", "\u0085Read", "\u3000"]
    mutationVerbs := some ["\u00a0 ", ""] }

def bareSurroundings : Surroundings where
  environment := []
  bundled := none
  executor := fun _ tree => (tree, .error .notFound)
  scratch := ⟨"/tmp/scratch"⟩

theorem spacious_never_widens :
    ofArguments ["--proto_dir=proto", "--out=gen", "--query_verbs=, Fetch\u2003,\t",
      "--query_verbs", "\u0085Read,\u3000", "--mutation_verbs=\u00a0 ,"] = .ok spacious ∧
      Padded ["Fetch", "Read"] ["", " Fetch\u2003", "\t", "\u0085Read", "\u3000"] ∧
      Padded [] ["\u00a0 ", ""] ∧
      (spacious.options bareSurroundings ⟨"/"⟩).rules.query = ["Fetch", "Read"] ∧
      (spacious.options bareSurroundings ⟨"/"⟩).rules.mutation = ["Create", "Update", "Delete"] ∧
      (spacious.options bareSurroundings ⟨"/"⟩).rules.classify "GetItem" = .mutation := by
  have queries : Padded ["Fetch", "Read"] ["", " Fetch\u2003", "\t", "\u0085Read", "\u3000"] :=
    .blank (by decide) (.entry " " "Fetch" "\u2003" (by decide) (by decide)
      (.blank (by decide) (.entry "\u0085" "Read" "" (by decide) (by decide)
        (.blank (by decide) .nil))))
  have mutations : Padded [] ["\u00a0 ", ""] := .blank (by decide) (.blank (by decide) .nil)
  obtain ⟨query, mutation, kinds⟩ :=
    (rules_never_widen terse bareSurroundings ⟨"/"⟩).2.2.1 spacious queries mutations
  exact ⟨rfl, queries, mutations, query, mutation, kinds "GetItem"⟩

end TrpcRouters.CommandLine.Request

import TrpcRouters.Text.CaseTable

/-! Full case mappings of single characters: a character may become several. -/

namespace TrpcRouters.Text

/-- Looks a character up among the expansions first, then among the spans; others stay. -/
def mapCase (expansions : List (Nat × List Nat)) (spans : List Span) (c : Char) : List Char :=
  match expansions.find? (fun entry => entry.1 == c.toNat) with
  | some entry => entry.2.map Char.ofNat
  | none =>
    match spans.find? (fun span => span.covers c.toNat) with
    | some span => [Char.ofNat (span.move c.toNat)]
    | none => [c]

def upper (c : Char) : List Char :=
  mapCase upperExpansions upperSpans c

def lower (c : Char) : List Char :=
  mapCase lowerExpansions lowerSpans c

end TrpcRouters.Text

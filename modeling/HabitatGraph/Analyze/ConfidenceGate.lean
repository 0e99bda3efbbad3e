import HabitatGraph.Core.Schema

/-! # The confidence gate

Communities are detected on the stated relationships only: inferred and
ambiguous edges are left out before clustering.
-/

namespace HabitatGraph

/-- Keep the edges of the tiers that satisfy `keep`. -/
def filterEdges (g : Graph) (keep : Confidence → Bool) : Graph :=
  { g with edges := g.edges.filter fun e => keep e.confidence }

/-- Keep the stated relationships. -/
def trustedSubgraph (g : Graph) : Graph := filterEdges g Confidence.isTrusted

/-- Filtering a trusted subgraph again changes nothing. -/
theorem trustedSubgraph_trustedSubgraph (g : Graph) :
    trustedSubgraph (trustedSubgraph g) = trustedSubgraph g := by
  simp [trustedSubgraph, filterEdges]

end HabitatGraph

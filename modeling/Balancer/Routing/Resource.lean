import Balancer.Algorithm

/-!
# The choice of `LBResource`

The strategy skips the nodes that are down, whatever the scores are, so a position that it returns
is the position of a node that is up.
-/

namespace Balancer

open Cpp

namespace LBResource

variable {F : Type} {score : NodeState F → Result Int}

/-- The position is none, or that of a node that is up. -/
def IsUpPosition (nodes : List (NodeState F)) (nodeId : Int) : Prop :=
  nodeId = -1 ∨ ∃ (i : Nat) (node : NodeState F),
    nodeId = (i : Int) ∧ nodes[i]? = some node ∧ node.status = .up

/-- The loop keeps a best position that is up, over the nodes `before` that it has passed. -/
theorem search_isUpPosition {before rest : List (NodeState F)} {lowest best nodeId : Int}
    (hBest : IsUpPosition (before ++ rest) best)
    (h : search score lowest best (before.length : Int) rest = .ok nodeId) :
    IsUpPosition (before ++ rest) nodeId := by
  induction rest generalizing before lowest best with
  | nil =>
    rw [← Except.ok.inj h]
    exact hBest
  | cons node rest ih =>
    have hList : before ++ node :: rest = (before ++ [node]) ++ rest := by simp
    have hNext : (before.length : Int) + 1 = ((before ++ [node]).length : Int) := by simp
    rw [search, hNext] at h
    rw [hList] at hBest ⊢
    split at h
    · rename_i hUp
      obtain ⟨nodeScore, -, h⟩ := bind_eq_ok.mp h
      split at h
      · have hNode : ((before ++ [node]) ++ rest)[before.length]? = some node := by simp
        exact ih (Or.inr ⟨before.length, node, rfl, hNode, hUp⟩) h
      · exact ih hBest h
    · exact ih hBest h

/-- **A chosen node is up.** -/
theorem chooseNode_isUpPosition {nodes : List (NodeState F)} {nodeId : Int}
    (h : chooseNode score nodes = .ok nodeId) : IsUpPosition nodes nodeId := by
  have hStart : search score INT_MAX (-1) (([] : List (NodeState F)).length : Int) nodes =
      .ok nodeId := h
  have hNone : IsUpPosition ([] ++ nodes) (-1) := Or.inl rfl
  exact search_isUpPosition hNone hStart

end LBResource

end Balancer

import Balancer.State

/-!
# The selection strategies

`chooseNode` of `LBRoundRobin`, `LBRandom` and `LBResource` (`LoadBalancerAlgorithm.cpp`). Every
loop is a recursion over the nodes with the loop's accumulators as arguments. The position
`nodeId` counts the nodes of a list in memory, so only the weight sums and the round-robin
counter are checked for overflow.
-/

namespace Balancer

open Cpp

variable {F : Type}

/-- The loop that adds up the weights of the `UP` nodes. -/
def totalWeight : Int → List (NodeState F) → Result Int
  | total, [] => pure total
  | total, node :: rest =>
    if node.status = .up then do
      let total ← addInt total node.nodeConfig.weight
      totalWeight total rest
    else totalWeight total rest

/-! ## ROUND_ROBIN -/

namespace LBRoundRobin

/-- The second loop of `chooseNode`: walk the running sum of the weights of the `UP` nodes up to
the slot `currentNode`. -/
def search (lb : LBRoundRobin) : Int → Int → List (NodeState F) → Result (Int × LBRoundRobin)
  | _, _, [] => pure (-1, lb)
  | current, nodeId, node :: rest =>
    if node.status = .up then do
      let current ← addInt current node.nodeConfig.weight
      if lb.currentNode < current then do
        let currentNode ← addInt lb.currentNode 1
        pure (nodeId, ⟨currentNode⟩)
      else search lb current (nodeId + 1) rest
    else search lb current (nodeId + 1) rest

/-- `chooseNode`, when its first loop sees the nodes `first` and its second loop the nodes
`second`: other threads may write a status between the two. -/
def chooseNodeSeeing (lb : LBRoundRobin) (first second : List (NodeState F)) :
    Result (Int × LBRoundRobin) := do
  let total ← totalWeight 0 first
  let lb : LBRoundRobin := if total ≤ lb.currentNode then ⟨0⟩ else lb
  lb.search 0 0 second

/-- `chooseNode`, when no status changes during the call. -/
def chooseNode (lb : LBRoundRobin) (nodes : List (NodeState F)) : Result (Int × LBRoundRobin) :=
  lb.chooseNodeSeeing nodes nodes

end LBRoundRobin

/-! ## RANDOM -/

namespace LBRandom

/-- The nodes the first loop copies into `upNodes`. -/
def upNodes (nodes : List (NodeState F)) : List (NodeState F) :=
  nodes.filter fun node => node.status = .up

/-- The second loop: it runs over `upNodes` and counts positions of that list. -/
def search (random : Int) : Int → Int → List (NodeState F) → Result Int
  | _, _, [] => pure (-1)
  | current, nodeId, node :: rest => do
    let current ← addInt current node.nodeConfig.weight
    if random < current then pure nodeId else search random current (nodeId + 1) rest

/-- `chooseNode`, when `rand()` returns `rand`. -/
def chooseNode (rand : Int) (nodes : List (NodeState F)) : Result Int := do
  let total ← totalWeight 0 nodes
  let random ← remInt rand total
  search random 0 0 (upNodes nodes)

end LBRandom

/-! ## RESOURCE -/

namespace LBResource

/-- The loop of `chooseNode`; `score` is the expression
`(int)((cpu_usage * 100 + mem_usage) * (1.0 / weight))`. -/
def search (score : NodeState F → Result Int) :
    Int → Int → Int → List (NodeState F) → Result Int
  | _, lowestScoreNodeId, _, [] => pure lowestScoreNodeId
  | lowestScore, lowestScoreNodeId, nodeId, node :: rest =>
    if node.status = .up then do
      let nodeScore ← score node
      if nodeScore < lowestScore then search score nodeScore nodeId (nodeId + 1) rest
      else search score lowestScore lowestScoreNodeId (nodeId + 1) rest
    else search score lowestScore lowestScoreNodeId (nodeId + 1) rest

def chooseNode (score : NodeState F → Result Int) (nodes : List (NodeState F)) : Result Int :=
  search score INT_MAX (-1) 0 nodes

end LBResource

/-! ## The virtual call -/

/-- `load_balancer_strategy->chooseNode(state)`: the chosen position and the state after the
call. `rand` is what `rand()` would return, `score` the arithmetic on `float`. -/
def LoadBalancerState.chooseNode (rand : Int) (score : NodeState F → Result Int)
    (state : LoadBalancerState F) : Result (Int × LoadBalancerState F) :=
  match state.loadBalancerStrategy with
  | .roundRobin lb => do
    let (nodeId, lb) ← lb.chooseNode state.nodes
    pure (nodeId, { state with loadBalancerStrategy := .roundRobin lb })
  | .random => do
    let nodeId ← LBRandom.chooseNode rand state.nodes
    pure (nodeId, state)
  | .resource => do
    let nodeId ← LBResource.chooseNode score state.nodes
    pure (nodeId, state)

end Balancer

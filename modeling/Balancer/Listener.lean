import Balancer.Algorithm

/-!
# Routing an accepted connection

The part of `LoadBalancer::listener` that picks the node of an accepted client
(`LoadBalancer.cpp`). The listener reads the entry of the chosen position in its own
configuration, not in the node state.
-/

namespace Balancer

open Cpp

structure LoadBalancer (F : Type) where
  config : LoadBalancerConfiguration
  state : LoadBalancerState F

namespace LoadBalancer

variable {F : Type}

/-- `start`, up to the threads: the state is built from the configuration. -/
def start [Zero F] (config : LoadBalancerConfiguration) : Result (LoadBalancer F) := do
  let state ← LoadBalancerState.new config
  pure { config := config, state := state }

/-- What the listener does with an accepted client. -/
inductive Route
  | closeClient
  | connectTo (nodeId : Nat) (node : NodeConfiguration)
  deriving DecidableEq, Repr

/-- `this->get_config().nodes[node_id]`. -/
def nodeAt (lb : LoadBalancer F) (nodeId : Int) : Result NodeConfiguration :=
  if nodeId < 0 then throw .outOfBounds
  else
    match lb.config.nodes[nodeId.toNat]? with
    | some node => pure node
    | none => throw .outOfBounds

/-- One accepted client, from the choice of a node to the address it connects to. -/
def route (rand : Int) (score : NodeState F → Result Int) (lb : LoadBalancer F) :
    Result (Route × LoadBalancer F) := do
  let (nodeId, state) ← lb.state.chooseNode rand score
  let lb := { lb with state := state }
  if nodeId = -1 then pure (.closeClient, lb)
  else do
    let node ← lb.nodeAt nodeId
    pure (.connectTo nodeId.toNat node, lb)

/-- One iteration of the health checks of the scheduled task. -/
def healthCheckAt (i : Nat) (ping : Bool) (lb : LoadBalancer F) : LoadBalancer F :=
  { lb with state := lb.state.healthCheckAt i ping }

end LoadBalancer

end Balancer

import Balancer.Configuration
import Balancer.Cpp.Integers
import Mathlib.Data.BitVec
import Mathlib.Data.List.Basic

/-!
# The state of the load balancer

`NodeState`, the strategies and `LoadBalancerState` (`LoadBalancerState.hpp`), the constructor
and the health checks of `LoadBalancerState.cpp`.

`F` is the type of `float` values: bit patterns where a result is about transmitted bytes,
rationals where it is about scores. The strategies do arithmetic on `F` only through the score
of `LBResource`.
-/

namespace Balancer

open Cpp

/-- What is read of the entries does not change when an entry is modified apart from it. -/
theorem map_modify_of_eq {α β : Type} {f : α → β} {g : α → α} (h : ∀ a, f (g a) = f a) (i : Nat)
    (l : List α) : (l.modify i g).map f = l.map f := by
  induction l generalizing i with
  | nil => simp
  | cons a l ih =>
    cases i with
    | zero => simp [h]
    | succ i => simp [ih]

inductive NodeStatus
  | up
  | down
  deriving DecidableEq, Repr, Inhabited

structure NodeState (F : Type) where
  nodeConfig : NodeConfiguration
  cpuUsage : F
  memUsage : F
  lastChecked : Int
  status : NodeStatus
  deriving DecidableEq, Repr, Inhabited

namespace NodeState

variable {F : Type}

/-- The constructor. It leaves `last_checked` unassigned: `lastChecked` is what the memory
holds. -/
def new [Zero F] (lastChecked : Int) (nodeConfig : NodeConfiguration) : NodeState F where
  nodeConfig := nodeConfig
  cpuUsage := 0
  memUsage := 0
  lastChecked := lastChecked
  status := .down

def setStatus (status : NodeStatus) (node : NodeState F) : NodeState F :=
  { node with status := status }

/-- `set_last_checked` takes an `int`, so its argument is converted first. -/
def setLastChecked (lastChecked : Int) (node : NodeState F) : NodeState F :=
  { node with lastChecked := toInt lastChecked }

@[simp] theorem setStatus_status (s : NodeStatus) (node : NodeState F) :
    (node.setStatus s).status = s := rfl

@[simp] theorem setStatus_nodeConfig (s : NodeStatus) (node : NodeState F) :
    (node.setStatus s).nodeConfig = node.nodeConfig := rfl

@[simp] theorem setStatus_cpuUsage (s : NodeStatus) (node : NodeState F) :
    (node.setStatus s).cpuUsage = node.cpuUsage := rfl

@[simp] theorem setStatus_memUsage (s : NodeStatus) (node : NodeState F) :
    (node.setStatus s).memUsage = node.memUsage := rfl

@[simp] theorem setStatus_lastChecked (s : NodeStatus) (node : NodeState F) :
    (node.setStatus s).lastChecked = node.lastChecked := rfl

end NodeState

/-! ## The strategies -/

structure LBRoundRobin where
  currentNode : Int
  deriving DecidableEq, Repr

/-- The constructor of `LBRoundRobin`. -/
def LBRoundRobin.new : LBRoundRobin := ⟨0⟩

/-- The object behind a `LoadBalancerAlgorithm *`. -/
inductive LoadBalancerAlgorithm
  | roundRobin (lb : LBRoundRobin)
  | random
  | resource
  deriving DecidableEq, Repr

structure LoadBalancerState (F : Type) where
  config : LoadBalancerConfiguration
  nodes : List (NodeState F)
  loadBalancerStrategy : LoadBalancerAlgorithm

namespace LoadBalancerState

variable {F : Type}

/-- What the constructor pushes for one entry of the configuration. -/
def initNode [Zero F] (nodeConfig : NodeConfiguration) : NodeState F :=
  ((NodeState.new default nodeConfig).setStatus .down).setLastChecked 0

/-- The strategy for a `balancer_algorithm`; any other name ends the process with status 1. -/
def initStrategy (balancerAlgorithm : String) : Result LoadBalancerAlgorithm :=
  if balancerAlgorithm = "ROUND_ROBIN" then pure (.roundRobin LBRoundRobin.new)
  else if balancerAlgorithm = "RANDOM" then pure .random
  else if balancerAlgorithm = "RESOURCE" then pure .resource
  else throw (.exit 1)

/-- The constructor. -/
def new [Zero F] (config : LoadBalancerConfiguration) : Result (LoadBalancerState F) := do
  let strategy ← initStrategy config.balancerAlgorithm
  pure { config := config, nodes := config.nodes.map initNode, loadBalancerStrategy := strategy }

/-! ## Health checks -/

/-- One iteration of `run_health_checks`, at node `i`; `ping` is whether its `ping` succeeded.
Under `RESOURCE` the loop does nothing. -/
def healthCheckAt (i : Nat) (ping : Bool) (state : LoadBalancerState F) : LoadBalancerState F :=
  let icmpCheck := state.config.balancerAlgorithm ≠ "RESOURCE"
  if icmpCheck then
    { state with nodes := state.nodes.modify i (NodeState.setStatus (if ping then .up else .down)) }
  else state

/-- `run_health_checks`, given the result of each ping. -/
def runHealthChecks (pings : Nat → Bool) (state : LoadBalancerState F) : LoadBalancerState F :=
  (List.range state.nodes.length).foldl (fun st i => st.healthCheckAt i (pings i)) state

@[simp] theorem healthCheckAt_config (i : Nat) (ping : Bool) (state : LoadBalancerState F) :
    (state.healthCheckAt i ping).config = state.config := by
  unfold healthCheckAt
  dsimp only
  split <;> rfl

@[simp] theorem healthCheckAt_strategy (i : Nat) (ping : Bool) (state : LoadBalancerState F) :
    (state.healthCheckAt i ping).loadBalancerStrategy = state.loadBalancerStrategy := by
  unfold healthCheckAt
  dsimp only
  split <;> rfl

/-- A status change leaves the configuration of every node alone. -/
theorem modify_setStatus_nodeConfig (i : Nat) (status : NodeStatus) (nodes : List (NodeState F)) :
    (nodes.modify i (NodeState.setStatus status)).map NodeState.nodeConfig =
      nodes.map NodeState.nodeConfig :=
  map_modify_of_eq (NodeState.setStatus_nodeConfig status) i nodes

/-- A health check changes statuses only: the configuration of each node stays. -/
theorem healthCheckAt_nodeConfig (i : Nat) (ping : Bool) (state : LoadBalancerState F) :
    (state.healthCheckAt i ping).nodes.map NodeState.nodeConfig =
      state.nodes.map NodeState.nodeConfig := by
  unfold healthCheckAt
  dsimp only
  split
  · exact modify_setStatus_nodeConfig i _ state.nodes
  · rfl

end LoadBalancerState

/-- An idle node with the given weight and status, for runs on fixed inputs. -/
def testNode (weight : Int) (status : NodeStatus) : NodeState (BitVec 32) :=
  (NodeState.new 0 ⟨"Target", "127.0.0.1", 5001, 6001, weight⟩).setStatus status

end Balancer

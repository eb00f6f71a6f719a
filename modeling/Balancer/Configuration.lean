import Balancer.Cpp.Fault

/-!
# The configuration of the load balancer

`NodeConfiguration`, `LoadBalancerConfiguration` and the checks of `read_config`
(`LoadBalancerConfiguration.cpp`). The JSON library hands over the integers and strings of the
document unchanged, so a document is given by the values of its fields. The encryption key is
used byte by byte, so it is a list of bytes; the other strings are only compared and printed.
-/

namespace Balancer

open Cpp

structure NodeConfiguration where
  name : String
  host : String
  targetPort : Int
  healthDaemon : Int
  weight : Int
  deriving DecidableEq, Repr, Inhabited

structure LoadBalancerConfiguration where
  maxQueuedConnections : Int
  balancerAlgorithm : String
  listenerPort : Int
  connectionType : String
  encKey : List UInt8
  nodes : List NodeConfiguration
  healthCheckInterval : Int
  timeUntilNodeDown : Int
  deriving DecidableEq, Repr, Inhabited

/-- The assertions `read_config` makes about one node, right after it has read it. -/
def checkNode (node : NodeConfiguration) : Result Unit := do
  assert (0 < node.name.length)
  assert (0 < node.host.length)
  assert (0 < node.targetPort)
  assert (0 < node.healthDaemon)
  assert (0 ≤ node.weight)

def checkNodes : List NodeConfiguration → Result Unit
  | [] => pure ()
  | node :: rest => do
    checkNode node
    checkNodes rest

/-- `read_config` on a document with the given values. -/
def LoadBalancerConfiguration.readConfig (configJson : LoadBalancerConfiguration) :
    Result LoadBalancerConfiguration := do
  checkNodes configJson.nodes
  assert (0 < configJson.maxQueuedConnections)
  assert (0 < configJson.listenerPort)
  assert (0 < configJson.encKey.length)
  assert (0 < configJson.nodes.length)
  assert (15 ≤ configJson.healthCheckInterval)
  assert (1 ≤ configJson.timeUntilNodeDown)
  pure configJson

/-- The configuration of the repository's tests, up to the name of the strategy. -/
def testConfig (balancerAlgorithm : String) : LoadBalancerConfiguration where
  maxQueuedConnections := 4
  balancerAlgorithm := balancerAlgorithm
  listenerPort := 5000
  connectionType := "TCP"
  encKey := [0x31, 0x32, 0x33, 0x34]
  nodes := [⟨"Target 1", "127.0.0.1", 5001, 6001, 1⟩, ⟨"Target 2", "127.0.0.1", 5002, 6002, 1⟩,
    ⟨"Target 3", "127.0.0.1", 5003, 6003, 1⟩]
  healthCheckInterval := 15
  timeUntilNodeDown := 5

/-- The configuration of the tests, with nodes of the given weights. -/
def testWeights (balancerAlgorithm : String) (weights : List Int) : LoadBalancerConfiguration :=
  { testConfig balancerAlgorithm with
    nodes := weights.map fun weight => ⟨"Target", "127.0.0.1", 5001, 6001, weight⟩ }

/-! ## What an accepted configuration satisfies -/

/-- The conditions the code checks on a node. -/
structure NodeConfiguration.Accepted (node : NodeConfiguration) : Prop where
  name : 0 < node.name.length
  host : 0 < node.host.length
  targetPort : 0 < node.targetPort
  healthDaemon : 0 < node.healthDaemon
  weight : 0 ≤ node.weight

/-- The conditions the code checks on a configuration. -/
structure LoadBalancerConfiguration.Accepted (config : LoadBalancerConfiguration) : Prop where
  nodesAccepted : ∀ node ∈ config.nodes, node.Accepted
  maxQueuedConnections : 0 < config.maxQueuedConnections
  listenerPort : 0 < config.listenerPort
  encKey : 0 < config.encKey.length
  nodes : 0 < config.nodes.length
  healthCheckInterval : 15 ≤ config.healthCheckInterval
  timeUntilNodeDown : 1 ≤ config.timeUntilNodeDown

theorem checkNode_eq_ok {node : NodeConfiguration} :
    checkNode node = .ok () ↔ node.Accepted := by
  simp only [checkNode, check_bind_eq_ok, assert_eq_ok]
  constructor
  · rintro ⟨hName, hHost, hPort, hDaemon, hWeight⟩
    exact ⟨hName, hHost, hPort, hDaemon, hWeight⟩
  · rintro ⟨hName, hHost, hPort, hDaemon, hWeight⟩
    exact ⟨hName, hHost, hPort, hDaemon, hWeight⟩

theorem checkNodes_eq_ok {nodes : List NodeConfiguration} :
    checkNodes nodes = .ok () ↔ ∀ node ∈ nodes, node.Accepted := by
  induction nodes with
  | nil => simp [checkNodes]
  | cons node rest ih =>
    simp only [checkNodes, check_bind_eq_ok, checkNode_eq_ok, ih, List.forall_mem_cons]

/-- `read_config` returns the document unchanged, and exactly when every check holds. -/
theorem readConfig_eq_ok {configJson config : LoadBalancerConfiguration} :
    configJson.readConfig = .ok config ↔ config = configJson ∧ config.Accepted := by
  simp only [LoadBalancerConfiguration.readConfig, check_bind_eq_ok, assert_eq_ok,
    checkNodes_eq_ok, pure_eq_ok, Except.ok.injEq]
  constructor
  · rintro ⟨hNodes, hQueue, hPort, hKey, hLength, hInterval, hTime, rfl⟩
    exact ⟨rfl, hNodes, hQueue, hPort, hKey, hLength, hInterval, hTime⟩
  · rintro ⟨rfl, hNodes, hQueue, hPort, hKey, hLength, hInterval, hTime⟩
    exact ⟨hNodes, hQueue, hPort, hKey, hLength, hInterval, hTime, rfl⟩

example : (testConfig "RANDOM").readConfig = .ok (testConfig "RANDOM") := by rfl

end Balancer

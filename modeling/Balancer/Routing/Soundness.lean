import Balancer.Listener
import Balancer.Runs
import Balancer.Routing.RoundRobin

/-!
# ROUND_ROBIN over whole runs

A run interleaves accepted clients with health checks of any nodes, each with any result
(`RouteStep`). The counter of `LBRoundRobin` survives from call to call while the set of `UP`
nodes, and with it the meaning of the counter, changes in between. What survives every change is
`RoundRobinInv`: the counter is between `0` and the sum of all weights, and the nodes carry the
entries of the configuration in order.

* `runHealthChecks_run`: the checks of all nodes are a run of these steps.
* `roundRobinInv_invariant`: each step preserves `RoundRobinInv`.
* `roundRobin_routing_sound`: in every reachable state a call returns `-1` exactly when no `UP`
  node has a positive weight, and otherwise an `UP` node of positive weight, to whose entry the
  listener connects.
-/

namespace Balancer

open Cpp Slots Runs

variable {F : Type}

/-- One step of the daemon: a node is checked, or a client is accepted. -/
inductive RouteStep : LoadBalancer F → LoadBalancer F → Prop
  | healthCheck (lb : LoadBalancer F) (i : Nat) (ping : Bool) :
      RouteStep lb (lb.healthCheckAt i ping)
  | accepted {lb lb' : LoadBalancer F} {rand : Int} {score : NodeState F → Result Int}
      {route : LoadBalancer.Route} (h : lb.route rand score = .ok (route, lb')) : RouteStep lb lb'

/-- The daemon has just been started with `config`. -/
def Started [Zero F] (config : LoadBalancerConfiguration) (lb : LoadBalancer F) : Prop :=
  LoadBalancer.start config = .ok lb

/-- A whole `run_health_checks` is a run: its iterations may be interleaved with calls. -/
theorem runHealthChecks_run (pings : Nat → Bool) (lb : LoadBalancer F) :
    Relation.ReflTransGen RouteStep lb { lb with state := lb.state.runHealthChecks pings } := by
  unfold LoadBalancerState.runHealthChecks
  generalize List.range lb.state.nodes.length = indices
  induction indices generalizing lb with
  | nil => exact .refl
  | cons i indices ih =>
    exact .head (.healthCheck lb i (pings i)) (ih (lb.healthCheckAt i (pings i)))

/-- The sum of all configured weights. -/
def LoadBalancerConfiguration.weightSum (config : LoadBalancerConfiguration) : Int :=
  (config.nodes.map NodeConfiguration.weight).sum

/-! ## The invariant -/

/-- What holds between any two steps under ROUND_ROBIN. -/
structure RoundRobinInv (config : LoadBalancerConfiguration) (lb : LoadBalancer F) : Prop where
  config_eq : lb.config = config
  nodes_eq : lb.state.nodes.map NodeState.nodeConfig = config.nodes
  counter : ∃ c : Nat, lb.state.loadBalancerStrategy = .roundRobin ⟨(c : Int)⟩ ∧
    (c : Int) ≤ config.weightSum

theorem RoundRobinInv.nonneg {config : LoadBalancerConfiguration} {lb : LoadBalancer F}
    (h : RoundRobinInv config lb) (hNonneg : ∀ node ∈ config.nodes, 0 ≤ node.weight) :
    NonnegWeights lb.state.nodes := by
  rw [nonnegWeights_iff, h.nodes_eq]
  exact hNonneg

theorem RoundRobinInv.upWeights_le {config : LoadBalancerConfiguration} {lb : LoadBalancer F}
    (h : RoundRobinInv config lb) (hNonneg : ∀ node ∈ config.nodes, 0 ≤ node.weight) :
    ((upWeights lb.state.nodes).sum : Int) ≤ config.weightSum :=
  upTotal_le_of_nodeConfig h.nodes_eq hNonneg

/-- The state after a call that leaves the round-robin object `counter`. -/
def LoadBalancerState.withCounter (counter : LBRoundRobin) (state : LoadBalancerState F) :
    LoadBalancerState F :=
  { state with loadBalancerStrategy := .roundRobin counter }

/-- The call made in a state with the invariant. -/
theorem RoundRobinInv.chooseNode_eq {config : LoadBalancerConfiguration} {lb : LoadBalancer F}
    (h : RoundRobinInv config lb) (hNonneg : ∀ node ∈ config.nodes, 0 ≤ node.weight)
    (hSum : config.weightSum ≤ INT_MAX) (rand : Int) (score : NodeState F → Result Int) :
    ∃ c : Nat, lb.state.chooseNode rand score =
        .ok ((LBRoundRobin.pick c (slots (upWeights lb.state.nodes))[c]?).1,
          lb.state.withCounter (LBRoundRobin.pick c (slots (upWeights lb.state.nodes))[c]?).2) ∧
      (0 < (upWeights lb.state.nodes).sum → c < (upWeights lb.state.nodes).sum) ∧
      ((upWeights lb.state.nodes).sum = 0 → c = 0) := by
  obtain ⟨c, hStrategy, -⟩ := h.counter
  have hFits := (h.upWeights_le hNonneg).trans hSum
  refine ⟨LBRoundRobin.slotOf (upWeights lb.state.nodes).sum c, ?_, LBRoundRobin.slotOf_lt, ?_⟩
  · rw [LoadBalancerState.chooseNode, hStrategy]
    dsimp only
    rw [LBRoundRobin.chooseNode_eq (h.nonneg hNonneg) hFits c]
    rfl
  · intro hZero
    simp [LBRoundRobin.slotOf, hZero]

/-- A call leaves the counter between `0` and the sum of all weights. -/
theorem RoundRobinInv.chooseNode_inv {config : LoadBalancerConfiguration} {lb : LoadBalancer F}
    (h : RoundRobinInv config lb) (hNonneg : ∀ node ∈ config.nodes, 0 ≤ node.weight)
    (hSum : config.weightSum ≤ INT_MAX) {rand nodeId : Int} {score : NodeState F → Result Int}
    {state : LoadBalancerState F} (hCall : lb.state.chooseNode rand score = .ok (nodeId, state)) :
    RoundRobinInv config { lb with state := state } := by
  obtain ⟨c, hEq, hPos, hZero⟩ := h.chooseNode_eq hNonneg hSum rand score
  rw [hEq] at hCall
  cases hCall
  have hLe := h.upWeights_le hNonneg
  refine ⟨h.config_eq, h.nodes_eq, ?_⟩
  cases hOwner : (slots (upWeights lb.state.nodes))[c]? with
  | none => exact ⟨c, rfl, by omega⟩
  | some i =>
    have hc : c < (upWeights lb.state.nodes).sum := by
      have := (List.getElem?_eq_some_iff.mp hOwner).1
      simpa using this
    exact ⟨c + 1, rfl, by omega⟩

theorem RoundRobinInv.healthCheck_inv {config : LoadBalancerConfiguration} {lb : LoadBalancer F}
    (h : RoundRobinInv config lb) (i : Nat) (ping : Bool) :
    RoundRobinInv config (lb.healthCheckAt i ping) where
  config_eq := h.config_eq
  nodes_eq := (LoadBalancerState.healthCheckAt_nodeConfig i ping lb.state).trans h.nodes_eq
  counter := by
    rw [LoadBalancer.healthCheckAt, LoadBalancerState.healthCheckAt_strategy]
    exact h.counter

/-- The state after a routed client is the one `chooseNode` left. -/
theorem LoadBalancer.route_state {lb lb' : LoadBalancer F} {rand : Int}
    {score : NodeState F → Result Int} {route : LoadBalancer.Route}
    (h : lb.route rand score = .ok (route, lb')) :
    ∃ nodeId state, lb.state.chooseNode rand score = .ok (nodeId, state) ∧
      lb' = { lb with state := state } := by
  obtain ⟨⟨nodeId, state⟩, hCall, hRest⟩ := bind_eq_ok.mp h
  refine ⟨nodeId, state, hCall, ?_⟩
  dsimp only at hRest
  split at hRest
  · cases hRest
    rfl
  · obtain ⟨node, -, hNode⟩ := bind_eq_ok.mp hRest
    cases hNode
    rfl

theorem started_inv [Zero F] {config : LoadBalancerConfiguration} {lb : LoadBalancer F}
    (hAlgorithm : config.balancerAlgorithm = "ROUND_ROBIN")
    (hNonneg : ∀ node ∈ config.nodes, 0 ≤ node.weight) (h : Started config lb) :
    RoundRobinInv config lb := by
  have hSum : 0 ≤ config.weightSum := by
    apply List.sum_nonneg
    intro w hw
    obtain ⟨node, hNode, rfl⟩ := List.mem_map.mp hw
    exact hNonneg node hNode
  simp only [Started, LoadBalancer.start, LoadBalancerState.new, LoadBalancerState.initStrategy,
    hAlgorithm, if_true, pure_eq_ok, ok_bind] at h
  cases h
  refine ⟨rfl, ?_, 0, rfl, hSum⟩
  rw [List.map_map]
  exact List.map_id config.nodes

theorem roundRobinInv_invariant [Zero F] {config : LoadBalancerConfiguration}
    (hAlgorithm : config.balancerAlgorithm = "ROUND_ROBIN")
    (hNonneg : ∀ node ∈ config.nodes, 0 ≤ node.weight) (hSum : config.weightSum ≤ INT_MAX) :
    Invariant (Started config) RouteStep (RoundRobinInv (F := F) config) where
  initial lb h := started_inv hAlgorithm hNonneg h
  preserved lb lb' hInv hStep := by
    cases hStep with
    | healthCheck i ping => exact hInv.healthCheck_inv i ping
    | accepted h =>
      obtain ⟨nodeId, state, hCall, rfl⟩ := LoadBalancer.route_state h
      exact hInv.chooseNode_inv hNonneg hSum hCall

/-! ## Every call of every run -/

/-- The listener connects to the configured entry of the position `chooseNode` returned. -/
theorem LoadBalancer.route_eq_connectTo {lb : LoadBalancer F} {rand : Int}
    {score : NodeState F → Result Int} {i : Nat} {state : LoadBalancerState F}
    {node : NodeConfiguration} (hCall : lb.state.chooseNode rand score = .ok ((i : Int), state))
    (hNode : lb.config.nodes[i]? = some node) :
    lb.route rand score = .ok (.connectTo i node, { lb with state := state }) := by
  have hNotNeg : ¬ (i : Int) < 0 := by omega
  have hNotNone : (i : Int) ≠ -1 := by omega
  simp only [LoadBalancer.route, hCall, ok_bind, LoadBalancer.nodeAt, hNotNeg, hNotNone, if_false,
    Int.toNat_natCast, hNode, pure_eq_ok]

/-- **Routing soundness.** For a configuration with nonnegative weights whose sum fits an `int`,
every state of every run has its counter between `0` and that sum, and the call made there
returns, changes no node, answers `-1` exactly when no `UP` node has a positive weight, and
otherwise answers an `UP` node of positive weight. Its node state holds the entry of the
configuration at the same position, and that entry is what the listener connects to. -/
theorem roundRobin_routing_sound [Zero F] (config : LoadBalancerConfiguration)
    (hAlgorithm : config.balancerAlgorithm = "ROUND_ROBIN")
    (hNonneg : ∀ node ∈ config.nodes, 0 ≤ node.weight) (hSum : config.weightSum ≤ INT_MAX) :
    (∃ lb : LoadBalancer F, Started config lb) ∧
    ∀ lb : LoadBalancer F, Reachable (Started config) RouteStep lb →
      (∃ currentNode : Int, lb.state.loadBalancerStrategy = .roundRobin ⟨currentNode⟩ ∧
        0 ≤ currentNode ∧ currentNode ≤ config.weightSum) ∧
      ∀ (rand : Int) (score : NodeState F → Result Int), ∃ nodeId state,
        lb.state.chooseNode rand score = .ok (nodeId, state) ∧
        state.nodes = lb.state.nodes ∧
        (nodeId = -1 ↔
          ∀ node ∈ lb.state.nodes, node.status = .up → ¬ 0 < node.nodeConfig.weight) ∧
        (nodeId ≠ -1 → ∃ i node, nodeId = (i : Nat) ∧ i < lb.state.nodes.length ∧
          lb.state.nodes[i]? = some node ∧ node.status = .up ∧ 0 < node.nodeConfig.weight ∧
          config.nodes[i]? = some node.nodeConfig ∧
          lb.route rand score =
            .ok (.connectTo i node.nodeConfig, { lb with state := state })) := by
  constructor
  · refine ⟨⟨config, config, config.nodes.map LoadBalancerState.initNode,
      .roundRobin LBRoundRobin.new⟩, ?_⟩
    simp [Started, LoadBalancer.start, LoadBalancerState.new, LoadBalancerState.initStrategy,
      hAlgorithm]
  intro lb hReach
  have hInv := (roundRobinInv_invariant hAlgorithm hNonneg hSum).of_reachable hReach
  constructor
  · obtain ⟨c, hStrategy, hLe⟩ := hInv.counter
    exact ⟨c, hStrategy, by omega, hLe⟩
  intro rand score
  obtain ⟨c, hCall, hPos, hZero⟩ := hInv.chooseNode_eq hNonneg hSum rand score
  refine ⟨_, _, hCall, rfl, ?_, ?_⟩
  · -- `-1` is answered exactly when the effective weights sum to `0`
    rw [← upWeights_sum_eq_zero_iff]
    cases hOwner : (slots (upWeights lb.state.nodes))[c]? with
    | none =>
      have hLe : (upWeights lb.state.nodes).sum ≤ c := by
        simpa using List.getElem?_eq_none_iff.mp hOwner
      simp only [LBRoundRobin.pick, true_iff]
      by_contra hne
      have := hPos (by omega)
      omega
    | some i =>
      have hLt : c < (upWeights lb.state.nodes).sum := by
        simpa using (List.getElem?_eq_some_iff.mp hOwner).1
      simp only [LBRoundRobin.pick]
      constructor
      · intro h
        omega
      · intro h
        omega
  · intro hne
    cases hOwner : (slots (upWeights lb.state.nodes))[c]? with
    | none =>
      rw [hOwner] at hne
      exact absurd rfl hne
    | some i =>
      obtain ⟨w, hw, hwPos⟩ := getElem?_slots_bounds hOwner
      obtain ⟨node, hNode, rfl⟩ := upWeights_getElem?_eq_some.mp hw
      obtain ⟨hUp, hWeight⟩ := upWeight_pos_iff.mp hwPos
      have hConfig : config.nodes[i]? = some node.nodeConfig := by
        rw [← hInv.nodes_eq, List.getElem?_map, hNode]
        rfl
      rw [hOwner] at hCall
      refine ⟨i, node, rfl, (List.getElem?_eq_some_iff.mp hNode).1, hNode, hUp, hWeight, hConfig,
        ?_⟩
      exact LoadBalancer.route_eq_connectTo hCall (hInv.config_eq ▸ hConfig)

/-- A client is accepted after the second node has answered a ping. -/
theorem roundRobin_routing_sound_test :
    ∃ (lb : LoadBalancer (BitVec 32)) (i : Nat) (node : NodeState (BitVec 32))
      (state : LoadBalancerState (BitVec 32)),
      Reachable (Started (testConfig "ROUND_ROBIN")) RouteStep lb ∧
        lb.state.nodes[i]? = some node ∧ node.status = .up ∧
        lb.route 0 (fun _ => .ok 0) =
          .ok (.connectTo i node.nodeConfig, { lb with state := state }) := by
  obtain ⟨⟨lb, hStarted⟩, hRuns⟩ := roundRobin_routing_sound (F := BitVec 32)
    (testConfig "ROUND_ROBIN") rfl (by decide) (by decide)
  have hReachable : Reachable (Started (testConfig "ROUND_ROBIN")) RouteStep
      (lb.healthCheckAt 1 true) := ⟨lb, hStarted, .single (.healthCheck lb 1 true)⟩
  obtain ⟨nodeId, state, -, -, hNone, hChosen⟩ := (hRuns _ hReachable).2 0 (fun _ => .ok 0)
  have hAnswered : ∃ node ∈ (lb.healthCheckAt 1 true).state.nodes,
      node.status = .up ∧ 0 < node.nodeConfig.weight := by
    cases hStarted
    decide
  obtain ⟨answered, hMem, hUp, hWeight⟩ := hAnswered
  obtain ⟨i, node, -, -, hNode, hNodeUp, -, -, hRoute⟩ :=
    hChosen fun hId => hNone.mp hId answered hMem hUp hWeight
  exact ⟨_, i, node, state, hReachable, hNode, hNodeUp, hRoute⟩

end Balancer

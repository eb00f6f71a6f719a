import Balancer.Routing.Soundness

/-!
# Clients and pings

The runs of `Routing/Soundness.lean` with what each step is told. Outside of `RESOURCE` the status
of a node is the answer to the last ping of it, however the pings and the clients are interleaved.

* `lastPing`: the answer to the last ping of a node in a run.
* `pinged_of_run`: the status of every node.
* `routed_pinged`: under `ROUND_ROBIN` a client is sent to a node whose last ping was answered.
-/

namespace Balancer

open Cpp Slots Runs

variable {F : Type}

/-- What a step of the daemon is told. -/
inductive RouteEvent
  | checked (i : Nat) (ping : Bool)
  | accepted (route : LoadBalancer.Route)

/-- `RouteStep`, with its event. -/
inductive RecordedStep : LoadBalancer F → RouteEvent → LoadBalancer F → Prop
  | checked (lb : LoadBalancer F) (i : Nat) (ping : Bool) :
      RecordedStep lb (.checked i ping) (lb.healthCheckAt i ping)
  | accepted {lb lb' : LoadBalancer F} {rand : Int} {score : NodeState F → Result Int}
      {route : LoadBalancer.Route} (h : lb.route rand score = .ok (route, lb')) :
      RecordedStep lb (.accepted route) lb'

theorem RecordedStep.routeStep {lb lb' : LoadBalancer F} {event : RouteEvent}
    (h : RecordedStep lb event lb') : RouteStep lb lb' := by
  cases h with
  | checked i ping => exact .healthCheck lb i ping
  | accepted h => exact .accepted h

/-! ## The last ping -/

/-- The ping of node `i`, if the event is one. -/
def RouteEvent.pingOf (i : Nat) : RouteEvent → Option Bool
  | .checked k ping => if k = i then some ping else none
  | .accepted _ => none

def lastPing (i : Nat) (events : List RouteEvent) : Option Bool :=
  (events.filterMap (RouteEvent.pingOf i)).getLast?

theorem lastPing_concat (i : Nat) (events : List RouteEvent) (event : RouteEvent) :
    lastPing i (events ++ [event]) = (event.pingOf i).or (lastPing i events) := by
  rw [lastPing, List.filterMap_append]
  cases h : event.pingOf i with
  | none => simp [lastPing, h]
  | some ping => simp [h]

/-- A call of `chooseNode` writes no node and no configuration. -/
theorem LoadBalancerState.chooseNode_frame {state state' : LoadBalancerState F} {rand nodeId : Int}
    {score : NodeState F → Result Int} (h : state.chooseNode rand score = .ok (nodeId, state')) :
    state'.nodes = state.nodes ∧ state'.config = state.config := by
  unfold LoadBalancerState.chooseNode at h
  split at h
  · obtain ⟨⟨chosen, lb⟩, -, h⟩ := bind_eq_ok.mp h
    cases h
    exact ⟨rfl, rfl⟩
  · obtain ⟨chosen, -, h⟩ := bind_eq_ok.mp h
    cases h
    exact ⟨rfl, rfl⟩
  · obtain ⟨chosen, -, h⟩ := bind_eq_ok.mp h
    cases h
    exact ⟨rfl, rfl⟩

/-- What a run keeps outside of `RESOURCE`. -/
structure PingedInv (events : List RouteEvent) (lb : LoadBalancer F) : Prop where
  algorithm : lb.state.config.balancerAlgorithm ≠ "RESOURCE"
  status : ∀ i node, lb.state.nodes[i]? = some node →
    (node.status = .up ↔ lastPing i events = some true)

theorem PingedInv.step {events : List RouteEvent} {lb lb' : LoadBalancer F} {event : RouteEvent}
    (h : PingedInv events lb) (hStep : RecordedStep lb event lb') :
    PingedInv (events ++ [event]) lb' := by
  cases hStep with
  | checked k ping =>
    refine ⟨by simp [LoadBalancer.healthCheckAt, h.algorithm], ?_⟩
    intro i node hNode
    simp only [LoadBalancer.healthCheckAt, LoadBalancerState.healthCheckAt,
      if_pos h.algorithm] at hNode
    rw [List.getElem?_modify] at hNode
    obtain ⟨before, hBefore, rfl⟩ := Option.map_eq_some_iff.mp hNode
    rw [lastPing_concat, RouteEvent.pingOf]
    split
    · cases ping <;> simp
    · exact h.status i before hBefore
  | accepted hRoute =>
    obtain ⟨nodeId, state, hCall, rfl⟩ := LoadBalancer.route_state hRoute
    obtain ⟨hNodes, hConfig⟩ := LoadBalancerState.chooseNode_frame hCall
    refine ⟨by simpa only [hConfig] using h.algorithm, ?_⟩
    intro i node hNode
    rw [lastPing_concat]
    exact h.status i node (hNodes ▸ hNode)

/-- **Pings and statuses.** In every run outside of `RESOURCE`, whatever the pings of the nodes and
the clients answer and however they are interleaved, a node is up exactly when the last ping of it
was answered. -/
theorem pinged_of_run [Zero F] {config : LoadBalancerConfiguration}
    (hAlgorithm : config.balancerAlgorithm ≠ "RESOURCE") {lb₀ lb : LoadBalancer F}
    {events : List RouteEvent} (hStart : Started config lb₀)
    (hRun : Trace RecordedStep lb₀ events lb) : PingedInv events lb := by
  refine hRun.invariant ?_ fun _ _ _ _ h hStep => h.step hStep
  obtain ⟨state, hState, hEq⟩ := bind_eq_ok.mp hStart
  obtain ⟨strategy, -, hNew⟩ := bind_eq_ok.mp hState
  cases hEq
  cases hNew
  refine ⟨hAlgorithm, ?_⟩
  intro i node hNode
  rw [List.getElem?_map] at hNode
  obtain ⟨entry, -, rfl⟩ := Option.map_eq_some_iff.mp hNode
  simp [LoadBalancerState.initNode, NodeState.setLastChecked, lastPing]

/-! ## The next client -/

/-- The next client of a run is sent to an entry of positive weight whose last ping was answered,
and turned away only when there is none. -/
def RoutedBy (config : LoadBalancerConfiguration) (events : List RouteEvent) :
    LoadBalancer.Route → Prop
  | .closeClient =>
    ∀ i entry, config.nodes[i]? = some entry → 0 < entry.weight → lastPing i events ≠ some true
  | .connectTo i entry =>
    config.nodes[i]? = some entry ∧ 0 < entry.weight ∧ lastPing i events = some true

/-- **Routing by pings.** Under `ROUND_ROBIN` the next client of every run gets an answer, and the
answer is determined by the pings before it in this way. -/
theorem routed_pinged [Zero F] {config : LoadBalancerConfiguration}
    (hAlgorithm : config.balancerAlgorithm = "ROUND_ROBIN")
    (hNonneg : ∀ node ∈ config.nodes, 0 ≤ node.weight) (hSum : config.weightSum ≤ INT_MAX)
    {lb₀ lb : LoadBalancer F} {events : List RouteEvent} (hStart : Started config lb₀)
    (hRun : Trace RecordedStep lb₀ events lb) (rand : Int) (score : NodeState F → Result Int) :
    ∃ route lb', lb.route rand score = .ok (route, lb') ∧ RoutedBy config events route := by
  have hPinged := pinged_of_run (by rw [hAlgorithm]; decide) hStart hRun
  have hInv : RoundRobinInv config lb :=
    (roundRobinInv_invariant hAlgorithm hNonneg hSum).of_reachable
      ⟨lb₀, hStart, hRun.refines fun _ _ _ hStep => .single hStep.routeStep⟩
  have hEntry {i : Nat} {node : NodeState F} (hNode : lb.state.nodes[i]? = some node) :
      config.nodes[i]? = some node.nodeConfig := by
    rw [← hInv.nodes_eq, List.getElem?_map, hNode]
    rfl
  obtain ⟨c, hCall, hPos, -⟩ := hInv.chooseNode_eq hNonneg hSum rand score
  cases hOwner : (slots (upWeights lb.state.nodes))[c]? with
  | none =>
    rw [hOwner] at hCall
    have hRoute : lb.route rand score = .ok (.closeClient,
        { lb with state := lb.state.withCounter (LBRoundRobin.pick c none).2 }) := by
      rw [LoadBalancer.route, hCall]
      rfl
    refine ⟨.closeClient, _, hRoute, ?_⟩
    intro i entry hConfig hWeight hAnswered
    have hLe : (upWeights lb.state.nodes).sum ≤ c := by
      simpa using List.getElem?_eq_none_iff.mp hOwner
    have hZero : (upWeights lb.state.nodes).sum = 0 := by
      by_contra hSome
      have := hPos (by omega)
      omega
    obtain ⟨node, hNode, rfl⟩ : ∃ node, lb.state.nodes[i]? = some node ∧
        node.nodeConfig = entry := by
      rw [← hInv.nodes_eq, List.getElem?_map] at hConfig
      exact Option.map_eq_some_iff.mp hConfig
    exact upWeights_sum_eq_zero_iff.mp hZero node (List.mem_of_getElem? hNode)
      ((hPinged.status i node hNode).mpr hAnswered) hWeight
  | some i =>
    rw [hOwner] at hCall
    obtain ⟨w, hw, hwPos⟩ := getElem?_slots_bounds hOwner
    obtain ⟨node, hNode, rfl⟩ := upWeights_getElem?_eq_some.mp hw
    obtain ⟨hUp, hWeight⟩ := upWeight_pos_iff.mp hwPos
    exact ⟨.connectTo i node.nodeConfig, _,
      LoadBalancer.route_eq_connectTo hCall (hInv.config_eq ▸ hEntry hNode), hEntry hNode, hWeight,
      (hPinged.status i node hNode).mp hUp⟩

/-- The second node answers a ping, and the first one does not. -/
theorem routed_pinged_second :
    ∃ (lb : LoadBalancer (BitVec 32)) (route : LoadBalancer.Route) (lb' : LoadBalancer (BitVec 32)),
      lb.route 0 (fun _ => .ok 0) = .ok (route, lb') ∧
        RoutedBy (testConfig "ROUND_ROBIN") [.checked 1 true, .checked 0 false] route := by
  obtain ⟨lb₀, hStart⟩ : ∃ lb₀ : LoadBalancer (BitVec 32), Started (testConfig "ROUND_ROBIN") lb₀ :=
    ⟨_, rfl⟩
  have hRun : Trace RecordedStep lb₀ [.checked 1 true, .checked 0 false]
      ((lb₀.healthCheckAt 1 true).healthCheckAt 0 false) :=
    (Trace.refl.snoc (.checked lb₀ 1 true)).snoc (.checked _ 0 false)
  exact ⟨_, routed_pinged rfl (by decide) (by decide) hStart hRun 0 _⟩

end Balancer

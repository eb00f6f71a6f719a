import Balancer.Listener
import Balancer.Realtime.InOrder
import Balancer.Routing.Score

/-!
# Where a client is sent under `RESOURCE`

The listener of `LoadBalancer.cpp` over the network of `Realtime/Network.lean`: the client is sent
to the entry of the configuration whose reporter the thread of the node is connected to.

* `Wired`: the strategy and the entries that no step changes.
* `routed_connected`: what is known of a node when a client is sent to it.
* `routed_least`: its last report has the least score.
-/

namespace Balancer

open Cpp FirstMin Plusaes

namespace LBResource

variable {F : Type} {score : NodeState F → Result Int} {nodes : List (NodeState F)} {i : Nat}

theorem up_of_chosen (h : chooseNode score nodes = .ok (i : Int)) :
    ∃ node, nodes[i]? = some node ∧ node.status = .up := by
  rcases chooseNode_isUpPosition h with hNone | ⟨k, node, hk, hNode, hUp⟩
  · omega
  · obtain rfl : i = k := by omega
    exact ⟨node, hNode, hUp⟩

/-- A chosen node has the first minimum of the scores, whatever the arithmetic is. -/
theorem firstMin_of_chosen (h : chooseNode score nodes = .ok (i : Int)) :
    ∃ m, IsFirstMin (nodes.map (scoreAt score)) i m := by
  have hScorable : Scorable score nodes := endsNormally_search.mp ⟨_, h⟩
  rcases chooseNode_eq_scan hScorable with ⟨hNone, -⟩ | ⟨k, m, hChosen, -, hMin⟩
  · have := Except.ok.inj (h.symm.trans hNone)
    omega
  · have := Except.ok.inj (h.symm.trans hChosen)
    obtain rfl : i = k := by omega
    exact ⟨m, hMin⟩

end LBResource

/-- A client is sent to the entry of the node that the strategy has chosen. -/
theorem LoadBalancer.route_resource {F : Type} {lb lb' : LoadBalancer F} {rand : Int}
    {score : NodeState F → Result Int} {i : Nat} {entry : NodeConfiguration}
    (hStrategy : lb.state.loadBalancerStrategy = .resource)
    (h : lb.route rand score = .ok (.connectTo i entry, lb')) :
    lb' = lb ∧ lb.config.nodes[i]? = some entry ∧
      LBResource.chooseNode score lb.state.nodes = .ok (i : Int) := by
  obtain ⟨⟨nodeId, state⟩, hCall, hRest⟩ := bind_eq_ok.mp h
  rw [LoadBalancerState.chooseNode, hStrategy] at hCall
  obtain ⟨chosen, hChosen, hState⟩ := bind_eq_ok.mp hCall
  obtain ⟨rfl, rfl⟩ := Prod.mk.inj (Except.ok.inj hState)
  dsimp only at hRest
  split at hRest
  · cases hRest
  · rename_i hSome
    obtain ⟨found, hAt, hRoute⟩ := bind_eq_ok.mp hRest
    obtain ⟨hConnect, rfl⟩ := Prod.mk.inj (Except.ok.inj hRoute)
    obtain ⟨rfl, rfl⟩ := Route.connectTo.inj hConnect
    rcases LBResource.chooseNode_isUpPosition hChosen with hNone | ⟨k, node, rfl, -, -⟩
    · exact absurd hNone hSome
    refine ⟨rfl, ?_, hChosen⟩
    have hNotNeg : ¬ (k : Int) < 0 := by omega
    rw [nodeAt, if_neg hNotNeg] at hAt
    split at hAt
    · rename_i hEntry
      rw [hEntry, Except.ok.inj hAt]
    · cases hAt

/-! ## What no step changes -/

/-- The strategy is `LBResource` and the nodes have their entries of the configuration. -/
structure System.Wired (config : LoadBalancerConfiguration) (s : System) : Prop where
  strategy : s.state.loadBalancerStrategy = .resource
  entries : s.state.nodes.map NodeState.nodeConfig = config.nodes

theorem System.Wired.entry {config : LoadBalancerConfiguration} {s : System}
    (h : s.Wired config) {i : Nat} {node : NodeState FloatBits}
    (hNode : s.state.nodes[i]? = some node) : config.nodes[i]? = some node.nodeConfig := by
  rw [← h.entries, List.getElem?_map, hNode]
  rfl

theorem RtStep.nodeConfig_eq {aes : Cipher} {encKey : Bytes} {clock : Int} {t t' : RtThread}
    {node node' : NodeState FloatBits} (hStep : RtStep aes encKey clock t node t' node') :
    node'.nodeConfig = node.nodeConfig := by
  cases hStep <;> rfl

theorem System.putNode_entries {s : System} {i : Nat} {node node' : NodeState FloatBits}
    (hNode : s.state.nodes[i]? = some node) (hConfig : node'.nodeConfig = node.nodeConfig) :
    (s.putNode i node').state.nodes.map NodeState.nodeConfig =
      s.state.nodes.map NodeState.nodeConfig := by
  have hSame := congrArg (fun s : System => s.state.nodes.map NodeState.nodeConfig)
    (System.putNode_self hNode)
  simp only [putNode, List.map_set, hConfig] at hSame ⊢
  exact hSame

theorem System.wired_invariant (aes : Cipher) (config : LoadBalancerConfiguration) :
    Runs.Invariant (System.Init config) (System.Step aes) (System.Wired config) where
  initial := by
    intro s h
    obtain ⟨strategy, hStrategy, hState⟩ := bind_eq_ok.mp h.state
    have hResource : LoadBalancerState.initStrategy config.balancerAlgorithm = .ok .resource := by
      rw [h.algorithm]
      rfl
    obtain rfl := Except.ok.inj (hStrategy.symm.trans hResource)
    have hState := Except.ok.inj hState
    refine ⟨?_, ?_⟩
    · rw [← hState]
    · rw [← hState, List.map_map]
      exact List.map_id config.nodes
  preserved := by
    intro s s' h hStep
    cases hStep with
    | rtThread hNode hStep =>
      exact ⟨h.strategy, (System.putNode_entries hNode hStep.nodeConfig_eq).trans h.entries⟩
    | @invalidates i node hPc hNode =>
      have hConfig : (node.setStatus .down).nodeConfig = node.nodeConfig := rfl
      exact ⟨h.strategy, (System.putNode_entries hNode hConfig).trans h.entries⟩
    | healthCheck i ping =>
      exact ⟨(LoadBalancerState.healthCheckAt_strategy i ping s.state).trans h.strategy,
        (LoadBalancerState.healthCheckAt_nodeConfig i ping s.state).trans h.entries⟩
    | tick clock | readsUp _ hNode _ | readsDown _ hNode _ | sleeps _ hEnd | findsStale _ hNode _
    | findsFresh _ hNode _ => exact ⟨h.strategy, h.entries⟩

namespace Network

variable {aes : Cipher} {config : LoadBalancerConfiguration} {n : Network}

/-- **Routing under `RESOURCE`.** In every state of every run, a client is sent to an entry of the
configuration whose health daemon, connected to through the same entry, is known to be a reporter:
the thread of the node holds an open connection on which the handshake has been completed from both
ends and something has been received behind it. The choice changes nothing. -/
theorem routed_connected (h : Runs.Reachable (Init config) (Step aes) n) {rand : Int}
    {score : NodeState FloatBits → Result Int} {i : Nat} {entry : NodeConfiguration}
    {lb' : LoadBalancer FloatBits}
    (hRoute : LoadBalancer.route rand score ⟨config, n.system.state⟩ =
      .ok (.connectTo i entry, lb')) :
    lb' = ⟨config, n.system.state⟩ ∧ config.nodes[i]? = some entry ∧
      ∃ node ℓ, n.system.state.nodes[i]? = some node ∧ node.nodeConfig = entry ∧
        n.current i = some ℓ ∧ ℓ.balancerOpen = true ∧ ℓ.Established aes ∧
        3 ≤ ℓ.toBalancer.received.length := by
  have hWired := (System.wired_invariant aes config).of_reachable (reachable_system h)
  obtain ⟨hSame, hEntry, hChosen⟩ := LoadBalancer.route_resource hWired.strategy hRoute
  obtain ⟨node, hNode, hUp⟩ := LBResource.up_of_chosen hChosen
  have hInv := (networkInv_invariant aes config).of_reachable h i node
  have hNodeInv := ((System.systemInv_invariant aes config).of_reachable
    (reachable_system h)).nodes i node hNode
  obtain ⟨ℓ, msg4, rest, hLink, hEstablished, -⟩ := hInv.established (hNodeInv.up hUp).1
  refine ⟨hSame, hEntry, node, ℓ, hNode, ?_, hLink, (hInv.current ℓ hLink).2, hEstablished,
    hasReceived_of_up h hNode hUp ℓ hLink⟩
  exact Option.some.inj ((hWired.entry hNode).symm.trans hEntry)

/-- A client behind the first report, all scores being equal. -/
theorem routed_connected_reported :
    ∃ (n : Network) (node : NodeState FloatBits) (ℓ : Link),
      n.system.state.nodes[0]? = some node ∧
        node.nodeConfig = ⟨"Target 1", "127.0.0.1", 5001, 6001, 1⟩ ∧ n.current 0 = some ℓ ∧
        ℓ.balancerOpen = true ∧ ℓ.Established Plusaes.aes ∧
        3 ≤ ℓ.toBalancer.received.length := by
  obtain ⟨s, hReachable, -, hReported⟩ := exists_reported Plusaes.aes
  have hRoute : LoadBalancer.route 0 (fun _ => .ok 0)
      ⟨keyedConfig, ((starting keyedConfig 1700000000).putSession 0 s).system.state⟩ =
        .ok (.connectTo 0 ⟨"Target 1", "127.0.0.1", 5001, 6001, 1⟩,
          ⟨keyedConfig, ((starting keyedConfig 1700000000).putSession 0 s).system.state⟩) := by
    simp only [putSession, hReported]
    rfl
  obtain ⟨-, -, node, ℓ, hRest⟩ := routed_connected hReachable hRoute
  exact ⟨_, node, ℓ, hRest⟩

/-! ## The scores of the last reports -/

/-- `(int)((cpu_usage * 100 + mem_usage) * (1.0 / weight))` of a node, by the arithmetic `load`. -/
def scoreOf (load : FloatBits → FloatBits → Int → Result Int) (node : NodeState FloatBits) :
    Result Int := load node.cpuUsage node.memUsage node.nodeConfig.weight

/-- The last report that the thread of node `i` has received on its connection. -/
def LastReport (n : Network) (i : Nat) (hr : HealthReport) : Prop :=
  ∃ ℓ, n.current i = some ℓ ∧ ℓ.delivered.getLast? = some hr

/-- An `UP` node whose thread waits has the score of its last report. -/
theorem exists_lastReport (hKey : config.encKey.length = 16) {i : Nat}
    (h : Runs.Reachable (Init config) (WholeStep aes i) n) {node : NodeState FloatBits}
    (hNode : n.system.state.nodes[i]? = some node) (hUp : node.status = .up) {iv : Block}
    (hPc : (n.system.threads i).pc = .receive iv) :
    ∃ hr, n.LastReport i hr ∧ node.cpuUsage = hr.cpuLoad ∧ node.memUsage = hr.memLoad := by
  obtain ⟨ℓ, hLink, -, hHolds, hSome⟩ := exists_delivered hKey h hPc hNode
  have hLast := List.getLast?_eq_some_getLast (hSome hUp)
  exact ⟨_, ⟨ℓ, hLink, hLast⟩, hHolds _ hLast⟩

/-- **The least loaded node.** In a run in which all connections stay whole, while the threads of
the `UP` nodes wait for reports, a client is sent to the first entry whose last report has the least
score: what the choice compares are the scores of the last reports received, with the weights of the
configuration. -/
theorem routed_least (hKey : config.encKey.length = 16)
    (h : Runs.Reachable (Init config) (fun n n' => Step aes n n' ∧ ∀ i, n'.WholeAt i) n)
    (hWaiting : ∀ (j : Nat) (node : NodeState FloatBits), n.system.state.nodes[j]? = some node →
      node.status = .up → ∃ iv, (n.system.threads j).pc = .receive iv)
    {load : FloatBits → FloatBits → Int → Result Int} {rand : Int} {i : Nat}
    {entry : NodeConfiguration} {lb' : LoadBalancer FloatBits}
    (hRoute : LoadBalancer.route rand (scoreOf load) ⟨config, n.system.state⟩ =
      .ok (.connectTo i entry, lb')) :
    ∃ hr m, n.LastReport i hr ∧ load hr.cpuLoad hr.memLoad entry.weight = .ok m ∧
      ∀ (j : Nat) (node : NodeState FloatBits), n.system.state.nodes[j]? = some node →
        node.status = .up → ∃ entry' hr' m', config.nodes[j]? = some entry' ∧ n.LastReport j hr' ∧
          load hr'.cpuLoad hr'.memLoad entry'.weight = .ok m' ∧ m ≤ m' ∧ (j < i → m < m') := by
  have hReachable (j : Nat) : Runs.Reachable (Init config) (WholeStep aes j) n := by
    obtain ⟨n₀, hInit, hRun⟩ := h
    exact ⟨n₀, hInit, Relation.ReflTransGen.mono (fun _ _ hStep => ⟨hStep.1, hStep.2 j⟩) _ _ hRun⟩
  have hWired := (System.wired_invariant aes config).of_reachable
    (reachable_system (reachable_of_whole (hReachable i)))
  obtain ⟨-, hEntry, hChosen⟩ := LoadBalancer.route_resource hWired.strategy hRoute
  obtain ⟨m, hMin⟩ := LBResource.firstMin_of_chosen hChosen
  have hScorable := LBResource.endsNormally_search.mp ⟨_, hChosen⟩
  -- the values of an `UP` node are those of its last report
  have hLast {j : Nat} {node : NodeState FloatBits} (hNode : n.system.state.nodes[j]? = some node)
      (hUp : node.status = .up) :
      ∃ hr, n.LastReport j hr ∧ node.cpuUsage = hr.cpuLoad ∧ node.memUsage = hr.memLoad := by
    obtain ⟨iv, hPc⟩ := hWaiting j node hNode hUp
    exact exists_lastReport hKey (hReachable j) hNode hUp hPc
  obtain ⟨node, hNode, hUp, hScore⟩ := LBResource.getElem?_scores.mp hMin.value
  obtain ⟨hr, hReport, hCpu, hMem⟩ := hLast hNode hUp
  obtain rfl := Option.some.inj ((hWired.entry hNode).symm.trans hEntry)
  rw [scoreOf, hCpu, hMem] at hScore
  refine ⟨hr, m, hReport, hScore, ?_⟩
  intro j other hOther hOtherUp
  obtain ⟨hr', hReport', hCpu', hMem'⟩ := hLast hOther hOtherUp
  obtain ⟨m', hScore'⟩ := hScorable other (List.mem_of_getElem? hOther) hOtherUp
  have hAt := LBResource.getElem?_scores.mpr ⟨other, hOther, hOtherUp, hScore'⟩
  rw [scoreOf, hCpu', hMem'] at hScore'
  exact ⟨other.nodeConfig, hr', m', hWired.entry hOther, hReport', hScore', hMin.least j m' hAt,
    fun hj => hMin.first j m' hj hAt⟩

/-- The first client behind the first report: the other nodes are down. -/
theorem routed_least_reported :
    ∃ (n : Network) (hr : HealthReport) (m : Int), n.LastReport 0 hr ∧ hr.cpuLoad.toNat = m ∧
      ∀ (j : Nat) (node : NodeState FloatBits), n.system.state.nodes[j]? = some node →
        node.status = .up → ∃ (entry' : NodeConfiguration) (hr' : HealthReport) (m' : Int),
          keyedConfig.nodes[j]? = some entry' ∧ n.LastReport j hr' ∧
          hr'.cpuLoad.toNat = m' ∧ m ≤ m' ∧ (j < 0 → m < m') := by
  obtain ⟨s, hRun, hPc, hReported⟩ := exists_reported_starting Plusaes.aes
  let n : Network := (starting keyedConfig 1700000000).putSession 0 s
  have hWaiting (j : Nat) (node : NodeState FloatBits)
      (hNode : n.system.state.nodes[j]? = some node) (hUp : node.status = .up) :
      ∃ iv, (n.system.threads j).pc = .receive iv := by
    rcases System.getElem?_putNode hNode with ⟨rfl, -⟩ | ⟨-, hSame⟩
    · refine ⟨onesIv, ?_⟩
      simp [n, putSession, hPc]
    · have hDown : ∀ node ∈ (starting keyedConfig 1700000000).system.state.nodes,
          node.status = .down := by decide
      cases hUp.symm.trans (hDown node (List.mem_of_getElem? hSame))
  let load : FloatBits → FloatBits → Int → Result Int := fun cpu _ _ => .ok (cpu.toNat : Int)
  have hRoute : LoadBalancer.route 0 (scoreOf load) ⟨keyedConfig, n.system.state⟩ =
      .ok (.connectTo 0 ⟨"Target 1", "127.0.0.1", 5001, 6001, 1⟩,
        ⟨keyedConfig, n.system.state⟩) := by
    simp only [n, putSession, hReported]
    rfl
  obtain ⟨hr, m, hLast, hScore, hLeast⟩ :=
    routed_least rfl (reachable_reported hRun) hWaiting hRoute
  refine ⟨n, hr, m, hLast, Except.ok.inj hScore, ?_⟩
  intro j node hNode hUp
  obtain ⟨entry', hr', m', hEntry, hLast', hScore', hRest⟩ := hLeast j node hNode hUp
  exact ⟨entry', hr', m', hEntry, hLast', Except.ok.inj hScore', hRest⟩

end Network

end Balancer

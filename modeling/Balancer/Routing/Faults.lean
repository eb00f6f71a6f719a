import Balancer.Routing.RandomLaw
import Balancer.Routing.Soundness

/-!
# What stops the weighted strategies

Under ROUND_ROBIN and RANDOM a call can leave the range of an `int` in a sum of weights, and under
RANDOM it can divide by a sum of `0`.

* `configured_invariant`: in every state of every run the nodes carry the configured entries, and
  the counter of ROUND_ROBIN is not negative.
* `sums_fit_iff`: no sum of a call overflows exactly when the weights of the `UP` nodes add up to an
  `int`.
* `answersNoNode_iff`: RANDOM fails in every state in which its `UP` nodes have no weight.
-/

namespace Balancer

open Cpp Runs

variable {F : Type}

/-! ## Runs under any strategy -/

/-- What every step of the daemon keeps, whatever the strategy is. -/
structure Configured (config : LoadBalancerConfiguration) (lb : LoadBalancer F) : Prop where
  nodes_eq : lb.state.nodes.map NodeState.nodeConfig = config.nodes
  counter : ∀ c, lb.state.loadBalancerStrategy = .roundRobin ⟨c⟩ → 0 ≤ c
  random : config.balancerAlgorithm = "RANDOM" → lb.state.loadBalancerStrategy = .random

theorem Configured.chooseNode {config : LoadBalancerConfiguration} {lb : LoadBalancer F}
    (h : Configured config lb) {rand nodeId : Int} {score : NodeState F → Result Int}
    {state : LoadBalancerState F} (hCall : lb.state.chooseNode rand score = .ok (nodeId, state)) :
    Configured config { lb with state := state } := by
  unfold LoadBalancerState.chooseNode at hCall
  split at hCall
  · rename_i counter hStrategy
    obtain ⟨⟨id, counter'⟩, hChosen, hState⟩ := bind_eq_ok.mp hCall
    cases hState
    have h0 := h.counter counter.currentNode hStrategy
    refine ⟨h.nodes_eq, ?_, ?_⟩
    · intro c hc
      cases hc
      exact LBRoundRobin.chooseNode_counter_nonneg h0 hChosen
    · intro hRandom
      rw [h.random hRandom] at hStrategy
      cases hStrategy
  · obtain ⟨id, -, hState⟩ := bind_eq_ok.mp hCall
    cases hState
    exact ⟨h.nodes_eq, h.counter, h.random⟩
  · obtain ⟨id, -, hState⟩ := bind_eq_ok.mp hCall
    cases hState
    exact ⟨h.nodes_eq, h.counter, h.random⟩

theorem Configured.healthCheck {config : LoadBalancerConfiguration} {lb : LoadBalancer F}
    (h : Configured config lb) (i : Nat) (ping : Bool) :
    Configured config (lb.healthCheckAt i ping) where
  nodes_eq := (LoadBalancerState.healthCheckAt_nodeConfig i ping lb.state).trans h.nodes_eq
  counter := by
    rw [LoadBalancer.healthCheckAt, LoadBalancerState.healthCheckAt_strategy]
    exact h.counter
  random := by
    rw [LoadBalancer.healthCheckAt, LoadBalancerState.healthCheckAt_strategy]
    exact h.random

theorem Started.configured [Zero F] {config : LoadBalancerConfiguration} {lb : LoadBalancer F}
    (h : Started config lb) : Configured config lb := by
  obtain ⟨state, hState, hLb⟩ := bind_eq_ok.mp h
  obtain ⟨strategy, hStrategy, hState⟩ := bind_eq_ok.mp hState
  cases hLb
  cases hState
  refine ⟨?_, ?_, ?_⟩
  · rw [List.map_map]
    exact List.map_id config.nodes
  · intro c hc
    dsimp only at hc
    rw [hc, LoadBalancerState.initStrategy] at hStrategy
    split at hStrategy
    · cases hStrategy
      exact le_rfl
    · split at hStrategy
      · cases hStrategy
      · split at hStrategy
        · cases hStrategy
        · cases hStrategy
  · intro hRandom
    rw [hRandom] at hStrategy
    exact (Except.ok.inj hStrategy).symm

theorem configured_invariant [Zero F] (config : LoadBalancerConfiguration) :
    Invariant (Started config) RouteStep (Configured (F := F) config) where
  initial := fun _ h => h.configured
  preserved := by
    intro lb lb' hInv hStep
    cases hStep with
    | healthCheck i ping => exact hInv.healthCheck i ping
    | accepted h =>
      obtain ⟨nodeId, state, hCall, rfl⟩ := LoadBalancer.route_state h
      exact hInv.chooseNode hCall

theorem Configured.nonneg {configJson config : LoadBalancerConfiguration} {lb : LoadBalancer F}
    (hConfig : configJson.readConfig = .ok config) (h : Configured config lb) :
    NonnegWeights lb.state.nodes :=
  nonnegWeights_of_readConfig hConfig h.nodes_eq

/-! ## Sums that fit -/

/-- The second loop of ROUND_ROBIN returns when the sum of the weights fits. -/
theorem LBRoundRobin.search_endsNormally {nodes : List (NodeState F)}
    (hNonneg : NonnegWeights nodes) {lb : LBRoundRobin} (h0 : 0 ≤ lb.currentNode) (current : Nat)
    (nodeId : Int) (hFits : ((current + upTotal nodes : Nat) : Int) ≤ INT_MAX) :
    EndsNormally (lb.search (current : Int) nodeId nodes) := by
  induction nodes generalizing current nodeId with
  | nil => exact endsNormally_ok _
  | cons node rest ih =>
    obtain ⟨hWeight, hRest⟩ := nonnegWeights_cons.mp hNonneg
    rw [upTotal, upWeights_cons, List.sum_cons, ← Nat.add_assoc] at hFits
    unfold search
    split
    · rename_i hUp
      rw [addInt_weight_of_up hUp hWeight (by omega), ok_bind]
      split
      · -- the counter is below a sum that fits, so its successor fits
        rename_i hLt
        rw [addInt_of_isInt (isInt_of_nonneg (by omega) (by omega)), ok_bind]
        exact endsNormally_ok _
      · exact ih hRest _ _ hFits
    · rename_i hUp
      rw [upWeight_of_not_up hUp, Nat.add_zero] at hFits
      exact ih hRest _ _ hFits

/-- The second loop of RANDOM returns when the sum of the weights fits. -/
theorem LBRandom.search_endsNormally {nodes : List (NodeState F)} (hNonneg : NonnegWeights nodes)
    (hUp : ∀ node ∈ nodes, node.status = .up) (random : Int) (current : Nat) (nodeId : Int)
    (hFits : ((current + upTotal nodes : Nat) : Int) ≤ INT_MAX) :
    EndsNormally (LBRandom.search random (current : Int) nodeId nodes) := by
  induction nodes generalizing current nodeId with
  | nil => exact endsNormally_ok _
  | cons node rest ih =>
    obtain ⟨hWeight, hRest⟩ := nonnegWeights_cons.mp hNonneg
    obtain ⟨hNode, hUpRest⟩ := List.forall_mem_cons.mp hUp
    rw [upTotal, upWeights_cons, List.sum_cons, ← Nat.add_assoc] at hFits
    unfold search
    rw [addInt_weight_of_up hNode hWeight (by omega), ok_bind]
    split
    · exact endsNormally_ok _
    · exact ih hRest hUpRest _ _ hFits

/-- No sum and no increment of the computation leaves the range of an `int`. -/
def InRange {α : Type} (x : Result α) : Prop := x ≠ .error .overflow

theorem inRange_of_endsNormally {α : Type} {x : Result α} (h : EndsNormally x) : InRange x := by
  obtain ⟨a, rfl⟩ := h
  intro hError
  cases hError

theorem LBRoundRobin.inRange_iff {nodes : List (NodeState F)} (hNonneg : NonnegWeights nodes)
    {lb : LBRoundRobin} (h0 : 0 ≤ lb.currentNode) :
    InRange (lb.chooseNode nodes) ↔ (upTotal nodes : Int) ≤ INT_MAX := by
  constructor
  · intro hRange
    by_contra hFits
    apply hRange
    rw [chooseNode, chooseNodeSeeing, totalWeight_eq_overflow hNonneg hFits]
    rfl
  · intro hFits
    apply inRange_of_endsNormally
    rw [chooseNode, chooseNodeSeeing, totalWeight_eq_upTotal hNonneg hFits, ok_bind]
    dsimp only
    apply search_endsNormally hNonneg _ 0 0 (by rwa [Nat.zero_add])
    split
    · exact le_rfl
    · exact h0

/-- With a positive total that fits, RANDOM answers for every value of `rand()`. -/
theorem LBRandom.chooseNode_endsNormally {nodes : List (NodeState F)}
    (hNonneg : NonnegWeights nodes) (hFits : (upTotal nodes : Int) ≤ INT_MAX)
    (hPos : 0 < upTotal nodes) (rand : Int) : EndsNormally (LBRandom.chooseNode rand nodes) := by
  have hNotZero : (upTotal nodes : Int) ≠ 0 := by omega
  have hRem : IsInt (rand.tmod (upTotal nodes : Int)) := by
    have hLt := Int.tmod_lt_of_pos rand (show (0 : Int) < upTotal nodes by omega)
    have hGt := Int.lt_tmod_of_pos rand (show (0 : Int) < upTotal nodes by omega)
    simp only [IsInt, INT_MIN, INT_MAX] at hFits ⊢
    omega
  rw [chooseNode, totalWeight_eq_upTotal hNonneg hFits, ok_bind, remInt, if_neg hNotZero,
    checkInt_of_isInt hRem, ok_bind]
  exact search_endsNormally (upNodes_nonneg hNonneg) (upNodes_up nodes) _ 0 0
    (by rwa [Nat.zero_add, upTotal_upNodes])

/-- The remainder is taken before anything else is done with the total. -/
theorem LBRandom.chooseNode_of_zero {nodes : List (NodeState F)} (hNonneg : NonnegWeights nodes)
    (hZero : upTotal nodes = 0) (rand : Int) :
    LBRandom.chooseNode rand nodes = .error .divisionByZero := by
  have hFits : (upTotal nodes : Int) ≤ INT_MAX := by
    rw [hZero]
    decide
  rw [chooseNode, totalWeight_eq_upTotal hNonneg hFits, hZero]
  rfl

theorem LBRandom.inRange_iff {nodes : List (NodeState F)} (hNonneg : NonnegWeights nodes)
    (rand : Int) : InRange (LBRandom.chooseNode rand nodes) ↔ (upTotal nodes : Int) ≤ INT_MAX := by
  constructor
  · intro hRange
    by_contra hFits
    apply hRange
    rw [chooseNode, totalWeight_eq_overflow hNonneg hFits]
    rfl
  · intro hFits
    rcases Nat.eq_zero_or_pos (upTotal nodes) with hZero | hPos
    · rw [chooseNode_of_zero hNonneg hZero]
      intro hError
      cases hError
    · exact inRange_of_endsNormally (chooseNode_endsNormally hNonneg hFits hPos rand)

/-- **Sums that fit.** For an accepted configuration, any statuses of its nodes and any state of any
run, no value of a call of ROUND_ROBIN or RANDOM leaves the range of an `int` exactly when the
weights of the `UP` nodes add up to an `int`. -/
theorem sums_fit_iff [Zero F] {configJson config : LoadBalancerConfiguration}
    (hConfig : configJson.readConfig = .ok config) {nodes : List (NodeState F)}
    (hNodes : nodes.map NodeState.nodeConfig = config.nodes) :
    (∀ lb : LoadBalancer F, Reachable (Started config) RouteStep lb →
      ∀ counter, lb.state.loadBalancerStrategy = .roundRobin counter →
        (InRange (counter.chooseNode nodes) ↔ (upTotal nodes : Int) ≤ INT_MAX)) ∧
      ∀ rand, InRange (LBRandom.chooseNode rand nodes) ↔ (upTotal nodes : Int) ≤ INT_MAX := by
  have hNonneg := nonnegWeights_of_readConfig hConfig hNodes
  refine ⟨?_, fun rand => LBRandom.inRange_iff hNonneg rand⟩
  intro lb hReach counter hStrategy
  have hInv := (configured_invariant config).of_reachable hReach
  exact LBRoundRobin.inRange_iff hNonneg (hInv.counter _ hStrategy)

theorem sums_fit_iff_two :
    InRange (LBRandom.chooseNode 7 [testNode 1 .up, testNode 1 .down]) ↔
      (upTotal [testNode 1 .up, testNode 1 .down] : Int) ≤ INT_MAX :=
  (sums_fit_iff (show (testWeights "ROUND_ROBIN" [1, 1]).readConfig = .ok _ from rfl) rfl).2 7

/-- Two weights that are accepted one by one, and whose sum leaves the range in the first call. -/
theorem not_sums_fit_two_max :
    ¬ ∀ (configJson config : LoadBalancerConfiguration) (nodes : List (NodeState (BitVec 32))),
      configJson.readConfig = .ok config → nodes.map NodeState.nodeConfig = config.nodes →
        ∀ lb : LoadBalancer (BitVec 32), Reachable (Started config) RouteStep lb →
          ∀ counter, lb.state.loadBalancerStrategy = .roundRobin counter →
            InRange (counter.chooseNode nodes) := by
  intro h
  obtain ⟨lb, hStart⟩ : ∃ lb : LoadBalancer (BitVec 32),
      Started (testWeights "ROUND_ROBIN" [2147483647, 2147483647]) lb := ⟨_, rfl⟩
  have hStrategy : lb.state.loadBalancerStrategy = .roundRobin ⟨0⟩ := by
    cases hStart
    rfl
  exact h (testWeights "ROUND_ROBIN" [2147483647, 2147483647]) _
    [testNode 2147483647 .up, testNode 2147483647 .up] rfl rfl lb ⟨lb, hStart, .refl⟩ _ hStrategy
    rfl

/-! ## RANDOM without weight -/

/-- Without weight among the `UP` nodes the call answers `-1`, the listener closes the client, and
no remainder by `0` is taken. -/
def AnswersNoNode (rand : Int) (score : NodeState F → Result Int) (lb : LoadBalancer F) : Prop :=
  (upTotal lb.state.nodes = 0 → lb.state.chooseNode rand score = .ok (-1, lb.state) ∧
    lb.route rand score = .ok (.closeClient, lb)) ∧
  lb.state.chooseNode rand score ≠ .error .divisionByZero

/-- The call the listener makes under RANDOM. -/
theorem LoadBalancerState.chooseNode_of_random {state : LoadBalancerState F}
    (hStrategy : state.loadBalancerStrategy = .random) (rand : Int)
    (score : NodeState F → Result Int) :
    state.chooseNode rand score =
      (do let nodeId ← LBRandom.chooseNode rand state.nodes; pure (nodeId, state)) := by
  rw [LoadBalancerState.chooseNode, hStrategy]

/-- **RANDOM without weight.** In every state of every run under RANDOM and for every `rand()`, the
answer is as it should be exactly when some weight is `UP`: every call without one fails. -/
theorem answersNoNode_iff [Zero F] {configJson config : LoadBalancerConfiguration}
    (hConfig : configJson.readConfig = .ok config)
    (hAlgorithm : config.balancerAlgorithm = "RANDOM")
    {lb : LoadBalancer F} (hReach : Reachable (Started config) RouteStep lb) (rand : Int)
    (score : NodeState F → Result Int) :
    AnswersNoNode rand score lb ↔ 0 < upTotal lb.state.nodes := by
  have hInv := (configured_invariant config).of_reachable hReach
  have hNonneg := hInv.nonneg hConfig
  have hCall := LoadBalancerState.chooseNode_of_random (hInv.random hAlgorithm) rand score
  constructor
  · rintro ⟨-, hDefined⟩
    by_contra hPos
    apply hDefined
    rw [hCall, LBRandom.chooseNode_of_zero hNonneg (by omega) rand]
    rfl
  · intro hPos
    refine ⟨fun hZero => by omega, ?_⟩
    rw [hCall]
    by_cases hFits : (upTotal lb.state.nodes : Int) ≤ INT_MAX
    · obtain ⟨nodeId, hChosen⟩ := LBRandom.chooseNode_endsNormally hNonneg hFits hPos rand
      rw [hChosen]
      intro hError
      cases hError
    · rw [LBRandom.chooseNode, totalWeight_eq_overflow hNonneg hFits]
      intro hError
      cases hError

/-- The state the daemon starts with: every node is `DOWN`. -/
theorem answersNoNode_iff_started :
    ∃ lb : LoadBalancer (BitVec 32), Started (testConfig "RANDOM") lb ∧
      (AnswersNoNode 0 (fun _ => .ok 0) lb ↔ 0 < upTotal lb.state.nodes) :=
  ⟨_, rfl, answersNoNode_iff (show (testConfig "RANDOM").readConfig = .ok _ from rfl) rfl
    ⟨_, rfl, .refl⟩ 0 _⟩

/-- A client that arrives before the first health check stops the process. -/
theorem not_answersNoNode_started :
    ¬ ∀ (configJson config : LoadBalancerConfiguration) (lb : LoadBalancer (BitVec 32))
      (rand : Int) (score : NodeState (BitVec 32) → Result Int),
      configJson.readConfig = .ok config → config.balancerAlgorithm = "RANDOM" →
        Reachable (Started config) RouteStep lb → AnswersNoNode rand score lb := by
  intro h
  obtain ⟨lb, hStart⟩ : ∃ lb : LoadBalancer (BitVec 32), Started (testConfig "RANDOM") lb :=
    ⟨_, rfl⟩
  have hDefined := (h (testConfig "RANDOM") _ lb 0 (fun _ => .ok 0) rfl rfl ⟨lb, hStart, .refl⟩).2
  apply hDefined
  cases hStart
  rfl

end Balancer

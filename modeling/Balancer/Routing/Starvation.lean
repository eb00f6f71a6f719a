import Balancer.Routing.Soundness

/-!
# Who waits for ROUND_ROBIN

The counter of `LBRoundRobin` is a slot number, and a status change in front of a node moves the
slots of that node. A node that stays `UP` waits for at most two turns of the counter as long as no
status change takes its slots from behind the counter to before it; a flapping neighbour can do so
at every turn.

* `call_cases`: what a call that returns does to the counter.
* `waiting_steady`: the calls since the node was last returned, measured against the counter.
* `returned_within`: the bound for steady runs.
* `not_returned_flapping`: a run with no bound.
-/

namespace Balancer

open Cpp Slots Runs

variable {F : Type}

/-- What the calls of one `LBRoundRobin` and the threads that write statuses share. -/
structure Rotation (F : Type) where
  lb : LBRoundRobin
  nodes : List (NodeState F)

namespace Rotation

/-- A step next to node `b`: another node gets any status, or a call returns. -/
inductive Step (b : Nat) : Rotation F → Option Int → Rotation F → Prop
  | statusChange (s : Rotation F) {i : Nat} (status : NodeStatus) (hi : i ≠ b) :
      Step b s none { s with nodes := s.nodes.modify i (NodeState.setStatus status) }
  | call {s : Rotation F} {nodeId : Int} {lb : LBRoundRobin}
      (h : s.lb.chooseNode s.nodes = .ok (nodeId, lb)) : Step b s (some nodeId) { s with lb := lb }

/-- The first slot behind the slots of node `b`. -/
def slotsEnd (b : Nat) (nodes : List (NodeState F)) : Nat := upTotal (nodes.take (b + 1))

/-- A status change keeps the turn of node `b`: when its slots do not all lie behind the counter,
they do not after the change. -/
def KeepsTurn (b : Nat) (s s' : Rotation F) : Prop :=
  s.lb.currentNode < slotsEnd b s.nodes → s.lb.currentNode < slotsEnd b s'.nodes

/-- A step whose status change, if it is one, keeps the turn of node `b`. -/
def SteadyStep (b : Nat) (s : Rotation F) (l : Option Int) (s' : Rotation F) : Prop :=
  Step b s l s' ∧ (l = none → KeepsTurn b s s')

/-- Node `b` is `UP` and has a positive weight. -/
def UpAt (b : Nat) (nodes : List (NodeState F)) : Prop :=
  ∃ node, nodes[b]? = some node ∧ node.status = .up ∧ 0 < node.nodeConfig.weight

/-- In every run of the steps, from any statuses and any counter that is not negative, a node of
positive weight that is `UP` throughout is returned by one of any `n` consecutive calls. -/
def ReturnsWithin (step : Nat → Rotation F → Option Int → Rotation F → Prop)
    (config : LoadBalancerConfiguration) (n : Nat) : Prop :=
  ∀ (b : Nat) (s₀ s : Rotation F) (labels : List (Option Int)),
    s₀.nodes.map NodeState.nodeConfig = config.nodes → 0 ≤ s₀.lb.currentNode → UpAt b s₀.nodes →
      Trace (step b) s₀ labels s → Recurs (fun nodeId => nodeId = (b : Int)) n labels.reduceOption

/-! ## One call -/

theorem slotsEnd_eq (b : Nat) (nodes : List (NodeState F)) :
    slotsEnd b nodes = ((upWeights nodes).take (b + 1)).sum := by
  rw [slotsEnd, upTotal, upWeights, List.map_take]
  rfl

/-- The slots of node `b` lie among all slots. -/
theorem slotsEnd_le (b : Nat) (nodes : List (NodeState F)) : slotsEnd b nodes ≤ upTotal nodes := by
  have hSplit := List.sum_take_add_sum_drop (upWeights nodes) (b + 1)
  rw [slotsEnd_eq, upTotal]
  omega

/-- A node of positive weight that is `UP` owns a slot. -/
theorem lt_slotsEnd {b : Nat} {nodes : List (NodeState F)} (hUp : UpAt b nodes) :
    ((upWeights nodes).take b).sum < slotsEnd b nodes := by
  obtain ⟨node, hNode, hStatus, hWeight⟩ := hUp
  have hOwn : (upWeights nodes)[b]? = some (upWeight node) :=
    upWeights_getElem?_eq_some.mpr ⟨node, hNode, rfl⟩
  have hPos := upWeight_pos_iff.mpr ⟨hStatus, hWeight⟩
  rw [slotsEnd_eq, List.take_add_one, List.sum_append, hOwn, Option.toList_some,
    List.sum_singleton]
  omega

/-- A call that returns while node `b` is `UP`. The counter ends behind the slot of the call; when
another node is returned, that slot lies in front of the slots of `b` or behind them. -/
theorem call_cases {b c : Nat} {nodes : List (NodeState F)} (hNonneg : NonnegWeights nodes)
    (hUp : UpAt b nodes) {nodeId : Int} {lb : LBRoundRobin}
    (hCall : LBRoundRobin.chooseNode ⟨(c : Int)⟩ nodes = .ok (nodeId, lb)) :
    LBRoundRobin.slotOf (upTotal nodes) c < upTotal nodes ∧
      lb = ⟨((LBRoundRobin.slotOf (upTotal nodes) c + 1 : Nat) : Int)⟩ ∧
      (nodeId ≠ b → LBRoundRobin.slotOf (upTotal nodes) c + 1 < slotsEnd b nodes ∨
        slotsEnd b nodes ≤ LBRoundRobin.slotOf (upTotal nodes) c) := by
  have hFits : (upTotal nodes : Int) ≤ INT_MAX := by
    by_contra hOver
    rw [LBRoundRobin.chooseNode, LBRoundRobin.chooseNodeSeeing,
      totalWeight_eq_overflow hNonneg hOver] at hCall
    cases hCall
  have hOwn := lt_slotsEnd hUp
  have hLe := slotsEnd_le b nodes
  have hSlot : LBRoundRobin.slotOf (upTotal nodes) c < upTotal nodes :=
    LBRoundRobin.slotOf_lt (by omega)
  have hEq := LBRoundRobin.chooseNode_eq hNonneg hFits c
  rw [hCall] at hEq
  change Except.ok (nodeId, lb) = Except.ok (LBRoundRobin.pick
    (LBRoundRobin.slotOf (upTotal nodes) c)
    (slots (upWeights nodes))[LBRoundRobin.slotOf (upTotal nodes) c]?) at hEq
  generalize LBRoundRobin.slotOf (upTotal nodes) c = slot at hSlot hEq ⊢
  have hIn : slot < (slots (upWeights nodes)).length := by rwa [length_slots]
  obtain ⟨i, hOwner⟩ : ∃ i, (slots (upWeights nodes))[slot]? = some i :=
    ⟨_, List.getElem?_eq_getElem hIn⟩
  rw [hOwner] at hEq
  cases hEq
  refine ⟨hSlot, rfl, ?_⟩
  intro hNe
  by_contra hBetween
  have hOwnB : (slots (upWeights nodes))[slot]? = some b := by
    rw [getElem?_slots_eq_some_iff, ← slotsEnd_eq]
    omega
  rw [hOwner] at hOwnB
  cases hOwnB
  exact hNe rfl

/-! ## Waiting for a node -/

/-- What the steps next to node `b` keep. -/
structure Turning (config : LoadBalancerConfiguration) (b : Nat) (s : Rotation F) : Prop where
  nodes_eq : s.nodes.map NodeState.nodeConfig = config.nodes
  counter : 0 ≤ s.lb.currentNode
  upAt : UpAt b s.nodes

/-- The last `k` calls did not return node `b`: either the counter has only gone up since, or it has
been set back once and the slots of `b` are still ahead of it. -/
def Waits (config : LoadBalancerConfiguration) (b k : Nat) (s : Rotation F) : Prop :=
  k = 0 ∨ ∃ c : Nat, s.lb = ⟨(c : Int)⟩ ∧ c ≤ config.weightSum.toNat ∧
    (k ≤ c ∨ k ≤ config.weightSum.toNat + c ∧ c < slotsEnd b s.nodes)

theorem Turning.nonneg {config : LoadBalancerConfiguration} {b : Nat} {s : Rotation F}
    (hNonneg : ∀ node ∈ config.nodes, 0 ≤ node.weight) (h : Turning config b s) :
    NonnegWeights s.nodes := by
  rw [nonnegWeights_iff, h.nodes_eq]
  exact hNonneg

theorem Turning.upTotal_le {config : LoadBalancerConfiguration} {b : Nat} {s : Rotation F}
    (hNonneg : ∀ node ∈ config.nodes, 0 ≤ node.weight) (h : Turning config b s) :
    upTotal s.nodes ≤ config.weightSum.toNat := by
  have hLe := upTotal_le_of_nodeConfig h.nodes_eq hNonneg
  rw [LoadBalancerConfiguration.weightSum]
  omega

theorem Turning.step {config : LoadBalancerConfiguration} {b : Nat} {s s' : Rotation F}
    {l : Option Int} (h : Turning config b s) (hStep : Step b s l s') : Turning config b s' := by
  cases hStep with
  | @statusChange i status hi =>
    refine ⟨?_, h.counter, ?_⟩
    · exact (LoadBalancerState.modify_setStatus_nodeConfig i status s.nodes).trans h.nodes_eq
    · obtain ⟨node, hNode, hUp⟩ := h.upAt
      refine ⟨node, ?_, hUp⟩
      show (s.nodes.modify i (NodeState.setStatus status))[b]? = some node
      rw [List.getElem?_modify, hNode]
      simp [hi]
  | call hCall => exact ⟨h.nodes_eq, LBRoundRobin.chooseNode_counter_nonneg h.counter hCall, h.upAt⟩

/-- A status change that keeps the turn of node `b` does not put it off. -/
theorem Waits.of_keepsTurn {config : LoadBalancerConfiguration} {b k : Nat} {s s' : Rotation F}
    (h : Waits config b k s) (hLb : s'.lb = s.lb) (hKeeps : KeepsTurn b s s') :
    Waits config b k s' := by
  rcases h with hZero | ⟨c, hc, hLe, hOnce | ⟨hTwice, hAhead⟩⟩
  · exact Or.inl hZero
  · exact Or.inr ⟨c, hLb.trans hc, hLe, Or.inl hOnce⟩
  · rw [KeepsTurn, hc] at hKeeps
    have hStillAhead := hKeeps (Int.ofNat_lt.mpr hAhead)
    exact Or.inr ⟨c, hLb.trans hc, hLe, Or.inr ⟨hTwice, Int.ofNat_lt.mp hStillAhead⟩⟩

/-- A call that returns another node: the counter goes up by one, or it is set back, and then the
slots of node `b` are ahead of it. -/
theorem Waits.call {config : LoadBalancerConfiguration} {b k : Nat} {s : Rotation F}
    (hNonneg : ∀ node ∈ config.nodes, 0 ≤ node.weight) (hInv : Turning config b s)
    (h : Waits config b k s) {nodeId : Int} {lb : LBRoundRobin}
    (hCall : s.lb.chooseNode s.nodes = .ok (nodeId, lb)) (hOther : nodeId ≠ b) :
    Waits config b (k + 1) { s with lb := lb } := by
  obtain ⟨c, hLb⟩ : ∃ c : Nat, s.lb = ⟨(c : Int)⟩ :=
    ⟨s.lb.currentNode.toNat, by rw [Int.toNat_of_nonneg hInv.counter]⟩
  rw [hLb] at hCall
  have hTotal := hInv.upTotal_le hNonneg
  have hEnd := slotsEnd_le b s.nodes
  have hOwn := lt_slotsEnd hInv.upAt
  obtain ⟨hSlot, rfl, hElsewhere⟩ := call_cases (hInv.nonneg hNonneg) hInv.upAt hCall
  have hElsewhere := hElsewhere hOther
  have hCases := LBRoundRobin.slotOf_cases (upTotal s.nodes) c
  generalize LBRoundRobin.slotOf (upTotal s.nodes) c = slot at hSlot hElsewhere hCases ⊢
  refine Or.inr ⟨slot + 1, rfl, by omega, ?_⟩
  show k + 1 ≤ slot + 1 ∨ k + 1 ≤ config.weightSum.toNat + (slot + 1) ∧
    slot + 1 < slotsEnd b s.nodes
  rcases h with hZero | ⟨c', hLb', hLe, hWaits⟩
  · omega
  · rw [hLb] at hLb'
    cases hLb'
    omega

/-- The wait is bounded, because the counter never passes the sum of the weights. -/
theorem Waits.lt {config : LoadBalancerConfiguration} {b k : Nat} {s : Rotation F}
    (hNonneg : ∀ node ∈ config.nodes, 0 ≤ node.weight) (hInv : Turning config b s)
    (h : Waits config b k s) : k < 2 * config.weightSum.toNat := by
  have hTotal := hInv.upTotal_le hNonneg
  have hEnd := slotsEnd_le b s.nodes
  have hOwn := lt_slotsEnd hInv.upAt
  rcases h with hZero | ⟨c, -, hLe, hWaits⟩
  · omega
  · omega

/-- The rule of bounded waiting, for one node and steady steps. -/
theorem waiting_steady {config : LoadBalancerConfiguration}
    (hNonneg : ∀ node ∈ config.nodes, 0 ≤ node.weight) (b : Nat) :
    Waiting (SteadyStep (F := F) b) (fun nodeId => nodeId = (b : Int)) (Turning config b)
      (Waits config b) (2 * config.weightSum.toNat) where
  invariant s l s' hInv hStep := hInv.step hStep.1
  start s _ := Or.inl rfl
  silent := by
    intro k s s' _ hWaits hStep
    obtain ⟨hStep, hKeeps⟩ := hStep
    cases hStep with
    | statusChange status hi => exact hWaits.of_keepsTurn rfl (hKeeps rfl)
  bad := by
    intro k s nodeId s' hInv hWaits hStep hBad
    obtain ⟨hStep, -⟩ := hStep
    cases hStep with
    | call hCall => exact hWaits.call hNonneg hInv hCall hBad
  bound k s hInv hWaits := hWaits.lt hNonneg hInv

/-- A call returns when the weights of the `UP` nodes add up to an `int`. -/
theorem Turning.call_returns {config : LoadBalancerConfiguration} {b : Nat} {s : Rotation F}
    (hNonneg : ∀ node ∈ config.nodes, 0 ≤ node.weight) (h : Turning config b s)
    (hFits : (upTotal s.nodes : Int) ≤ INT_MAX) : EndsNormally (s.lb.chooseNode s.nodes) := by
  obtain ⟨c, hc⟩ := Int.eq_ofNat_of_zero_le h.counter
  have hCall := LBRoundRobin.chooseNode_eq (h.nonneg hNonneg) hFits c
  rw [← hc] at hCall
  exact ⟨_, hCall⟩

/-- **Steady runs.** When every status change keeps the turn of a node, the node is returned by one
of any `2 * W` consecutive calls, where `W` is the sum of the configured weights; and no call fails
while the weights of the `UP` nodes add up to an `int`. -/
theorem returned_within (config : LoadBalancerConfiguration)
    (hNonneg : ∀ node ∈ config.nodes, 0 ≤ node.weight) :
    ReturnsWithin (SteadyStep (F := F)) config (2 * config.weightSum.toNat) ∧
      ∀ (b : Nat) (s₀ s : Rotation F) (labels : List (Option Int)),
        s₀.nodes.map NodeState.nodeConfig = config.nodes → 0 ≤ s₀.lb.currentNode →
          UpAt b s₀.nodes → Trace (SteadyStep b) s₀ labels s →
            (upTotal s.nodes : Int) ≤ INT_MAX → EndsNormally (s.lb.chooseNode s.nodes) := by
  constructor
  · intro b s₀ s labels hNodes hCounter hUp hRun
    exact (waiting_steady hNonneg b).recurs ⟨hNodes, hCounter, hUp⟩ hRun
  · intro b s₀ s labels hNodes hCounter hUp hRun hFits
    have hInv := ((waiting_steady hNonneg b).trace ⟨hNodes, hCounter, hUp⟩ hRun).1
    exact hInv.call_returns hNonneg hFits

theorem returned_within_three :
    ReturnsWithin (SteadyStep (F := BitVec 32)) (testWeights "ROUND_ROBIN" [1, 1, 1]) 6 :=
  (returned_within (testWeights "ROUND_ROBIN" [1, 1, 1]) (by decide)).1

/-! ## A node that waits forever -/

/-- Three nodes of weight 1, the first with the given status. -/
def flapping (currentNode : Int) (status : NodeStatus) : Rotation (BitVec 32) where
  lb := ⟨currentNode⟩
  nodes := [testNode 1 status, testNode 1 .up, testNode 1 .up]

/-- One round: with the first node `UP` slot 1 belongs to the second node. With the first node
`DOWN` the counter is past the last slot, and slot 0 belongs to the second node again. -/
theorem flapping_round {labels : List (Option Int)}
    (h : Trace (Step 2) (flapping 0 .up) labels (flapping 1 .up)) :
    Trace (Step 2) (flapping 0 .up) (labels ++ [some 1] ++ [none] ++ [some 1] ++ [none])
      (flapping 1 .up) := by
  have hFirst : Step 2 (flapping 1 .up) (some 1) (flapping 2 .up) := .call rfl
  have hDown : Step 2 (flapping 2 .up) none (flapping 2 .down) :=
    .statusChange _ .down (show 0 ≠ 2 by decide)
  have hSecond : Step 2 (flapping 2 .down) (some 1) (flapping 1 .down) := .call rfl
  have hUp : Step 2 (flapping 1 .down) none (flapping 1 .up) :=
    .statusChange _ .up (show 0 ≠ 2 by decide)
  exact (((h.snoc hFirst).snoc hDown).snoc hSecond).snoc hUp

/-- As many calls as one likes, none of which returns the third node. -/
theorem flapping_trace (k : Nat) :
    ∃ labels, Trace (Step 2) (flapping 0 .up) labels (flapping 1 .up) ∧
      k ≤ labels.reduceOption.length ∧ ∀ nodeId ∈ labels.reduceOption, nodeId ≠ 2 := by
  induction k with
  | zero =>
    have hCall : Step 2 (flapping 0 .up) (some 0) (flapping 1 .up) := .call rfl
    exact ⟨_, .snoc .refl hCall, Nat.zero_le _, by simp⟩
  | succ k ih =>
    obtain ⟨labels, hRun, hLength, hOther⟩ := ih
    refine ⟨_, flapping_round hRun, ?_, ?_⟩
    · simp only [List.reduceOption_append, List.length_append]
      simp
      omega
    · simp only [List.reduceOption_append, List.forall_mem_append]
      simpa using hOther

/-- **Starvation.** No bound holds for every run. -/
theorem not_returned_flapping :
    ¬ ∀ config : LoadBalancerConfiguration, (∀ node ∈ config.nodes, 0 ≤ node.weight) →
      ∃ n, ReturnsWithin (Step (F := BitVec 32)) config n := by
  intro h
  obtain ⟨n, hReturns⟩ := h (testWeights "ROUND_ROBIN" [1, 1, 1]) (by decide)
  obtain ⟨labels, hRun, hLength, hOther⟩ := flapping_trace n
  have hUp : UpAt 2 (flapping 0 .up).nodes := ⟨testNode 1 .up, rfl, rfl, by decide⟩
  have hRecurs := hReturns 2 _ _ labels rfl le_rfl hUp hRun
  obtain ⟨nodeId, hMem, hThird⟩ := hRecurs (labels.reduceOption.take n)
    (List.take_prefix _ _).isInfix (by
      rw [List.length_take]
      omega)
  exact hOther nodeId (List.mem_of_mem_take hMem) hThird

end Rotation

end Balancer

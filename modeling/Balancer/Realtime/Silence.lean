import Balancer.Realtime.Invalidator

/-!
# Silent nodes

What the invalidator does about a node whose last report is too old while no report of it is being
completed. The threads, the clock and the invalidator take single steps in any order.

* `stepsToDown`: how many steps the invalidator is from setting the node down.
* `silent_node_down`: two passes over the nodes are enough, and no client is sent to the node.
-/

namespace Balancer

open Cpp Plusaes LbRtThread

theorem NodeStatus.eq_down {status : NodeStatus} (h : status ≠ .up) : status = .down := by
  cases status with
  | up => exact absurd rfl h
  | down => rfl

namespace System

/-- The last report of node `i` is too old, and its thread is not about to set the node up. -/
structure Silent (i : Nat) (s : System) : Prop where
  stale : ∀ node, s.state.nodes[i]? = some node →
    s.state.config.timeUntilNodeDown < s.clock - node.lastChecked
  notStoring : ∀ iv, (s.threads i).pc ≠ .storeUp iv

/-- A step in which node `i` is silent. The label is whether the invalidator takes it. -/
def SilentStep (aes : Cipher) (i : Nat) (s : System) (moves : Bool) (s' : System) : Prop :=
  Step aes s s' ∧ s.Silent i ∧ moves = decide (s'.invalidator ≠ s.invalidator)

/-- Node `i` is down. -/
def Down (i : Nat) (s : System) : Prop :=
  ∀ node, s.state.nodes[i]? = some node → node.status = .down

/-- The number of steps after which the invalidator has set node `i` down, of `n` nodes. -/
def stepsToDown (n i : Nat) : InvalidatorPc → Nat
  | .visit k => if k ≤ i then 3 * (i - k) + 3 else 3 * (n - k) + 3 * i + 4
  | .compare k =>
    if k < i then 3 * (i - k) + 2 else if k = i then 2 else 3 * (n - k) + 3 * i + 3
  | .invalidate k =>
    if k < i then 3 * (i - k) + 1 else if k = i then 1 else 3 * (n - k) + 3 * i + 2

/-- Less than two passes, each of at most three steps for a node, and the sleep between them. -/
theorem stepsToDown_le {n i : Nat} (hi : i < n) (pc : InvalidatorPc) :
    stepsToDown n i pc ≤ 3 * n + 1 := by
  unfold stepsToDown
  split
  all_goals
    split_ifs
    all_goals omega

/-- What the steps keep: the strategy and the number of nodes. -/
structure ResourceShape (n : Nat) (s : System) : Prop where
  algorithm : s.state.config.balancerAlgorithm = "RESOURCE"
  length : s.state.nodes.length = n

/-- No step of a thread sets a node up but the one behind the last assignment of a report. -/
theorem status_down_of_rtStep {aes : Cipher} {encKey : Bytes} {clock : Int}
    {t t' : RtThread} {node node' : NodeState FloatBits}
    (hStep : RtStep aes encKey clock t node t' node') (hNot : ∀ iv, t.pc ≠ .storeUp iv)
    (hDown : node.status = .down) : node'.status = .down := by
  cases hStep with
  | storesUp hPc => exact absurd hPc (hNot _)
  | givesUp _ | leaves _ | storesDown _ => rfl
  | _ => exact hDown

variable {aes : Cipher} {n i : Nat} {s s' : System}

/-- A node that is down stays down. -/
theorem Down.step (h : s.Down i) (hShape : ResourceShape n s) (hStep : Step aes s s')
    (hNot : ∀ iv, (s.threads i).pc ≠ .storeUp iv) : s'.Down i := by
  intro node' hNode'
  cases hStep with
  | rtThread hNode hStep =>
    rcases getElem?_putNode hNode' with ⟨rfl, rfl⟩ | ⟨-, hSame⟩
    · exact status_down_of_rtStep hStep hNot (h _ hNode)
    · exact h node' hSame
  | @invalidates k node _ hNode =>
    rcases getElem?_putNode (s := s) hNode' with ⟨rfl, rfl⟩ | ⟨-, hSame⟩
    · rfl
    · exact h node' hSame
  | healthCheck k ping =>
    rw [healthCheckAt_of_resource hShape.algorithm] at hNode'
    exact h node' hNode'
  | tick clock | readsUp _ hNode _ | readsDown _ hNode _ | sleeps _ hEnd | findsStale _ hNode _
  | findsFresh _ hNode _ => exact h node' hNode'

/-- **One step of the invalidator** sets the node down or comes closer to it. -/
theorem stepsToDown_lt (hi : i < n) (hShape : ResourceShape n s) (hSilent : s.Silent i)
    (hStep : Step aes s s') (hMoves : s'.invalidator ≠ s.invalidator) :
    s'.Down i ∨ stepsToDown n i s'.invalidator < stepsToDown n i s.invalidator := by
  have hIn {k : Nat} {node : NodeState FloatBits} (hNode : s.state.nodes[k]? = some node) :
      k < n := by
    rw [← hShape.length]
    exact (List.getElem?_eq_some_iff.mp hNode).1
  cases hStep with
  | rtThread hNode hStep | tick clock | healthCheck k ping => exact absurd rfl hMoves
  | @readsUp k node hPc hNode hUp =>
    have hk := hIn hNode
    refine Or.inr ?_
    simp only [hPc, stepsToDown]
    split_ifs
    all_goals omega
  | @readsDown k node hPc hNode hDown =>
    have hk := hIn hNode
    by_cases hSame : k = i
    · subst hSame
      refine Or.inl ?_
      intro node' hNode'
      obtain rfl := Option.some.inj (hNode.symm.trans hNode')
      exact NodeStatus.eq_down hDown
    · refine Or.inr ?_
      simp only [hPc, stepsToDown]
      split_ifs
      all_goals omega
  | @sleeps k hPc hEnd =>
    rw [hShape.length] at hEnd
    refine Or.inr ?_
    simp only [hPc, stepsToDown]
    split_ifs
    all_goals omega
  | @findsStale k node hPc hNode hStale =>
    have hk := hIn hNode
    refine Or.inr ?_
    simp only [hPc, stepsToDown]
    split_ifs
    all_goals omega
  | @findsFresh k node hPc hNode hFresh =>
    have hk := hIn hNode
    have hOther : k ≠ i := by
      rintro rfl
      exact hFresh (hSilent.stale node hNode)
    refine Or.inr ?_
    simp only [hPc, stepsToDown]
    split_ifs
    all_goals omega
  | @invalidates k node hPc hNode =>
    have hk := hIn hNode
    by_cases hSame : k = i
    · subst hSame
      refine Or.inl ?_
      intro node' hNode'
      rcases getElem?_putNode (s := s) hNode' with ⟨-, rfl⟩ | ⟨hNe, -⟩
      · rfl
      · exact absurd rfl hNe
    · refine Or.inr ?_
      simp only [hPc, stepsToDown]
      split_ifs
      all_goals omega

theorem silent_progress (aes : Cipher) (hi : i < n) :
    Runs.Progress (SilentStep aes i) id (ResourceShape n) (Down i)
      fun s => stepsToDown n i s.invalidator where
  invariant := by
    rintro s l s' hShape ⟨hStep, -, -⟩
    obtain ⟨hConfig, hLength⟩ := hStep.sameShape
    exact ⟨by rw [hConfig]; exact hShape.algorithm, hLength.trans hShape.length⟩
  stable := by
    rintro s l s' hShape hDown ⟨hStep, hSilent, -⟩
    exact hDown.step hShape hStep hSilent.notStoring
  silent := by
    rintro s l s' - ⟨-, -, rfl⟩ hStill
    have hSame : s'.invalidator = s.invalidator := by simpa using hStill
    refine Or.inr ?_
    rw [hSame]
  event := by
    rintro s l s' hShape ⟨hStep, hSilent, rfl⟩ hMoves
    exact stepsToDown_lt hi hShape hSilent hStep (by simpa using hMoves)

/-- **A silent node is noticed.** In every run in which a node stays silent, the invalidator has set
it down within `3 n + 2` of its steps, `n` being the number of nodes. From then on it is down, and
no call of `chooseNode` answers it. -/
theorem silent_node_down {config : LoadBalancerConfiguration} {s₀ : System}
    (h : Runs.Reachable (Init config) (Step aes) s₀) (hi : i < config.nodes.length)
    {moves : List Bool} (hRun : Runs.Trace (SilentStep aes i) s₀ moves s)
    (hMany : 3 * config.nodes.length + 2 ≤ moves.count true) :
    s.Down i ∧ ∀ score nodeId, LBResource.chooseNode score s.state.nodes = .ok nodeId →
      nodeId ≠ i := by
  obtain ⟨hConfig, hLength⟩ := (sameShape_invariant aes config).of_reachable h
  have hAlgorithm : config.balancerAlgorithm = "RESOURCE" := by
    obtain ⟨s₁, hInit, -⟩ := h
    exact hInit.algorithm
  have hShape : ResourceShape config.nodes.length s₀ := ⟨by rwa [hConfig], hLength⟩
  have hCount := Runs.countP_id moves
  have hRank := stepsToDown_le hi s₀.invalidator
  have hDown := (silent_progress aes hi).reaches hShape hRun (by omega)
  refine ⟨hDown, ?_⟩
  rintro score nodeId hChosen rfl
  rcases LBResource.chooseNode_isUpPosition hChosen with hNone | ⟨k, node, hk, hNode, hUp⟩
  · omega
  · obtain rfl : i = k := by omega
    cases (hDown node hNode).symm.trans hUp

/-- One node under `RESOURCE`. -/
def soloConfig : LoadBalancerConfiguration :=
  { testConfig "RESOURCE" with
      encKey := ascii "0123456789abcdef"
      nodes := [⟨"Target 1", "127.0.0.1", 5001, 6001, 1⟩] }

/-- A report, six seconds without one, and two passes of the invalidator. -/
theorem silent_node_down_solo :
    ∃ s : System, s.Down 0 ∧ ∀ score nodeId,
      LBResource.chooseNode score s.state.nodes = .ok nodeId → nodeId ≠ ((0 : Nat) : Int) := by
  let aes : Cipher := Plusaes.aes
  let iv : Block := ⟨List.replicate 16 255, rfl⟩
  let node : NodeState FloatBits :=
    LoadBalancerState.initNode ⟨"Target 1", "127.0.0.1", 5001, 6001, 1⟩
  let start : System := ⟨1700000000, ⟨soloConfig, [node], .resource⟩, fun _ => RtThread.start,
    .visit 0⟩
  let up : System := (start.putNode 0 (reported node (1700000000, ⟨1, 2⟩))).putThread 0
    ⟨.receive iv, 1, some 1, some (1, 1700000000)⟩
  let late : System := { up with clock := 1700000006 }
  have hIv : NoZeroBefore15 iv := by
    unfold NoZeroBefore15
    decide
  have hReachable : Runs.Reachable (Init soloConfig) (Step aes) late := by
    refine ⟨start, ⟨rfl, rfl, fun _ => rfl, rfl⟩, ?_⟩
    exact (lift_rtRun (s := start) (i := 0) rfl (firstReport_run hIv rfl ⟨1, 2⟩)).tail
      (.tick 1700000006)
  have hSilent {s : System} (hClock : s.clock = 1700000006) (hState : s.state.config = soloConfig)
      (hTimes : s.state.nodes.map NodeState.lastChecked = [1700000000])
      (hThread : (s.threads 0).pc = .receive iv) : s.Silent 0 := by
    refine ⟨?_, ?_⟩
    · intro node hNode
      have hTime := congrArg (·[0]?) hTimes
      simp only [List.getElem?_map, hNode] at hTime
      rw [hClock, hState, Option.some.inj hTime]
      decide
    · simp [hThread]
  let down : System := late.putNode 0 ((reported node (1700000000, ⟨1, 2⟩)).setStatus .down)
  have hRun : Runs.Trace (SilentStep aes 0) late [true, true, true, true, true]
      { down with invalidator := .visit 1 } := by
    have hReads : SilentStep aes 0 late true { late with invalidator := .compare 0 } :=
      ⟨.readsUp rfl rfl rfl, hSilent rfl rfl rfl rfl, rfl⟩
    have hStale : SilentStep aes 0 { late with invalidator := .compare 0 } true
        { late with invalidator := .invalidate 0 } :=
      ⟨.findsStale rfl rfl (by decide), hSilent rfl rfl rfl rfl, rfl⟩
    have hDown : SilentStep aes 0 { late with invalidator := .invalidate 0 } true
        { down with invalidator := .visit 1 } :=
      ⟨.invalidates rfl rfl, hSilent rfl rfl rfl rfl, rfl⟩
    have hSleeps : SilentStep aes 0 { down with invalidator := .visit 1 } true
        { down with invalidator := .visit 0 } :=
      ⟨.sleeps rfl (by decide), hSilent rfl rfl rfl rfl, rfl⟩
    have hAgain : SilentStep aes 0 { down with invalidator := .visit 0 } true
        { down with invalidator := .visit 1 } :=
      ⟨.readsDown rfl rfl (by decide), hSilent rfl rfl rfl rfl, rfl⟩
    exact ((((Runs.Trace.refl.snoc hReads).snoc hStale).snoc hDown).snoc hSleeps).snoc hAgain
  exact ⟨_, silent_node_down hReachable (by decide) hRun (by decide)⟩

end System

end Balancer

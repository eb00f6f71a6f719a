import Balancer.Realtime.System
import Balancer.Routing.Resource

/-!
# How old the reports behind a choice can be

The system of `Realtime/System.lean` with two of its activities made atomic: the processing of a
message and the visit of a node by the invalidator. The clock does not go back and stays in the
range of an `int`; connections, disconnections, messages and visits happen in any order.

* `AtomicStep.refines`, `reachable_of_trace`: an atomic step is a run of the steps of
  `Realtime/System.lean`.
* `chosen_fresh`: when a node is visited in every interval of `d` seconds, a node that is chosen at
  time `t` has had a message at or after `t - (timeUntilNodeDown + d)`.
-/

namespace Balancer

open Cpp Plusaes LbRtThread

namespace System

/-- What a run records. -/
inductive Event
  | message (i : Nat) (now : Int)
  | visit (i : Nat) (now : Int)
  | other
  deriving DecidableEq

/-- A visit of the invalidator: the node after the body of its loop. -/
def visitNode (clock timeUntilNodeDown : Int) (node : NodeState FloatBits) : NodeState FloatBits :=
  if node.status = .up then
    if timeUntilNodeDown < clock - node.lastChecked then node.setStatus .down else node
  else node

/-- A step of a run with atomic messages and visits. -/
inductive AtomicStep (aes : Cipher) (s : System) : Event → System → Prop
  | tick {clock : Int} (h : s.clock ≤ clock) (hMax : clock ≤ INT_MAX) :
      AtomicStep aes s .other { s with clock := clock }
  | control {i : Nat} {node node' : NodeState FloatBits} {t' : RtThread}
      (hNode : s.state.nodes[i]? = some node)
      (hStep : RtStep aes s.state.config.encKey s.clock (s.threads i) node t' node')
      (hBefore : ¬ (s.threads i).pc.IsStoring) (hAfter : ¬ t'.pc.IsStoring) :
      AtomicStep aes s .other ((s.putNode i node').putThread i t')
  | reject {i : Nat} {node : NodeState FloatBits} {iv : Block} {received : Bytes}
      (hNode : s.state.nodes[i]? = some node) (hPc : (s.threads i).pc = .receive iv)
      (hOutcome : Reads (receiveReport aes s.state.config.encKey iv received) .rejected) :
      AtomicStep aes s .other
        ((s.putNode i ((ReportOutcome.rejected.writes s.clock).foldl NodeWrite.apply
          node)).putThread i (s.threads i))
  | message {i : Nat} {node : NodeState FloatBits} {iv : Block} {received : Bytes}
      {hr : HealthReport} (hNode : s.state.nodes[i]? = some node)
      (hPc : (s.threads i).pc = .receive iv)
      (hOutcome : Reads (receiveReport aes s.state.config.encKey iv received) (.applied hr)) :
      AtomicStep aes s (.message i s.clock)
        ((s.putNode i (((ReportOutcome.applied hr).writes s.clock).foldl NodeWrite.apply
          node)).putThread i
            { s.threads i with stamp := some ((s.threads i).connection, s.clock) })
  | visit {i j : Nat} {node : NodeState FloatBits} (hInvalidator : s.invalidator = .visit j)
      (hNode : s.state.nodes[i]? = some node) :
      AtomicStep aes s (.visit i s.clock)
        { s.putNode i (visitNode s.clock s.state.config.timeUntilNodeDown node) with
          invalidator := .visit (i + 1) }
  | sleep {i : Nat} (h : s.invalidator = .visit i) (hEnd : s.state.nodes.length ≤ i) :
      AtomicStep aes s .other { s with invalidator := .visit 0 }
  | healthCheck (i : Nat) (ping : Bool) :
      AtomicStep aes s .other { s with state := s.state.healthCheckAt i ping }

/-! ## Refinement -/

/-- A visit is made at the node the loop of the invalidator has come to. -/
def InOrder (s : System) (event : Event) : Prop :=
  ∀ i now, event = .visit i now → s.invalidator = .visit i

/-- An atomic step is a run of single steps. -/
theorem AtomicStep.refines {aes : Cipher} {s s' : System} {event : Event}
    (h : AtomicStep aes s event s') (hOrder : s.InOrder event) :
    Relation.ReflTransGen (Step aes) s s' := by
  cases h with
  | tick _ _ => exact .single (.tick _)
  | control hNode hStep _ _ => exact .single (.rtThread hNode hStep)
  | reject hNode hPc hOutcome => exact lift_rtRun hNode (reject_run hPc hOutcome)
  | message hNode hPc hOutcome => exact lift_rtRun hNode (report_run hPc hOutcome)
  | @visit i j node hInvalidator hNode =>
    have hHere := hOrder i s.clock rfl
    unfold visitNode
    split
    · rename_i hUp
      refine .head (.readsUp hHere hNode hUp) ?_
      split
      · rename_i hStale
        refine .head (.findsStale rfl hNode hStale) ?_
        exact .single (.invalidates rfl hNode)
      · rename_i hFresh
        rw [putNode_self hNode]
        exact .single (.findsFresh rfl hNode hFresh)
    · rename_i hDown
      rw [putNode_self hNode]
      exact .single (.readsDown hHere hNode hDown)
  | sleep h hEnd => exact .single (.sleeps h hEnd)
  | healthCheck i ping => exact .single (.healthCheck i ping)

/-- The states of a run with atomic messages, and atomic visits in order, are reachable in the
interleaving of all reads and writes. -/
theorem reachable_of_trace {aes : Cipher} {config : LoadBalancerConfiguration} {s₀ s : System}
    {events : List Event} (hInit : Init config s₀)
    (hRun : Runs.Trace (fun s event s' => AtomicStep aes s event s' ∧ s.InOrder event) s₀ events
      s) : Runs.Reachable (Init config) (Step aes) s := by
  refine ⟨s₀, hInit, hRun.refines ?_⟩
  intro s event s' hStep
  exact hStep.1.refines hStep.2

/-! ## The age of the last message -/

/-- The time of a node that is up is that of a message, and no visit has found it stale. -/
def FreshNode (t₀ timeUntilNodeDown : Int) (events : List Event) (i : Nat)
    (node : NodeState FloatBits) : Prop :=
  node.status = .up →
    .message i node.lastChecked ∈ events ∧ t₀ ≤ node.lastChecked ∧
      ∀ now, .visit i now ∈ events → now - node.lastChecked ≤ timeUntilNodeDown

theorem FreshNode.of_not_up {t₀ D : Int} {events : List Event} {i : Nat}
    {node : NodeState FloatBits} (hDown : node.status ≠ .up) : FreshNode t₀ D events i node := by
  intro hUp
  exact absurd hUp hDown

/-- An event that is no visit of the node keeps it fresh, and so does a visit at which it is. -/
theorem FreshNode.snoc {t₀ D : Int} {events : List Event} {event : Event} {i : Nat}
    {node : NodeState FloatBits} (h : FreshNode t₀ D events i node)
    (hEvent : ∀ now, event = .visit i now → node.status = .up → now - node.lastChecked ≤ D) :
    FreshNode t₀ D (events ++ [event]) i node := by
  intro hUp
  obtain ⟨hMessage, hStart, hVisits⟩ := h hUp
  refine ⟨List.mem_append_left _ hMessage, hStart, ?_⟩
  intro now hVisit
  rcases List.mem_append.mp hVisit with hOld | hNew
  · exact hVisits now hOld
  · exact hEvent now (List.mem_singleton.mp hNew).symm hUp

/-- The invariant of a run that began at `t₀`. -/
structure FreshInv (cfg : LoadBalancerConfiguration) (t₀ : Int) (events : List Event)
    (clock : Int) (state : LoadBalancerState FloatBits) : Prop where
  config : state.config = cfg
  start : t₀ ≤ clock
  inRange : IsInt clock
  visits : ∀ i now, .visit i now ∈ events → now ≤ clock
  nodes : ∀ i node, state.nodes[i]? = some node →
    FreshNode t₀ cfg.timeUntilNodeDown events i node

variable {cfg : LoadBalancerConfiguration} {t₀ clock : Int} {events : List Event}
  {state : LoadBalancerState FloatBits}

/-- A step that writes no node and visits none; the clock may go on. -/
theorem FreshInv.other {clock' : Int} (h : FreshInv cfg t₀ events clock state)
    (hLe : clock ≤ clock') (hInt : IsInt clock') :
    FreshInv cfg t₀ (events ++ [.other]) clock' state where
  config := h.config
  start := h.start.trans hLe
  inRange := hInt
  visits := by
    intro i now hVisit
    have hOld : .visit i now ∈ events := by simpa using hVisit
    exact (h.visits i now hOld).trans hLe
  nodes := by
    intro i node hNode
    apply (h.nodes i node hNode).snoc
    intro now hVisit
    cases hVisit

/-- A step that writes node `i` and visits no other one. -/
theorem FreshInv.write {event : Event} {i : Nat} {node' : NodeState FloatBits}
    (h : FreshInv cfg t₀ events clock state)
    (hEvent : ∀ k now, event = .visit k now → k = i ∧ now = clock)
    (hFresh : FreshNode t₀ cfg.timeUntilNodeDown (events ++ [event]) i node') :
    FreshInv cfg t₀ (events ++ [event]) clock
      { state with nodes := state.nodes.set i node' } where
  config := h.config
  start := h.start
  inRange := h.inRange
  visits := by
    intro k now hVisit
    rcases List.mem_append.mp hVisit with hOld | hNew
    · exact h.visits k now hOld
    · exact le_of_eq (hEvent k now (List.mem_singleton.mp hNew).symm).2
  nodes := by
    intro k node hNode
    by_cases hk : k = i
    · subst hk
      have hLength := (List.getElem?_eq_some_iff.mp hNode).1
      rw [List.length_set] at hLength
      rw [List.getElem?_set_self hLength] at hNode
      obtain rfl := Option.some.inj hNode
      exact hFresh
    · rw [List.getElem?_set_ne (Ne.symm hk)] at hNode
      apply (h.nodes k node hNode).snoc
      intro now hVisit
      exact absurd (hEvent k now hVisit).1 hk

/-- A step of the thread outside of the assignments of a message leaves the node, or sets it
down. -/
theorem control_node {aes : Cipher} {encKey : Bytes} {clock : Int} {t t' : RtThread}
    {node node' : NodeState FloatBits} (hStep : RtStep aes encKey clock t node t' node')
    (hBefore : ¬ t.pc.IsStoring) : node' = node ∨ node' = node.setStatus .down := by
  cases hStep with
  | storesDown hPc | storesCpu hPc | storesMem hPc | readsClock hPc | storesLastChecked hPc
  | storesUp hPc =>
    rw [hPc] at hBefore
    exact absurd trivial hBefore
  | givesUp _ | leaves _ => exact Or.inr rfl
  | _ => exact Or.inl rfl

/-- Every node is down before the first message. -/
theorem Init.freshInv {s : System} (h : Init cfg s) (hClock : IsInt s.clock) :
    FreshInv cfg s.clock [] s.clock s.state := by
  have hDown := h.inv
  obtain ⟨strategy, -, hState⟩ := bind_eq_ok.mp h.state
  have hState := Except.ok.inj hState
  refine ⟨by rw [← hState], le_rfl, hClock, by simp, ?_⟩
  intro i node hNode
  apply FreshNode.of_not_up
  apply (hDown.nodes i node hNode).not_up
  rw [h.threads i]
  exact id

/-- A message at `clock`: no visit is later. -/
theorem FreshInv.message (h : FreshInv cfg t₀ events clock state)
    (hD : 0 ≤ cfg.timeUntilNodeDown) (i : Nat) (hr : HealthReport) (node : NodeState FloatBits) :
    FreshNode t₀ cfg.timeUntilNodeDown (events ++ [.message i clock]) i
      (((ReportOutcome.applied hr).writes clock).foldl NodeWrite.apply node) := by
  have hTime : (((ReportOutcome.applied hr).writes clock).foldl NodeWrite.apply node).lastChecked =
      clock := toInt_of_isInt h.inRange
  intro _
  rw [hTime]
  refine ⟨by simp, h.start, ?_⟩
  intro now hVisit
  have hOld : .visit i now ∈ events := by simpa using hVisit
  have hLe := h.visits i now hOld
  omega

/-- A visit leaves the node down, or it was not stale. -/
theorem FreshInv.visit (h : FreshInv cfg t₀ events clock state) {i : Nat}
    {node : NodeState FloatBits} (hNode : state.nodes[i]? = some node) :
    FreshNode t₀ cfg.timeUntilNodeDown (events ++ [.visit i clock]) i
      (visitNode clock cfg.timeUntilNodeDown node) := by
  unfold visitNode
  split
  · split
    · apply FreshNode.of_not_up
      simp
    · rename_i hFresh
      apply (h.nodes i node hNode).snoc
      intro now hVisit _
      cases hVisit
      omega
  · rename_i hDown
    exact FreshNode.of_not_up hDown

/-- **One atomic step.** -/
theorem AtomicStep.freshInv {aes : Cipher} {s s' : System} {event : Event}
    (hAlgorithm : cfg.balancerAlgorithm = "RESOURCE") (hD : 0 ≤ cfg.timeUntilNodeDown)
    (h : FreshInv cfg t₀ events s.clock s.state) (hStep : AtomicStep aes s event s') :
    FreshInv cfg t₀ (events ++ [event]) s'.clock s'.state := by
  cases hStep with
  | tick hLe hMax => exact h.other hLe ⟨h.inRange.1.trans hLe, hMax⟩
  | @control i node node' t' hNode hStep hBefore _ =>
    refine h.write (by simp) ?_
    rcases control_node hStep hBefore with rfl | rfl
    · exact (h.nodes i _ hNode).snoc (by simp)
    · apply FreshNode.of_not_up
      simp
  | reject hNode _ _ =>
    refine h.write (by simp) ?_
    apply FreshNode.of_not_up
    simp [ReportOutcome.writes, NodeWrite.apply]
  | @message i node iv received hr hNode _ _ => exact h.write (by simp) (h.message hD i hr node)
  | @visit i j node _ hNode =>
    have hFresh := h.visit hNode
    rw [← h.config] at hFresh
    refine FreshInv.write (i := i) h ?_ ?_
    · intro k now hVisit
      cases hVisit
      exact ⟨rfl, rfl⟩
    · rwa [← h.config]
  | sleep _ _ => exact h.other le_rfl h.inRange
  | healthCheck i ping =>
    have hState : s.state.healthCheckAt i ping = s.state := by
      apply healthCheckAt_of_resource
      rw [h.config, hAlgorithm]
    rw [hState]
    exact h.other le_rfl h.inRange

/-- Node `i` is visited in every interval of `d` seconds of a run from `t₀` to `clock`. -/
def VisitedEvery (d t₀ : Int) (events : List Event) (clock : Int) (i : Nat) : Prop :=
  ∀ a, t₀ ≤ a → a + d ≤ clock → ∃ now, a ≤ now ∧ now ≤ a + d ∧ .visit i now ∈ events

/-- **Bounded staleness.** A node that is chosen at time `t` has had a message at or after
`t - (timeUntilNodeDown + d)`. -/
theorem chosen_fresh {aes : Cipher} {config : LoadBalancerConfiguration} {d : Int}
    (hD : 1 ≤ config.timeUntilNodeDown) {s₀ s : System} {events : List Event}
    (hInit : Init config s₀) (hClock : IsInt s₀.clock)
    (hRun : Runs.Trace (AtomicStep aes) s₀ events s)
    {score : NodeState FloatBits → Result Int} {nodeId : Int}
    (hVisits : VisitedEvery d s₀.clock events s.clock nodeId.toNat)
    (hChosen : LBResource.chooseNode score s.state.nodes = .ok nodeId) (hNode : nodeId ≠ -1) :
    ∃ now, .message nodeId.toNat now ∈ events ∧
      s.clock - (config.timeUntilNodeDown + d) ≤ now := by
  have hInv : FreshInv config s₀.clock events s.clock s.state := by
    refine Runs.Trace.invariant
      (I := fun events s => FreshInv config s₀.clock events s.clock s.state)
      (hInit.freshInv hClock) ?_ hRun
    intro labels s l s' h hStep
    exact hStep.freshInv hInit.algorithm (by omega) h
  rcases LBResource.chooseNode_isUpPosition hChosen with hNone | ⟨i, node, rfl, hGet, hUp⟩
  · exact absurd hNone hNode
  obtain ⟨hMessage, hStart, hFresh⟩ := hInv.nodes i node hGet hUp
  refine ⟨node.lastChecked, hMessage, ?_⟩
  by_cases hLong : s₀.clock + d ≤ s.clock
  · -- The last interval of `d` seconds holds a visit, and that visit did not find the node stale.
    obtain ⟨now, hFrom, -, hVisit⟩ := hVisits (s.clock - d) (by omega) (by omega)
    have hAge := hFresh now hVisit
    omega
  · omega

/-- A report at the start, a visit two seconds later, and a choice after another second. -/
theorem chosen_fresh_report :
    ∃ now : Int, Event.message 0 now ∈ [.other, .other, .other, .other, .message 0 1700000000,
        .other, .visit 0 1700000002, .other] ∧
      1700000003 - ((testConfig "RESOURCE").timeUntilNodeDown + 2) ≤ now := by
  let key := ascii "0123456789abcdef"
  let config := { testConfig "RESOURCE" with encKey := key }
  let conn : HealthReporterConnection := ⟨key, ⟨List.replicate 16 255, rfl⟩⟩
  let aes : Cipher := Plusaes.aes
  let s : System := ⟨1700000000, ⟨config, config.nodes.map LoadBalancerState.initNode, .resource⟩,
    fun _ => RtThread.start, .visit 0⟩
  have hInit : Init config s := ⟨rfl, rfl, fun _ => rfl, rfl⟩
  have hMsg4 : LbRtThread.awaitMsg4 stringAt conn.ivStr = .ok (some conn.iv) :=
    awaitMsg4_of_noZeroBefore15 (by unfold NoZeroBefore15; decide)
  have hReport := receiveReport_sentMessage aes (show key.length = 16 by decide) conn.iv ⟨1, 2⟩
  have hStart : Runs.Trace (AtomicStep aes) s [] s := .refl
  have hConnected := (hStart.snoc (.control (i := 0) rfl (.socketOpens rfl) id id)).snoc
    (.control (i := 0) rfl (.connects rfl) id id)
  have hHandshake := (hConnected.snoc
    (.control (i := 0) rfl (.acceptsMsg2 rfl (reads_of_ok (strncmpEq_append HR_HANDSHAKE_MSG_2 _)))
      id id)).snoc
    (.control (i := 0) rfl (.acceptsMsg4 rfl (reads_of_ok hMsg4)) id id)
  have hMessage := hHandshake.snoc (.message (i := 0) rfl rfl (reads_of_ok hReport))
  have hVisit := (hMessage.snoc (.tick (show 1700000000 ≤ (1700000002 : Int) by omega)
    (by decide))).snoc (.visit (i := 0) rfl rfl)
  have hRun := hVisit.snoc (.tick (show 1700000002 ≤ (1700000003 : Int) by omega) (by decide))
  have hVisits : VisitedEvery 2 1700000000 [.other, .other, .other, .other, .message 0 1700000000,
      .other, .visit 0 1700000002, .other] 1700000003 (0 : Int).toNat := by
    intro a hFrom hTo
    refine ⟨1700000002, by omega, by omega, by simp⟩
  exact chosen_fresh (by decide) hInit (by decide) hRun hVisits
    (show LBResource.chooseNode (fun _ => .ok 0) _ = .ok 0 from rfl) (by omega)

end System

end Balancer

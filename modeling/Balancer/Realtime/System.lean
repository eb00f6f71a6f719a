import Balancer.Realtime.Delivery
import Balancer.Realtime.Handshake
import Balancer.Runs
import Mathlib.Logic.Function.Basic

/-!
# The threads of the resource health checks

One `lb_rt_thread` for each node, the `invalidator_thread` and the scheduled `run_health_checks`
(`LoadBalancerState.cpp`), interleaved at their single reads and writes of a node. A thread is its
control point; every step of `RtStep` and `Step` does at most one access to the status or the
time of a node.

A read outside of a buffer does not stop a thread here: it goes on with any value (`Reads`). An
exception ends the process, so no step follows it.

* `RtStep`: the steps of `lb_rt_thread`, over its connections.
* `Step`: the steps of all threads and of the clock.
* `up_of_reachable`: a node is up only while the thread is in the report loop of a connection with
  a completed handshake, and its time was written on that connection.
-/

namespace Balancer

open Cpp Plusaes LbRtThread

/-! ## The thread of a node -/

/-- The control points of `lb_rt_thread`. -/
inductive RtPc
  | openSocket
  | connect
  | awaitMsg2
  | awaitMsg4
  | giveUp
  | receive (iv : Block)
  | storeDown (iv : Block)
  | storeCpu (iv : Block) (hr : HealthReport)
  | storeMem (iv : Block) (hr : HealthReport)
  | readClock (iv : Block)
  | storeLastChecked (iv : Block) (now : Int)
  | storeUp (iv : Block)
  | leave
  deriving DecidableEq

/-- Between the fourth handshake message and the assignment behind the report loop. -/
def RtPc.InReportLoop : RtPc → Prop
  | .openSocket | .connect | .awaitMsg2 | .awaitMsg4 | .giveUp => False
  | _ => True

/-- Within the assignments of one iteration of the report loop. -/
def RtPc.IsStoring : RtPc → Prop
  | .storeDown _ | .storeCpu _ _ | .storeMem _ _ | .readClock _ | .storeLastChecked _ _
  | .storeUp _ => True
  | _ => False

/-- A thread. The code has the control point only; the other fields record its history: the
number of its connections, the last one with a completed handshake, and the connection and the
value of the last `set_last_checked`. -/
structure RtThread where
  pc : RtPc
  connection : Nat
  handshaken : Option Nat
  stamp : Option (Nat × Int)

def RtThread.start : RtThread := ⟨.openSocket, 0, none, none⟩

/-- The steps of `lb_rt_thread` on its node, at time `clock`. -/
inductive RtStep (aes : Cipher) (encKey : Bytes) (clock : Int) (t : RtThread)
    (node : NodeState FloatBits) : RtThread → NodeState FloatBits → Prop
  | socketFails (h : t.pc = .openSocket) :
      RtStep aes encKey clock t node { t with pc := .giveUp } node
  | socketOpens (h : t.pc = .openSocket) :
      RtStep aes encKey clock t node { t with pc := .connect } node
  | connectFails (h : t.pc = .connect) :
      RtStep aes encKey clock t node { t with pc := .giveUp } node
  | connects (h : t.pc = .connect) :
      RtStep aes encKey clock t node
        { t with pc := .awaitMsg2, connection := t.connection + 1 } node
  | noMsg2 (h : t.pc = .awaitMsg2) :
      RtStep aes encKey clock t node { t with pc := .giveUp } node
  | refusesMsg2 (h : t.pc = .awaitMsg2) {received : Bytes}
      (hReply : Reads (LbRtThread.awaitMsg2 received) false) :
      RtStep aes encKey clock t node { t with pc := .giveUp } node
  | acceptsMsg2 (h : t.pc = .awaitMsg2) {received : Bytes}
      (hReply : Reads (LbRtThread.awaitMsg2 received) true) :
      RtStep aes encKey clock t node { t with pc := .awaitMsg4 } node
  | noMsg4 (h : t.pc = .awaitMsg4) :
      RtStep aes encKey clock t node { t with pc := .giveUp } node
  | refusesMsg4 (h : t.pc = .awaitMsg4) {received : Bytes}
      (hReply : Reads (LbRtThread.awaitMsg4 stringAt received) none) :
      RtStep aes encKey clock t node { t with pc := .giveUp } node
  | acceptsMsg4 (h : t.pc = .awaitMsg4) {received : Bytes} {iv : Block}
      (hReply : Reads (LbRtThread.awaitMsg4 stringAt received) (some iv)) :
      RtStep aes encKey clock t node
        { t with pc := .receive iv, handshaken := some t.connection } node
  | givesUp (h : t.pc = .giveUp) :
      RtStep aes encKey clock t node { t with pc := .openSocket } (node.setStatus .down)
  | disconnected {iv : Block} (h : t.pc = .receive iv) :
      RtStep aes encKey clock t node { t with pc := .leave } node
  | ignores {iv : Block} (h : t.pc = .receive iv) {received : Bytes}
      (hOutcome : Reads (receiveReport aes encKey iv received) .ignored) :
      RtStep aes encKey clock t node t node
  | rejects {iv : Block} (h : t.pc = .receive iv) {received : Bytes}
      (hOutcome : Reads (receiveReport aes encKey iv received) .rejected) :
      RtStep aes encKey clock t node { t with pc := .storeDown iv } node
  | applies {iv : Block} (h : t.pc = .receive iv) {received : Bytes} {hr : HealthReport}
      (hOutcome : Reads (receiveReport aes encKey iv received) (.applied hr)) :
      RtStep aes encKey clock t node { t with pc := .storeCpu iv hr } node
  | storesDown {iv : Block} (h : t.pc = .storeDown iv) :
      RtStep aes encKey clock t node { t with pc := .receive iv } (node.setStatus .down)
  | storesCpu {iv : Block} {hr : HealthReport} (h : t.pc = .storeCpu iv hr) :
      RtStep aes encKey clock t node { t with pc := .storeMem iv hr }
        { node with cpuUsage := hr.cpuLoad }
  | storesMem {iv : Block} {hr : HealthReport} (h : t.pc = .storeMem iv hr) :
      RtStep aes encKey clock t node { t with pc := .readClock iv }
        { node with memUsage := hr.memLoad }
  | readsClock {iv : Block} (h : t.pc = .readClock iv) :
      RtStep aes encKey clock t node { t with pc := .storeLastChecked iv clock } node
  | storesLastChecked {iv : Block} {now : Int} (h : t.pc = .storeLastChecked iv now) :
      RtStep aes encKey clock t node
        { t with pc := .storeUp iv, stamp := some (t.connection, now) } (node.setLastChecked now)
  | storesUp {iv : Block} (h : t.pc = .storeUp iv) :
      RtStep aes encKey clock t node { t with pc := .receive iv } (node.setStatus .up)
  | leaves (h : t.pc = .leave) :
      RtStep aes encKey clock t node { t with pc := .openSocket } (node.setStatus .down)

/-! ## All threads -/

/-- The control points of `invalidator_thread` at node `i`: before the read of the status, before
the comparison with the clock, and before the assignment. -/
inductive InvalidatorPc
  | visit (i : Nat)
  | compare (i : Nat)
  | invalidate (i : Nat)
  deriving DecidableEq

structure System where
  clock : Int
  state : LoadBalancerState FloatBits
  threads : Nat → RtThread
  invalidator : InvalidatorPc

namespace System

def putNode (i : Nat) (node : NodeState FloatBits) (s : System) : System :=
  { s with state := { s.state with nodes := s.state.nodes.set i node } }

def putThread (i : Nat) (t : RtThread) (s : System) : System :=
  { s with threads := Function.update s.threads i t }

/-- `start` under `RESOURCE`, before any thread has made a step. -/
structure Init (config : LoadBalancerConfiguration) (s : System) : Prop where
  algorithm : config.balancerAlgorithm = "RESOURCE"
  state : LoadBalancerState.new config = .ok s.state
  threads : ∀ i, s.threads i = RtThread.start
  invalidator : s.invalidator = .visit 0

/-- A step of one thread, or of the clock. -/
inductive Step (aes : Cipher) (s : System) : System → Prop
  | tick (clock : Int) : Step aes s { s with clock := clock }
  | rtThread {i : Nat} {node node' : NodeState FloatBits} {t' : RtThread}
      (hNode : s.state.nodes[i]? = some node)
      (hStep : RtStep aes s.state.config.encKey s.clock (s.threads i) node t' node') :
      Step aes s ((s.putNode i node').putThread i t')
  | readsUp {i : Nat} {node : NodeState FloatBits} (h : s.invalidator = .visit i)
      (hNode : s.state.nodes[i]? = some node) (hUp : node.status = .up) :
      Step aes s { s with invalidator := .compare i }
  | readsDown {i : Nat} {node : NodeState FloatBits} (h : s.invalidator = .visit i)
      (hNode : s.state.nodes[i]? = some node) (hDown : node.status ≠ .up) :
      Step aes s { s with invalidator := .visit (i + 1) }
  | sleeps {i : Nat} (h : s.invalidator = .visit i) (hEnd : s.state.nodes.length ≤ i) :
      Step aes s { s with invalidator := .visit 0 }
  | findsStale {i : Nat} {node : NodeState FloatBits} (h : s.invalidator = .compare i)
      (hNode : s.state.nodes[i]? = some node)
      (hStale : s.state.config.timeUntilNodeDown < s.clock - node.lastChecked) :
      Step aes s { s with invalidator := .invalidate i }
  | findsFresh {i : Nat} {node : NodeState FloatBits} (h : s.invalidator = .compare i)
      (hNode : s.state.nodes[i]? = some node)
      (hFresh : ¬ s.state.config.timeUntilNodeDown < s.clock - node.lastChecked) :
      Step aes s { s with invalidator := .visit (i + 1) }
  | invalidates {i : Nat} {node : NodeState FloatBits} (h : s.invalidator = .invalidate i)
      (hNode : s.state.nodes[i]? = some node) :
      Step aes s { s.putNode i (node.setStatus .down) with invalidator := .visit (i + 1) }
  | healthCheck (i : Nat) (ping : Bool) :
      Step aes s { s with state := s.state.healthCheckAt i ping }

/-! ## Node and thread of an index -/

theorem getElem?_putNode {s : System} {i k : Nat} {node node' : NodeState FloatBits}
    (h : (s.putNode i node').state.nodes[k]? = some node) :
    (k = i ∧ node = node') ∨ (k ≠ i ∧ s.state.nodes[k]? = some node) := by
  by_cases hk : k = i
  · subst hk
    have hLength := (List.getElem?_eq_some_iff.mp h).1
    simp only [putNode, List.length_set] at hLength
    simp only [putNode, List.getElem?_set_self hLength, Option.some.injEq] at h
    exact Or.inl ⟨rfl, h.symm⟩
  · simp only [putNode, List.getElem?_set_ne (Ne.symm hk)] at h
    exact Or.inr ⟨hk, h⟩

@[simp] theorem putThread_self (i : Nat) (t : RtThread) (s : System) :
    (s.putThread i t).threads i = t := by
  simp [putThread]

/-- A node may be replaced by itself. -/
theorem putNode_self {s : System} {i : Nat} {node : NodeState FloatBits}
    (h : s.state.nodes[i]? = some node) : s.putNode i node = s := by
  have hNodes : s.state.nodes.set i node = s.state.nodes := by
    apply List.ext_getElem?
    intro k
    by_cases hk : i = k
    · subst hk
      rw [List.getElem?_set_self (List.getElem?_eq_some_iff.mp h).1, h]
    · rw [List.getElem?_set_ne hk]
  simp only [putNode, hNodes]

theorem putThread_of_ne {i k : Nat} (h : k ≠ i) (t : RtThread) (s : System) :
    (s.putThread i t).threads k = s.threads k := by
  simp [putThread, h]

/-- Under `RESOURCE` the scheduled health checks write nothing. -/
theorem healthCheckAt_of_resource {state : LoadBalancerState FloatBits}
    (h : state.config.balancerAlgorithm = "RESOURCE") (i : Nat) (ping : Bool) :
    state.healthCheckAt i ping = state := by
  simp [LoadBalancerState.healthCheckAt, h]

/-- No step changes the configuration or the number of nodes. -/
theorem Step.sameShape {aes : Cipher} {s s' : System} (hStep : Step aes s s') :
    s'.state.config = s.state.config ∧ s'.state.nodes.length = s.state.nodes.length := by
  cases hStep with
  | rtThread hNode hStep => exact ⟨rfl, List.length_set⟩
  | invalidates h hNode => exact ⟨rfl, List.length_set⟩
  | healthCheck i ping =>
    have hNodes := congrArg List.length (LoadBalancerState.healthCheckAt_nodeConfig i ping s.state)
    rw [List.length_map, List.length_map] at hNodes
    exact ⟨LoadBalancerState.healthCheckAt_config i ping s.state, hNodes⟩
  | tick clock | readsUp h hNode hUp | readsDown h hNode hDown | sleeps h hEnd
  | findsStale h hNode hStale | findsFresh h hNode hFresh => exact ⟨rfl, rfl⟩

theorem sameShape_invariant (aes : Cipher) (config : LoadBalancerConfiguration) :
    Runs.Invariant (Init config) (Step aes) fun s =>
      s.state.config = config ∧ s.state.nodes.length = config.nodes.length where
  initial := by
    intro s h
    obtain ⟨strategy, -, hState⟩ := bind_eq_ok.mp h.state
    rw [← Except.ok.inj hState]
    exact ⟨rfl, List.length_map _⟩
  preserved := by
    intro s s' h hStep
    exact ⟨hStep.sameShape.1.trans h.1, hStep.sameShape.2.trans h.2⟩

end System

/-! ## Runs of one thread -/

/-- Steps of a thread that no other thread and no tick of the clock interrupts. -/
def RtRun (aes : Cipher) (encKey : Bytes) (clock : Int) :
    RtThread × NodeState FloatBits → RtThread × NodeState FloatBits → Prop :=
  Relation.ReflTransGen fun a b => RtStep aes encKey clock a.1 a.2 b.1 b.2

section Run

variable {aes : Cipher} {encKey : Bytes} {clock : Int} {t t' : RtThread}
  {node node' : NodeState FloatBits}

theorem RtStep.run (h : RtStep aes encKey clock t node t' node') :
    RtRun aes encKey clock (t, node) (t', node') := Relation.ReflTransGen.single h

/-- A connection whose handshake is accepted. -/
theorem handshake_run {msg2 msg4 : Bytes} {iv : Block} (hPc : t.pc = .openSocket)
    (hMsg2 : LbRtThread.awaitMsg2 msg2 = .ok true)
    (hMsg4 : LbRtThread.awaitMsg4 stringAt msg4 = .ok (some iv)) :
    RtRun aes encKey clock (t, node)
      ({ t with
          pc := .receive iv
          connection := t.connection + 1
          handshaken := some (t.connection + 1) }, node) := by
  refine Relation.ReflTransGen.trans (RtStep.run (.socketOpens hPc)) ?_
  refine Relation.ReflTransGen.trans (RtStep.run (.connects rfl)) ?_
  refine Relation.ReflTransGen.trans (RtStep.run (.acceptsMsg2 rfl (reads_of_ok hMsg2))) ?_
  exact RtStep.run (.acceptsMsg4 rfl (reads_of_ok hMsg4))

/-- A message that is applied: the steps of the thread are the assignments of its outcome. -/
theorem report_run {iv : Block} {received : Bytes} {hr : HealthReport} (hPc : t.pc = .receive iv)
    (hOutcome : Reads (receiveReport aes encKey iv received) (.applied hr)) :
    RtRun aes encKey clock (t, node) ({ t with stamp := some (t.connection, clock) },
      ((ReportOutcome.applied hr).writes clock).foldl NodeWrite.apply node) := by
  have hBack : { t with pc := .receive iv, stamp := some (t.connection, clock) } =
      { t with stamp := some (t.connection, clock) } := by
    rw [← hPc]
  rw [← hBack]
  refine Relation.ReflTransGen.trans (RtStep.run (.applies hPc hOutcome)) ?_
  refine Relation.ReflTransGen.trans (RtStep.run (.storesCpu rfl)) ?_
  refine Relation.ReflTransGen.trans (RtStep.run (.storesMem rfl)) ?_
  refine Relation.ReflTransGen.trans (RtStep.run (.readsClock rfl)) ?_
  refine Relation.ReflTransGen.trans (RtStep.run (.storesLastChecked rfl)) ?_
  exact RtStep.run (.storesUp rfl)

/-- A message whose length is not positive. -/
theorem reject_run {iv : Block} {received : Bytes} (hPc : t.pc = .receive iv)
    (hOutcome : Reads (receiveReport aes encKey iv received) .rejected) :
    RtRun aes encKey clock (t, node)
      (t, (ReportOutcome.rejected.writes clock).foldl NodeWrite.apply node) := by
  have hBack : { t with pc := .receive iv } = t := by
    rw [← hPc]
  have hStore : RtRun aes encKey clock ({ t with pc := .storeDown iv }, node)
      ({ t with pc := .receive iv }, node.setStatus .down) := RtStep.run (.storesDown rfl)
  rw [hBack] at hStore
  exact Relation.ReflTransGen.trans (RtStep.run (.rejects hPc hOutcome)) hStore

/-- A report as the reporter sends it, under a key of sixteen bytes. -/
theorem sentReport_run {iv : Block} (hPc : t.pc = .receive iv) (hKey : encKey.length = 16)
    (hr : HealthReport) :
    RtRun aes encKey clock (t, node)
      ({ t with stamp := some (t.connection, clock) }, reported node (clock, hr)) :=
  report_run hPc (reads_of_ok (receiveReport_sentMessage aes hKey iv hr))

/-- The first connection and its first report. -/
theorem firstReport_run {iv : Block} (hIv : NoZeroBefore15 iv) (hKey : encKey.length = 16)
    (hr : HealthReport) :
    RtRun aes encKey clock (RtThread.start, node)
      (⟨.receive iv, 1, some 1, some (1, clock)⟩, reported node (clock, hr)) := by
  have hMsg4 : LbRtThread.awaitMsg4 stringAt (HealthReporterConnection.mk encKey iv).ivStr =
      .ok (some iv) := awaitMsg4_of_noZeroBefore15 hIv
  have hMsg2 : LbRtThread.awaitMsg2 HR_HANDSHAKE_MSG_2 = .ok true :=
    strncmpEq_append HR_HANDSHAKE_MSG_2 _
  exact (handshake_run rfl hMsg2 hMsg4).trans (sentReport_run rfl hKey hr)

end Run

/-- A step of one thread, from a state in which it has moved, is one of the system. -/
theorem System.step_of_rtStep {aes : Cipher} {s : System} {i : Nat} {t t' : RtThread}
    {node node' : NodeState FloatBits} (hLength : i < s.state.nodes.length)
    (hStep : RtStep aes s.state.config.encKey s.clock t node t' node') :
    Step aes ((s.putNode i node).putThread i t) ((s.putNode i node').putThread i t') := by
  have hNode : ((s.putNode i node).putThread i t).state.nodes[i]? = some node := by
    simp [putThread, putNode, hLength]
  have hThread : RtStep aes ((s.putNode i node).putThread i t).state.config.encKey
      ((s.putNode i node).putThread i t).clock
      (((s.putNode i node).putThread i t).threads i) node t' node' := by
    rwa [putThread_self]
  have hNext := Step.rtThread hNode hThread
  simpa [putNode, putThread] using hNext

/-- A run of one thread is a run in every relation that its steps are in. -/
theorem System.lift_rtRun_of {R : System → System → Prop} {aes : Cipher} {s : System} {i : Nat}
    {t' : RtThread} {node node' : NodeState FloatBits}
    (hStep : ∀ t₁ node₁ t₂ node₂, RtStep aes s.state.config.encKey s.clock t₁ node₁ t₂ node₂ →
      R ((s.putNode i node₁).putThread i t₁) ((s.putNode i node₂).putThread i t₂))
    (hNode : s.state.nodes[i]? = some node)
    (hRun : RtRun aes s.state.config.encKey s.clock (s.threads i, node) (t', node')) :
    Relation.ReflTransGen R s ((s.putNode i node').putThread i t') := by
  generalize hEnd : (t', node') = last at hRun
  induction hRun generalizing t' node' with
  | refl =>
    obtain ⟨rfl, rfl⟩ := Prod.mk.inj hEnd
    have hSame : s.putThread i (s.threads i) = s := by simp [putThread]
    rw [putNode_self hNode, hSame]
  | @tail mid last hRun hNext ih =>
    obtain ⟨rfl, rfl⟩ := Prod.mk.inj hEnd
    exact (ih rfl).tail (hStep _ _ _ _ hNext)

/-- A run of one thread is a run of the system. -/
theorem System.lift_rtRun {aes : Cipher} {s : System} {i : Nat} {t' : RtThread}
    {node node' : NodeState FloatBits} (hNode : s.state.nodes[i]? = some node)
    (hRun : RtRun aes s.state.config.encKey s.clock (s.threads i, node) (t', node')) :
    Relation.ReflTransGen (Step aes) s ((s.putNode i node').putThread i t') := by
  have hLength := (List.getElem?_eq_some_iff.mp hNode).1
  exact lift_rtRun_of (fun _ _ _ _ hStep => step_of_rtStep hLength hStep) hNode hRun

/-! ## The invariant of a node -/

/-- The time of a node was last written on the current connection of its thread. -/
def Stamped (t : RtThread) (node : NodeState FloatBits) : Prop :=
  ∃ now, t.stamp = some (t.connection, now) ∧ node.lastChecked = toInt now

/-- What ties the status of a node to its thread. -/
structure NodeInv (t : RtThread) (node : NodeState FloatBits) : Prop where
  handshaken : t.pc.InReportLoop → t.handshaken = some t.connection
  stamped : ∀ iv, t.pc = .storeUp iv → Stamped t node
  up : node.status = .up → t.pc.InReportLoop ∧ Stamped t node

/-- Outside of the report loop the node only has to be down. -/
theorem NodeInv.of_outside {t : RtThread} {node : NodeState FloatBits}
    (hPc : ¬ t.pc.InReportLoop) (hDown : node.status ≠ .up) : NodeInv t node where
  handshaken := fun hLoop => absurd hLoop hPc
  stamped := by
    intro iv hStore
    rw [hStore] at hPc
    exact absurd trivial hPc
  up := fun hUp => absurd hUp hDown

/-- Inside the report loop, other than before the last assignment. -/
theorem NodeInv.of_inside {t : RtThread} {node : NodeState FloatBits} (hPc : t.pc.InReportLoop)
    (hHandshaken : t.handshaken = some t.connection) (hStore : ∀ iv, t.pc ≠ .storeUp iv)
    (hUp : node.status = .up → Stamped t node) : NodeInv t node where
  handshaken := fun _ => hHandshaken
  stamped := fun iv h => absurd h (hStore iv)
  up := fun h => ⟨hPc, hUp h⟩

/-- Setting a node down keeps its invariant, whoever does it. -/
theorem NodeInv.setDown {t : RtThread} {node : NodeState FloatBits} (h : NodeInv t node) :
    NodeInv t (node.setStatus .down) where
  handshaken := h.handshaken
  stamped := h.stamped
  up := by
    intro hUp
    cases hUp

/-- A thread outside of the report loop has its node down. -/
theorem NodeInv.not_up {t : RtThread} {node : NodeState FloatBits} (h : NodeInv t node)
    (hPc : ¬ t.pc.InReportLoop) : node.status ≠ .up := by
  intro hUp
  exact hPc (h.up hUp).1

/-- **One step of the thread.** A step outside of the report loop finds the node down; a step inside
keeps the connection. -/
theorem RtStep.nodeInv {aes : Cipher} {encKey : Bytes} {clock : Int} {t t' : RtThread}
    {node node' : NodeState FloatBits} (hStep : RtStep aes encKey clock t node t' node')
    (h : NodeInv t node) : NodeInv t' node' := by
  cases hStep with
  | socketFails hPc | socketOpens hPc | connectFails hPc | connects hPc | noMsg2 hPc
  | refusesMsg2 hPc _ | acceptsMsg2 hPc _ | noMsg4 hPc | refusesMsg4 hPc _ =>
    apply NodeInv.of_outside id
    apply h.not_up
    rw [hPc]
    exact id
  | acceptsMsg4 hPc _ =>
    have hDown : node.status ≠ .up := by
      apply h.not_up
      rw [hPc]
      exact id
    refine NodeInv.of_inside trivial rfl (by simp) ?_
    intro hUp
    exact absurd hUp hDown
  | givesUp hPc | leaves hPc =>
    apply NodeInv.of_outside id
    simp
  | ignores hPc _ => exact h
  | disconnected hPc | rejects hPc _ | applies hPc _ | readsClock hPc | storesCpu hPc
  | storesMem hPc =>
    have hLoop : t.pc.InReportLoop := by
      rw [hPc]
      trivial
    refine NodeInv.of_inside trivial (h.handshaken hLoop) (by simp) ?_
    intro hUp
    exact (h.up hUp).2
  | storesDown hPc =>
    have hLoop : t.pc.InReportLoop := by
      rw [hPc]
      trivial
    refine NodeInv.of_inside trivial (h.handshaken hLoop) (by simp) ?_
    simp
  | @storesLastChecked iv now hPc =>
    have hLoop : t.pc.InReportLoop := by
      rw [hPc]
      trivial
    have hStamped : Stamped { t with pc := .storeUp iv, stamp := some (t.connection, now) }
        (node.setLastChecked now) := ⟨now, rfl, rfl⟩
    exact ⟨fun _ => h.handshaken hLoop, fun _ _ => hStamped, fun _ => ⟨trivial, hStamped⟩⟩
  | storesUp hPc =>
    have hLoop : t.pc.InReportLoop := by
      rw [hPc]
      trivial
    refine NodeInv.of_inside trivial (h.handshaken hLoop) (by simp) ?_
    intro _
    exact h.stamped _ hPc

/-! ## The invariant of the system -/

namespace System

structure SystemInv (s : System) : Prop where
  algorithm : s.state.config.balancerAlgorithm = "RESOURCE"
  nodes : ∀ i node, s.state.nodes[i]? = some node → NodeInv (s.threads i) node

/-- Every node starts down. -/
theorem Init.inv {config : LoadBalancerConfiguration} {s : System} (h : Init config s) :
    SystemInv s := by
  obtain ⟨strategy, -, hState⟩ := bind_eq_ok.mp h.state
  have hState := Except.ok.inj hState
  constructor
  · rw [← hState]
    exact h.algorithm
  · intro i node hNode
    rw [← hState, List.getElem?_map] at hNode
    obtain ⟨nodeConfig, -, rfl⟩ := Option.map_eq_some_iff.mp hNode
    rw [h.threads i]
    apply NodeInv.of_outside id
    simp [LoadBalancerState.initNode, NodeState.setLastChecked]

/-- **One step of the system.** -/
theorem Step.inv {aes : Cipher} {s s' : System} (hStep : Step aes s s') (h : SystemInv s) :
    SystemInv s' := by
  cases hStep with
  | tick clock => exact ⟨h.algorithm, h.nodes⟩
  | @rtThread i node node' t' hNode hStep =>
    refine ⟨h.algorithm, ?_⟩
    intro k other hOther
    rcases getElem?_putNode hOther with ⟨rfl, rfl⟩ | ⟨hk, hOther⟩
    · rw [putThread_self]
      exact hStep.nodeInv (h.nodes k node hNode)
    · rw [putThread_of_ne hk]
      exact h.nodes k other hOther
  | readsUp _ _ _ | readsDown _ _ _ | sleeps _ _ | findsStale _ _ _ | findsFresh _ _ _ =>
    exact ⟨h.algorithm, h.nodes⟩
  | @invalidates i node _ hNode =>
    refine ⟨h.algorithm, ?_⟩
    intro k other hOther
    rcases getElem?_putNode hOther with ⟨rfl, rfl⟩ | ⟨hk, hOther⟩
    · exact (h.nodes k node hNode).setDown
    · exact h.nodes k other hOther
  | healthCheck i ping =>
    rw [healthCheckAt_of_resource h.algorithm]
    exact ⟨h.algorithm, h.nodes⟩

theorem systemInv_invariant (aes : Cipher) (config : LoadBalancerConfiguration) :
    Runs.Invariant (Init config) (Step aes) SystemInv where
  initial := fun _ h => h.inv
  preserved := fun _ _ h hStep => hStep.inv h

/-- **The status under `RESOURCE`.** In every state of every run, a node that is up has its thread
in the report loop, or before the assignment behind it, of a connection with a completed handshake,
and its time was written by a message of that connection. -/
theorem up_of_reachable {aes : Cipher} {config : LoadBalancerConfiguration} {s : System}
    (h : Runs.Reachable (Init config) (Step aes) s) {i : Nat} {node : NodeState FloatBits}
    (hNode : s.state.nodes[i]? = some node) (hUp : node.status = .up) :
    (s.threads i).pc.InReportLoop ∧
      (s.threads i).handshaken = some (s.threads i).connection ∧
      ∃ now, (s.threads i).stamp = some ((s.threads i).connection, now) ∧
        node.lastChecked = toInt now := by
  have hInv := ((systemInv_invariant aes config).of_reachable h).nodes i node hNode
  obtain ⟨hLoop, hStamped⟩ := hInv.up hUp
  exact ⟨hLoop, hInv.handshaken hLoop, hStamped⟩

/-- A node that has received one report. -/
theorem up_of_reachable_report :
    let key := ascii "0123456789abcdef"
    let config := { testConfig "RESOURCE" with encKey := key }
    let conn : HealthReporterConnection := ⟨key, ⟨List.replicate 16 255, rfl⟩⟩
    let node := LoadBalancerState.initNode ⟨"Target 1", "127.0.0.1", 5001, 6001, 1⟩
    let s : System := ⟨1700000000, ⟨config, config.nodes.map LoadBalancerState.initNode, .resource⟩,
      fun _ => RtThread.start, .visit 0⟩
    let t : RtThread := ⟨.receive conn.iv, 1, some 1, some (1, 1700000000)⟩
    let up := (s.putNode 0 (reported node (1700000000, ⟨1, 2⟩))).putThread 0 t
    (up.threads 0).pc.InReportLoop ∧
      (up.threads 0).handshaken = some (up.threads 0).connection ∧
      ∃ now, (up.threads 0).stamp = some ((up.threads 0).connection, now) ∧
        (reported node (1700000000, ⟨1, 2⟩)).lastChecked = toInt now := by
  intro key config conn node s t up
  have hInit : Init config s := ⟨rfl, rfl, fun _ => rfl, rfl⟩
  have hIv : NoZeroBefore15 conn.iv := by
    unfold NoZeroBefore15
    decide
  have hRun : RtRun Plusaes.aes key s.clock (RtThread.start, node)
      (t, reported node (1700000000, ⟨1, 2⟩)) := firstReport_run hIv rfl ⟨1, 2⟩
  have hReachable : Runs.Reachable (Init config) (Step Plusaes.aes) up :=
    ⟨s, hInit, lift_rtRun rfl hRun⟩
  exact up_of_reachable hReachable (i := 0) rfl rfl

end System

end Balancer

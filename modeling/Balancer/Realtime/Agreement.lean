import Balancer.Realtime.Exchange

/-!
# What both sides know of each other

The results about all runs of the network: any interleaving of the threads, any cutting of the
messages, any failures, over any number of connections.

* `handshake_agrees`: a load balancer in its report loop and a connected reporter know of each
  other.
* `up_connected`: a node that is up has a connected reporter.
* `not_both_wait`: the two sides do not wait for each other.
-/

namespace Balancer

open Cpp Plusaes LbRtThread Relation

namespace Network

variable {aes : Cipher} {config : LoadBalancerConfiguration} {n : Network}

/-- A report has been stored on the first node. -/
theorem exists_reported (aes : Cipher) :
    ∃ s, Runs.Reachable (Init keyedConfig) (Step aes)
        ((starting keyedConfig 1700000000).putSession 0 s) ∧
      s.thread.pc = .receive onesIv ∧ s.node = reported firstNode (1700000000, ⟨1, 2⟩) := by
  obtain ⟨s, hRun, hPc, hNode⟩ := exists_reported_starting aes
  exact ⟨s, reachable_starting (ReflTransGen.mono (fun _ _ hStep => hStep.1) _ _ hRun), hPc, hNode⟩

/-- A connection of a thread, the one it holds or one it has closed. -/
def HasLink (n : Network) (i : Nat) (ℓ : Link) : Prop := n.current i = some ℓ ∨ ℓ ∈ n.past i

/-- **Agreement.** A thread in the report loop has a connection whose reporter has completed the
handshake. A reporter that has completed it, on any connection, has read the first and the third
message whole, the load balancer has received the whole second message from it, and it has written
the fourth message and one for each of its reports. -/
theorem handshake_agrees (h : Runs.Reachable (Init config) (Step aes) n) (i : Nat) :
    ((n.system.threads i).pc.InReportLoop →
      ∃ ℓ, n.current i = some ℓ ∧ ℓ.state = .connected) ∧
    ∀ ℓ, n.HasLink i ℓ → ℓ.state = .connected →
      (∃ q q', ℓ.toReporter.received = [q, q'] ∧ IsHello q ∧ IsAcknowledgement q') ∧
      (∃ rest, ℓ.toBalancer.received = HR_HANDSHAKE_MSG_2 :: rest) ∧
      ∃ sent, ℓ.messages = HR_HANDSHAKE_MSG_2 :: ℓ.conn.ivStr :: sent ∧
        sent.length = ℓ.reports.length := by
  have hInv := (networkInv_invariant aes config).of_reachable h i default
  refine ⟨?_, ?_⟩
  · intro hLoop
    obtain ⟨ℓ, -, -, hLink, hEstablished, -⟩ := hInv.established hLoop
    exact ⟨ℓ, hLink, hEstablished.state⟩
  · intro ℓ hLink hConnected
    have hLinkInv : ℓ.Inv aes := by
      rcases hLink with hCurrent | hPast
      · exact (hInv.current ℓ hCurrent).1
      · exact (hInv.past ℓ hPast).1
    have hEstablished : ℓ.Established aes := by
      refine hLinkInv.handshaking_or_established.resolve_left ?_
      rintro ⟨hState, -⟩
      cases hState.symm.trans hConnected
    obtain ⟨sent, hMessages, hSent⟩ := hEstablished.messages
    exact ⟨hEstablished.acknowledged.read, hEstablished.acknowledged.accepted, sent, hMessages,
      hSent.length_eq.symm⟩

theorem handshake_agrees_reported :
    ∃ n ℓ, Network.current n 0 = some ℓ ∧ ℓ.state = .connected ∧
      (∃ q q', ℓ.toReporter.received = [q, q'] ∧ IsHello q ∧ IsAcknowledgement q') ∧
      (∃ rest, ℓ.toBalancer.received = HR_HANDSHAKE_MSG_2 :: rest) ∧
      ∃ sent, ℓ.messages = HR_HANDSHAKE_MSG_2 :: ℓ.conn.ivStr :: sent ∧
        sent.length = ℓ.reports.length := by
  obtain ⟨s, hReachable, hPc, -⟩ := exists_reported Plusaes.aes
  have hLoop : (((starting keyedConfig 1700000000).putSession 0 s).system.threads 0).pc.InReportLoop
      := by simp [putSession, hPc, RtPc.InReportLoop]
  obtain ⟨ℓ, hLink, hState⟩ := (handshake_agrees hReachable 0).1 hLoop
  exact ⟨_, ℓ, hLink, hState, (handshake_agrees hReachable 0).2 ℓ (Or.inl hLink) hState⟩

/-- The connection of a node that is up has received a message behind the handshake. -/
theorem hasReceived_of_up (h : Runs.Reachable (Init config) (Step aes) n) {i : Nat}
    {node : NodeState FloatBits} (hNode : n.system.state.nodes[i]? = some node)
    (hUp : node.status = .up) : (n.session i node).HasReceived := by
  have hNodeInv := ((System.systemInv_invariant aes config).of_reachable
    (reachable_system h)).nodes i node hNode
  obtain ⟨-, now, hStamp, -⟩ := hNodeInv.up hUp
  exact (((networkInv_invariant aes config).of_reachable h i node).stamp _ now hStamp).2 rfl

/-- **A node that is up.** Its thread holds an open connection with a reporter that has completed
the handshake, has received a message behind the handshake on it, and the time of the node was
written there. -/
theorem up_connected (h : Runs.Reachable (Init config) (Step aes) n) {i : Nat}
    {node : NodeState FloatBits} (hNode : n.system.state.nodes[i]? = some node)
    (hUp : node.status = .up) :
    ∃ ℓ msg4 message rest now, n.current i = some ℓ ∧ ℓ.balancerOpen = true ∧ ℓ.state = .connected ∧
      ℓ.toBalancer.received = HR_HANDSHAKE_MSG_2 :: msg4 :: message :: rest ∧
      HR_HANDSHAKE_MSG_4 <+: msg4 ∧
      (n.system.threads i).stamp = some ((n.system.threads i).connection, now) ∧
      node.lastChecked = toInt now := by
  have hInv := (networkInv_invariant aes config).of_reachable h i node
  have hNodeInv := ((System.systemInv_invariant aes config).of_reachable
    (reachable_system h)).nodes i node hNode
  obtain ⟨hLoop, now, hStamp, hTime⟩ := hNodeInv.up hUp
  obtain ⟨ℓ, msg4, rest, hLink, hEstablished, hReceived, hMsg4⟩ := hInv.established hLoop
  have hThree := hasReceived_of_up h hNode hUp ℓ hLink
  cases rest with
  | nil =>
    rw [hReceived] at hThree
    exact absurd hThree (by simp)
  | cons message rest =>
    exact ⟨ℓ, msg4, message, rest, now, hLink, (hInv.current ℓ hLink).2, hEstablished.state,
      hReceived, hMsg4, hStamp, hTime⟩

theorem up_connected_reported :
    ∃ (n : Network) (node : NodeState FloatBits),
      n.system.state.nodes[0]? = some node ∧ node.status = .up ∧
      ∃ ℓ msg4 message rest now, n.current 0 = some ℓ ∧ ℓ.balancerOpen = true ∧
      ℓ.state = .connected ∧
      ℓ.toBalancer.received = HR_HANDSHAKE_MSG_2 :: msg4 :: message :: rest ∧
      HR_HANDSHAKE_MSG_4 <+: msg4 ∧
      (n.system.threads 0).stamp = some ((n.system.threads 0).connection, now) ∧
      node.lastChecked = toInt now := by
  obtain ⟨s, hReachable, -, hReported⟩ := exists_reported Plusaes.aes
  have hNode := getElem?_putSession_self (n := starting keyedConfig 1700000000) (i := 0)
    (by decide) s
  have hUp : s.node.status = .up := by
    rw [hReported]
    rfl
  exact ⟨_, s.node, hNode, hUp, up_connected hReachable hNode hUp⟩

/-! ## Waiting -/

/-- The thread is at a `recv` with nothing to receive. -/
def BalancerWaits (t : RtThread) (ℓ : Link) : Prop :=
  (t.pc = .awaitMsg2 ∨ t.pc = .awaitMsg4 ∨ ∃ iv, t.pc = .receive iv) ∧ ℓ.toBalancer.inFlight = []

/-- The reporter is at a `read` with nothing to read. -/
def ReporterWaits (ℓ : Link) : Prop :=
  (ℓ.pc = .readMsg1 ∨ ∃ buf, ℓ.pc = .readMsg3 buf) ∧ ℓ.toReporter.inFlight = []

/-- A reporter that waits has not completed the handshake. -/
theorem handshaking_of_waits {ℓ : Link} (hAt : ℓ.AtPc aes) (hReporter : ReporterWaits ℓ) :
    ℓ.pc = .readMsg1 ∧ ℓ.Silent ∧ ℓ.toReporter.received = [] ∨ ℓ.Greeted ∧ ℓ.ReadHello := by
  unfold Link.AtPc at hAt
  rcases hReporter.1 with hPc | ⟨buf, hPc⟩
  · rw [hPc] at hAt
    exact Or.inl ⟨hPc, hAt⟩
  · rw [hPc] at hAt
    exact Or.inr ⟨hAt.1, hAt.2.1⟩

/-- Before the second message is accepted, one of the two directions has something in flight. -/
theorem not_both_wait_msg2 {ℓ : Link} (hInv : ℓ.Inv aes) (hBroken : ¬ ℓ.Broken)
    (hAt : ℓ.BalancerAt .awaitMsg2) (hNothing : ℓ.toBalancer.inFlight = []) :
    ¬ ReporterWaits ℓ := by
  intro hReporter
  obtain ⟨hNone, -⟩ := hAt
  have hWritten := Pipe.inFlight_eq_nil.mp hNothing
  rw [hNone, List.flatten_nil] at hWritten
  rcases handshaking_of_waits hInv.atPc hReporter with ⟨-, hSilent, hRead⟩ | ⟨hGreeted, -⟩
  · -- the first message has not been read
    have hAll := Pipe.inFlight_eq_nil.mp hReporter.2
    obtain ⟨a, -, hSome, hOne | ⟨b, -, -, -, hAccepted⟩⟩ := hInv.sent
    · rw [hRead, hOne, List.flatten_nil, List.flatten_singleton] at hAll
      exact hSome.resolve_right hBroken hAll.symm
    · exact hSilent.not_acceptedMsg2 hAccepted
  · -- the second message has not been received
    obtain ⟨w, hOne, -, hSome⟩ := hGreeted.written
    rw [hOne, List.flatten_singleton] at hWritten
    exact hSome hWritten.symm

/-- Behind the second message the third one is in flight, or has been answered. -/
theorem not_both_wait_msg4 {ℓ : Link} (hInv : ℓ.Inv aes) (hBroken : ¬ ℓ.Broken)
    (hAt : ℓ.BalancerAt .awaitMsg4) : ¬ ReporterWaits ℓ := by
  intro hReporter
  obtain ⟨hReceived, a, b, hTwo⟩ := hAt
  rcases handshaking_of_waits hInv.atPc hReporter with ⟨-, hSilent, -⟩ | ⟨-, hHello⟩
  · exact hSilent.not_acceptedMsg2 ⟨[], hReceived⟩
  · obtain ⟨q, hRead, -, a₁, rest, hWritten, hPrefix⟩ := hHello
    obtain ⟨rfl, -⟩ := List.cons.inj (hWritten.symm.trans hTwo)
    have hAll := congrArg List.length (Pipe.inFlight_eq_nil.mp hReporter.2)
    rw [hRead, hTwo, List.flatten_singleton] at hAll
    simp only [List.flatten_cons, List.flatten_nil, List.append_nil, List.length_append] at hAll
    have hNil : b = [] := by
      have := hPrefix.length_le
      exact List.eq_nil_of_length_eq_zero (by omega)
    obtain ⟨a₂, -, -, hOne | ⟨b₂, -, hSome, hTwo₂, -⟩⟩ := hInv.sent
    · cases hOne.symm.trans hTwo
    · obtain ⟨-, hSame⟩ := List.cons.inj (hTwo₂.symm.trans hTwo)
      rw [(List.cons.inj hSame).1] at hSome
      exact hSome.resolve_right hBroken hNil

/-- **No deadlock.** As long as a connection is not given up by the network or the reporter, its two
sides do not both wait for something to read. -/
theorem not_both_wait (h : Runs.Reachable (Init config) (Step aes) n) {i : Nat} {ℓ : Link}
    (hLink : n.current i = some ℓ) (hBroken : ¬ ℓ.Broken) :
    ¬ (BalancerWaits (n.system.threads i) ℓ ∧ ReporterWaits ℓ) := by
  rintro ⟨⟨hPc, hNothing⟩, hReporter⟩
  have hInv := (networkInv_invariant aes config).of_reachable h i default
  have hLinkInv := (hInv.current ℓ hLink).1
  have hAt : ℓ.BalancerAt (n.system.threads i).pc := hInv.atPc.of_current hLink
  rcases hPc with hPc | hPc | ⟨iv, hPc⟩
  · rw [hPc] at hAt
    exact not_both_wait_msg2 hLinkInv hBroken hAt hNothing hReporter
  · rw [hPc] at hAt
    exact not_both_wait_msg4 hLinkInv hBroken hAt hReporter
  · -- the reporter has completed the handshake, and only writes from then on
    have hLoop : (n.system.threads i).pc.InReportLoop := by
      rw [hPc]
      trivial
    obtain ⟨ℓ', -, -, hLink', hEstablished, -⟩ := hInv.established hLoop
    obtain rfl := Option.some.inj (hLink.symm.trans hLink')
    rcases handshaking_of_waits hLinkInv.atPc hReporter with ⟨-, hSilent, -⟩ | ⟨hGreeted, -⟩
    · cases hSilent.state.symm.trans hEstablished.state
    · cases hGreeted.state.symm.trans hEstablished.state

/-- The load balancer waits for the second message, and the reporter is about to read the first. -/
theorem not_both_wait_connected :
    ∃ (n : Network) (ℓ : Link), n.current 0 = some ℓ ∧ (n.system.threads 0).pc = .awaitMsg2 ∧
      ℓ.pc = .readMsg1 ∧ ¬ (BalancerWaits (n.system.threads 0) ℓ ∧ ReporterWaits ℓ) := by
  let ℓ : Link := { firstLink with conn := ⟨keyedConfig.encKey, onesIv⟩, pc := .readMsg1 }
  have hRun : ReflTransGen (SessionStep Plusaes.aes keyedConfig.encKey 1700000000)
      ((starting keyedConfig 1700000000).session 0 firstNode) (firstSession .awaitMsg2 ℓ) :=
    (connected_run Plusaes.aes).trans (.single (.reporter rfl (.accepts rfl _)))
  have hBroken : ¬ ℓ.Broken := by
    simp [Link.Broken, ℓ, firstLink, Link.new]
  exact ⟨_, ℓ, rfl, rfl, rfl, not_both_wait (reachable_starting hRun) rfl hBroken⟩

end Network

end Balancer

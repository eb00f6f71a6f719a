import Balancer.Codec.AesBlock
import Balancer.Realtime.Agreement

/-!
# Reports in order

Runs in which every `recv` on the connections of a node returns one message of the reporter, both
sides have the same key and the vector has no zero byte that cuts it off. In these the threads and
the connection are a queue of reports: what the node holds is the last report received, and the
reports received are the first ones of those sent.

* `Link.StoredAt`: what the node holds, at a control point of the thread.
* `Network.reports_in_order`: the queue.
-/

namespace Balancer

open Cpp Plusaes LbRtThread Relation

namespace Link

/-- The reports received, behind the two messages of the handshake. -/
def delivered (ℓ : Link) : List HealthReport := ℓ.reports.take (ℓ.toBalancer.received.length - 2)

/-- The node has the values of the last report received. -/
def Holds (ℓ : Link) (node : NodeState FloatBits) : Prop :=
  ∀ hr, ℓ.delivered.getLast? = some hr →
    node.cpuUsage = hr.cpuLoad ∧ node.memUsage = hr.memLoad

/-- What the node holds, at a control point of the thread. -/
def StoredAt (ℓ : Link) (node : NodeState FloatBits) : RtPc → Prop
  | .receive iv => iv = ℓ.conn.iv ∧ ℓ.Holds node
  | .leave => ℓ.Holds node
  | .storeDown _ => False
  | .storeCpu iv hr => iv = ℓ.conn.iv ∧ ℓ.delivered.getLast? = some hr
  | .storeMem iv hr =>
    iv = ℓ.conn.iv ∧ ℓ.delivered.getLast? = some hr ∧ node.cpuUsage = hr.cpuLoad
  | .readClock iv | .storeLastChecked iv _ | .storeUp iv => iv = ℓ.conn.iv ∧ ℓ.Holds node
  | _ => True

variable {aes : Cipher} {encKey : Bytes} {ℓ ℓ' : Link}

/-- The messages of a connected reporter, under a key of sixteen bytes. -/
theorem Established.messages_eq (h : ℓ.Established aes) (hKey : ℓ.conn.encKey.length = 16) :
    ℓ.messages = HR_HANDSHAKE_MSG_2 :: ℓ.conn.ivStr ::
      ℓ.reports.map (sentMessage aes ℓ.conn.encKey ℓ.conn.iv) := by
  obtain ⟨sent, hMessages, hSent⟩ := h.messages
  have hMessage (report : HealthReport) : ℓ.conn.handleConnected aes report =
      .ok (sentMessage aes ℓ.conn.encKey ℓ.conn.iv report) := by
    rw [HealthReporterConnection.handleConnected_eq aes (by rw [hKey]; decide),
      List.take_left' hKey]
    rfl
  have hEq : List.Forall₂ Eq (ℓ.reports.map (sentMessage aes ℓ.conn.encKey ℓ.conn.iv)) sent := by
    rw [List.forall₂_map_left_iff]
    refine hSent.imp ?_
    intro report message hReads
    rw [hMessage] at hReads
    exact (eq_of_reads hReads).symm
  rw [List.forall₂_eq_eq_eq] at hEq
  rw [hMessages, hEq]

/-- What has been received on such a connection. -/
theorem Established.received_eq (h : ℓ.Established aes) (hWhole : ℓ.Whole encKey)
    (hKey : encKey.length = 16) {msg4 : Bytes} {rest : List Bytes}
    (hReceived : ℓ.toBalancer.received = HR_HANDSHAKE_MSG_2 :: msg4 :: rest) :
    msg4 = ℓ.conn.ivStr ∧ rest = ℓ.delivered.map (sentMessage aes encKey ℓ.conn.iv) ∧
      rest.length ≤ ℓ.reports.length := by
  have hEncKey := hWhole.key h.state
  have hPrefix := hWhole.received
  rw [h.messages_eq (by rwa [hEncKey]), hReceived, List.cons_prefix_cons, List.cons_prefix_cons,
    hEncKey] at hPrefix
  obtain ⟨-, hMsg4, hRest⟩ := hPrefix
  have hLength : ℓ.toBalancer.received.length - 2 = rest.length := by
    rw [hReceived]
    rfl
  refine ⟨hMsg4, ?_, ?_⟩
  · rw [delivered, hLength, List.map_take]
    exact List.prefix_iff_eq_take.mp hRest
  · have := hRest.length_le
    rwa [List.length_map] at this

/-- The last message received is the last report delivered. -/
theorem Established.delivered_concat (h : ℓ.Established aes) (hWhole : ℓ.Whole encKey)
    (hKey : encKey.length = 16) {msg4 chunk : Bytes} {rest : List Bytes}
    (hReceived : ℓ.toBalancer.received = HR_HANDSHAKE_MSG_2 :: msg4 :: (rest ++ [chunk])) :
    ∃ hr, ℓ.delivered.getLast? = some hr ∧ chunk = sentMessage aes encKey ℓ.conn.iv hr := by
  obtain ⟨-, hRest, -⟩ := h.received_eq hWhole hKey hReceived
  rcases List.eq_nil_or_concat' ℓ.delivered with hNil | ⟨before, hr, hConcat⟩
  · rw [hNil] at hRest
    cases List.append_eq_nil_iff.mp hRest with
    | intro _ hChunk => cases hChunk
  · rw [hConcat, List.map_append, List.map_singleton] at hRest
    obtain ⟨-, hChunk⟩ := List.append_inj' hRest rfl
    refine ⟨hr, ?_, (List.cons.inj hChunk).1⟩
    rw [hConcat, List.getLast?_concat]

/-- Reports the reporter adds are behind those that have been received. -/
theorem delivered_of_prefix (hReports : ℓ.reports <+: ℓ'.reports)
    (hReceived : ℓ'.toBalancer.received = ℓ.toBalancer.received)
    (hLength : ℓ.toBalancer.received.length - 2 ≤ ℓ.reports.length) :
    ℓ'.delivered = ℓ.delivered := by
  obtain ⟨more, hMore⟩ := hReports
  rw [delivered, delivered, ← hMore, hReceived, List.take_append_of_le_length hLength]

/-- What the node holds does not depend on anything else. -/
theorem StoredAt.of_eq {node : NodeState FloatBits} {pc : RtPc} (h : ℓ.StoredAt node pc)
    (hDelivered : ℓ'.delivered = ℓ.delivered) (hConn : ℓ'.conn = ℓ.conn) : ℓ'.StoredAt node pc := by
  unfold StoredAt Holds at h ⊢
  rwa [hDelivered, hConn]

theorem storedAt_of_outside {node : NodeState FloatBits} {pc : RtPc} (h : ¬ pc.InReportLoop) :
    ℓ.StoredAt node pc := by
  cases pc <;> first | exact trivial | exact absurd trivial h

end Link

section Session

variable {aes : Cipher} {encKey : Bytes} {clock : Int} {s s' : Session}

/-- The connection of a session holds what has been stored. -/
def Session.Stored (s : Session) : Prop :=
  ∀ ℓ, s.current = some ℓ → ℓ.StoredAt s.node s.thread.pc

/-- A step of the reporter of a connected session. -/
theorem ReporterStep.of_established {ℓ ℓ' : Link} (hStep : ReporterStep aes ℓ ℓ')
    (hInv : ℓ.Inv aes) (hConnected : ℓ.state = .connected) :
    ℓ'.conn = ℓ.conn ∧ ℓ.reports <+: ℓ'.reports := by
  cases hStep with
  | accepts hPc conn =>
    have hAt := hInv.atPc
    unfold Link.AtPc at hAt
    rw [hPc] at hAt
    cases hAt.1.state.symm.trans hConnected
  | readsMsg1 _ hRead _ | refusesMsg1 _ hRead _ | readsMsg3 _ hRead _ | refusesMsg3 _ hRead _ =>
    cases hRead <;> exact ⟨rfl, List.prefix_rfl⟩
  | writesMsg2 _ hWrite | failsMsg2 _ hWrite | writesMsg4 _ hWrite | failsMsg4 _ hWrite =>
    cases hWrite
    exact ⟨rfl, List.prefix_rfl⟩
  | reports _ _ hWrite =>
    cases hWrite
    exact ⟨rfl, List.prefix_append _ _⟩
  | failsReport _ _ hWrite =>
    cases hWrite
    exact ⟨rfl, List.prefix_rfl⟩
  | closes _ | resets => exact ⟨rfl, List.prefix_rfl⟩

/-- A message received in the report loop is a report, and is taken for it. -/
theorem SessionInv.receives_report (h' : SessionInv aes s') {ℓ ℓ' : Link} {iv : Block}
    {received : Bytes} {outcome : ReportOutcome} (hRecv : ℓ.Recv (some received) ℓ')
    (hBefore : ∃ msg4 rest, ℓ.toBalancer.received = HR_HANDSHAKE_MSG_2 :: msg4 :: rest)
    (hLink' : s'.current = some ℓ') (hLoop' : s'.thread.pc.InReportLoop)
    (hWhole : ℓ'.Whole encKey) (hKey : encKey.length = 16) (hIv : iv = ℓ.conn.iv)
    (hOutcome : Reads (receiveReport aes encKey iv received) outcome) :
    ∃ hr, ℓ'.delivered.getLast? = some hr ∧ outcome = .applied hr := by
  obtain ⟨ℓ₁, -, -, hLink₁, hEstablished, -⟩ := h'.established hLoop'
  obtain rfl := Option.some.inj (hLink'.symm.trans hLink₁)
  obtain ⟨msg4, rest, hReceived⟩ := hBefore
  have hConcat : ℓ'.toBalancer.received =
      HR_HANDSHAKE_MSG_2 :: msg4 :: (rest ++ [received]) := by
    rw [hRecv.received_eq, hReceived]
    rfl
  obtain ⟨hr, hLast, hMessage⟩ := hEstablished.delivered_concat hWhole hKey hConcat
  rw [hIv, ← hRecv.keeps.conn, hMessage, receiveReport_sentMessage aes hKey] at hOutcome
  exact ⟨hr, hLast, eq_of_reads hOutcome⟩

/-- The storing steps put the values of the last report into the node. -/
theorem RtStep.storedAt {t t' : RtThread} {node node' : NodeState FloatBits} {ℓ : Link}
    (hStep : RtStep aes encKey clock t node t' node') (hStoring : t.pc.IsStoring)
    (h : ℓ.StoredAt node t.pc) : ℓ.StoredAt node' t'.pc := by
  cases hStep with
  | storesDown hPc =>
    rw [hPc] at h
    exact absurd h id
  | storesCpu hPc =>
    rw [hPc] at h
    exact ⟨h.1, h.2, rfl⟩
  | storesMem hPc =>
    rw [hPc] at h
    obtain ⟨hIv, hLast, hCpu⟩ := h
    refine ⟨hIv, ?_⟩
    intro hr hSome
    obtain rfl := Option.some.inj (hLast.symm.trans hSome)
    exact ⟨hCpu, rfl⟩
  | readsClock hPc | storesLastChecked hPc | storesUp hPc =>
    rw [hPc] at h
    exact h
  | socketFails hPc | socketOpens hPc | connectFails hPc | connects hPc | noMsg2 hPc | noMsg4 hPc
  | givesUp hPc | disconnected hPc | leaves hPc =>
    rw [hPc] at hStoring
    exact absurd hStoring id
  | refusesMsg2 hPc _ | acceptsMsg2 hPc _ | refusesMsg4 hPc _ | acceptsMsg4 hPc _ | ignores hPc _
  | rejects hPc _ | applies hPc _ =>
    rw [hPc] at hStoring
    exact absurd hStoring id

/-- A call of `recv` in the report loop. -/
theorem SessionInv.receives_in_order (hInv : SessionInv aes s) (hInv' : SessionInv aes s')
    (hKey : encKey.length = 16) (h : s.Stored) {iv : Block} (hPc : s.thread.pc = .receive iv)
    {ℓ ℓ' : Link} (hLink : s.current = some ℓ) {received : Bytes}
    (hRecv : ℓ.Recv (some received) ℓ') (hLink' : s'.current = some ℓ')
    (hLoop' : s'.thread.pc.InReportLoop) (hWhole : ℓ'.Whole encKey) {outcome : ReportOutcome}
    (hOutcome : Reads (receiveReport aes encKey iv received) outcome) :
    iv = ℓ'.conn.iv ∧ ∃ hr, ℓ'.delivered.getLast? = some hr ∧ outcome = .applied hr := by
  have hAt := hInv.atPc.of_current hLink
  have hStored := h ℓ hLink
  rw [hPc] at hAt hStored
  obtain ⟨msg4, rest, hReceived, -⟩ := hAt
  refine ⟨?_, hInv'.receives_report hRecv ⟨msg4, rest, hReceived⟩ hLink' hLoop' hWhole hKey
    hStored.1 hOutcome⟩
  rw [hRecv.keeps.conn]
  exact hStored.1

/-- **One step of a session in which messages are delivered whole.** -/
theorem SessionStep.stored (hStep : SessionStep aes encKey clock s s') (hInv : SessionInv aes s)
    (hKey : encKey.length = 16) (hWhole : ∀ ℓ, s.current = some ℓ → ℓ.Whole encKey)
    (hWhole' : ∀ ℓ, s'.current = some ℓ → ℓ.Whole encKey) (h : s.Stored) : s'.Stored := by
  have hInv' := hStep.inv hInv
  cases hStep with
  | works hPc hStep =>
    intro ℓ hLink
    rcases hPc with hPc | hStoring
    · cases (hInv.atPc.current_eq_none (Or.inl hPc)).symm.trans hLink
    · exact hStep.storedAt hStoring (h ℓ hLink)
  | connectFails hPc => exact fun ℓ _ => trivial
  | connects hPc hSend => exact fun ℓ _ => trivial
  | noMsg2 hPc hLink hRecv | refusesMsg2 hPc hLink hRecv hReply | noMsg4 hPc hLink hRecv
  | refusesMsg4 hPc hLink hRecv hReply => exact fun ℓ _ => trivial
  | acceptsMsg2 hPc hLink hRecv hReply hSend => exact fun ℓ _ => trivial
  | acceptsMsg4 hPc hLink hRecv hReply =>
    intro ℓ₁ h₁
    obtain rfl := Option.some.inj h₁
    obtain ⟨ℓ₂, msg4, rest, h₂, hEstablished, hReceived, -⟩ := hInv'.established trivial
    obtain rfl := Option.some.inj h₂
    obtain ⟨hMsg4, -, -⟩ := hEstablished.received_eq (hWhole' _ rfl) hKey hReceived
    have hIv := (hWhole' _ rfl).iv hEstablished.state
    have hAt := hInv.atPc.of_current hLink
    rw [hPc] at hAt
    rw [hRecv.received_eq, hAt.1] at hReceived
    obtain ⟨rfl, rfl⟩ := List.cons.inj (List.cons.inj hReceived).2
    rw [hMsg4, awaitMsg4_of_noZeroBefore15 hIv] at hReply
    refine ⟨Option.some.inj (eq_of_reads hReply), ?_⟩
    intro hr hLast
    rw [Link.delivered, hRecv.received_eq, hAt.1] at hLast
    cases hLast
  | givesUp hPc | leaves hPc =>
    intro ℓ hLink
    cases hLink
  | disconnected hPc hLink hRecv =>
    cases hRecv
    intro ℓ₁ h₁
    obtain rfl := Option.some.inj h₁
    have hStored := h _ hLink
    rw [hPc] at hStored
    exact hStored.2
  | ignores hPc hLink hRecv hOutcome =>
    have hLoop : s.thread.pc.InReportLoop := by
      rw [hPc]
      trivial
    obtain ⟨-, hr, -, hApplied⟩ := hInv.receives_in_order hInv' hKey h hPc hLink hRecv rfl hLoop
      (hWhole' _ rfl) hOutcome
    cases hApplied
  | rejects hPc hLink hRecv hOutcome =>
    obtain ⟨-, hr, -, hApplied⟩ := hInv.receives_in_order hInv' hKey h hPc hLink hRecv rfl trivial
      (hWhole' _ rfl) hOutcome
    cases hApplied
  | applies hPc hLink hRecv hOutcome =>
    obtain ⟨hIv, hr, hLast, hApplied⟩ := hInv.receives_in_order hInv' hKey h hPc hLink hRecv rfl
      trivial (hWhole' _ rfl) hOutcome
    intro ℓ₁ h₁
    obtain rfl := Option.some.inj h₁
    cases hApplied
    exact ⟨hIv, hLast⟩
  | @reporter ℓ ℓ' hLink hStep =>
    intro ℓ₁ h₁
    obtain rfl := Option.some.inj h₁
    by_cases hLoop : s.thread.pc.InReportLoop
    · obtain ⟨ℓ₂, msg4, rest, h₂, hEstablished, hReceived, -⟩ := hInv.established hLoop
      obtain rfl := Option.some.inj (hLink.symm.trans h₂)
      obtain ⟨hConn, hReports⟩ := hStep.of_established (hInv.current ℓ hLink).1 hEstablished.state
      obtain ⟨-, -, hLength⟩ := hEstablished.received_eq (hWhole ℓ hLink) hKey hReceived
      have hSame := hStep.frame.2.1
      refine (h ℓ hLink).of_eq (Link.delivered_of_prefix hReports hSame ?_) hConn
      rw [hReceived]
      exact hLength
    · exact Link.storedAt_of_outside hLoop
  | oldReporter hLink hStep => exact h

end Session

/-! ## The network -/

/-- The two values of a report. -/
def NodeState.usage (node : NodeState FloatBits) : FloatBits × FloatBits :=
  (node.cpuUsage, node.memUsage)

/-- What the node holds depends on its two values only. -/
theorem Link.StoredAt.of_usage {ℓ : Link} {node node' : NodeState FloatBits} {pc : RtPc}
    (h : ℓ.StoredAt node pc) (hUsage : node'.usage = node.usage) : ℓ.StoredAt node' pc := by
  obtain ⟨hCpu, hMem⟩ := Prod.mk.inj hUsage
  unfold Link.StoredAt Link.Holds at h ⊢
  rwa [hCpu, hMem]

/-- A thread that stands still stores nothing. -/
theorem RtStep.usage_eq {aes : Cipher} {encKey : Bytes} {clock : Int} {t t' : RtThread}
    {node node' : NodeState FloatBits} (hStep : RtStep aes encKey clock t node t' node')
    (hSame : t' = t) : node'.usage = node.usage := by
  have hPc := congrArg RtThread.pc hSame
  cases hStep with
  | storesCpu h | storesMem h =>
    rw [h] at hPc
    cases hPc
  | _ => rfl

/-- When the threads stand still, no node gets other values. -/
theorem System.Step.exists_usage_eq {aes : Cipher} {s s' : System} (hStep : System.Step aes s s')
    (hThreads : s'.threads = s.threads) {k : Nat} {node' : NodeState FloatBits}
    (hNode' : s'.state.nodes[k]? = some node') :
    ∃ node, s.state.nodes[k]? = some node ∧ node'.usage = node.usage := by
  have hPut {i : Nat} {node new : NodeState FloatBits} (hNode : s.state.nodes[i]? = some node)
      (hUsage : new.usage = node.usage) (h : (s.putNode i new).state.nodes[k]? = some node') :
      ∃ node, s.state.nodes[k]? = some node ∧ node'.usage = node.usage := by
    rcases System.getElem?_putNode h with ⟨rfl, rfl⟩ | ⟨-, hSame⟩
    · exact ⟨node, hNode, hUsage⟩
    · exact ⟨node', hSame, rfl⟩
  cases hStep with
  | @rtThread i node new t' hNode hStep =>
    refine hPut hNode (hStep.usage_eq ?_) hNode'
    have hThread := congrFun hThreads i
    rwa [System.putThread_self] at hThread
  | @invalidates i node h hNode =>
    have hDown : (node.setStatus .down).usage = node.usage := rfl
    exact hPut hNode hDown hNode'
  | healthCheck i ping =>
    simp only [LoadBalancerState.healthCheckAt] at hNode'
    split at hNode'
    · rw [List.getElem?_modify] at hNode'
      obtain ⟨node, hNode, rfl⟩ := Option.map_eq_some_iff.mp hNode'
      refine ⟨node, hNode, ?_⟩
      split <;> rfl
    · exact ⟨node', hNode', rfl⟩
  | tick clock | readsUp h hNode hUp | readsDown h hNode hDown | sleeps h hEnd
  | findsStale h hNode hStale | findsFresh h hNode hFresh => exact ⟨node', hNode', rfl⟩

namespace Network

variable {aes : Cipher} {config : LoadBalancerConfiguration} {n n' : Network} {i : Nat}

/-- The connection of the thread of node `i` is whole. -/
def WholeAt (i : Nat) (n : Network) : Prop :=
  ∀ ℓ, n.current i = some ℓ → ℓ.Whole n.system.state.config.encKey

/-- A step behind which the connection of node `i` is whole. -/
def WholeStep (aes : Cipher) (i : Nat) (n n' : Network) : Prop := Step aes n n' ∧ n'.WholeAt i

/-- What holds in the runs of these steps. -/
structure OrderInv (aes : Cipher) (config : LoadBalancerConfiguration) (i : Nat) (n : Network) :
    Prop where
  inv : NetworkInv aes n
  config : n.system.state.config = config
  whole : n.WholeAt i
  stored : ∀ node, n.system.state.nodes[i]? = some node → (n.session i node).Stored

theorem Step.config_eq (hStep : Step aes n n') :
    n'.system.state.config = n.system.state.config := by
  cases hStep with
  | session hNode hStep => rfl
  | other hStep _ => exact hStep.sameShape.1

/-- What the node holds after a step. -/
theorem OrderInv.stored_step (h : OrderInv aes config i n) (hKey : config.encKey.length = 16)
    (hStep : Step aes n n') (hWhole : n'.WholeAt i) {node' : NodeState FloatBits}
    (hNode' : n'.system.state.nodes[i]? = some node') : (n'.session i node').Stored := by
  cases hStep with
  | @session k node s' hNode hStep =>
    rcases System.getElem?_putNode hNode' with ⟨rfl, rfl⟩ | ⟨hNe, hSame⟩
    · have hCurrent : (n.putSession i s').current i = s'.current := Function.update_self _ _ _
      rw [session_putSession]
      refine hStep.stored (h.inv i node) (by rwa [h.config]) h.whole ?_ (h.stored node hNode)
      intro ℓ hLink
      exact hWhole ℓ (hCurrent.trans hLink)
    · rw [session_putSession_of_ne hNe]
      exact h.stored node' hSame
  | other hStep hThreads =>
    obtain ⟨node, hNode, hUsage⟩ := hStep.exists_usage_eq hThreads hNode'
    intro ℓ hLink
    have hStored := (h.stored node hNode ℓ hLink).of_usage hUsage
    rw [session, hThreads]
    exact hStored

theorem orderInv_invariant (aes : Cipher) {config : LoadBalancerConfiguration}
    (hKey : config.encKey.length = 16) (i : Nat) :
    Runs.Invariant (Init config) (WholeStep aes i) (OrderInv aes config i) where
  initial := by
    intro n h
    have hNone {ℓ : Link} (hLink : n.current i = some ℓ) : False := by
      cases (h.current i).symm.trans hLink
    exact ⟨h.inv, ((System.sameShape_invariant aes config).initial _ h.system).1,
      fun ℓ hLink => (hNone hLink).elim, fun node _ ℓ hLink => (hNone hLink).elim⟩
  preserved := by
    rintro n n' h ⟨hStep, hWhole⟩
    exact ⟨hStep.inv h.inv, hStep.config_eq.trans h.config, hWhole,
      fun node' hNode' => h.stored_step hKey hStep hWhole hNode'⟩

/-- The runs of these steps are runs. -/
theorem reachable_of_whole (h : Runs.Reachable (Init config) (WholeStep aes i) n) :
    Runs.Reachable (Init config) (Step aes) n := by
  obtain ⟨n₀, hInit, hRun⟩ := h
  exact ⟨n₀, hInit, ReflTransGen.mono (fun _ _ hStep => hStep.1) _ _ hRun⟩

/-- A thread that waits for a report, in such a run. -/
theorem exists_delivered (hKey : config.encKey.length = 16)
    (h : Runs.Reachable (Init config) (WholeStep aes i) n) {iv : Block}
    (hPc : (n.system.threads i).pc = .receive iv) {node : NodeState FloatBits}
    (hNode : n.system.state.nodes[i]? = some node) :
    ∃ ℓ, n.current i = some ℓ ∧
      ℓ.toBalancer.received = HR_HANDSHAKE_MSG_2 :: ℓ.conn.ivStr ::
        ℓ.delivered.map (sentMessage aes config.encKey iv) ∧
      ℓ.Holds node ∧ (node.status = .up → ℓ.delivered ≠ []) := by
  have hInv := (orderInv_invariant aes hKey i).of_reachable h
  have hLoop : (n.system.threads i).pc.InReportLoop := by
    rw [hPc]
    trivial
  obtain ⟨ℓ, msg4, rest, hLink, hEstablished, hReceived, -⟩ := (hInv.inv i node).established hLoop
  have hWhole := hInv.whole ℓ hLink
  rw [hInv.config] at hWhole
  obtain ⟨rfl, hRest, -⟩ := hEstablished.received_eq hWhole hKey hReceived
  have hStored : ℓ.StoredAt node (n.system.threads i).pc := hInv.stored node hNode ℓ hLink
  rw [hPc] at hStored
  obtain ⟨rfl, hHolds⟩ := hStored
  refine ⟨ℓ, hLink, ?_, hHolds, ?_⟩
  · rw [hReceived, hRest]
  · intro hUp hNone
    have hThree := hasReceived_of_up (reachable_of_whole h) hNode hUp ℓ hLink
    rw [hReceived, hRest, hNone] at hThree
    exact absurd hThree (by simp)

/-- **Reports in order.** In a run in which the connection of a node stays whole, a thread that
waits for a report has received the two messages of the handshake and the first reports of those
sent, each once and in their order. The node has the values of the last of them, and is up only
behind one. -/
theorem reports_in_order (hKey : config.encKey.length = 16)
    (h : Runs.Reachable (Init config) (WholeStep aes i) n) {iv : Block}
    (hPc : (n.system.threads i).pc = .receive iv) {node : NodeState FloatBits}
    (hNode : n.system.state.nodes[i]? = some node) :
    ∃ ℓ delivered, n.current i = some ℓ ∧ delivered <+: ℓ.reports ∧
      ℓ.toBalancer.received = HR_HANDSHAKE_MSG_2 :: ℓ.conn.ivStr ::
        delivered.map (sentMessage aes config.encKey iv) ∧
      (∀ hr, delivered.getLast? = some hr →
        node.cpuUsage = hr.cpuLoad ∧ node.memUsage = hr.memLoad) ∧
      (node.status = .up → delivered ≠ []) := by
  obtain ⟨ℓ, hLink, hReceived, hHolds, hSome⟩ := exists_delivered hKey h hPc hNode
  exact ⟨ℓ, ℓ.delivered, hLink, List.take_prefix _ _, hReceived, hHolds, hSome⟩

/-- A run of the first node in which the connections stay whole. -/
theorem reachable_reported {s : Session}
    (hRun : ReflTransGen (Session.WholeStep aes keyedConfig.encKey 1700000000)
      ((starting keyedConfig 1700000000).session 0 firstNode) s) :
    Runs.Reachable (Init keyedConfig) (fun n n' => Step aes n n' ∧ ∀ i, n'.WholeAt i)
      ((starting keyedConfig 1700000000).putSession 0 s) := by
  let n : Network := starting keyedConfig 1700000000
  have hLift : ReflTransGen (fun n n' => Step aes n n' ∧ ∀ i, n'.WholeAt i)
      (n.putSession 0 (n.session 0 firstNode)) (n.putSession 0 s) := by
    refine hRun.lift (fun s => n.putSession 0 s) ?_
    intro s s' hStep
    refine ⟨step_putSession (by decide) hStep.1, ?_⟩
    intro i ℓ hLink
    by_cases hi : i = 0
    · subst hi
      exact hStep.2 ℓ hLink
    · simp [putSession, Function.update_of_ne hi, n, starting] at hLink
  rw [putSession_session rfl] at hLift
  exact ⟨n, init_starting, hLift⟩

/-- A whole run, up to a report that has been stored. -/
theorem reports_in_order_reported :
    ∃ (n : Network) (node : NodeState FloatBits),
      n.system.state.nodes[0]? = some node ∧ node.status = .up ∧
      ∃ ℓ delivered, n.current 0 = some ℓ ∧ delivered <+: ℓ.reports ∧
        ℓ.toBalancer.received = HR_HANDSHAKE_MSG_2 :: ℓ.conn.ivStr ::
          delivered.map (sentMessage Plusaes.aes keyedConfig.encKey onesIv) ∧
        (∀ hr, delivered.getLast? = some hr →
          node.cpuUsage = hr.cpuLoad ∧ node.memUsage = hr.memLoad) ∧
        (node.status = .up → delivered ≠ []) := by
  obtain ⟨s, hRun, hPc, hReported⟩ := exists_reported_starting Plusaes.aes
  obtain ⟨n₀, hInit, hWhole⟩ := reachable_reported hRun
  have hReachable : Runs.Reachable (Init keyedConfig) (WholeStep Plusaes.aes 0)
      ((starting keyedConfig 1700000000).putSession 0 s) :=
    ⟨n₀, hInit, ReflTransGen.mono (fun _ _ hStep => ⟨hStep.1, hStep.2 0⟩) _ _ hWhole⟩
  refine ⟨_, s.node, rfl, ?_, reports_in_order rfl hReachable hPc rfl⟩
  rw [hReported]
  rfl

end Network

end Balancer

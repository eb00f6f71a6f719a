import Balancer.Realtime.Network

/-!
# Undisturbed exchanges

The runs in which nothing fails and every message is delivered whole: the handshake of a new
connection and the reports behind it, and the way of a thread from any control point back to a new
connection.

* `exists_handshake`, `exists_report_run`: a new connection, and a report on it.
* `exists_openSocket`: a thread can always come back to `socket`.
* `Network.recovers`: from every state of every run a node can be brought up.
-/

namespace Balancer

open Cpp Plusaes LbRtThread Relation

/-! ## One connection -/

namespace Link

/-- Every `recv` has returned one message, and the two sides agree. -/
structure Whole (encKey : Bytes) (ℓ : Link) : Prop where
  received : ℓ.toBalancer.received <+: ℓ.messages
  key : ℓ.state = .connected → ℓ.conn.encKey = encKey
  iv : ℓ.state = .connected → NoZeroBefore15 ℓ.conn.iv

/-- The reporter is at a control point, with these bytes and these messages in flight. -/
structure Shows (ℓ : Link) (conn : HealthReporterConnection) (pc : ReporterPc)
    (toReporter : Bytes) (pending : List Bytes) : Prop where
  conn : ℓ.conn = conn
  pc : ℓ.pc = pc
  toReporter : ℓ.toReporter.inFlight = toReporter
  toBalancer : ℓ.toBalancer.inFlight = pending.flatten
  messages : ℓ.messages = ℓ.toBalancer.received ++ pending

/-- A step of the reporter on a connection that stays whole. -/
def WholeStep (aes : Cipher) (encKey : Bytes) (ℓ ℓ' : Link) : Prop :=
  ReporterStep aes ℓ ℓ' ∧ ℓ'.Whole encKey

variable (aes : Cipher) {ℓ : Link} {conn : HealthReporterConnection} {pc : ReporterPc}
  {toReporter : Bytes} {pending : List Bytes}

theorem Shows.whole (h : ℓ.Shows conn pc toReporter pending) (hIv : NoZeroBefore15 conn.iv) :
    ℓ.Whole conn.encKey := by
  refine ⟨?_, ?_, ?_⟩
  · rw [h.messages]
    exact List.prefix_append _ _
  · intro _
    rw [h.conn]
  · intro _
    rwa [h.conn]

theorem Shows.read (h : ℓ.Shows conn pc toReporter pending)
    (hLength : toReporter.length ≤ BUFFER_SIZE) (hSome : toReporter ≠ []) :
    ∃ ℓ', ℓ.Read (some toReporter) ℓ' ∧ ℓ'.Shows conn pc [] pending := by
  have hPrefix : toReporter <+: ℓ.toReporter.inFlight := by rw [h.toReporter]
  exact ⟨_, .returns toReporter hPrefix hLength (fun hNil => absurd hNil hSome), h.conn, h.pc,
    Pipe.inFlight_read_all _ hPrefix h.toReporter, h.toBalancer, h.messages⟩

theorem Shows.write (h : ℓ.Shows conn pc toReporter pending) {message : Bytes}
    (hSome : message ≠ []) :
    ∃ ℓ', ℓ.Write message true ℓ' ∧ ℓ'.Shows conn pc toReporter (pending ++ [message]) := by
  refine ⟨_, .accepts message List.prefix_rfl hSome, h.conn, h.pc, h.toReporter, ?_, ?_⟩
  · rw [Pipe.inFlight_write, h.toBalancer, List.flatten_append, List.flatten_singleton]
  · rw [h.messages, List.append_assoc]
    rfl

theorem Shows.recv {message : Bytes} (h : ℓ.Shows conn pc toReporter [message])
    (hLength : message.length ≤ BUFFER_SIZE) (hSome : message ≠ []) :
    ∃ ℓ', ℓ.Recv (some message) ℓ' ∧ ℓ'.Shows conn pc toReporter [] := by
  have hInFlight : ℓ.toBalancer.inFlight = message := by rw [h.toBalancer, List.flatten_singleton]
  have hPrefix : message <+: ℓ.toBalancer.inFlight := by rw [hInFlight]
  refine ⟨_, .returns message hPrefix hLength hSome, h.conn, h.pc, h.toReporter,
    Pipe.inFlight_read_all _ hPrefix hInFlight, ?_⟩
  rw [h.messages, List.append_nil]
  rfl

theorem Shows.send (h : ℓ.Shows conn pc toReporter pending) {message : Bytes}
    (hSome : message ≠ []) :
    ∃ ℓ', ℓ.Send message ℓ' ∧ ℓ'.Shows conn pc (toReporter ++ message) pending := by
  refine ⟨_, .accepts message List.prefix_rfl (Or.inl hSome), h.conn, h.pc, ?_, h.toBalancer,
    h.messages⟩
  rw [Pipe.inFlight_write, h.toReporter]

theorem Shows.setPc (h : ℓ.Shows conn pc toReporter pending) (pc' : ReporterPc) :
    Shows { ℓ with pc := pc' } conn pc' toReporter pending :=
  ⟨h.conn, rfl, h.toReporter, h.toBalancer, h.messages⟩

section Reporter

variable (hIv : NoZeroBefore15 conn.iv)

include hIv

/-- The reporter accepts, reads the first message and writes the second. -/
theorem exists_greets (h : ℓ.Shows conn .backlog hello []) :
    ∃ ℓ', ReflTransGen (WholeStep aes conn.encKey) ℓ ℓ' ∧
      ℓ'.Shows conn (.readMsg3 helloBuffer) [] [HR_HANDSHAKE_MSG_2] := by
  have hAccepted : Shows { ℓ with conn := conn, pc := .readMsg1 } conn .readMsg1 hello [] :=
    ⟨rfl, rfl, h.toReporter, h.toBalancer, h.messages⟩
  obtain ⟨ℓ₁, hRead, h₁⟩ := hAccepted.read (by decide) (by decide)
  have hAnswered := h₁.setPc (.writeMsg2 helloBuffer HR_HANDSHAKE_MSG_2)
  obtain ⟨ℓ₂, hWrite, h₂⟩ := hAnswered.write (show HR_HANDSHAKE_MSG_2 ≠ [] by decide)
  have hLast := h₂.setPc (.readMsg3 helloBuffer)
  refine ⟨_, ?_, hLast⟩
  refine ReflTransGen.trans (.single ⟨.accepts h.pc conn, hAccepted.whole hIv⟩) ?_
  refine ReflTransGen.trans
    (.single ⟨.readsMsg1 rfl hRead (reads_of_ok answerHello_hello), hAnswered.whole hIv⟩) ?_
  exact .single ⟨.writesMsg2 rfl hWrite, hLast.whole hIv⟩

/-- The reporter reads the third message and writes the fourth. -/
theorem exists_acknowledges (h : ℓ.Shows conn (.readMsg3 helloBuffer) acknowledgement []) :
    ∃ ℓ', ReflTransGen (WholeStep aes conn.encKey) ℓ ℓ' ∧
      ℓ'.Shows conn .report [] [conn.ivStr] := by
  obtain ⟨ℓ₁, hRead, h₁⟩ := h.read (by decide) (by decide)
  have hAnswer : ℓ.conn.answerAcknowledgement helloBuffer (some acknowledgement) =
      .ok (some conn.ivStr) := by
    rw [answerAcknowledgement_acknowledgement, h.conn]
  have hSome : conn.ivStr ≠ [] := by
    simp [HealthReporterConnection.ivStr]
  have hAnswered := h₁.setPc (.writeMsg4 conn.ivStr)
  obtain ⟨ℓ₂, hWrite, h₂⟩ := hAnswered.write hSome
  have hLast : Shows { ℓ₂ with pc := .report, state := .connected } conn .report [] [conn.ivStr] :=
    ⟨h₂.conn, rfl, h₂.toReporter, h₂.toBalancer, h₂.messages⟩
  refine ⟨_, ?_, hLast⟩
  refine ReflTransGen.trans
    (.single ⟨.readsMsg3 h.pc hRead (reads_of_ok hAnswer), hAnswered.whole hIv⟩) ?_
  exact .single ⟨.writesMsg4 rfl hWrite, hLast.whole hIv⟩

/-- The reporter writes a report. -/
theorem exists_report (hKey : conn.encKey.length = 16) (h : ℓ.Shows conn .report [] [])
    (hr : HealthReport) :
    ∃ ℓ', ReflTransGen (WholeStep aes conn.encKey) ℓ ℓ' ∧
      ℓ'.Shows conn .report [] [sentMessage aes conn.encKey conn.iv hr] := by
  have hMessage : ℓ.conn.handleConnected aes hr =
      .ok (sentMessage aes conn.encKey conn.iv hr) := by
    rw [h.conn, HealthReporterConnection.handleConnected_eq aes (by rw [hKey]; decide),
      List.take_left' hKey]
    rfl
  have hSome : sentMessage aes conn.encKey conn.iv hr ≠ [] := by
    rw [← List.length_pos_iff, sentMessage, HealthReporterConnection.length_blockMessage]
    decide
  obtain ⟨ℓ₁, hWrite, h₁⟩ := h.write hSome
  have hLast : Shows { ℓ₁ with pc := .report, reports := ℓ.reports ++ [hr] } conn .report []
      [sentMessage aes conn.encKey conn.iv hr] :=
    ⟨h₁.conn, rfl, h₁.toReporter, h₁.toBalancer, h₁.messages⟩
  exact ⟨_, .single ⟨.reports h.pc (reads_of_ok hMessage) hWrite, hLast.whole hIv⟩, hLast⟩

end Reporter

end Link

/-! ## One session -/

section Session

/-- The connection of a session is whole. -/
def Session.Whole (encKey : Bytes) (s : Session) : Prop := ∀ ℓ, s.current = some ℓ → ℓ.Whole encKey

/-- A step of a session whose connection stays whole. -/
def Session.WholeStep (aes : Cipher) (encKey : Bytes) (clock : Int) (s s' : Session) : Prop :=
  SessionStep aes encKey clock s s' ∧ s'.Whole encKey

variable (aes : Cipher) (encKey : Bytes) (clock : Int) {s : Session}

theorem Session.whole_of_current {ℓ : Link} (hLink : s.current = some ℓ) (h : ℓ.Whole encKey) :
    s.Whole encKey := by
  intro ℓ' hLink'
  obtain rfl := Option.some.inj (hLink.symm.trans hLink')
  exact h

variable {aes encKey clock} in
/-- Steps of the reporter while the load balancer waits. -/
theorem reporter_run {ℓ ℓ' : Link} (hRun : ReflTransGen (Link.WholeStep aes encKey) ℓ ℓ')
    (hLink : s.current = some ℓ) :
    ReflTransGen (Session.WholeStep aes encKey clock) s { s with current := some ℓ' } := by
  induction hRun with
  | refl =>
    rw [← hLink]
  | tail _ hStep ih =>
    exact ih.tail ⟨.reporter rfl hStep.1, Session.whole_of_current _ rfl hStep.2⟩

/-- **A new connection.** Its handshake can be completed with any reporter whose vector arrives. -/
theorem exists_handshake (hPc : s.thread.pc = .openSocket) (hNone : s.current = none) {iv : Block}
    (hIv : NoZeroBefore15 iv) :
    ∃ ℓ, ReflTransGen (Session.WholeStep aes encKey clock) s
        { s with
            thread := { s.thread with
              pc := .receive iv
              connection := s.thread.connection + 1
              handshaken := some (s.thread.connection + 1) }
            current := some ℓ } ∧
      ℓ.Shows ⟨encKey, iv⟩ .report [] [] := by
  let conn : HealthReporterConnection := ⟨encKey, iv⟩
  have hNew : (Link.new conn false).Shows conn .backlog [] [] := ⟨rfl, rfl, rfl, rfl, rfl⟩
  obtain ⟨ℓ₀, hHello, h₀⟩ := hNew.send (show hello ≠ [] by decide)
  obtain ⟨ℓ₁, hRun₁, h₁⟩ := Link.exists_greets aes hIv h₀
  obtain ⟨ℓ₂, hRecv₂, h₂⟩ := h₁.recv (by decide) (by decide)
  obtain ⟨ℓ₃, hSend, h₃⟩ := h₂.send (show acknowledgement ≠ [] by decide)
  obtain ⟨ℓ₄, hRun₄, h₄⟩ := Link.exists_acknowledges aes hIv h₃
  have hIvLength : conn.ivStr.length ≤ BUFFER_SIZE := by
    rw [HealthReporterConnection.ivStr, List.length_append, List.length_append, conn.iv.length_eq]
    decide
  have hIvSome : conn.ivStr ≠ [] := by
    simp [HealthReporterConnection.ivStr]
  obtain ⟨ℓ₅, hRecv₅, h₅⟩ := h₄.recv hIvLength hIvSome
  have hMsg2 : LbRtThread.awaitMsg2 HR_HANDSHAKE_MSG_2 = .ok true :=
    strncmpEq_append HR_HANDSHAKE_MSG_2 _
  have hWhole {s' : Session} {ℓ : Link} {pc : ReporterPc} {toReporter : Bytes}
      {pending : List Bytes} (hLink : s'.current = some ℓ)
      (hShows : ℓ.Shows conn pc toReporter pending) : s'.Whole encKey :=
    Session.whole_of_current encKey hLink (hShows.whole hIv)
  refine ⟨ℓ₅, ?_, h₅⟩
  refine ReflTransGen.trans (.single ⟨.works (Or.inl hPc) (.socketOpens hPc), ?_⟩) ?_
  · intro ℓ hLink
    cases hNone.symm.trans hLink
  refine ReflTransGen.trans (.single ⟨.connects rfl hHello, hWhole rfl h₀⟩) ?_
  refine ReflTransGen.trans (reporter_run hRun₁ rfl) ?_
  refine ReflTransGen.trans
    (.single ⟨.acceptsMsg2 rfl rfl hRecv₂ (reads_of_ok hMsg2) hSend, hWhole rfl h₃⟩) ?_
  refine ReflTransGen.trans (reporter_run hRun₄ rfl) ?_
  exact .single ⟨.acceptsMsg4 rfl rfl hRecv₅ (reads_of_ok (awaitMsg4_of_noZeroBefore15 hIv)),
    hWhole rfl h₅⟩

/-- A report is written, received and stored. -/
theorem exists_report_run {iv : Block} (hPc : s.thread.pc = .receive iv) (hKey : encKey.length = 16)
    (hIv : NoZeroBefore15 iv) {ℓ : Link} (hLink : s.current = some ℓ)
    (hShows : ℓ.Shows ⟨encKey, iv⟩ .report [] []) (hr : HealthReport) :
    ∃ s' ℓ', ReflTransGen (Session.WholeStep aes encKey clock) s s' ∧
      s'.node = reported s.node (clock, hr) ∧ s'.thread.pc = .receive iv ∧ s'.current = some ℓ' ∧
      ℓ'.Shows ⟨encKey, iv⟩ .report [] [] := by
  obtain ⟨ℓ₁, hRun₁, h₁⟩ := Link.exists_report aes hIv hKey hShows hr
  have hLength : (sentMessage aes encKey iv hr).length = 27 :=
    HealthReporterConnection.length_blockMessage _
  obtain ⟨ℓ₂, hRecv, h₂⟩ := h₁.recv (by rw [hLength]; decide)
    (List.length_pos_iff.mp (by rw [hLength]; decide))
  have hOutcome := reads_of_ok (receiveReport_sentMessage aes hKey iv hr)
  have hWhole {s' : Session} (hLink' : s'.current = some ℓ₂) : s'.Whole encKey :=
    Session.whole_of_current encKey hLink' (h₂.whole hIv)
  refine ⟨{ s with
      thread := { s.thread with
        pc := .receive iv
        stamp := some (s.thread.connection, clock) }
      node := reported s.node (clock, hr)
      current := some ℓ₂ }, ℓ₂, ?_, rfl, rfl, rfl, h₂⟩
  refine ReflTransGen.trans (reporter_run hRun₁ hLink) ?_
  refine ReflTransGen.trans (.single
    ⟨.applies (s := { s with current := some ℓ₁ }) hPc rfl hRecv hOutcome, hWhole rfl⟩) ?_
  refine ReflTransGen.trans
    (.single ⟨.works (Or.inr trivial) (.storesCpu rfl), hWhole rfl⟩) ?_
  refine ReflTransGen.trans
    (.single ⟨.works (Or.inr trivial) (.storesMem rfl), hWhole rfl⟩) ?_
  refine ReflTransGen.trans
    (.single ⟨.works (Or.inr trivial) (.readsClock rfl), hWhole rfl⟩) ?_
  refine ReflTransGen.trans
    (.single ⟨.works (Or.inr trivial) (.storesLastChecked rfl), hWhole rfl⟩) ?_
  exact .single ⟨.works (Or.inr trivial) (.storesUp rfl), hWhole rfl⟩

/-! ### Back to a new connection -/

/-- The thread can go back to `socket`. -/
def CanReopen (s : Session) : Prop :=
  ∃ s', ReflTransGen (SessionStep aes encKey clock) s s' ∧ s'.thread.pc = .openSocket

variable {aes encKey clock}

theorem CanReopen.head {s s' : Session} (hStep : SessionStep aes encKey clock s s')
    (h : CanReopen aes encKey clock s') : CanReopen aes encKey clock s := by
  obtain ⟨last, hRun, hPc⟩ := h
  exact ⟨last, .head hStep hRun, hPc⟩

end Session

/-! ## The network -/

namespace Network

variable {aes : Cipher} {config : LoadBalancerConfiguration} {n : Network}

theorem putSession_session {i : Nat} {node : NodeState FloatBits}
    (hNode : n.system.state.nodes[i]? = some node) : n.putSession i (n.session i node) = n := by
  simp only [putSession, session, System.putNode_self hNode, System.putThread,
    Function.update_eq_self]

theorem putSession_putSession (i : Nat) (s s' : Session) (n : Network) :
    (n.putSession i s).putSession i s' = n.putSession i s' := by
  simp [putSession, System.putNode, System.putThread]

theorem getElem?_putSession_self {i : Nat} (h : i < n.system.state.nodes.length) (s : Session) :
    (n.putSession i s).system.state.nodes[i]? = some s.node := by
  simp [putSession, System.putNode, System.putThread, h]

/-- A step of a session is a step of the network. -/
theorem step_putSession {i : Nat} (hi : i < n.system.state.nodes.length) {s s' : Session}
    (hStep : SessionStep aes n.system.state.config.encKey n.system.clock s s') :
    Step aes (n.putSession i s) (n.putSession i s') := by
  have hSession : (n.putSession i s).session i s.node = s := session_putSession i s n s.node
  rw [← putSession_putSession i s s' n]
  apply Step.session (getElem?_putSession_self hi s)
  rw [hSession]
  exact hStep

/-- A run of a session is a run of the network. -/
theorem lift_session {i : Nat} {node : NodeState FloatBits} {s' : Session}
    (hNode : n.system.state.nodes[i]? = some node)
    (hRun : ReflTransGen (SessionStep aes n.system.state.config.encKey n.system.clock)
      (n.session i node) s') :
    ReflTransGen (Step aes) n (n.putSession i s') := by
  have hLift : ReflTransGen (Step aes) (n.putSession i (n.session i node)) (n.putSession i s') :=
    hRun.lift (fun s => n.putSession i s) fun _ _ hStep =>
      step_putSession (List.getElem?_eq_some_iff.mp hNode).1 hStep
  rwa [putSession_session hNode] at hLift

/-- A vector that arrives. -/
def onesIv : Block := ⟨List.replicate 16 1, rfl⟩

theorem noZeroBefore15_onesIv : NoZeroBefore15 onesIv := by
  unfold NoZeroBefore15 onesIv
  decide

/-- A new connection, and a report on it. -/
theorem exists_reported_session (aes : Cipher) {encKey : Bytes} (hKey : encKey.length = 16)
    (clock : Int) {s : Session} (hPc : s.thread.pc = .openSocket) (hNone : s.current = none)
    (hr : HealthReport) :
    ∃ s', ReflTransGen (Session.WholeStep aes encKey clock) s s' ∧
      s'.thread.pc = .receive onesIv ∧ s'.node = reported s.node (clock, hr) := by
  obtain ⟨ℓ, hRun, hShows⟩ := exists_handshake aes encKey clock hPc hNone noZeroBefore15_onesIv
  obtain ⟨s', -, hRun', hNode, hPc', -⟩ := exists_report_run aes encKey clock
    (s := { s with
      thread := { s.thread with
        pc := .receive onesIv
        connection := s.thread.connection + 1
        handshaken := some (s.thread.connection + 1) }
      current := some ℓ }) rfl hKey noZeroBefore15_onesIv rfl hShows hr
  exact ⟨s', hRun.trans hRun', hPc', hNode⟩

/-- `start` under `RESOURCE`, at time `clock`. -/
def starting (config : LoadBalancerConfiguration) (clock : Int) : Network where
  system := ⟨clock, ⟨config, config.nodes.map LoadBalancerState.initNode, .resource⟩,
    fun _ => RtThread.start, .visit 0⟩
  current := fun _ => none
  past := fun _ => []

/-- The configuration of the tests under `RESOURCE`, with a key of sixteen bytes. -/
def keyedConfig : LoadBalancerConfiguration :=
  { testConfig "RESOURCE" with encKey := ascii "0123456789abcdef" }

theorem init_starting : Init keyedConfig (starting keyedConfig 1700000000) :=
  ⟨⟨rfl, rfl, fun _ => rfl, rfl⟩, fun _ => rfl, fun _ => rfl⟩

/-- The first node of the tests. -/
def firstNode : NodeState FloatBits :=
  LoadBalancerState.initNode ⟨"Target 1", "127.0.0.1", 5001, 6001, 1⟩

/-- The first node reports on its first connection. -/
theorem exists_reported_starting (aes : Cipher) :
    ∃ s, ReflTransGen (Session.WholeStep aes keyedConfig.encKey 1700000000)
        ((starting keyedConfig 1700000000).session 0 firstNode) s ∧
      s.thread.pc = .receive onesIv ∧ s.node = reported firstNode (1700000000, ⟨1, 2⟩) :=
  exists_reported_session aes rfl 1700000000 rfl rfl ⟨1, 2⟩

/-- A run of the first node from the start. -/
theorem reachable_starting {s : Session}
    (hRun : ReflTransGen (SessionStep aes keyedConfig.encKey 1700000000)
      ((starting keyedConfig 1700000000).session 0 firstNode) s) :
    Runs.Reachable (Init keyedConfig) (Step aes)
      ((starting keyedConfig 1700000000).putSession 0 s) :=
  ⟨_, init_starting, lift_session rfl hRun⟩

/-- The first connection of the first node, behind `connect`. -/
def firstLink : Link :=
  { Link.new ⟨[], onesIv⟩ false with toReporter := Pipe.empty.write hello }

/-- The first node behind `connect`, with its first connection. -/
def firstSession (pc : RtPc) (ℓ : Link) : Session := ⟨⟨pc, 1, none, none⟩, firstNode, some ℓ, []⟩

theorem connected_run (aes : Cipher) :
    ReflTransGen (SessionStep aes keyedConfig.encKey 1700000000)
      ((starting keyedConfig 1700000000).session 0 firstNode)
      (firstSession .awaitMsg2 firstLink) := by
  refine ReflTransGen.trans (.single (.works (Or.inl rfl) (.socketOpens rfl))) ?_
  exact .single (.connects rfl (.accepts hello List.prefix_rfl (Or.inl (by decide))))

end Network

end Balancer

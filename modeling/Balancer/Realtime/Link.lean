import Balancer.Pipe
import Balancer.Realtime.Handshake

/-!
# One connection between the load balancer and a health reporter

The two directions of the connection and the thread of the reporter at its other end
(`HealthReporterConnection::start`, `HealthReporter.cpp`). Reads return any part of what is in
flight, writes accept any part of their message, and both may fail.

* `ReporterStep`: the steps of the reporter.
* `Link.Inv`: what holds of a connection after any steps of both sides.
* `Link.Inv.established`: bytes behind the second message come from a reporter that has completed
  the handshake.
-/

namespace Balancer

open Cpp Plusaes LbRtThread

/-- `HealthReporterConnection::state`. -/
inductive HealthReporterState
  | lbHandshake
  | connected
  deriving DecidableEq

/-- The control points of `HealthReporterConnection::start`: before `accept`, at each `read` and
`write` of the handshake, in the loop of `handle_connected`, and before and behind `close`. -/
inductive ReporterPc
  | backlog
  | readMsg1
  | writeMsg2 (buf reply : Bytes)
  | readMsg3 (buf : Bytes)
  | writeMsg4 (reply : Bytes)
  | report
  | leave
  | closed

/-- A connection. `reports` and `messages` are the history of the reporter: the reports it has sent
and the arguments of its writes. `reset` is a connection the network has given up. -/
structure Link where
  conn : HealthReporterConnection
  pc : ReporterPc
  state : HealthReporterState
  reports : List HealthReport
  messages : List Bytes
  toReporter : Pipe UInt8
  toBalancer : Pipe UInt8
  balancerOpen : Bool
  reset : Bool

namespace Link

/-- Behind `connect`. The reporter sets its key and its vector when it accepts. -/
def new (conn : HealthReporterConnection) (reset : Bool) : Link where
  conn := conn
  pc := .backlog
  state := .lbHandshake
  reports := []
  messages := []
  toReporter := Pipe.empty
  toBalancer := Pipe.empty
  balancerOpen := true
  reset := reset

/-- Nothing more can be delivered to the reporter. -/
def Broken (ℓ : Link) : Prop := ℓ.reset = true ∨ ℓ.pc = .closed

/-- `read` of the reporter, `none` for a failure. It returns no bytes only at the end of the
stream. -/
inductive Read (ℓ : Link) : Option Bytes → Link → Prop
  | fails : Read ℓ none ℓ
  | returns (chunk : Bytes) (h : chunk <+: ℓ.toReporter.inFlight)
      (hLength : chunk.length ≤ BUFFER_SIZE)
      (hEnd : chunk = [] → ℓ.toReporter.inFlight = [] ∧ ℓ.balancerOpen = false) :
      Read ℓ (some chunk) { ℓ with toReporter := ℓ.toReporter.read chunk h }

/-- `write` of the reporter, and whether it succeeded. -/
inductive Write (ℓ : Link) (message : Bytes) : Bool → Link → Prop
  | fails : Write ℓ message false ℓ
  | accepts (accepted : Bytes) (h : accepted <+: message) (hSome : accepted ≠ []) :
      Write ℓ message true
        { ℓ with messages := ℓ.messages ++ [message], toBalancer := ℓ.toBalancer.write accepted }

/-- `recv` of the load balancer, `none` for a result that is not positive. -/
inductive Recv (ℓ : Link) : Option Bytes → Link → Prop
  | fails : Recv ℓ none ℓ
  | returns (chunk : Bytes) (h : chunk <+: ℓ.toBalancer.inFlight)
      (hLength : chunk.length ≤ BUFFER_SIZE) (hSome : chunk ≠ []) :
      Recv ℓ (some chunk) { ℓ with toBalancer := ℓ.toBalancer.read chunk h }

/-- `send` of the load balancer, whose result is not looked at. -/
inductive Send (ℓ : Link) (message : Bytes) : Link → Prop
  | accepts (accepted : Bytes) (h : accepted <+: message) (hSome : accepted ≠ [] ∨ ℓ.Broken) :
      Send ℓ message { ℓ with toReporter := ℓ.toReporter.write accepted }

/-- `close` of the load balancer. -/
def close (ℓ : Link) : Link := { ℓ with balancerOpen := false }

end Link

/-- The steps of the reporter, and of the network. -/
inductive ReporterStep (aes : Cipher) (ℓ : Link) : Link → Prop
  | accepts (h : ℓ.pc = .backlog) (conn : HealthReporterConnection) :
      ReporterStep aes ℓ { ℓ with conn := conn, pc := .readMsg1 }
  | readsMsg1 (h : ℓ.pc = .readMsg1) {received : Option Bytes} {ℓ' : Link}
      (hRead : ℓ.Read received ℓ') {buf reply : Bytes}
      (hAnswer : Reads (HealthReporterConnection.answerHello received) (some (buf, reply))) :
      ReporterStep aes ℓ { ℓ' with pc := .writeMsg2 buf reply }
  | refusesMsg1 (h : ℓ.pc = .readMsg1) {received : Option Bytes} {ℓ' : Link}
      (hRead : ℓ.Read received ℓ')
      (hAnswer : Reads (HealthReporterConnection.answerHello received) none) :
      ReporterStep aes ℓ { ℓ' with pc := .leave }
  | writesMsg2 {buf reply : Bytes} (h : ℓ.pc = .writeMsg2 buf reply) {ℓ' : Link}
      (hWrite : ℓ.Write reply true ℓ') :
      ReporterStep aes ℓ { ℓ' with pc := .readMsg3 buf }
  | failsMsg2 {buf reply : Bytes} (h : ℓ.pc = .writeMsg2 buf reply) {ℓ' : Link}
      (hWrite : ℓ.Write reply false ℓ') :
      ReporterStep aes ℓ { ℓ' with pc := .leave }
  | readsMsg3 {buf : Bytes} (h : ℓ.pc = .readMsg3 buf) {received : Option Bytes} {ℓ' : Link}
      (hRead : ℓ.Read received ℓ') {reply : Bytes}
      (hAnswer : Reads (ℓ.conn.answerAcknowledgement buf received) (some reply)) :
      ReporterStep aes ℓ { ℓ' with pc := .writeMsg4 reply }
  | refusesMsg3 {buf : Bytes} (h : ℓ.pc = .readMsg3 buf) {received : Option Bytes} {ℓ' : Link}
      (hRead : ℓ.Read received ℓ')
      (hAnswer : Reads (ℓ.conn.answerAcknowledgement buf received) none) :
      ReporterStep aes ℓ { ℓ' with pc := .leave }
  | writesMsg4 {reply : Bytes} (h : ℓ.pc = .writeMsg4 reply) {ℓ' : Link}
      (hWrite : ℓ.Write reply true ℓ') :
      ReporterStep aes ℓ { ℓ' with pc := .report, state := .connected }
  | failsMsg4 {reply : Bytes} (h : ℓ.pc = .writeMsg4 reply) {ℓ' : Link}
      (hWrite : ℓ.Write reply false ℓ') :
      ReporterStep aes ℓ { ℓ' with pc := .leave }
  | reports (h : ℓ.pc = .report) {report : HealthReport} {message : Bytes}
      (hMessage : Reads (ℓ.conn.handleConnected aes report) message) {ℓ' : Link}
      (hWrite : ℓ.Write message true ℓ') :
      ReporterStep aes ℓ { ℓ' with pc := .report, reports := ℓ.reports ++ [report] }
  | failsReport (h : ℓ.pc = .report) {report : HealthReport} {message : Bytes}
      (hMessage : Reads (ℓ.conn.handleConnected aes report) message) {ℓ' : Link}
      (hWrite : ℓ.Write message false ℓ') :
      ReporterStep aes ℓ { ℓ' with pc := .leave }
  | closes (h : ℓ.pc = .leave) : ReporterStep aes ℓ { ℓ with pc := .closed }
  | resets : ReporterStep aes ℓ { ℓ with reset := true }

/-! ## What the reporter answers -/

/-- What the first message leaves in the buffer of the reporter. -/
def helloBuffer : Bytes := recvInto zeroBuffer HR_HANDSHAKE_MSG_1

theorem length_helloBuffer : helloBuffer.length = BUFFER_SIZE := by
  rw [helloBuffer, length_recvInto (by rw [length_zeroBuffer]; decide), length_zeroBuffer]

/-- The NUL behind the first message makes no difference. -/
theorem recvInto_hello : recvInto zeroBuffer hello = helloBuffer := by
  rw [helloBuffer, recvInto, recvInto, hello, List.append_assoc]
  rfl

/-- The first message has been read, with its NUL or without. -/
def IsHello (chunk : Bytes) : Prop := chunk = HR_HANDSHAKE_MSG_1 ∨ chunk = hello

/-- The third message has been read, with its NUL or without. -/
def IsAcknowledgement (chunk : Bytes) : Prop :=
  chunk = HR_HANDSHAKE_MSG_3 ∨ chunk = acknowledgement

/-- A part of a message with its NUL that has the whole message. -/
theorem eq_or_eq_of_prefix_concat {chunk message : Bytes} (h : chunk <+: message ++ [0])
    (hMessage : message <+: chunk) : chunk = message ∨ chunk = message ++ [0] := by
  rcases List.prefix_concat_iff.mp h with rfl | hShort
  · exact Or.inr rfl
  · exact Or.inl (hShort.eq_of_length_le hMessage.length_le)

theorem answerHello_eq {chunk : Bytes} (h : chunk.length ≤ BUFFER_SIZE) :
    HealthReporterConnection.answerHello (some chunk) =
      .ok (if HR_HANDSHAKE_MSG_1 ++ [0] <+: recvInto zeroBuffer chunk then
        some (recvInto zeroBuffer chunk, HR_HANDSHAKE_MSG_2) else none) := by
  have hBuffer : HR_HANDSHAKE_MSG_1.length < (recvInto zeroBuffer chunk).length := by
    rw [length_recvInto (by rwa [length_zeroBuffer]), length_zeroBuffer]
    decide
  unfold HealthReporterConnection.answerHello
  dsimp only
  rw [strcmpEq_of_length hBuffer, ok_bind]
  simp only [decide_eq_true_eq]
  split <;> rfl

theorem answerAcknowledgement_eq (conn : HealthReporterConnection) {buf chunk : Bytes}
    (hBuf : buf.length = BUFFER_SIZE) (h : chunk.length ≤ BUFFER_SIZE) :
    conn.answerAcknowledgement buf (some chunk) =
      .ok (if HR_HANDSHAKE_MSG_3 ++ [0] <+: recvInto buf chunk then some conn.ivStr else none) := by
  have hBuffer : HR_HANDSHAKE_MSG_3.length < (recvInto buf chunk).length := by
    rw [length_recvInto (by rwa [hBuf]), hBuf]
    decide
  unfold HealthReporterConnection.answerAcknowledgement
  dsimp only
  rw [strcmpEq_of_length hBuffer, ok_bind]
  simp only [decide_eq_true_eq]
  split <;> rfl

/-- A whole first message is answered. -/
theorem answerHello_hello :
    HealthReporterConnection.answerHello (some hello) =
      .ok (some (helloBuffer, HR_HANDSHAKE_MSG_2)) := by
  rw [answerHello_eq (by decide), recvInto_hello]
  rfl

/-- A whole third message is answered. -/
theorem answerAcknowledgement_acknowledgement (conn : HealthReporterConnection) :
    conn.answerAcknowledgement helloBuffer (some acknowledgement) = .ok (some conn.ivStr) := by
  have hCompare : HR_HANDSHAKE_MSG_3 ++ [0] <+: recvInto helloBuffer acknowledgement :=
    List.prefix_append _ _
  rw [answerAcknowledgement_eq _ length_helloBuffer (by decide), if_pos hCompare]

/-- What the code goes on with, when no read leaves a buffer. -/
theorem eq_of_reads {α : Type} {x a : α} (h : Reads (.ok x) a) : a = x := by
  rcases h with h | h
  · exact (Except.ok.inj h).symm
  · cases h

/-- The first message is answered when all of it has been read. -/
theorem isHello_of_answer {chunk buf reply : Bytes} (h : chunk <+: hello)
    (hAnswer : Reads (HealthReporterConnection.answerHello (some chunk)) (some (buf, reply))) :
    IsHello chunk ∧ buf = helloBuffer ∧ reply = HR_HANDSHAKE_MSG_2 := by
  have hLength : chunk.length ≤ BUFFER_SIZE := h.length_le.trans (by decide)
  rw [answerHello_eq hLength] at hAnswer
  have hEq := eq_of_reads hAnswer
  split at hEq
  · rename_i hCompare
    obtain ⟨rfl, rfl⟩ := Prod.mk.inj (Option.some.inj hEq)
    have hMessage : HR_HANDSHAKE_MSG_1 <+: chunk :=
      (prefix_recvInto (by decide)).mp ((List.prefix_append _ _).trans hCompare)
    have hChunk := eq_or_eq_of_prefix_concat h hMessage
    refine ⟨hChunk, ?_, rfl⟩
    rcases hChunk with rfl | rfl
    · rfl
    · exact recvInto_hello
  · cases hEq

/-- Less than the third message, read over the first one, is not the third message. -/
theorem not_prefix_recvInto_helloBuffer :
    ∀ n < 29, ¬ HR_HANDSHAKE_MSG_3 <+: recvInto helloBuffer (acknowledgement.take n) := by
  decide +kernel

/-- The third message is answered when all of it has been read and nothing else. The NUL of the
first one may still be in flight. -/
theorem isAcknowledgement_of_answer {conn : HealthReporterConnection} {chunk rest reply : Bytes}
    (hRest : rest <+: acknowledgement) (hChunk : chunk <+: rest ∨ chunk <+: 0 :: rest)
    (hAnswer : Reads (conn.answerAcknowledgement helloBuffer (some chunk)) (some reply)) :
    chunk <+: rest ∧ IsAcknowledgement chunk ∧ reply = conn.ivStr := by
  have hLength : chunk.length ≤ BUFFER_SIZE := by
    have hAcknowledgement : acknowledgement.length = 30 := rfl
    have := hRest.length_le
    have hBuffer : BUFFER_SIZE = 1024 := rfl
    rcases hChunk with h | h
    · have := h.length_le
      omega
    · have := h.length_le
      rw [List.length_cons] at this
      omega
  rw [answerAcknowledgement_eq conn length_helloBuffer hLength] at hAnswer
  have hEq := eq_of_reads hAnswer
  split at hEq
  · rename_i hCompare
    have hMessage := (List.prefix_append _ _).trans hCompare
    have hPrefix : chunk <+: rest := by
      refine hChunk.resolve_right ?_
      intro hZero
      cases chunk with
      | nil => exact not_prefix_recvInto_helloBuffer 0 (by decide) hMessage
      | cons c chunk =>
        obtain ⟨rfl, -⟩ := List.cons_prefix_cons.mp hZero
        have hHead : HR_HANDSHAKE_MSG_3 = 51 :: HR_HANDSHAKE_MSG_3.tail := rfl
        rw [hHead, recvInto, List.cons_append, List.cons_prefix_cons] at hMessage
        exact absurd hMessage.1 (by decide)
    have hTake := List.prefix_iff_eq_take.mp (hPrefix.trans hRest)
    refine ⟨hPrefix, ?_, Option.some.inj hEq⟩
    apply eq_or_eq_of_prefix_concat (hPrefix.trans hRest)
    by_cases hShort : chunk.length < 29
    · rw [hTake] at hMessage
      exact absurd hMessage (not_prefix_recvInto_helloBuffer _ hShort)
    · exact List.prefix_of_prefix_length_le (List.prefix_append _ _) (hPrefix.trans hRest)
        (Nat.le_of_not_lt hShort)
  · cases hEq


/-! ## The invariant of a connection -/

namespace Link

/-- The load balancer has accepted the second message. -/
def AcceptedMsg2 (ℓ : Link) : Prop := ∃ rest, ℓ.toBalancer.received = HR_HANDSHAKE_MSG_2 :: rest

/-- What the load balancer has sent: the first message, and the third one behind the second. -/
def Sent (ℓ : Link) : Prop :=
  ∃ a, a <+: hello ∧ (a ≠ [] ∨ ℓ.Broken) ∧
    (ℓ.toReporter.written = [a] ∨
      ∃ b, b <+: acknowledgement ∧ (b ≠ [] ∨ ℓ.Broken) ∧ ℓ.toReporter.written = [a, b] ∧
        ℓ.AcceptedMsg2)

/-- The reporter has read the first message, and nothing else. -/
def ReadHello (ℓ : Link) : Prop :=
  ∃ q, ℓ.toReporter.received = [q] ∧ IsHello q ∧
    ∃ a rest, ℓ.toReporter.written = a :: rest ∧ q <+: a

/-- The reporter has written nothing. -/
structure Silent (ℓ : Link) : Prop where
  state : ℓ.state = .lbHandshake
  written : ℓ.toBalancer.written = []
  messages : ℓ.messages = []
  reports : ℓ.reports = []

/-- The reporter has written the second message, or a part of it. -/
structure Greeted (ℓ : Link) : Prop where
  state : ℓ.state = .lbHandshake
  written : ∃ w, ℓ.toBalancer.written = [w] ∧ w <+: HR_HANDSHAKE_MSG_2 ∧ w ≠ []
  messages : ℓ.messages = [HR_HANDSHAKE_MSG_2]
  reports : ℓ.reports = []

/-- The reporter has read the third message, sent behind its second one. -/
structure Acknowledged (ℓ : Link) : Prop where
  accepted : ℓ.AcceptedMsg2
  read : ∃ q q', ℓ.toReporter.received = [q, q'] ∧ IsHello q ∧ IsAcknowledgement q'

/-- The reporter has completed the handshake. -/
structure Established (aes : Cipher) (ℓ : Link) : Prop where
  state : ℓ.state = .connected
  acknowledged : ℓ.Acknowledged
  messages : ∃ sent, ℓ.messages = HR_HANDSHAKE_MSG_2 :: ℓ.conn.ivStr :: sent ∧
    List.Forall₂ (fun report message => Reads (ℓ.conn.handleConnected aes report) message)
      ℓ.reports sent

/-- What holds at a control point of the reporter. -/
def AtPc (aes : Cipher) (ℓ : Link) : Prop :=
  match ℓ.pc with
  | .backlog | .readMsg1 => ℓ.Silent ∧ ℓ.toReporter.received = []
  | .writeMsg2 buf reply =>
    ℓ.Silent ∧ ℓ.ReadHello ∧ buf = helloBuffer ∧ reply = HR_HANDSHAKE_MSG_2
  | .readMsg3 buf => ℓ.Greeted ∧ ℓ.ReadHello ∧ buf = helloBuffer
  | .writeMsg4 reply => ℓ.Greeted ∧ ℓ.Acknowledged ∧ reply = ℓ.conn.ivStr
  | .report => ℓ.Established aes
  | .leave | .closed => ℓ.Silent ∨ ℓ.Greeted ∨ ℓ.Established aes

structure Inv (aes : Cipher) (ℓ : Link) : Prop where
  sent : ℓ.Sent
  atPc : ℓ.AtPc aes

variable {aes : Cipher} {ℓ ℓ' : Link}

/-- The reporter has written nothing, the second message, or has completed the handshake. -/
theorem Inv.stage (h : ℓ.Inv aes) : ℓ.Silent ∨ ℓ.Greeted ∨ ℓ.Established aes := by
  have hAt := h.atPc
  unfold AtPc at hAt
  split at hAt
  · exact Or.inl hAt.1
  · exact Or.inl hAt.1
  · exact Or.inl hAt.1
  · exact Or.inr (Or.inl hAt.1)
  · exact Or.inr (Or.inl hAt.1)
  · exact Or.inr (Or.inr hAt)
  · exact hAt
  · exact hAt

/-- A reporter that has not completed the handshake has written at most the second message. -/
theorem Inv.handshaking_or_established (h : ℓ.Inv aes) :
    (ℓ.state = .lbHandshake ∧ ℓ.toBalancer.written.flatten <+: HR_HANDSHAKE_MSG_2) ∨
      ℓ.Established aes := by
  rcases h.stage with hSilent | hGreeted | hEstablished
  · refine Or.inl ⟨hSilent.state, ?_⟩
    rw [hSilent.written]
    exact List.nil_prefix
  · obtain ⟨w, hWritten, hPrefix, -⟩ := hGreeted.written
    refine Or.inl ⟨hGreeted.state, ?_⟩
    rwa [hWritten, List.flatten_singleton]
  · exact Or.inr hEstablished

/-- **Bytes behind the second message.** They come from a reporter that has completed the
handshake. -/
theorem Inv.established (h : ℓ.Inv aes) {next : Bytes} {rest : List Bytes}
    (hReceived : ℓ.toBalancer.received = HR_HANDSHAKE_MSG_2 :: next :: rest) (hNext : next ≠ []) :
    ℓ.Established aes := by
  refine h.handshaking_or_established.resolve_left ?_
  rintro ⟨-, hWritten⟩
  have hLength := (ℓ.toBalancer.ordered.trans hWritten).length_le
  rw [hReceived, List.flatten_cons, List.flatten_cons, List.length_append,
    List.length_append] at hLength
  have hPos := List.length_pos_iff.mpr hNext
  omega

/-- A silent reporter has had no message accepted. -/
theorem Silent.not_acceptedMsg2 (h : ℓ.Silent) : ¬ ℓ.AcceptedMsg2 := by
  rintro ⟨rest, hReceived⟩
  have hOrdered := ℓ.toBalancer.ordered
  rw [h.written, hReceived, List.flatten_nil, List.flatten_cons] at hOrdered
  have hNil := List.append_eq_nil_iff.mp (List.prefix_nil.mp hOrdered)
  exact absurd hNil.1 (by decide)

/-! ## Steps of the load balancer -/

/-- `ℓ'` is `ℓ` after steps in which the reporter has written nothing. -/
structure Extends (ℓ ℓ' : Link) : Prop where
  state : ℓ'.state = ℓ.state
  messages : ℓ'.messages = ℓ.messages
  reports : ℓ'.reports = ℓ.reports
  written : ℓ'.toBalancer.written = ℓ.toBalancer.written
  sent : ℓ.toReporter.written <+: ℓ'.toReporter.written
  received : ℓ.toBalancer.received <+: ℓ'.toBalancer.received

/-- Nothing has been written on either side, and the load balancer has read nothing. -/
theorem Extends.of_eq (hState : ℓ'.state = ℓ.state) (hToBalancer : ℓ'.toBalancer = ℓ.toBalancer)
    (hMessages : ℓ'.messages = ℓ.messages) (hReports : ℓ'.reports = ℓ.reports)
    (hSent : ℓ'.toReporter.written = ℓ.toReporter.written) : ℓ.Extends ℓ' where
  state := hState
  messages := hMessages
  reports := hReports
  written := congrArg Pipe.written hToBalancer
  sent := by rw [hSent]
  received := by rw [hToBalancer]

/-- `ℓ'` is `ℓ` after steps of the load balancer. -/
structure Keeps (ℓ ℓ' : Link) : Prop extends Extends ℓ ℓ' where
  conn : ℓ'.conn = ℓ.conn
  pc : ℓ'.pc = ℓ.pc
  read : ℓ'.toReporter.received = ℓ.toReporter.received

theorem AcceptedMsg2.extends (h : ℓ.AcceptedMsg2) (hExtends : ℓ.Extends ℓ') :
    ℓ'.AcceptedMsg2 := by
  obtain ⟨rest, hReceived⟩ := h
  obtain ⟨more, hMore⟩ := hExtends.received
  rw [hReceived, List.cons_append] at hMore
  exact ⟨rest ++ more, hMore.symm⟩

theorem Silent.extends (h : ℓ.Silent) (hExtends : ℓ.Extends ℓ') : ℓ'.Silent where
  state := hExtends.state.trans h.state
  written := hExtends.written.trans h.written
  messages := hExtends.messages.trans h.messages
  reports := hExtends.reports.trans h.reports

theorem Greeted.extends (h : ℓ.Greeted) (hExtends : ℓ.Extends ℓ') : ℓ'.Greeted where
  state := hExtends.state.trans h.state
  written := by
    rw [hExtends.written]
    exact h.written
  messages := hExtends.messages.trans h.messages
  reports := hExtends.reports.trans h.reports

theorem ReadHello.extends (h : ℓ.ReadHello) (hExtends : ℓ.Extends ℓ')
    (hRead : ℓ'.toReporter.received = ℓ.toReporter.received) : ℓ'.ReadHello := by
  obtain ⟨q, hq, hHello, a, rest, hWritten, hPrefix⟩ := h
  obtain ⟨more, hMore⟩ := hExtends.sent
  rw [hWritten, List.cons_append] at hMore
  exact ⟨q, hRead.trans hq, hHello, a, rest ++ more, hMore.symm, hPrefix⟩

theorem Acknowledged.extends (h : ℓ.Acknowledged) (hExtends : ℓ.Extends ℓ')
    (hRead : ℓ'.toReporter.received = ℓ.toReporter.received) : ℓ'.Acknowledged where
  accepted := h.accepted.extends hExtends
  read := by
    rw [hRead]
    exact h.read

theorem Established.extends (h : ℓ.Established aes) (hExtends : ℓ.Extends ℓ')
    (hRead : ℓ'.toReporter.received = ℓ.toReporter.received) (hConn : ℓ'.conn = ℓ.conn) :
    ℓ'.Established aes where
  state := hExtends.state.trans h.state
  acknowledged := h.acknowledged.extends hExtends hRead
  messages := by
    rw [hExtends.messages, hConn, hExtends.reports]
    exact h.messages

/-- What holds of the reporter stays when the load balancer does something. -/
theorem AtPc.keeps (h : ℓ.AtPc aes) (hKeeps : ℓ.Keeps ℓ') : ℓ'.AtPc aes := by
  have hExtends := hKeeps.toExtends
  have hRead := hKeeps.read
  unfold AtPc at h ⊢
  rw [hKeeps.pc]
  split at h
  · exact ⟨h.1.extends hExtends, hRead.trans h.2⟩
  · exact ⟨h.1.extends hExtends, hRead.trans h.2⟩
  · exact ⟨h.1.extends hExtends, h.2.1.extends hExtends hRead, h.2.2⟩
  · exact ⟨h.1.extends hExtends, h.2.1.extends hExtends hRead, h.2.2⟩
  · rw [hKeeps.conn]
    exact ⟨h.1.extends hExtends, h.2.1.extends hExtends hRead, h.2.2⟩
  · exact h.extends hExtends hRead hKeeps.conn
  all_goals
    rcases h with h | h | h
    · exact Or.inl (h.extends hExtends)
    · exact Or.inr (Or.inl (h.extends hExtends))
    · exact Or.inr (Or.inr (h.extends hExtends hRead hKeeps.conn))

theorem Keeps.broken (hKeeps : ℓ.Keeps ℓ') (hReset : ℓ'.reset = ℓ.reset) :
    ℓ'.Broken ↔ ℓ.Broken := by
  rw [Broken, Broken, hReset, hKeeps.pc]

/-- The messages sent do not change when nothing is sent. -/
theorem Sent.of_written (h : ℓ.Sent) (hWritten : ℓ'.toReporter.written = ℓ.toReporter.written)
    (hReceived : ℓ.AcceptedMsg2 → ℓ'.AcceptedMsg2) (hBroken : ℓ.Broken → ℓ'.Broken) : ℓ'.Sent := by
  obtain ⟨a, hHello, hSome, hOne | ⟨b, hAcknowledgement, hSome', hTwo, hAccepted⟩⟩ := h
  · exact ⟨a, hHello, hSome.imp_right hBroken, Or.inl (hWritten.trans hOne)⟩
  · exact ⟨a, hHello, hSome.imp_right hBroken, Or.inr ⟨b, hAcknowledgement,
      hSome'.imp_right hBroken, hWritten.trans hTwo, hReceived hAccepted⟩⟩

theorem Recv.keeps {received : Option Bytes} (h : ℓ.Recv received ℓ') : ℓ.Keeps ℓ' := by
  cases h with
  | fails =>
    exact ⟨.of_eq rfl rfl rfl rfl rfl, rfl, rfl, rfl⟩
  | returns chunk h hLength hSome =>
    exact ⟨⟨rfl, rfl, rfl, rfl, List.prefix_rfl, List.prefix_append _ _⟩, rfl, rfl, rfl⟩

theorem Send.keeps {message : Bytes} (h : ℓ.Send message ℓ') : ℓ.Keeps ℓ' := by
  cases h with
  | accepts accepted h hSome =>
    exact ⟨⟨rfl, rfl, rfl, rfl, List.prefix_append _ _, List.prefix_rfl⟩, rfl, rfl, rfl⟩

theorem close_keeps (ℓ : Link) : ℓ.Keeps ℓ.close :=
  ⟨.of_eq rfl rfl rfl rfl rfl, rfl, rfl, rfl⟩

theorem Recv.frame {received : Option Bytes} (h : ℓ.Recv received ℓ') :
    ℓ'.toReporter = ℓ.toReporter ∧ ℓ'.reset = ℓ.reset ∧ ℓ'.balancerOpen = ℓ.balancerOpen := by
  cases h <;> exact ⟨rfl, rfl, rfl⟩

theorem Recv.received_eq {chunk : Bytes} (h : ℓ.Recv (some chunk) ℓ') :
    ℓ'.toBalancer.received = ℓ.toBalancer.received ++ [chunk] := by
  cases h
  rfl

theorem Recv.inv {received : Option Bytes} (hRecv : ℓ.Recv received ℓ') (h : ℓ.Inv aes) :
    ℓ'.Inv aes where
  sent := by
    obtain ⟨hToReporter, hReset, -⟩ := hRecv.frame
    exact h.sent.of_written (by rw [hToReporter]) (fun h => h.extends hRecv.keeps.toExtends)
      (hRecv.keeps.broken hReset).mpr
  atPc := h.atPc.keeps hRecv.keeps

theorem Inv.close (h : ℓ.Inv aes) : ℓ.close.Inv aes where
  sent := h.sent.of_written rfl id id
  atPc := h.atPc.keeps ℓ.close_keeps

/-- The first message. -/
theorem Send.inv_new {conn : HealthReporterConnection} {reset : Bool}
    (hSend : (new conn reset).Send hello ℓ') : ℓ'.Inv aes := by
  have hSilent : (new conn reset).Silent := ⟨rfl, rfl, rfl, rfl⟩
  have hAt : (new conn reset).AtPc aes := ⟨hSilent, rfl⟩
  refine ⟨?_, hAt.keeps hSend.keeps⟩
  cases hSend with
  | accepts accepted h hSome => exact ⟨accepted, h, hSome, Or.inl rfl⟩

/-- The third message, behind an accepted second one. -/
theorem Send.inv_acknowledgement {a : Bytes} (hSend : ℓ.Send acknowledgement ℓ') (h : ℓ.Inv aes)
    (hWritten : ℓ.toReporter.written = [a]) (hAccepted : ℓ.AcceptedMsg2) : ℓ'.Inv aes := by
  refine ⟨?_, h.atPc.keeps hSend.keeps⟩
  obtain ⟨a', hHello, hSome, hSent⟩ := h.sent
  obtain rfl : a' = a := by
    rcases hSent with hOne | ⟨b, -, -, hTwo, -⟩
    · exact (List.cons.inj (hOne.symm.trans hWritten)).1
    · exact (List.cons.inj (hTwo.symm.trans hWritten)).1
  cases hSend with
  | accepts accepted hPrefix hAny =>
    refine ⟨a', hHello, hSome, Or.inr ⟨accepted, hPrefix, hAny, ?_, hAccepted⟩⟩
    rw [Pipe.written_write, hWritten]
    rfl

/-! ## Steps of the reporter -/

/-- What the reporter reads first is a part of the first message. -/
theorem Silent.prefix_hello (h : ℓ.Silent) (hSent : ℓ.Sent) (hRead : ℓ.toReporter.received = []) :
    ∃ a, ℓ.toReporter.written = [a] ∧ ℓ.toReporter.inFlight = a ∧ a <+: hello := by
  obtain ⟨a, hHello, -, hOne | ⟨b, -, -, -, hAccepted⟩⟩ := hSent
  · have hInFlight := ℓ.toReporter.received_append_inFlight
    rw [hRead, hOne] at hInFlight
    exact ⟨a, hOne, by simpa using hInFlight, hHello⟩
  · exact absurd hAccepted h.not_acceptedMsg2

/-- Behind the first message the third one is in flight, or none, and before it perhaps the NUL of
the first. -/
theorem ReadHello.inFlight (h : ℓ.ReadHello) (hSent : ℓ.Sent) :
    ∃ rest, rest <+: acknowledgement ∧ (rest = [] ∨ ℓ.AcceptedMsg2) ∧
      (ℓ.toReporter.inFlight = rest ∨ ℓ.toReporter.inFlight = 0 :: rest) := by
  obtain ⟨q, hRead, hHello, a, rest, hWritten, hPrefix⟩ := h
  have hInFlight := ℓ.toReporter.received_append_inFlight
  obtain ⟨a', hHello', -, hSent⟩ := hSent
  obtain rfl : a' = a := by
    rcases hSent with hOne | ⟨b, -, -, hTwo, -⟩
    · exact (List.cons.inj (hOne.symm.trans hWritten)).1
    · exact (List.cons.inj (hTwo.symm.trans hWritten)).1
  -- a part of the first message that has all of what was read
  have hFirst : a' = q ∨ a' = q ++ [0] := by
    rcases hHello with rfl | rfl
    · exact eq_or_eq_of_prefix_concat hHello' hPrefix
    · exact Or.inl (hHello'.eq_of_length_le hPrefix.length_le)
  obtain ⟨behind, hBehind, hAcknowledgement, hAccepted⟩ : ∃ behind,
      ℓ.toReporter.written.flatten = a' ++ behind ∧ behind <+: acknowledgement ∧
        (behind = [] ∨ ℓ.AcceptedMsg2) := by
    rcases hSent with hOne | ⟨b, hAcknowledgement, -, hTwo, hAccepted⟩
    · exact ⟨[], by simp [hOne], List.nil_prefix, Or.inl rfl⟩
    · exact ⟨b, by simp [hTwo], hAcknowledgement, Or.inr hAccepted⟩
  rw [hBehind, hRead, List.flatten_singleton] at hInFlight
  refine ⟨behind, hAcknowledgement, hAccepted, ?_⟩
  rcases hFirst with rfl | rfl
  · exact Or.inl (List.append_cancel_left hInFlight)
  · rw [List.append_assoc] at hInFlight
    exact Or.inr (List.append_cancel_left hInFlight)

/-- A first message that is answered has been read whole. -/
theorem Silent.readHello (h : ℓ.Silent) (hSent : ℓ.Sent) (hNone : ℓ.toReporter.received = [])
    {chunk : Bytes} (hChunk : chunk <+: ℓ.toReporter.inFlight) {buf reply : Bytes}
    (hAnswer : Reads (HealthReporterConnection.answerHello (some chunk)) (some (buf, reply))) :
    ReadHello { ℓ with toReporter := ℓ.toReporter.read chunk hChunk } ∧
      buf = helloBuffer ∧ reply = HR_HANDSHAKE_MSG_2 := by
  obtain ⟨a, hOne, hInFlight, hHello⟩ := h.prefix_hello hSent hNone
  have hPart : chunk <+: a := by rwa [hInFlight] at hChunk
  obtain ⟨hIs, hBuf, hReply⟩ := isHello_of_answer (hPart.trans hHello) hAnswer
  refine ⟨⟨chunk, ?_, hIs, a, [], hOne, hPart⟩, hBuf, hReply⟩
  rw [Pipe.received_read, hNone]
  rfl

/-- A third message that is answered has been read whole. -/
theorem ReadHello.acknowledged (h : ℓ.ReadHello) (hSent : ℓ.Sent) {chunk : Bytes}
    (hChunk : chunk <+: ℓ.toReporter.inFlight) {reply : Bytes}
    (hAnswer : Reads (ℓ.conn.answerAcknowledgement helloBuffer (some chunk)) (some reply)) :
    Acknowledged { ℓ with toReporter := ℓ.toReporter.read chunk hChunk } ∧
      reply = ℓ.conn.ivStr := by
  obtain ⟨rest, hRest, hBehind, hInFlight⟩ := h.inFlight hSent
  have hParts : chunk <+: rest ∨ chunk <+: 0 :: rest := by
    rcases hInFlight with hEq | hEq
    · exact Or.inl (hEq ▸ hChunk)
    · exact Or.inr (hEq ▸ hChunk)
  obtain ⟨hPart, hIs, hReply⟩ := isAcknowledgement_of_answer hRest hParts hAnswer
  have hAccepted : ℓ.AcceptedMsg2 := by
    refine hBehind.resolve_left ?_
    rintro rfl
    obtain rfl := List.prefix_nil.mp hPart
    rcases hIs with hIs | hIs <;> exact absurd hIs (by decide)
  obtain ⟨q, hq, hIsHello, -⟩ := h
  refine ⟨⟨hAccepted, q, chunk, ?_, hIsHello, hIs⟩, hReply⟩
  rw [Pipe.received_read, hq]
  rfl

/-- A failed `read` is not answered. -/
theorem Read.returns_of_some {α : Type} {received : Option Bytes} {a : α}
    (hRead : ℓ.Read received ℓ') (f : Option Bytes → Result (Option α)) (hNone : f none = .ok none)
    (hAnswer : Reads (f received) (some a)) :
    ∃ chunk, ∃ h : chunk <+: ℓ.toReporter.inFlight,
      received = some chunk ∧ ℓ' = { ℓ with toReporter := ℓ.toReporter.read chunk h } := by
  cases hRead with
  | fails =>
    rw [hNone] at hAnswer
    cases eq_of_reads hAnswer
  | returns chunk h hLength hEnd => exact ⟨chunk, h, rfl, rfl⟩

end Link

section ReporterStep

variable {aes : Cipher} {ℓ ℓ' : Link}

/-- A step of the reporter sends nothing to it and receives nothing from it. -/
theorem ReporterStep.frame (hStep : ReporterStep aes ℓ ℓ') :
    ℓ'.toReporter.written = ℓ.toReporter.written ∧
      ℓ'.toBalancer.received = ℓ.toBalancer.received ∧ (ℓ.Broken → ℓ'.Broken) ∧
      ℓ'.balancerOpen = ℓ.balancerOpen := by
  have hMoves {ℓ₁ : Link} {pc : ReporterPc} (hPc : ℓ.pc = pc) (hOpen : pc ≠ .closed)
      (hReset : ℓ₁.reset = ℓ.reset) : ℓ.Broken → ℓ₁.Broken := by
    intro hBroken
    refine Or.inl (hReset.trans (hBroken.resolve_right ?_))
    rwa [hPc]
  cases hStep with
  | accepts hPc conn => exact ⟨rfl, rfl, hMoves hPc nofun rfl, rfl⟩
  | readsMsg1 hPc hRead hAnswer | refusesMsg1 hPc hRead hAnswer | readsMsg3 hPc hRead hAnswer
  | refusesMsg3 hPc hRead hAnswer =>
    cases hRead <;> exact ⟨rfl, rfl, hMoves hPc nofun rfl, rfl⟩
  | writesMsg2 hPc hWrite | failsMsg2 hPc hWrite | writesMsg4 hPc hWrite | failsMsg4 hPc hWrite =>
    cases hWrite
    exact ⟨rfl, rfl, hMoves hPc nofun rfl, rfl⟩
  | reports hPc hMessage hWrite | failsReport hPc hMessage hWrite =>
    cases hWrite
    exact ⟨rfl, rfl, hMoves hPc nofun rfl, rfl⟩
  | closes hPc => exact ⟨rfl, rfl, fun _ => Or.inr rfl, rfl⟩
  | resets => exact ⟨rfl, rfl, fun _ => Or.inl rfl, rfl⟩

/-- **One step of the reporter.** -/
theorem ReporterStep.inv (hStep : ReporterStep aes ℓ ℓ') (h : ℓ.Inv aes) : ℓ'.Inv aes := by
  obtain ⟨hWritten, hReceived, hBroken, -⟩ := hStep.frame
  have hAccepted : ℓ.AcceptedMsg2 → ℓ'.AcceptedMsg2 := by
    rintro ⟨rest, hRest⟩
    exact ⟨rest, hReceived.trans hRest⟩
  refine ⟨h.sent.of_written hWritten hAccepted hBroken, ?_⟩
  have hAt := h.atPc
  unfold Link.AtPc at hAt
  cases hStep with
  | accepts hPc conn =>
    rw [hPc] at hAt
    exact ⟨hAt.1.extends (.of_eq rfl rfl rfl rfl rfl), hAt.2⟩
  | readsMsg1 hPc hRead hAnswer =>
    rw [hPc] at hAt
    obtain ⟨hSilent, hNone⟩ := hAt
    obtain ⟨chunk, hChunk, rfl, rfl⟩ :=
      hRead.returns_of_some HealthReporterConnection.answerHello rfl hAnswer
    obtain ⟨hHello, rfl, rfl⟩ := hSilent.readHello h.sent hNone hChunk hAnswer
    exact ⟨hSilent.extends (.of_eq rfl rfl rfl rfl rfl), hHello, rfl, rfl⟩
  | refusesMsg1 hPc hRead hAnswer =>
    rw [hPc] at hAt
    cases hRead
    all_goals
      exact Or.inl (hAt.1.extends (.of_eq rfl rfl rfl rfl rfl))
  | writesMsg2 hPc hWrite =>
    rw [hPc] at hAt
    obtain ⟨hSilent, hHello, rfl, rfl⟩ := hAt
    cases hWrite with
    | accepts accepted hPrefix hSome =>
      refine ⟨⟨hSilent.state, ⟨accepted, ?_, hPrefix, hSome⟩, ?_, hSilent.reports⟩, hHello, rfl⟩
      · rw [Pipe.written_write, hSilent.written]
        rfl
      · rw [hSilent.messages]
        rfl
  | failsMsg2 hPc hWrite =>
    rw [hPc] at hAt
    cases hWrite
    exact Or.inl (hAt.1.extends (.of_eq rfl rfl rfl rfl rfl))
  | readsMsg3 hPc hRead hAnswer =>
    rw [hPc] at hAt
    obtain ⟨hGreeted, hHello, rfl⟩ := hAt
    obtain ⟨chunk, hChunk, rfl, rfl⟩ :=
      hRead.returns_of_some (ℓ.conn.answerAcknowledgement helloBuffer) rfl hAnswer
    obtain ⟨hAcknowledged, rfl⟩ := hHello.acknowledged h.sent hChunk hAnswer
    exact ⟨hGreeted.extends (.of_eq rfl rfl rfl rfl rfl),
      ⟨hAcknowledged.accepted, hAcknowledged.read⟩, rfl⟩
  | refusesMsg3 hPc hRead hAnswer =>
    rw [hPc] at hAt
    cases hRead
    all_goals
      exact Or.inr (Or.inl
        (hAt.1.extends (.of_eq rfl rfl rfl rfl rfl)))
  | writesMsg4 hPc hWrite =>
    rw [hPc] at hAt
    obtain ⟨hGreeted, hAcknowledged, rfl⟩ := hAt
    cases hWrite with
    | accepts accepted hPrefix hSome =>
      refine ⟨rfl, ⟨hAcknowledged.accepted, hAcknowledged.read⟩, [], ?_, ?_⟩
      · rw [hGreeted.messages]
        rfl
      · rw [hGreeted.reports]
        exact .nil
  | failsMsg4 hPc hWrite =>
    rw [hPc] at hAt
    cases hWrite
    exact Or.inr (Or.inl (hAt.1.extends (.of_eq rfl rfl rfl rfl rfl)))
  | @reports hPc report message hMessage _ hWrite =>
    rw [hPc] at hAt
    obtain ⟨hState, hAcknowledged, sent, hMessages, hSent⟩ := hAt
    cases hWrite with
    | accepts accepted hPrefix hSome =>
      refine ⟨hState, ⟨hAcknowledged.accepted, hAcknowledged.read⟩, sent ++ [message], ?_,
        List.rel_append hSent (.cons hMessage .nil)⟩
      rw [hMessages]
      rfl
  | failsReport hPc hMessage hWrite =>
    rw [hPc] at hAt
    cases hWrite
    exact Or.inr (Or.inr
      (hAt.extends (.of_eq rfl rfl rfl rfl rfl) rfl rfl))
  | closes hPc =>
    rw [hPc] at hAt
    rcases hAt with hAt | hAt | hAt
    · exact Or.inl (hAt.extends (.of_eq rfl rfl rfl rfl rfl))
    · exact Or.inr (Or.inl (hAt.extends (.of_eq rfl rfl rfl rfl rfl)))
    · exact Or.inr (Or.inr
        (hAt.extends (.of_eq rfl rfl rfl rfl rfl) rfl rfl))
  | resets =>
    exact h.atPc.keeps ⟨.of_eq rfl rfl rfl rfl rfl, rfl, rfl, rfl⟩

end ReporterStep

end Balancer
